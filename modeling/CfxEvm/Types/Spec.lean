import CfxEvm.Types.Basic

/-!
# Cost parameters and environment

`Spec` holds the prices and limits of the virtual machine and the switches of the protocol
upgrades. Only the fields that the program reads are here. The constants are those of
`genesis_spec`; the upgrades active at a block only set switches.
-/

open Lib

namespace CfxEvm

/-- Dust accounts cleanup mode. -/
inductive CleanDustMode
  | Off
  | BasicOnly
  | WithCodeAndStorage
  deriving DecidableEq, Repr

/-- Prices, limits and switches of the virtual machine. -/
structure Spec where
  exceptional_failed_code_deposit : Bool
  stack_limit : Nat
  max_depth : Nat
  /-- Prices of the eight tiers of instructions. -/
  tier_step_gas : List Nat
  exp_gas : Nat
  exp_byte_gas : Nat
  sha3_gas : Nat
  sha3_word_gas : Nat
  sload_gas : Nat
  sstore_set_gas : Nat
  sstore_reset_gas : Nat
  log_gas : Nat
  log_data_gas : Nat
  log_topic_gas : Nat
  create_gas : Nat
  call_gas : Nat
  call_stipend : Nat
  call_value_transfer_gas : Nat
  call_new_account_gas : Nat
  memory_gas : Nat
  quad_coeff_div : Nat
  create_data_gas : Nat
  create_data_limit : Nat
  tx_gas : Nat
  tx_create_gas : Nat
  tx_data_zero_gas : Nat
  tx_data_non_zero_gas : Nat
  copy_gas : Nat
  extcodesize_gas : Nat
  extcodecopy_base_gas : Nat
  balance_gas : Nat
  extcodehash_gas : Nat
  suicide_gas : Nat
  eip1820_gas : Nat
  suicide_to_new_account_cost : Nat
  sub_gas_cap_divisor : Option Nat
  no_empty : Bool
  kill_empty : Bool
  blockhash_gas : Nat
  kill_dust : CleanDustMode
  keep_unsigned_nonce : Bool
  contract_start_nonce : U256
  account_start_nonce : U256
  evm_gas_ratio : Nat
  /-- Get the epoch number through an internal contract. -/
  cip64 : Bool
  /-- Cross-space calls. -/
  cip90 : Bool
  /-- The system storage contract. -/
  cip94 : Bool
  /-- `BLOCKHASH` counts epochs. -/
  cip98 : Bool
  deriving DecidableEq, Repr

/-- The block numbers at which the upgrades become active. -/
structure TransitionsBlockNumber where
  cip62 : Nat
  cip64 : Nat
  cip90b : Nat
  cip92 : Nat
  cip94 : Nat
  cip98 : Nat
  deriving DecidableEq, Repr

namespace Spec

/-- The spec when the main net launched. -/
def genesis_spec : Spec where
  exceptional_failed_code_deposit := true
  stack_limit := 1024
  max_depth := 1024
  tier_step_gas := [0, 2, 3, 5, 8, 10, 20, 0]
  exp_gas := 10
  exp_byte_gas := 50
  sha3_gas := 30
  sha3_word_gas := 6
  sload_gas := 200
  sstore_set_gas := 20000
  sstore_reset_gas := 5000
  log_gas := 375
  log_data_gas := 8
  log_topic_gas := 375
  create_gas := 32000
  call_gas := 700
  call_stipend := 2300
  call_value_transfer_gas := 9000
  call_new_account_gas := 25000
  memory_gas := 3
  quad_coeff_div := 512
  create_data_gas := 200
  create_data_limit := 49152
  tx_gas := 21000
  tx_create_gas := 53000
  tx_data_zero_gas := 4
  tx_data_non_zero_gas := 68
  copy_gas := 3
  extcodesize_gas := 700
  extcodecopy_base_gas := 700
  extcodehash_gas := 400
  balance_gas := 400
  suicide_gas := 5000
  eip1820_gas := 1500000
  suicide_to_new_account_cost := 25000
  sub_gas_cap_divisor := some 64
  no_empty := true
  kill_empty := true
  blockhash_gas := 20
  contract_start_nonce := 1
  account_start_nonce := 0
  kill_dust := .Off
  keep_unsigned_nonce := false
  evm_gas_ratio := 2
  cip64 := false
  cip90 := false
  cip94 := false
  cip98 := false

/-- The spec at a block: the genesis constants with the switches of the active upgrades. -/
def new_spec_from_common_params (transition_numbers : TransitionsBlockNumber) (number : Nat) :
    Spec :=
  { genesis_spec with
    cip64 := number ≥ transition_numbers.cip64
    cip90 := number ≥ transition_numbers.cip90b
    cip94 := number ≥ transition_numbers.cip94
    cip98 := number ≥ transition_numbers.cip98 }

/-- The spec has the constants of `genesis_spec`, whichever upgrades are active. -/
def GenesisConstants (spec : Spec) : Prop :=
  spec = { genesis_spec with
    cip64 := spec.cip64, cip90 := spec.cip90, cip94 := spec.cip94, cip98 := spec.cip98 }

instance (spec : Spec) : Decidable spec.GenesisConstants :=
  inferInstanceAs (Decidable (spec = _))

theorem genesisConstants_new (transition_numbers : TransitionsBlockNumber) (number : Nat) :
    (new_spec_from_common_params transition_numbers number).GenesisConstants := rfl

end Spec

/-- The gas of a transaction before it runs, as a `u64`; none when the sum overflows. -/
def gas_required_for (is_create : Bool) (data : Bytes) (spec : Spec) : Option Nat :=
  let base := if is_create then spec.tx_create_gas else spec.tx_gas
  let gas := data.foldl
    (fun g b => g + if b = 0 then spec.tx_data_zero_gas else spec.tx_data_non_zero_gas) base
  if gas < 2 ^ 64 then some gas else none

/-- The block in which a transaction runs. -/
structure Env where
  number : UInt64
  author : Address
  timestamp : UInt64
  difficulty : U256
  gas_limit : U256
  last_hash : H256
  epoch_height : UInt64
  deriving DecidableEq, Repr

end CfxEvm
