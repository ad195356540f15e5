import CfxEvm.Types.Basic

/-!
# Instructions

The byte codes and the table of their stack effect and price tier. The four families
`PUSH1`..`PUSH32`, `DUP1`..`DUP16`, `SWAP1`..`SWAP16` and `LOG0`..`LOG4` are constructors with an
index: `PUSH i` is `PUSH(i + 1)`, `DUP i` is `DUP(i + 1)`, `SWAP i` is `SWAP(i + 1)` and `LOG i` is
`LOG i`.
-/

namespace CfxEvm

/-- Virtual machine bytecode instruction. -/
inductive Instruction
  | STOP | ADD | MUL | SUB | DIV | SDIV | MOD | SMOD | ADDMOD | MULMOD | EXP | SIGNEXTEND | LT
  | GT | SLT | SGT | EQ | ISZERO | AND | OR | XOR | NOT | BYTE | SHL | SHR | SAR | SHA3 | ADDRESS
  | BALANCE | ORIGIN | CALLER | CALLVALUE | CALLDATALOAD | CALLDATASIZE | CALLDATACOPY | CODESIZE
  | CODECOPY | GASPRICE | EXTCODESIZE | EXTCODECOPY | RETURNDATASIZE | RETURNDATACOPY
  | EXTCODEHASH | BLOCKHASH | COINBASE | TIMESTAMP | NUMBER | DIFFICULTY | GASLIMIT | CHAINID
  | SELFBALANCE | POP | MLOAD | MSTORE | MSTORE8 | SLOAD | SSTORE | JUMP | JUMPI | PC | MSIZE
  | GAS | JUMPDEST | BEGINSUB | RETURNSUB | JUMPSUB | PUSH (i : Fin 32) | DUP (i : Fin 16)
  | SWAP (i : Fin 16) | LOG (i : Fin 5) | CREATE | CALL | CALLCODE | RETURN | DELEGATECALL
  | CREATE2 | REVERT | STATICCALL | SUICIDE
  deriving DecidableEq, Repr

inductive GasPriceTier
  | Zero | Base | VeryLow | Low | Mid | High | Ext | Special
  deriving DecidableEq, Repr

/-- The index in the schedule of the tier. -/
def GasPriceTier.idx : GasPriceTier → Nat
  | .Zero => 0
  | .Base => 1
  | .VeryLow => 2
  | .Low => 3
  | .Mid => 4
  | .High => 5
  | .Ext => 6
  | .Special => 7

/-- Instruction details: name, stack arguments, returned stack items and price tier. -/
structure InstructionInfo where
  name : String
  args : Nat
  ret : Nat
  tier : GasPriceTier

namespace Instruction

/-- The instructions that are not in a family, by their code. -/
def single_from_u8 : Nat → Option Instruction
  | 0x00 => some STOP
  | 0x01 => some ADD
  | 0x02 => some MUL
  | 0x03 => some SUB
  | 0x04 => some DIV
  | 0x05 => some SDIV
  | 0x06 => some MOD
  | 0x07 => some SMOD
  | 0x08 => some ADDMOD
  | 0x09 => some MULMOD
  | 0x0a => some EXP
  | 0x0b => some SIGNEXTEND
  | 0x10 => some LT
  | 0x11 => some GT
  | 0x12 => some SLT
  | 0x13 => some SGT
  | 0x14 => some EQ
  | 0x15 => some ISZERO
  | 0x16 => some AND
  | 0x17 => some OR
  | 0x18 => some XOR
  | 0x19 => some NOT
  | 0x1a => some BYTE
  | 0x1b => some SHL
  | 0x1c => some SHR
  | 0x1d => some SAR
  | 0x20 => some SHA3
  | 0x30 => some ADDRESS
  | 0x31 => some BALANCE
  | 0x32 => some ORIGIN
  | 0x33 => some CALLER
  | 0x34 => some CALLVALUE
  | 0x35 => some CALLDATALOAD
  | 0x36 => some CALLDATASIZE
  | 0x37 => some CALLDATACOPY
  | 0x38 => some CODESIZE
  | 0x39 => some CODECOPY
  | 0x3a => some GASPRICE
  | 0x3b => some EXTCODESIZE
  | 0x3c => some EXTCODECOPY
  | 0x3d => some RETURNDATASIZE
  | 0x3e => some RETURNDATACOPY
  | 0x3f => some EXTCODEHASH
  | 0x40 => some BLOCKHASH
  | 0x41 => some COINBASE
  | 0x42 => some TIMESTAMP
  | 0x43 => some NUMBER
  | 0x44 => some DIFFICULTY
  | 0x45 => some GASLIMIT
  | 0x46 => some CHAINID
  | 0x47 => some SELFBALANCE
  | 0x50 => some POP
  | 0x51 => some MLOAD
  | 0x52 => some MSTORE
  | 0x53 => some MSTORE8
  | 0x54 => some SLOAD
  | 0x55 => some SSTORE
  | 0x56 => some JUMP
  | 0x57 => some JUMPI
  | 0x58 => some PC
  | 0x59 => some MSIZE
  | 0x5a => some GAS
  | 0x5b => some JUMPDEST
  | 0x5c => some BEGINSUB
  | 0x5d => some RETURNSUB
  | 0x5e => some JUMPSUB
  | 0xf0 => some CREATE
  | 0xf1 => some CALL
  | 0xf2 => some CALLCODE
  | 0xf3 => some RETURN
  | 0xf4 => some DELEGATECALL
  | 0xf5 => some CREATE2
  | 0xfd => some REVERT
  | 0xfa => some STATICCALL
  | 0xff => some SUICIDE
  | _ => none

/-- Convert from the byte to the instruction. -/
def from_u8 (value : UInt8) : Option Instruction :=
  let n := value.toNat
  if 0x60 ≤ n ∧ n ≤ 0x7f then some (PUSH (Fin.ofNat 32 (n - 0x60)))
  else if 0x80 ≤ n ∧ n ≤ 0x8f then some (DUP (Fin.ofNat 16 (n - 0x80)))
  else if 0x90 ≤ n ∧ n ≤ 0x9f then some (SWAP (Fin.ofNat 16 (n - 0x90)))
  else if 0xa0 ≤ n ∧ n ≤ 0xa4 then some (LOG (Fin.ofNat 5 (n - 0xa0)))
  else single_from_u8 n

/-- Number of bytes to read for a `PUSH`. -/
def push_bytes : Instruction → Option Nat
  | PUSH i => some (i + 1)
  | _ => none

/-- The details of the instruction. -/
def info : Instruction → InstructionInfo
  | STOP => ⟨"STOP", 0, 0, .Zero⟩
  | ADD => ⟨"ADD", 2, 1, .VeryLow⟩
  | MUL => ⟨"MUL", 2, 1, .Low⟩
  | SUB => ⟨"SUB", 2, 1, .VeryLow⟩
  | DIV => ⟨"DIV", 2, 1, .Low⟩
  | SDIV => ⟨"SDIV", 2, 1, .Low⟩
  | MOD => ⟨"MOD", 2, 1, .Low⟩
  | SMOD => ⟨"SMOD", 2, 1, .Low⟩
  | ADDMOD => ⟨"ADDMOD", 3, 1, .Mid⟩
  | MULMOD => ⟨"MULMOD", 3, 1, .Mid⟩
  | EXP => ⟨"EXP", 2, 1, .Special⟩
  | SIGNEXTEND => ⟨"SIGNEXTEND", 2, 1, .Low⟩
  | LT => ⟨"LT", 2, 1, .VeryLow⟩
  | GT => ⟨"GT", 2, 1, .VeryLow⟩
  | SLT => ⟨"SLT", 2, 1, .VeryLow⟩
  | SGT => ⟨"SGT", 2, 1, .VeryLow⟩
  | EQ => ⟨"EQ", 2, 1, .VeryLow⟩
  | ISZERO => ⟨"ISZERO", 1, 1, .VeryLow⟩
  | AND => ⟨"AND", 2, 1, .VeryLow⟩
  | OR => ⟨"OR", 2, 1, .VeryLow⟩
  | XOR => ⟨"XOR", 2, 1, .VeryLow⟩
  | NOT => ⟨"NOT", 1, 1, .VeryLow⟩
  | BYTE => ⟨"BYTE", 2, 1, .VeryLow⟩
  | SHL => ⟨"SHL", 2, 1, .VeryLow⟩
  | SHR => ⟨"SHR", 2, 1, .VeryLow⟩
  | SAR => ⟨"SAR", 2, 1, .VeryLow⟩
  | SHA3 => ⟨"SHA3", 2, 1, .Special⟩
  | ADDRESS => ⟨"ADDRESS", 0, 1, .Base⟩
  | BALANCE => ⟨"BALANCE", 1, 1, .Special⟩
  | ORIGIN => ⟨"ORIGIN", 0, 1, .Base⟩
  | CALLER => ⟨"CALLER", 0, 1, .Base⟩
  | CALLVALUE => ⟨"CALLVALUE", 0, 1, .Base⟩
  | CALLDATALOAD => ⟨"CALLDATALOAD", 1, 1, .VeryLow⟩
  | CALLDATASIZE => ⟨"CALLDATASIZE", 0, 1, .Base⟩
  | CALLDATACOPY => ⟨"CALLDATACOPY", 3, 0, .VeryLow⟩
  | CODESIZE => ⟨"CODESIZE", 0, 1, .Base⟩
  | CODECOPY => ⟨"CODECOPY", 3, 0, .VeryLow⟩
  | GASPRICE => ⟨"GASPRICE", 0, 1, .Base⟩
  | EXTCODESIZE => ⟨"EXTCODESIZE", 1, 1, .Special⟩
  | EXTCODECOPY => ⟨"EXTCODECOPY", 4, 0, .Special⟩
  | RETURNDATASIZE => ⟨"RETURNDATASIZE", 0, 1, .Base⟩
  | RETURNDATACOPY => ⟨"RETURNDATACOPY", 3, 0, .VeryLow⟩
  | EXTCODEHASH => ⟨"EXTCODEHASH", 1, 1, .Special⟩
  | BLOCKHASH => ⟨"BLOCKHASH", 1, 1, .Ext⟩
  | COINBASE => ⟨"COINBASE", 0, 1, .Base⟩
  | TIMESTAMP => ⟨"TIMESTAMP", 0, 1, .Base⟩
  | NUMBER => ⟨"NUMBER", 0, 1, .Base⟩
  | DIFFICULTY => ⟨"DIFFICULTY", 0, 1, .Base⟩
  | GASLIMIT => ⟨"GASLIMIT", 0, 1, .Base⟩
  | CHAINID => ⟨"CHAINID", 0, 1, .Base⟩
  | SELFBALANCE => ⟨"SELFBALANCE", 0, 1, .Low⟩
  | POP => ⟨"POP", 1, 0, .Base⟩
  | MLOAD => ⟨"MLOAD", 1, 1, .VeryLow⟩
  | MSTORE => ⟨"MSTORE", 2, 0, .VeryLow⟩
  | MSTORE8 => ⟨"MSTORE8", 2, 0, .VeryLow⟩
  | SLOAD => ⟨"SLOAD", 1, 1, .Special⟩
  | SSTORE => ⟨"SSTORE", 2, 0, .Special⟩
  | JUMP => ⟨"JUMP", 1, 0, .Mid⟩
  | JUMPI => ⟨"JUMPI", 2, 0, .High⟩
  | PC => ⟨"PC", 0, 1, .Base⟩
  | MSIZE => ⟨"MSIZE", 0, 1, .Base⟩
  | GAS => ⟨"GAS", 0, 1, .Base⟩
  | JUMPDEST => ⟨"JUMPDEST", 0, 0, .Special⟩
  | BEGINSUB => ⟨"BEGINSUB", 0, 0, .Base⟩
  | RETURNSUB => ⟨"RETURNSUB", 0, 0, .Low⟩
  | JUMPSUB => ⟨"JUMPSUB", 1, 0, .High⟩
  | PUSH i => ⟨"PUSH" ++ toString (i.val + 1), 0, 1, .VeryLow⟩
  | DUP i => ⟨"DUP" ++ toString (i.val + 1), i + 1, i + 2, .VeryLow⟩
  | SWAP i => ⟨"SWAP" ++ toString (i.val + 1), i + 2, i + 2, .VeryLow⟩
  | LOG i => ⟨"LOG" ++ toString i.val, i + 2, 0, .Special⟩
  | CREATE => ⟨"CREATE", 3, 1, .Special⟩
  | CALL => ⟨"CALL", 7, 1, .Special⟩
  | CALLCODE => ⟨"CALLCODE", 7, 1, .Special⟩
  | RETURN => ⟨"RETURN", 2, 0, .Zero⟩
  | DELEGATECALL => ⟨"DELEGATECALL", 6, 1, .Special⟩
  | CREATE2 => ⟨"CREATE2", 4, 1, .Special⟩
  | REVERT => ⟨"REVERT", 2, 0, .Zero⟩
  | STATICCALL => ⟨"STATICCALL", 6, 1, .Special⟩
  | SUICIDE => ⟨"SUICIDE", 1, 0, .Special⟩

end Instruction

end CfxEvm
