import CfxEvm.Execution.Proofs.GasConservationProofs
import CfxEvm.Frame.Proofs.StaticProofs
import CfxEvm.InternalContract.Proofs.ConservationProofs
import CfxEvm.State.Proofs.PersistProofs
import CfxEvm.Execution.Proofs.ReplayProofs
import CfxEvm.Execution.Proofs.OccupiedProofs
import CfxEvm.Evm.Proofs.FlowProofs
import CfxEvm.Evm.Proofs.PanicProofs
import CfxEvm.Evm.Proofs.QueryProofs
import CfxEvm.Execution.Proofs.EstimateProofs
import CfxEvm.Evm.Proofs.WidthProofs
import CfxEvm.State.Proofs.EncodingProofs
import CfxEvm.Abi.Proofs.RoundTripProofs
import CfxEvm.Execution.Proofs.CallTreeProofs
import CfxEvm.Execution.Proofs.TraceMarkProofs
import CfxEvm.Execution.Proofs.TokenConservationProofs
import CfxEvm.Execution.Proofs.FailureProofs
import CfxEvm.Evm.Proofs.CopyProofs
import CfxEvm.Observer.Proofs.UnwindProofs
import CfxEvm.Execution.Proofs.SettlementProofs
import CfxEvm.Evm.Proofs.OperandProofs
import CfxEvm.Evm.Proofs.ExpansionProofs
import CfxEvm.Execution.Proofs.OwnJumpProofs
import CfxEvm.Execution.Proofs.RevertReasonProofs
import CfxEvm.Builtin.Proofs.ModexpProofs
import CfxEvm.Primitives.Proofs.LogFilterProofs
import CfxEvm.Primitives.Proofs.BlockHeaderProofs
import CfxEvm.Primitives.Proofs.TransactionProofs
import CfxEvm.Observer.Proofs.TraceRlpProofs
import CfxEvm.Primitives.Proofs.ChainIdProofs
import CfxEvm.Execution.Proofs.HashOrderProofs
import CfxEvm.State.Proofs.CallStackProofs
import CfxEvm.Evm.Proofs.MemoryCacheProofs
import CfxEvm.Abi.Proofs.ReadingProofs
import CfxEvm.Execution.Proofs.SecureRunProofs
import CfxEvm.Execution.Proofs.ReplicaRunProofs
import CfxEvm.Execution.Proofs.SolventRunProofs
import CfxEvm.Execution.Proofs.SurvivalProofs
