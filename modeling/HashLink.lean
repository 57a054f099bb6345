import HashLink.Code.Instruction
import HashLink.Code.Op
import HashLink.Code.OpText
import HashLink.Code.Opcode
import HashLink.Code.Position
import HashLink.CommandLine.Arguments
import HashLink.CommandLine.Run
import HashLink.Graph.Basic
import HashLink.Graph.Error
import HashLink.Graph.Flatten
import HashLink.Graph.Resolve
import HashLink.Graph.ValuePools
import HashLink.Location
import HashLink.Main
import HashLink.Module.Basic
import HashLink.Module.Edit
import HashLink.Module.Error
import HashLink.Module.Verify
import HashLink.Module.Wire
import HashLink.Patch.Basic
import HashLink.Patch.InfiniteJumps
import HashLink.Patch.Library
import HashLink.Patch.Runner
import HashLink.Storage.FileTree
import HashLink.Storage.Path
import HashLink.Strategy
import HashLink.Text.Plain
import HashLink.Text.Quoted
import HashLink.Text.Shortest
import HashLink.TypeDef.Basic
import HashLink.TypeDef.Wire
import HashLink.Wire.Emission
import HashLink.Wire.Error
import HashLink.Wire.Pool
import HashLink.Wire.Reader
import HashLink.Wire.Scalar
import HashLink.Wire.Varint
import HashLink.Proofs.Traversal
import HashLink.Proofs.Wire.Emission
import HashLink.Proofs.Wire.RoundTrip
import HashLink.Proofs.Code.PositionStream
import HashLink.Proofs.Code.InstructionWire
import HashLink.Proofs.Module.RoundTrip
import HashLink.Proofs.Graph.FunctionTable
import HashLink.Proofs.Graph.Inheritance
import HashLink.Proofs.Graph.Naming
import HashLink.Proofs.Graph.Pools
import HashLink.Proofs.Graph.References
import HashLink.Proofs.Graph.Restore
import HashLink.Proofs.Graph.Stages
import HashLink.Proofs.Wire.Writable
import HashLink.Proofs.Graph.Resolved
import HashLink.Proofs.Module.Writable
import HashLink.Proofs.Graph.Reflatten
import HashLink.Proofs.Pipeline
import HashLink.Proofs.Graph.Verified
import HashLink.Proofs.Graph.PoolContents
import HashLink.Proofs.Graph.Closed
import HashLink.Proofs.Graph.Confined
import HashLink.Proofs.Code.PositionLimits
import HashLink.Proofs.Module.Resave
import HashLink.Proofs.SharedWork
import HashLink.Proofs.Patch.Rollback
import HashLink.Proofs.Graph.SingleEdit
import HashLink.Proofs.Graph.Recode
import HashLink.Proofs.Patch.InfiniteJumps
import HashLink.Proofs.CommandLine.Outputs
import HashLink.Proofs.Wire.Truncation
import HashLink.Proofs.Module.Truncation
import HashLink.Proofs.Code.PositionFaults
import HashLink.Proofs.Code.InstructionCodec
import HashLink.Proofs.Graph.OperandCount
import HashLink.Proofs.Graph.Translation
import HashLink.Proofs.Module.Growth
import HashLink.Proofs.Patch.Lockstep
import HashLink.Proofs.Graph.Ancestors
import HashLink.Proofs.Graph.MethodNames
import HashLink.Proofs.Graph.IndexSpace
import HashLink.Proofs.Module.SpareEntries
import HashLink.Proofs.Module.EditHistory
import HashLink.Proofs.Wire.VarintCodec
import HashLink.Proofs.Wire.PoolCuts
import HashLink.Proofs.Code.PositionDecoding
