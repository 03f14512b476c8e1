import VectorMachine.Assembly.Assemble
import VectorMachine.Assembly.Error
import VectorMachine.Assembly.Source
import VectorMachine.Assembly.Token
import VectorMachine.Batch.Basic
import VectorMachine.Cbor.Item
import VectorMachine.Cbor.Read
import VectorMachine.Cbor.Write
import VectorMachine.Command.Basic
import VectorMachine.Command.Execute
import VectorMachine.Command.Flags
import VectorMachine.Command.Run
import VectorMachine.Container.Basic
import VectorMachine.Container.Body
import VectorMachine.Csv.Read
import VectorMachine.Csv.Table
import VectorMachine.Csv.Write
import VectorMachine.Files.Basic
import VectorMachine.Files.Disk
import VectorMachine.Files.Path
import VectorMachine.Frame.Basic
import VectorMachine.Frame.Calendar
import VectorMachine.Frame.Lanes
import VectorMachine.Instruction.Basic
import VectorMachine.Instruction.Decode
import VectorMachine.Job.Basic
import VectorMachine.Job.Duration
import VectorMachine.Json.Basic
import VectorMachine.Json.Read
import VectorMachine.Json.Stream
import VectorMachine.Json.Table
import VectorMachine.Json.Window
import VectorMachine.Kernel
import VectorMachine.Listing
import VectorMachine.Machine.Basic
import VectorMachine.Machine.Chunk
import VectorMachine.Machine.Generator
import VectorMachine.Machine.Statistics
import VectorMachine.Machine.Store
import VectorMachine.Main
import VectorMachine.Number.Convert
import VectorMachine.Number.Decimal
import VectorMachine.Number.Elementary
import VectorMachine.Number.Read
import VectorMachine.Opcode.Basic
import VectorMachine.Opcode.Catalog
import VectorMachine.Program
import VectorMachine.ProgramFile
import VectorMachine.Proofs.Advance
import VectorMachine.Proofs.AssembledCode
import VectorMachine.Proofs.AssembledListing
import VectorMachine.Proofs.AssembledPrograms
import VectorMachine.Proofs.AssemblerState
import VectorMachine.Proofs.BatchRun
import VectorMachine.Proofs.CaselessSource
import VectorMachine.Proofs.CborPrefix
import VectorMachine.Proofs.CborRoundTrip
import VectorMachine.Proofs.ChunkPartition
import VectorMachine.Proofs.ChunkRun
import VectorMachine.Proofs.ClampBounds
import VectorMachine.Proofs.CodeRoundTrip
import VectorMachine.Proofs.ConstantTexts
import VectorMachine.Proofs.ContainerFormat
import VectorMachine.Proofs.ContainerRoundTrip
import VectorMachine.Proofs.DecodedCode
import VectorMachine.Proofs.DecodedExecution
import VectorMachine.Proofs.DispatchedPath
import VectorMachine.Proofs.Effect
import VectorMachine.Proofs.Executable
import VectorMachine.Proofs.Fetch
import VectorMachine.Proofs.FlagOrder
import VectorMachine.Proofs.FloatFormats
import VectorMachine.Proofs.GroupResult
import VectorMachine.Proofs.GroupStore
import VectorMachine.Proofs.LaneColumns
import VectorMachine.Proofs.LaneIndependence
import VectorMachine.Proofs.LaneSimulation
import VectorMachine.Proofs.LetterCase
import VectorMachine.Proofs.Lexemes
import VectorMachine.Proofs.LineGrammar
import VectorMachine.Proofs.LineOrder
import VectorMachine.Proofs.LineReading
import VectorMachine.Proofs.ListedConstants
import VectorMachine.Proofs.ListedLines
import VectorMachine.Proofs.NearMiddles
import VectorMachine.Proofs.Numerals
import VectorMachine.Proofs.OperandSwap
import VectorMachine.Proofs.Plan
import VectorMachine.Proofs.PolicyAgreement
import VectorMachine.Proofs.RandomDraws
import VectorMachine.Proofs.ReadBack
import VectorMachine.Proofs.Reassembly
import VectorMachine.Proofs.Reports
import VectorMachine.Proofs.Results
import VectorMachine.Proofs.Rounding
import VectorMachine.Proofs.RowLocality
import VectorMachine.Proofs.Schedule
import VectorMachine.Proofs.SessionSteps
import VectorMachine.Proofs.Sessions
import VectorMachine.Proofs.ShortestDecimals
import VectorMachine.Proofs.SingleLane
import VectorMachine.Proofs.SourceByLine
import VectorMachine.Proofs.SourceLines
import VectorMachine.Proofs.StaticFailure
import VectorMachine.Proofs.StoppedRun
import VectorMachine.Proofs.Store
import VectorMachine.Proofs.TokenRanges
import VectorMachine.Proofs.ValidatedJobs
import VectorMachine.Proofs.WorkerGroup
import VectorMachine.Proofs.WriteSet
import VectorMachine.Table
import VectorMachine.Table.Cell
import VectorMachine.Table.Defect
import VectorMachine.Text.Basic
import VectorMachine.Text.LetterCase
import VectorMachine.Text.Printable
import VectorMachine.Text.Quoted
import VectorMachine.Text.Utf8
import VectorMachine.Toml.Basic
import VectorMachine.Toml.Document
import VectorMachine.Toml.Quoted
import VectorMachine.Toml.Read
import VectorMachine.Toml.Scalar
import VectorMachine.Vec4
