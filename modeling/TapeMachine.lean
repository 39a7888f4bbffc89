import TapeMachine.Bytes
import TapeMachine.Cbor.Head
import TapeMachine.Cbor.Item
import TapeMachine.Command.Console
import TapeMachine.Command.Flag
import TapeMachine.Command.Run
import TapeMachine.Command.StandardStream
import TapeMachine.Demo
import TapeMachine.Dialog.Basic
import TapeMachine.Dialog.Source
import TapeMachine.Folder
import TapeMachine.Generator.Arithmetic
import TapeMachine.Generator.Code
import TapeMachine.Generator.Condition
import TapeMachine.Generator.Constant
import TapeMachine.Generator.Directive
import TapeMachine.Generator.Dispatch
import TapeMachine.Generator.Knowledge
import TapeMachine.Generator.Printing
import TapeMachine.Generator.Render
import TapeMachine.Generator.Report
import TapeMachine.Generator.Session
import TapeMachine.Log.Logger
import TapeMachine.Log.Record
import TapeMachine.Log.Stamp
import TapeMachine.Machine.Basic
import TapeMachine.Machine.Exec
import TapeMachine.Machine.Reading
import TapeMachine.Machine.Runner
import TapeMachine.Machine.Status
import TapeMachine.Machine.Stop
import TapeMachine.Machine.Storage
import TapeMachine.Main
import TapeMachine.Memory
import TapeMachine.Program.Basic
import TapeMachine.Program.Cancellation
import TapeMachine.Program.Check
import TapeMachine.Program.Image
import TapeMachine.Program.Listing
import TapeMachine.Program.Parser
import TapeMachine.Program.Text
import TapeMachine.Proofs.ArithmeticEffect
import TapeMachine.Proofs.BracketFaults
import TapeMachine.Proofs.CellArithmetic
import TapeMachine.Proofs.CheckedPrograms
import TapeMachine.Proofs.Condensation
import TapeMachine.Proofs.ConditionEffect
import TapeMachine.Proofs.ConstantEffect
import TapeMachine.Proofs.ConstantEncoding
import TapeMachine.Proofs.ConstantTransparency
import TapeMachine.Proofs.Construction
import TapeMachine.Proofs.ControlFlow
import TapeMachine.Proofs.Conversation
import TapeMachine.Proofs.Copying
import TapeMachine.Proofs.CursorAgreement
import TapeMachine.Proofs.DecimalOutput
import TapeMachine.Proofs.Delivery
import TapeMachine.Proofs.Derivation
import TapeMachine.Proofs.DialogEffect
import TapeMachine.Proofs.DialogMachine
import TapeMachine.Proofs.DialogRefinement
import TapeMachine.Proofs.DialogRuns
import TapeMachine.Proofs.DispatchEffect
import TapeMachine.Proofs.Effect
import TapeMachine.Proofs.Emission
import TapeMachine.Proofs.EndOfInput
import TapeMachine.Proofs.EqualityTest
import TapeMachine.Proofs.Execution
import TapeMachine.Proofs.FlatMemory
import TapeMachine.Proofs.FoldedText
import TapeMachine.Proofs.FragmentEffect
import TapeMachine.Proofs.ImageRoundTrip
import TapeMachine.Proofs.Interruption
import TapeMachine.Proofs.ItemRoundTrip
import TapeMachine.Proofs.KnowledgeSoundness
import TapeMachine.Proofs.KnownCells
import TapeMachine.Proofs.LineLog
import TapeMachine.Proofs.ListedPrograms
import TapeMachine.Proofs.LoadedPrograms
import TapeMachine.Proofs.MemoryUse
import TapeMachine.Proofs.MoveCancellation
import TapeMachine.Proofs.Multiplication
import TapeMachine.Proofs.NetMovement
import TapeMachine.Proofs.Optimization
import TapeMachine.Proofs.PrimeTable
import TapeMachine.Proofs.PrintingEffect
import TapeMachine.Proofs.ReaderQueue
import TapeMachine.Proofs.Realization
import TapeMachine.Proofs.RestoredImages
import TapeMachine.Proofs.RunEffect
import TapeMachine.Proofs.RunHistory
import TapeMachine.Proofs.ScriptResolution
import TapeMachine.Proofs.SourceText
import TapeMachine.Proofs.StreamContents
import TapeMachine.Proofs.StreamHistory
import TapeMachine.Proofs.SymbolMachine
import TapeMachine.Proofs.TapeLimit
import TapeMachine.Proofs.Timeline
import TapeMachine.Proofs.Trust
import TapeMachine.Proofs.TwinSessions
import TapeMachine.Proofs.ValueTracking
import TapeMachine.Proofs.View
import TapeMachine.Proofs.Walk
import TapeMachine.Proofs.WrittenPrograms
import TapeMachine.Register
import TapeMachine.Settings.Basic
import TapeMachine.Settings.Duration
import TapeMachine.Settings.Syntax
import TapeMachine.Stream.Input
import TapeMachine.Stream.LineSplitter
import TapeMachine.Stream.Output
import TapeMachine.Stream.Sink
import TapeMachine.Tape
import TapeMachine.Task
import TapeMachine.Text.ByteName
import TapeMachine.Text.Digits
import TapeMachine.Text.Printable
import TapeMachine.Text.Quoted
import TapeMachine.Text.Utf8
import TapeMachine.Toml.Draft
import TapeMachine.Toml.Fault
import TapeMachine.Toml.Field
import TapeMachine.Toml.Moment
import TapeMachine.Toml.Number
import TapeMachine.Toml.Parser
import TapeMachine.Toml.Syntax
import TapeMachine.Toml.Text
import TapeMachine.Toml.Value
import TapeMachine.Trial.Basic
import TapeMachine.Trial.Check
import TapeMachine.Trial.Expectation
import TapeMachine.Word
