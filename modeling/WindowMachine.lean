import WindowMachine.Assembly
import WindowMachine.Batch
import WindowMachine.Batch.Schedule
import WindowMachine.Breakdown
import WindowMachine.Capacities
import WindowMachine.Cbor.Item
import WindowMachine.Cbor.View
import WindowMachine.Cbor.Writer
import WindowMachine.Console
import WindowMachine.Digest
import WindowMachine.Failure
import WindowMachine.FilePath
import WindowMachine.Files
import WindowMachine.Flags
import WindowMachine.Frame
import WindowMachine.Image
import WindowMachine.Image.Encoding
import WindowMachine.Instruction
import WindowMachine.Listing
import WindowMachine.Machine.Basic
import WindowMachine.Machine.InPlace
import WindowMachine.Machine.Run
import WindowMachine.Machine.Step
import WindowMachine.Main
import WindowMachine.Number.BinaryFormat
import WindowMachine.Number.Decimal
import WindowMachine.Number.Exponential
import WindowMachine.Number.Integer
import WindowMachine.Number.Power
import WindowMachine.Number.Remainder
import WindowMachine.Opcode
import WindowMachine.Proofs.Assembly.CallsByName
import WindowMachine.Proofs.Assembly.Complaints
import WindowMachine.Proofs.Assembly.Directives
import WindowMachine.Proofs.Assembly.Disassembly
import WindowMachine.Proofs.Assembly.Encoding
import WindowMachine.Proofs.Assembly.Faithful
import WindowMachine.Proofs.Assembly.LabelUses
import WindowMachine.Proofs.Assembly.Layout
import WindowMachine.Proofs.Assembly.Methods
import WindowMachine.Proofs.Assembly.Restated
import WindowMachine.Proofs.Assembly.WellFormed
import WindowMachine.Proofs.Batch.Alone
import WindowMachine.Proofs.Batch.Deliveries
import WindowMachine.Proofs.Batch.Moves
import WindowMachine.Proofs.Batch.Schedules
import WindowMachine.Proofs.Cbor.Bounds
import WindowMachine.Proofs.Cbor.Viewed
import WindowMachine.Proofs.Cbor.Written
import WindowMachine.Proofs.Checks
import WindowMachine.Proofs.Console.Alike
import WindowMachine.Proofs.Console.Inheritance
import WindowMachine.Proofs.Console.Sessions
import WindowMachine.Proofs.Image.Applied
import WindowMachine.Proofs.Image.Disguises
import WindowMachine.Proofs.Image.Normal
import WindowMachine.Proofs.Image.Records
import WindowMachine.Proofs.Image.RoundTrip
import WindowMachine.Proofs.Image.Tampering
import WindowMachine.Proofs.Instruction.Fields
import WindowMachine.Proofs.Instruction.Inverse
import WindowMachine.Proofs.Instruction.Phrases
import WindowMachine.Proofs.Instruction.UnusedBytes
import WindowMachine.Proofs.Listing.Assembled
import WindowMachine.Proofs.Listing.Blocks
import WindowMachine.Proofs.Listing.Merging
import WindowMachine.Proofs.Listing.OneLine
import WindowMachine.Proofs.Machine.Arithmetic
import WindowMachine.Proofs.Machine.Atomicity
import WindowMachine.Proofs.Machine.Budget
import WindowMachine.Proofs.Machine.CallerSlots
import WindowMachine.Proofs.Machine.Calls
import WindowMachine.Proofs.Machine.Closing
import WindowMachine.Proofs.Machine.Data
import WindowMachine.Proofs.Machine.EarlierOutput
import WindowMachine.Proofs.Machine.Effects
import WindowMachine.Proofs.Machine.EquivalentCode
import WindowMachine.Proofs.Machine.Faults
import WindowMachine.Proofs.Machine.Footprint
import WindowMachine.Proofs.Machine.FramesSince
import WindowMachine.Proofs.Machine.History
import WindowMachine.Proofs.Machine.InPlace
import WindowMachine.Proofs.Machine.MemorySafety
import WindowMachine.Proofs.Machine.MissingMethods
import WindowMachine.Proofs.Machine.OperandStack
import WindowMachine.Proofs.Machine.Reachable
import WindowMachine.Proofs.Machine.Relocation
import WindowMachine.Proofs.Machine.Resets
import WindowMachine.Proofs.Machine.Returns
import WindowMachine.Proofs.Machine.Seeding
import WindowMachine.Proofs.Machine.StaleSlots
import WindowMachine.Proofs.Machine.Stops
import WindowMachine.Proofs.Machine.StraightLine
import WindowMachine.Proofs.Machine.Switches
import WindowMachine.Proofs.Machine.Verdicts
import WindowMachine.Proofs.Machine.Views
import WindowMachine.Proofs.Number.Numerals
import WindowMachine.Proofs.Source.Appended
import WindowMachine.Proofs.Source.Labels
import WindowMachine.Proofs.Source.Lossless
import WindowMachine.Proofs.Source.Patterns
import WindowMachine.Proofs.Source.Places
import WindowMachine.Proofs.Source.Printing
import WindowMachine.Proofs.Source.RoundTrip
import WindowMachine.Proofs.Source.Rules
import WindowMachine.Proofs.Source.Scanning
import WindowMachine.Proofs.Source.Sizes
import WindowMachine.Proofs.Source.Words
import WindowMachine.Proofs.Text.Pieces
import WindowMachine.Proofs.Text.Regex
import WindowMachine.Proofs.Text.Utf8
import WindowMachine.Quicksort
import WindowMachine.Settings
import WindowMachine.Slot
import WindowMachine.Slot.Arithmetic
import WindowMachine.Source.Line
import WindowMachine.Source.Operand
import WindowMachine.Source.Token
import WindowMachine.Text.Blank
import WindowMachine.Text.Numeral
import WindowMachine.Text.Printable
import WindowMachine.Text.Quoted
import WindowMachine.Text.Utf8
import WindowMachine.Toml.Document
import WindowMachine.Toml.Quotation
import WindowMachine.Toml.Scalar
import WindowMachine.Toml.Scope
import WindowMachine.Toml.Value
import WindowMachine.Tool.Assembler
import WindowMachine.Tool.Program
import WindowMachine.Tool.Runner
import WindowMachine.Tool.System
