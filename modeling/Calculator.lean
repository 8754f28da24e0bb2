import Calculator.Calculation
import Calculator.Console.Basic
import Calculator.Console.Command
import Calculator.Console.Options
import Calculator.Console.Run
import Calculator.Expression.Basic
import Calculator.Expression.Parser
import Calculator.Expression.Unexpected
import Calculator.Failure
import Calculator.Failure.Json
import Calculator.History.Basic
import Calculator.History.Entry
import Calculator.History.Instant
import Calculator.History.Json
import Calculator.History.Timestamp
import Calculator.History.Uuid
import Calculator.History.Version
import Calculator.Json.Basic
import Calculator.Json.Fields
import Calculator.Json.Parser
import Calculator.Json.Printer
import Calculator.Keypad.Programmer
import Calculator.Keypad.Scientific
import Calculator.Main
import Calculator.Number.Decimal
import Calculator.Number.Double
import Calculator.Number.Fixed
import Calculator.Number.Shortest
import Calculator.Outcome
import Calculator.Proofs.Expression.Completeness
import Calculator.Proofs.Expression.Evaluation
import Calculator.Proofs.Expression.Grammar
import Calculator.Proofs.Expression.Literal
import Calculator.Proofs.Expression.Numeral
import Calculator.Proofs.Expression.Reading
import Calculator.Proofs.Expression.Soundness
import Calculator.Proofs.Keypad.ShownResult
import Calculator.Proofs.Number.Bits
import Calculator.Proofs.Number.Nearest
import Calculator.Proofs.Number.Written
import Calculator.Proofs.Scientific.Budget
import Calculator.Proofs.Scientific.Confluence
import Calculator.Proofs.Scientific.Formula
import Calculator.Proofs.Scientific.Occurrence
import Calculator.Proofs.Scientific.Refinement
import Calculator.Proofs.Scientific.Substitution
import Calculator.Radix.Basic
import Calculator.Radix.Conversion
import Calculator.Radix.Literal
import Calculator.Scientific.Call
import Calculator.Scientific.Constants
import Calculator.Scientific.Function
import Calculator.Scientific.Reduction
import Calculator.Settings
import Calculator.Settings.Json
import Calculator.Storage.Disk
import Calculator.Storage.Files
import Calculator.Storage.Path
import Calculator.Text
import Calculator.Proofs.Json.Numbers
import Calculator.Proofs.Json.Strings
import Calculator.Proofs.Json.Values
import Calculator.Proofs.Radix.Literal
import Calculator.Proofs.History.Uuid
import Calculator.Proofs.History.Instant
import Calculator.Proofs.Json.Fields
import Calculator.Proofs.History.Reading
import Calculator.Proofs.Storage.Disk
import Calculator.Proofs.Storage.Save
import Calculator.Proofs.History.Order
import Calculator.Proofs.Number.Displayed
import Calculator.Proofs.Number.Rounding
import Calculator.Proofs.Number.Stability
import Calculator.Proofs.Display
import Calculator.Proofs.Radix.Conversion
import Calculator.Proofs.Console.Status
import Calculator.Proofs.Console.Recording
import Calculator.Proofs.Console.Archive
import Calculator.Proofs.Scientific.Commutation
import Calculator.Proofs.Radix.Runs
import Calculator.Proofs.Radix.Shared
import Calculator.Proofs.Radix.Exact
import Calculator.Proofs.History.Tag
import Calculator.Proofs.Keypad.Reopening
import Calculator.Proofs.Keypad.Symbols
import Calculator.Proofs.Keypad.Input
import Calculator.Proofs.Expression.Fault
import Calculator.Proofs.Radix.Translation
import Calculator.Proofs.Radix.Reuse
import Calculator.Proofs.Scientific.Operands
import Calculator.Proofs.Scientific.Neighbours
import Calculator.Proofs.Expression.Pieces
import Calculator.Proofs.Expression.Points
import Calculator.Proofs.Keypad.Typing
import Calculator.Proofs.Number.Signs
import Calculator.Proofs.Expression.FirstOperand
import Calculator.Proofs.Keypad.TypedResult
import Calculator.Proofs.Console.Interaction
import Calculator.Proofs.Number.Integers
import Calculator.Proofs.Expression.Restriction
import Calculator.Proofs.Expression.Closing
import Calculator.Proofs.Expression.FaultPlace
import Calculator.Proofs.Number.Trimming
import Calculator.Proofs.Number.Accuracy
import Calculator.Proofs.Expression.Spacing
import Calculator.Proofs.Scientific.Separators
import Calculator.Proofs.Expression.Nesting
import Calculator.Proofs.Keypad.Bases
import Calculator.Proofs.Keypad.Replacing
import Calculator.Proofs.Keypad.Points
import Calculator.Proofs.History.Limit
import Calculator.Proofs.History.Removing
import Calculator.Proofs.History.Compatibility
import Calculator.Proofs.Json.Naturals
import Calculator.Proofs.Failure.Report
import Calculator.Proofs.Expression.Machine
import Calculator.Proofs.Expression.Calls
