import Calculator.History.Basic
import Calculator.History.Instant
import Calculator.Json.Fields
import Calculator.Json.Printer

/-!
# Histories in JSON

The file of a history holds its version and its entries, newest first, with one member to a line.
-/

namespace Calculator

/-- The calculator that a value names. -/
def Mode.ofJson? (json : Json) : Option Mode := do
  let name ← json.name?
  Mode.all.find? (·.tag == name)

namespace Entry

/-- An entry as a value. -/
def toJson (entry : Entry) : Json :=
  .object [
    ("id", .string entry.id.text),
    ("expression", .string entry.expression),
    ("result", .string entry.result),
    ("timestamp", .string entry.timestamp.text),
    ("calculator_type", .string entry.mode.tag)]

/-- The entry that a value gives. -/
def ofJson? (json : Json) : Option Entry := do
  match ← json.fields? ["id", "expression", "result", "timestamp", "calculator_type"] with
  | [some id, some expression, some result, some timestamp, some mode] =>
    return {
      id := ← (← id.string?) |> Uuid.parse?
      expression := ← expression.string?
      result := ← result.string?
      timestamp := ← (← timestamp.string?) |> Timestamp.parse?
      mode := ← Mode.ofJson? mode }
  | _ => none

end Entry

namespace History

/-- A history as a value. -/
def toJson (history : History) : Json :=
  .object [
    ("version", .string history.version),
    ("entries", .array (history.entries.map Entry.toJson))]

/-- The history that a value gives. -/
def ofJson? (json : Json) : Option History := do
  match ← json.fields? ["version", "entries"] with
  | [some version, some entries] =>
    return ⟨← version.string?, ← (← entries.array?).mapM Entry.ofJson?⟩
  | _ => none

/-- The text of the file of a history. -/
def text (history : History) : Text := history.toJson.pretty

/-- The history that a text gives. -/
def parse? (s : Text) : Option History := (Json.parse? s).bind ofJson?

end History

end Calculator
