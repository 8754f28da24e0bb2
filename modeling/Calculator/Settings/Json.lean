import Calculator.Json.Fields
import Calculator.Settings

/-!
# Settings in JSON

Every setting may be left out and then has its default. The two constants are given together.
-/

namespace Calculator

/-- The base that a value names; in JSON the names are written in capitals. -/
def Radix.ofJson? (json : Json) : Option Radix := do
  let name ← json.name?
  Radix.all.find? (·.name == name)

/-- The constants that a value gives. -/
def Constants.ofJson? (json : Json) : Option Constants := do
  match ← json.fields? ["pi", "e"] with
  | [some pi, some e] => return ⟨← pi.float?, ← e.float?⟩
  | _ => none

/-- A setting that may be left out. -/
def Settings.field {α : Type} (read? : Json → Option α) (default : α) : Option Json → Option α
  | none => some default
  | some json => read? json

/-- The settings that a value gives. -/
def Settings.ofJson? (json : Json) : Option Settings := do
  let names : List Text :=
    ["fraction_digits", "max_rewrites", "default_radix", "history_limit", "constants"]
  let defaults : Settings := {}
  match ← json.fields? names with
  | [digits, reductions, radix, limit, constants] =>
    return {
      fractionDigits := ← field (Json.nat? 64) defaults.fractionDigits digits
      maxReductions := ← field (Json.nat? 64) defaults.maxReductions reductions
      defaultRadix := ← field Radix.ofJson? defaults.defaultRadix radix
      historyLimit := ← field (Json.nat? 64) defaults.historyLimit limit
      constants := ← field Constants.ofJson? defaults.constants constants }
  | _ => none

end Calculator
