import Calculator.Failure
import Calculator.Json.Fields

/-!
# Failures in JSON

A report of a failure is an object with the kind of the failure and its details, in either order,
or an array of both. The details themselves are an object. Details that come before the kind have to
be kept until it is known, so everything in them must stand for something and may be nested to a
bounded depth only.
-/

namespace Calculator

/-- Whether everything in a value stands for something and its brackets are at most `depth` deep. -/
def Json.isStorable : (depth : Nat) → Json → Bool
  | _, .null | _, .bool _ | _, .string _ => true
  | _, .number n => n.toFloat?.isSome
  | _, .broken => false
  | 0, .array _ | 0, .object _ => false
  | depth + 1, .array items => items.all (isStorable depth)
  | depth + 1, .object members => members.all fun (_, value) => isStorable depth value

namespace Failure

/-- The greatest depth of details that come before the kind. -/
def maxDetailDepth : Nat := 126

/-- The kind of a failure in its report. -/
def kind : Failure → Text
  | .unexpected .. => "Syntax"
  | .argument .. => "Function"
  | .literal .. => "InvalidDigit"
  | .base .. => "UnsupportedRadix"
  | .reductions .. => "RewriteLimit"
  | .file .. => "FileError"
  | .format .. => "SerializationError"
  | .version .. => "VersionMismatch"

/-- The circumstances of a failure in its report. -/
def details : Failure → List (Text × Json)
  | .unexpected position found => [("position", .ofNat position), ("found", .string found)]
  | .argument function reason => [("function", .string function), ("reason", .string reason)]
  | .literal text n => [("literal", .string text), ("radix", .ofNat n)]
  | .base n => [("radix", .ofNat n)]
  | .reductions limit => [("limit", .ofNat limit)]
  | .file operation path reason =>
    [("operation", .string operation), ("path", .string path), ("reason", .string reason)]
  | .format reason => [("reason", .string reason)]
  | .version found expected =>
    [("file_version", .string found), ("expected_version", .string expected)]

/-- The report of a failure. -/
def toJson (failure : Failure) : Json :=
  .object [("type", .string failure.kind), ("details", .object failure.details)]

/-- The report of a failure with its details first. -/
def toJsonDetailsFirst (failure : Failure) : Json :=
  .object [("details", .object failure.details), ("type", .string failure.kind)]

/-- The failure of a kind with the given details. -/
def ofDetails? (kind : Text) (details : Json) : Option Failure := do
  if kind = "Syntax" then
    match ← details.named? ["position", "found"] with
    | [some position, some found] => return .unexpected (← position.nat? 64) (← found.string?)
    | _ => none
  else if kind = "Function" then
    match ← details.named? ["function", "reason"] with
    | [some function, some reason] => return .argument (← function.string?) (← reason.string?)
    | _ => none
  else if kind = "InvalidDigit" then
    match ← details.named? ["literal", "radix"] with
    | [some text, some n] => return .literal (← text.string?) (← n.nat? 32)
    | _ => none
  else if kind = "UnsupportedRadix" then
    match ← details.named? ["radix"] with
    | [some n] => return .base (← n.nat? 32)
    | _ => none
  else if kind = "RewriteLimit" then
    match ← details.named? ["limit"] with
    | [some limit] => return .reductions (← limit.nat? 64)
    | _ => none
  else if kind = "FileError" then
    match ← details.named? ["operation", "path", "reason"] with
    | [some operation, some path, some reason] =>
      return .file (← operation.string?) (← path.string?) (← reason.string?)
    | _ => none
  else if kind = "SerializationError" then
    match ← details.named? ["reason"] with
    | [some reason] => return .format (← reason.string?)
    | _ => none
  else if kind = "VersionMismatch" then
    match ← details.named? ["file_version", "expected_version"] with
    | [some found, some expected] => return .version (← found.string?) (← expected.string?)
    | _ => none
  else none

/-- Whether the details come before the kind. -/
def detailsFirst (members : List (Text × Json)) : Bool :=
  ((members.map (·.1)).find? fun name => name == "type".toList || name == "details".toList)
    == some "details"

/-- The failure that a value reports. In an array the kind is a string; in an object it may be a
name in any form. -/
def ofJson? (json : Json) : Option Failure := do
  match ← json.fields? ["type", "details"] with
  | [some kind, some details] =>
    match json with
    | .object members =>
      guard (!detailsFirst members || details.isStorable maxDetailDepth)
      ofDetails? (← kind.name?) details
    | _ => ofDetails? (← kind.string?) details
  | _ => none

/-- The failure that a text reports. -/
def parse? (s : Text) : Option Failure := (Json.parse? s).bind ofJson?

end Failure

end Calculator
