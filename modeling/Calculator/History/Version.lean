import Calculator.Failure
import Calculator.History.Basic

/-!
# Versions of history files

A version is numbers with points between them, and parts that are no numbers count for nothing. A
history can be read when its first number is ours and its second, if it has one, is not above ours.
-/

namespace Calculator.History

-- Powers are those of `Nat` itself, whatever is imported.
attribute [local instance (high)] instPowNat

/-- A part of a version as a number below `2^32`. -/
def versionNumber? (part : Text) : Option Nat := (Text.natural? part).filter (· < 2 ^ (32 : Nat))

/-- The numbers of a version. -/
def versionNumbers (version : Text) : List Nat :=
  (Text.splitAtChar '.' version).filterMap versionNumber?

/-- Whether a history of a version can be read. -/
def acceptsVersion (version : Text) : Bool :=
  match versionNumbers version, versionNumbers historyVersion with
  | major :: minors, ourMajor :: ourMinors =>
    major == ourMajor &&
      match ourMajor, minors, ourMinors with
      | 0, minor :: _, ourMinor :: _ => decide (minor ≤ ourMinor)
      | _, _, _ => true
  | _, _ => false

/-- A history that can be read, or the failure that names its version. -/
def checkVersion (history : History) : Except Failure History :=
  if acceptsVersion history.version then .ok history
  else .error (.version history.version historyVersion)

end Calculator.History
