import Calculator.History.Timestamp
import Calculator.History.Uuid

/-!
# Entries

What a calculator or the plotter hands to the history, and how the history keeps it: with an
identifier and the instant at which it was made. A programmer expression is kept with the name of
its base in brackets after it.
-/

namespace Calculator

/-- The calculators. -/
inductive Mode where
  /-- The scientific calculator. -/
  | engineering
  /-- The integer calculator. -/
  | programmer
  /-- The function plotter. -/
  | graph
  deriving DecidableEq, Repr

namespace Mode

/-- All calculators. -/
def all : List Mode := [.engineering, .programmer, .graph]

/-- The word for a calculator. -/
def tag : Mode → Text
  | .engineering => "engineering"
  | .programmer => "programmer"
  | .graph => "graph"

end Mode

/-- One finished calculation. -/
structure Record where
  /-- The expression, or the plotted function. -/
  expression : Text
  /-- The display of its result. -/
  result : Text
  /-- The calculator that made it. -/
  mode : Mode
  deriving DecidableEq, Repr

/-- What sets one entry apart from the others. -/
structure Stamp where
  /-- The identifier of the entry. -/
  id : Uuid
  /-- The instant at which the entry was made. -/
  timestamp : Timestamp
  deriving DecidableEq, Repr

/-- A calculation as the history keeps it. -/
structure Entry extends Record, Stamp
  deriving DecidableEq, Repr

namespace Record

/-- A programmer expression with the name of its base. -/
def tagged (expression : Text) (r : Radix) : Text := expression ++ " (" ++ r.name ++ ")"

/-- A calculation of the scientific calculator. -/
def engineering (expression result : Text) : Record := ⟨expression, result, .engineering⟩

/-- A calculation of the programmer calculator. -/
def programmer (expression : Text) (r : Radix) (result : Text) : Record :=
  ⟨tagged expression r, result, .programmer⟩

/-- A plotted function. -/
def graph (function : Text) : Record := ⟨function, "graph", .graph⟩

/-- A calculation with its stamp. -/
def stamp (record : Record) (stamp : Stamp) : Entry := ⟨record, stamp⟩

/-- The text before the name of a base in brackets that ends a text, and the base. -/
def tag? (s : Text) : Option (Text × Radix) :=
  match (Text.trimEnd s).reverse with
  | ')' :: rest =>
    match rest.dropWhile Char.isAlpha with
    | '(' :: before =>
      (Radix.ofName? (rest.takeWhile Char.isAlpha).reverse).map (Text.trim before.reverse, ·)
    | _ => none
  | _ => none

/-- A kept programmer expression and its base, without blanks around it. What does not end in the
name of a base is an expression in base ten. -/
def untagged (s : Text) : Text × Radix := (tag? s).getD (Text.trim s, .dec)

end Record

/-- Whether an entry is a plotted function. -/
def Entry.isPlot (entry : Entry) : Bool := entry.mode == .graph

end Calculator
