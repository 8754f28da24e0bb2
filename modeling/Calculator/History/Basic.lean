import Calculator.History.Entry

/-!
# Histories

A history keeps entries newest first. A new entry goes before the first one that is not newer than
itself, so it comes first among entries of one instant.
-/

namespace Calculator

/-- The version of the histories written here. -/
def historyVersion : Text := "0.1.0"

/-- Entries, newest first, with the version of their file. -/
structure History where
  /-- The version of the file. -/
  version : Text
  /-- The entries, newest first. -/
  entries : List Entry
  deriving DecidableEq, Repr

namespace History

/-- A history without entries. -/
def empty : History := ⟨historyVersion, []⟩

/-- Puts an entry before the first one that is not newer. -/
def insert (entry : Entry) : List Entry → List Entry
  | [] => [entry]
  | other :: rest =>
    if other.timestamp ≤ entry.timestamp then entry :: other :: rest
    else other :: insert entry rest

/-- A history with one more entry. -/
def add (history : History) (entry : Entry) : History :=
  { history with entries := insert entry history.entries }

/-- The first entry with an identifier. -/
def get? (history : History) (id : Uuid) : Option Entry := history.entries.find? (·.id == id)

/-- A history without the first entry that has an identifier. -/
def remove (history : History) (id : Uuid) : History :=
  { history with entries := history.entries.eraseP (·.id == id) }

/-- Takes the first entry with an identifier out of a history: the entry, if there is one, and the
history that is left. -/
def takeOut (history : History) (id : Uuid) : Option Entry × History :=
  match history.entries.findIdx? (·.id == id) with
  | none => (none, history)
  | some index =>
    (history.entries[index]?, { history with entries := history.entries.eraseIdx index })

/-- A history without its entries. -/
def clear (history : History) : History := { history with entries := [] }

/-- The plotted functions, newest first. -/
def plots (history : History) : List Entry := history.entries.filter Entry.isPlot

/-- A history without its plotted functions. -/
def withoutPlots (history : History) : History :=
  { history with entries := history.entries.filter (!·.isPlot) }

/-- The newest `limit` entries of a history, or all of them when the limit is zero. -/
def keepNewest (history : History) (limit : Nat) : History :=
  if limit = 0 then history else { history with entries := history.entries.take limit }

end History

end Calculator
