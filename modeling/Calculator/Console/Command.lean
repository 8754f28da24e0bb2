import Calculator.History.Entry

/-!
# Commands of the console

A line that starts with a colon is a command. Its first word names it, its second word is what it is
applied to, and all further words count for nothing.
-/

namespace Calculator.Console

/-- What a line that starts with a colon asks for. -/
inductive Command where
  /-- To leave. -/
  | quit
  /-- The list of commands. -/
  | help
  /-- Another calculator; none for a word that names no calculator. -/
  | mode (mode : Option Mode)
  /-- The active base. -/
  | showBase
  /-- Another base, by a word that may name none. -/
  | base (name : Text)
  /-- The input in every base. -/
  | convert
  /-- The list of entries. -/
  | showHistory
  /-- An entry, by a word that may be no number. -/
  | reopen (number : Text)
  /-- A history without entries. -/
  | clearHistory
  /-- Nothing that is known. -/
  | unknown (name : Text)
  deriving DecidableEq, Repr

/-- The command of a line. -/
def Command.parse (line : Text) : Command :=
  let words := Text.words line
  let name := words.headD []
  let argument := words[1]?
  if name = ":quit" ∨ name = ":q" ∨ name = ":exit" then .quit
  else if name = ":help" then .help
  else if name = ":mode" then
    .mode ([Mode.engineering, .programmer].find? fun mode => some mode.tag == argument)
  else if name = ":base" then argument.elim .showBase .base
  else if name = ":convert" then .convert
  else if name = ":history" then argument.elim .showHistory .reopen
  else if name = ":clear-history" then .clearHistory
  else .unknown name

end Calculator.Console
