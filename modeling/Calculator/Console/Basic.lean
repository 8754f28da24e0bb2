import Calculator.Console.Command
import Calculator.Failure.Json
import Calculator.History.Json
import Calculator.Keypad.Programmer

/-!
# The console

Both calculators stand behind one prompt. Every line leads to a reply: the console afterwards, what
is printed, and whether the history has to be saved. Nothing is read or written here.
-/

namespace Calculator

/-- The report of a failure: its words, and its form in JSON. -/
def Failure.report (failure : Failure) : Text :=
  Text.lines ["Error: " ++ failure.message, [], "Error JSON:", failure.toJson.pretty]

/-- Both calculators, their history and the way they print. -/
structure Console where
  /-- The settings of the calculators. -/
  settings : Settings
  /-- The calculator in use. -/
  mode : Mode
  /-- The scientific calculator. -/
  scientific : Keypad.Scientific := {}
  /-- The programmer calculator. -/
  programmer : Keypad.Programmer
  /-- The entries made so far, and those loaded before. -/
  history : History
  /-- Where the history is kept; without a place nothing is recorded. -/
  archive : Option Text
  /-- Whether results are printed in JSON. -/
  json : Bool

namespace Console

/-- What a line leads to. -/
structure Reply where
  /-- The console afterwards. -/
  console : Console
  /-- What is printed. -/
  output : Text := []
  /-- Whether the history has to be saved now. -/
  saves : Bool := false
  /-- What is printed after that, unless saving fails. -/
  confirmation : Text := []
  /-- Whether the console ends. -/
  ends : Bool := false
  /-- Whether the line failed. -/
  fails : Bool := false

/-- What stands before a line. -/
def prompt (console : Console) : Text :=
  match console.mode with
  | .programmer => "[" ++ console.programmer.radix.name ++ "] > "
  | _ => "> "

/-- The printed form of a result. -/
def resultText (console : Console) (result : Text) (kept : Option Entry) : Text :=
  if console.json then
    let json := match kept with
      | some entry => entry.toJson
      | none => .object [("result", .string result)]
    Text.lines [json.pretty]
  else Text.lines ["= " ++ result]

/-- The printed form of the programmer input in every base. -/
def everyBaseText (console : Console) : Text :=
  let conversions := console.programmer.inEveryBase
  if console.json then
    let json := conversions.map fun (r, text) =>
      Json.object [("radix", .string r.name), ("text", .string text)]
    Text.lines [(Json.array json).pretty]
  else
    Text.lines (conversions.map fun (r, text) => "  " ++ Text.padRight 4 r.name ++ " " ++ text)

/-- A console with one more entry in its history, cut to the limit, if there is a place for it. -/
def record (console : Console) (entry : Entry) : Console :=
  if console.archive.isSome then
    { console with
      history := (console.history.add entry).keepNewest console.settings.historyLimit }
  else console

/-- The reply to a calculated line. A calculation that is kept is recorded, and the line fails if
its result reads `Error`. -/
def recorded (console : Console) (result output : Text) (kept : Option Entry) : Reply where
  console := kept.elim console console.record
  output := output
  saves := kept.isSome && console.archive.isSome
  fails := result == Display.error

/-- Calculates a line with the calculator in use. A new entry gets the given stamp. -/
def calculate (console : Console) (stamp : Stamp) (line : Text) : Reply :=
  match console.mode with
  | .programmer =>
    let (programmer, record?) := (console.programmer.typeLine line).calculate
    let console := { console with programmer }
    let kept := record?.map (·.stamp stamp)
    console.recorded programmer.result
      (console.resultText programmer.result kept ++ console.everyBaseText) kept
  | _ =>
    let (scientific, record?) := (console.scientific.typeLine line).calculate console.settings
    let console := { console with scientific }
    let kept := record?.map (·.stamp stamp)
    console.recorded scientific.result (console.resultText scientific.result kept) kept

/-- The list of commands. -/
def help : Text :=
  Text.lines [
    "Commands:",
    "  :mode engineering|programmer   switch calculator",
    "  :base bin|oct|dec|hex          change programmer radix",
    "  :convert                       show the operand in every radix",
    "  :history [n]                   list history, or reopen entry n",
    "  :clear-history                 delete all history entries",
    "  :quit                          leave"]

/-- The printed form of an entry with its number in the list. -/
def entryText (entry : Entry) (index : Nat) : Text :=
  Text.padLeft 3 (Text.ofNat (index + 1)) ++ ". [" ++ entry.mode.tag ++ "] " ++ entry.expression ++
    " = " ++ entry.result

/-- The printed form of the history. -/
def historyText (console : Console) : Text :=
  if console.history.entries.isEmpty then Text.lines ["(history is empty)"]
  else Text.lines (console.history.entries.mapIdx fun index entry => entryText entry index)

/-- The entry with a number in the list, which starts at one. -/
def entryAt? (console : Console) (number : Text) : Option Entry :=
  match Text.natural? number with
  | some (index + 1) => console.history.entries[index]?
  | _ => none

/-- Shows an entry in the calculator that made it. -/
def reopen (console : Console) (number : Text) : Reply :=
  match console.entryAt? number with
  | none => { console, output := Text.lines ["No history entry " ++ number] }
  | some entry =>
    match entry.mode with
    | .programmer =>
      let programmer := console.programmer.reopen entry.expression
      { console := { console with mode := .programmer, programmer }
        output := Text.lines [entry.expression, "= " ++ programmer.result] }
    | .engineering =>
      let scientific := console.scientific.reopen console.settings entry.expression
      { console := { console with mode := .engineering, scientific }
        output := Text.lines [entry.expression, "= " ++ scientific.result] }
    | .graph => { console, output := Text.lines ["Graph entries cannot be recalled here"] }

/-- Activates the base with a name. -/
def activateBase (console : Console) (name : Text) : Reply :=
  match Radix.ofName? name with
  | some r =>
    let programmer := console.programmer.activate r
    { console := { console with programmer }
      output := Text.lines ["Base " ++ r.name ++ " (input " ++ programmer.input ++ ")"] }
  | none =>
    { console, output := Text.lines ["Unknown base '" ++ name ++ "' (BIN, OCT, DEC or HEX)"] }

/-- Carries out a command. -/
def perform (console : Console) : Command → Reply
  | .quit => { console, ends := true }
  | .help => { console, output := help }
  | .mode (some mode) => { console := { console with mode } }
  | .mode none => { console, output := Text.lines ["Usage: :mode engineering|programmer"] }
  | .showBase => { console, output := Text.lines ["Base " ++ console.programmer.radix.name] }
  | .base name => console.activateBase name
  | .convert => { console, output := console.everyBaseText }
  | .showHistory => { console, output := console.historyText }
  | .reopen number => console.reopen number
  | .clearHistory =>
    { console := { console with history := console.history.clear }
      saves := console.archive.isSome
      confirmation := Text.lines ["History cleared"] }
  | .unknown name =>
    { console, output := Text.lines ["Unknown command '" ++ name ++ "'; try :help"] }

/-- The reply to a line of input. -/
def handle (console : Console) (stamp : Stamp) (line : Text) : Reply :=
  match Text.trim line with
  | [] => { console }
  | ':' :: rest => console.perform (.parse (':' :: rest))
  | line => console.calculate stamp line

end Console

end Calculator
