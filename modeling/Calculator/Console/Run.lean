import Calculator.Console.Basic
import Calculator.Console.Options
import Calculator.Storage.Files

/-!
# Runs of the console

A run starts from the settings and the history that files give, and either calculates one expression
or takes lines until they end. Everything that a run does to its disk and prints is a function of
the disk, the input and the stamps that new entries get.
-/

namespace Calculator

namespace Console

/-- A console that has not seen a line. -/
def start (options : Options) (settings : Settings) (history : History) : Console where
  settings := settings
  mode := options.mode.getD .engineering
  programmer := { radix := options.base.getD settings.defaultRadix }
  history := history
  archive := options.archive
  json := options.json

/-- What is printed before the first prompt. -/
def banner : Text :=
  Text.lines [
    "Calculator - engineering and programmer modes",
    "=============================================",
    "Type an expression, or :help for commands.",
    []]

/-- The lines of an input, without their line feeds. What is left after the last line feed is a line
unless it is empty, and the input ends before the first line that is not UTF-8. -/
def inputLines (input : ByteArray) : List Text :=
  let parts := input.toList.splitOnP (· == 10)
  let parts := if parts.getLast? = some [] then parts.dropLast else parts
  let texts := parts.map fun bytes => Text.ofBytes? ⟨bytes.toArray⟩
  (texts.takeWhile Option.isSome).filterMap id

end Console

/-- A run of the console at some point: the console itself, and what it has done. -/
structure Run where
  /-- The console. -/
  console : Console
  /-- The files. -/
  disk : Disk
  /-- What was printed. -/
  output : Text := []
  /-- The failures that were reported. -/
  errors : Text := []
  /-- The number of lines taken. -/
  taken : Nat := 0
  /-- Whether a line has ended the run. -/
  ended : Bool := false
  /-- Whether the last line failed. -/
  fails : Bool := false

namespace Run

/-- A run that has printed a text. -/
def print (run : Run) (s : Text) : Run := { run with output := run.output ++ s }

/-- A run that goes on after a reply: the history is saved if it has to be, and a failure to save
is reported. -/
def settle (run : Run) (reply : Console.Reply) : Run :=
  let run := { run.print reply.output with
    console := reply.console, ended := reply.ends, fails := reply.fails }
  match (if reply.saves then reply.console.archive else none) with
  | none => run.print reply.confirmation
  | some path =>
    match reply.console.history.save {} run.disk path with
    | (disk, .ok ()) => { run with disk }.print reply.confirmation
    | (disk, .error failure) => { run with disk, errors := run.errors ++ failure.report }

/-- A run that has taken one more line, unless it has ended. A new entry gets the stamp of the
number of lines taken before. -/
def take (stamps : Nat → Stamp) (run : Run) (line : Text) : Run :=
  if run.ended then run
  else
    let reply := run.console.handle (stamps run.taken) line
    { (run.print run.console.prompt).settle reply with taken := run.taken + 1 }

/-- A run whose input has ended. -/
def finish (run : Run) : Run := if run.ended then run else run.print run.console.prompt

/-- A run that calculates one expression. -/
def once (stamp : Stamp) (run : Run) (expression : Text) : Run :=
  run.settle (run.console.calculate stamp expression)

/-- A run that takes all lines of an input. -/
def interact (stamps : Nat → Stamp) (run : Run) (lines : List Text) : Run :=
  (lines.foldl (take stamps) (run.print Console.banner)).finish

end Run

/-- What a program leaves behind. -/
structure Result where
  /-- The files. -/
  disk : Disk
  /-- What was printed. -/
  output : Text
  /-- The failures that were reported. -/
  errors : Text
  /-- Whether the program failed. -/
  fails : Bool

namespace Options

/-- The console that files give at the start. -/
def load (options : Options) (disk : Disk) : Except Failure Console := do
  let settings ← options.config.elim (.ok {}) (Settings.load disk)
  let history ← options.archive.elim (.ok .empty) (History.loadOrEmpty disk)
  return Console.start options settings history

/-- The whole program. It fails if a file cannot be loaded or the one expression fails. -/
def run (options : Options) (stamps : Nat → Stamp) (disk : Disk) (input : ByteArray) : Result :=
  match load options disk with
  | .error failure => { disk, output := [], errors := failure.report, fails := true }
  | .ok console =>
    match options.expression with
    | some expression =>
      let run := Run.once (stamps 0) { console, disk } expression
      { disk := run.disk, output := run.output, errors := run.errors, fails := run.fails }
    | none =>
      let run := Run.interact stamps { console, disk } (Console.inputLines input)
      { disk := run.disk, output := run.output, errors := run.errors, fails := false }

end Options

end Calculator
