import Calculator.Console.Run
import Std.Time.DateTime.PlainDateTime
import Std.Time.DateTime.Timestamp

/-!
# The program

The console on the files, the input, the clock and the random numbers of the system. Everything that
is decided is decided by `Console`; only the steps are carried out here.
-/

namespace Calculator.Program

/-- The number of an error of the system, which some calls give as its negative. -/
def errorNumber (code : UInt32) : UInt32 := min code (-code)

/-- The fault that an error of the system is. -/
def faultOf (error : IO.Error) : DiskFault :=
  match error with
  | .noFileOrDirectory .. => .missing
  | .inappropriateType _ code _ => if errorNumber code = 21 then .isFolder else .notFolder
  | .invalidArgument _ code _ =>
    if errorNumber code = 36 then .tooLong else .other error.toString.toList
  | .resourceBusy .. => .busy
  | .permissionDenied .. => .other "Permission denied (os error 13)"
  | _ => .other error.toString.toList

/-- Carries out an action and keeps its fault. -/
def attempt {α : Type} (action : IO α) : IO (Except DiskFault α) := do
  try
    return .ok (← action)
  catch error =>
    return .error (faultOf error)

/-- The bytes of a file. -/
def readBytes (path : Text) : IO (Except DiskFault ByteArray) :=
  attempt (IO.FS.readBinFile (String.ofList path))

/-- Saves bytes by way of the temporary file, step by step as `Disk.save` does. -/
def saveBytes (path : Text) (bytes : ByteArray) : IO (Except Failure Unit) := do
  let temporary := Path.temporary path
  let target := String.ofList path
  let source := String.ofList temporary
  match ← attempt (IO.FS.Handle.mk source .write) with
  | .error fault => return .error (.ofFault "create temp file" temporary fault)
  | .ok handle =>
    match ← attempt (handle.write bytes) with
    | .error fault => return .error (.ofFault "write temp file" temporary fault)
    | .ok () =>
      match ← attempt handle.flush with
      | .error fault => return .error (.ofFault "sync temp file" temporary fault)
      | .ok () =>
        match ← attempt (IO.FS.rename source target) with
        | .error fault => do
          let _ ← attempt (IO.FS.removeFile source)
          return .error (.ofFault "rename to final" path fault)
        | .ok () => return .ok ()

/-- A random identifier of version four. -/
def freshId : IO Uuid := do
  let bytes ← IO.getRandomBytes 16
  let bits := bytes.toList.foldl (fun n byte => n * 256 + byte.toNat) 0
  let mask : BitVec 128 := 0xffffffffffff0fff3fffffffffffffff
  let version : BitVec 128 := 0x00000000000040008000000000000000
  return ⟨(BitVec.ofNat 128 bits &&& mask) ||| version⟩

/-- The first instant of the clock of the system. -/
def epoch : Timestamp := ⟨⟨⟨1970, 1, 1⟩, 0, 0, 0, 0⟩, by decide⟩

/-- The instant that it is. -/
def now : IO Timestamp := do
  let elapsed := (← Std.Time.Timestamp.now).toNanosecondsSinceUnixEpoch
  let clock := Std.Time.PlainDateTime.ofWallTime (Std.Time.WallTime.ofNanoseconds elapsed)
  let date : Date :=
    ⟨clock.date.year.toInt, clock.date.month.val.toNat, clock.date.day.val.toNat⟩
  let second := clock.time.second.val.toNat
  let fields : Clock :=
    ⟨date, clock.time.hour.val.toNat, clock.time.minute.val.toNat, second,
      clock.time.nanosecond.val.toNat⟩
  return (Timestamp.ofClock? fields).getD epoch

/-- A stamp for an entry made now. -/
def freshStamp : IO Stamp := return ⟨← freshId, ← now⟩

/-- Prints a text. -/
def print (s : Text) : IO Unit := do
  let output ← IO.getStdout
  output.putStr (String.ofList s)
  output.flush

/-- Prints the report of a failure. -/
def report (failure : Failure) : IO Unit := IO.eprint (String.ofList failure.report)

/-- Prints a reply and saves the history if it has to be saved. -/
def settle (reply : Console.Reply) : IO Unit := do
  print reply.output
  match (if reply.saves then reply.console.archive else none) with
  | none => print reply.confirmation
  | some path =>
    match ← saveBytes path (Text.toBytes reply.console.history.text) with
    | .ok () => print reply.confirmation
    | .error failure => report failure

/-- The bytes of the input up to its next line feed, after the bytes already read. -/
partial def readLine (input : IO.FS.Stream) (seen : ByteArray) : IO ByteArray := do
  let next ← input.read 1
  if next.isEmpty then return seen
  else if next.toList = [10] then return seen ++ next
  else readLine input (seen ++ next)

/-- The next line of the input; none at its end, and none for what is not UTF-8. -/
def nextLine : IO (Option Text) := do
  let bytes ← readLine (← IO.getStdin) .empty
  return if bytes.isEmpty then none else Text.ofBytes? bytes

/-- Takes lines until they end or one of them ends the console. -/
partial def interact (console : Console) : IO Unit := do
  print console.prompt
  match ← nextLine with
  | none => return
  | some line =>
    let reply := console.handle (← freshStamp) line
    settle reply
    if reply.ends then return
    interact reply.console

/-- The settings of a run. -/
def loadSettings : Option Text → IO (Except Failure Settings)
  | none => return .ok {}
  | some path => do
    match ← readBytes path with
    | .error fault => return .error (.ofFault Settings.reading path fault)
    | .ok bytes => return readContents Settings.reading path Settings.ofJson? bytes

/-- The history of a run. -/
def loadHistory : Option Text → IO (Except Failure History)
  | none => return .ok .empty
  | some path => do
    match ← readBytes path with
    | .error .missing | .error .notFolder | .error .tooLong => return .ok .empty
    | .error fault => return .error (.ofFault History.reading path fault)
    | .ok bytes => return History.ofContents path bytes

/-- Runs the console with its options. -/
def run (options : Options) : IO UInt32 := do
  match ← loadSettings options.config with
  | .error failure => do
    report failure
    return 1
  | .ok settings =>
    match ← loadHistory options.archive with
    | .error failure => do
      report failure
      return 1
    | .ok history =>
      let console := Console.start options settings history
      match options.expression with
      | some expression => do
        let reply := console.calculate (← freshStamp) expression
        settle reply
        return if reply.fails then 1 else 0
      | none => do
        print Console.banner
        interact console
        return 0

/-- How the program is called. -/
def usage : Text :=
  Text.lines [
    "Usage: calculator [--mode engineering|programmer] [--base bin|oct|dec|hex]",
    "                  [--config FILE] [--history FILE] [--json] [--] [EXPRESSION]"]

end Calculator.Program

/-- The program. -/
def main (words : List String) : IO UInt32 := do
  match Calculator.Options.parse? (words.map String.toList) with
  | some options => Calculator.Program.run options
  | none => do
    IO.eprint (String.ofList Calculator.Program.usage)
    return 2
