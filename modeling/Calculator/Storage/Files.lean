import Calculator.History.Json
import Calculator.History.Version
import Calculator.Settings.Json
import Calculator.Storage.Disk

/-!
# Files of histories and settings

A history is saved in four steps: a temporary file is created, written, brought to the disk, and
renamed to the file that it replaces. Whichever step fails, the file itself stays as it was. A file
that is read has to be UTF-8 and JSON, and a history has to be of a version that can be read.
-/

namespace Calculator

/-- The text of bytes that are UTF-8. -/
def Text.ofBytes? (bytes : ByteArray) : Option Text := (String.fromUTF8? bytes).map String.toList

/-- The bytes of a text in UTF-8. -/
def Text.toBytes (s : Text) : ByteArray := (String.ofList s).toUTF8

/-- The failure of an operation that the system refuses. -/
def Failure.ofFault (operation path : Text) (fault : DiskFault) : Failure :=
  .file operation path fault.text

/-- The value of a file from its bytes. -/
def readContents {α : Type} (operation path : Text) (ofJson? : Json → Option α)
    (bytes : ByteArray) : Except Failure α :=
  match Text.ofBytes? bytes with
  | none => .error (.file operation path "stream did not contain valid UTF-8")
  | some s =>
    match Json.parse? s with
    | none => .error (.format ("Invalid JSON in " ++ path ++ ": malformed text"))
    | some json =>
      match ofJson? json with
      | none => .error (.format ("Invalid JSON in " ++ path ++ ": unexpected value"))
      | some value => .ok value

namespace Settings

/-- What reading settings is called in a failure. -/
def reading : Text := "read settings"

/-- The settings in a file. -/
def load (disk : Disk) (path : Text) : Except Failure Settings := do
  let bytes ← (disk.read path).mapError (Failure.ofFault reading path)
  readContents reading path ofJson? bytes

end Settings

namespace History

/-- What reading a history is called in a failure. -/
def reading : Text := "read"

/-- The history that the bytes of a file give. -/
def ofContents (path : Text) (bytes : ByteArray) : Except Failure History := do
  checkVersion (← readContents reading path ofJson? bytes)

/-- The history in a file. -/
def load (disk : Disk) (path : Text) : Except Failure History := do
  ofContents path (← (disk.read path).mapError (Failure.ofFault reading path))

/-- The history in a file, or one without entries if the path leads to nothing. -/
def loadOrEmpty (disk : Disk) (path : Text) : Except Failure History :=
  match disk.find path with
  | .ok _ => load disk path
  | .error _ => .ok empty

end History

/-- The faults of the system at the steps of saving, for reasons that lie outside of the disk. -/
structure SaveFaults where
  /-- A fault on creating the temporary file. -/
  create : Option DiskFault := none
  /-- A fault on writing it, and the number of bytes written before. -/
  write : Option (Nat × DiskFault) := none
  /-- A fault on bringing it to the disk. -/
  sync : Option DiskFault := none
  /-- A fault on renaming it. -/
  rename : Option DiskFault := none

namespace Disk

/-- Saves bytes at a path by way of the temporary file. A temporary file that cannot be renamed is
removed. -/
def save (faults : SaveFaults) (disk : Disk) (path : Text) (bytes : ByteArray) :
    Disk × Except Failure Unit :=
  let temporary := Path.temporary path
  let fail (disk : Disk) (operation path : Text) (fault : DiskFault) :=
    (disk, Except.error (Failure.ofFault operation path fault))
  match faults.create.elim (disk.filePlace temporary) .error with
  | .error fault => fail disk "create temp file" temporary fault
  | .ok place =>
    match faults.write with
    | some (count, fault) =>
      fail (disk.put place (.file (bytes.extract 0 count))) "write temp file" temporary fault
    | none =>
      let written := disk.put place (.file bytes)
      match faults.sync with
      | some fault => fail written "sync temp file" temporary fault
      | none =>
        match faults.rename.elim (written.rename temporary path) .error with
        | .error fault => fail (written.erase place) "rename to final" path fault
        | .ok renamed => (renamed, .ok ())

end Disk

/-- Saves a history at a path. -/
def History.save (faults : SaveFaults) (disk : Disk) (path : Text) (history : History) :
    Disk × Except Failure Unit :=
  disk.save faults path (Text.toBytes history.text)

end Calculator
