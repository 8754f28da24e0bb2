import Calculator.Storage.Path

/-!
# Disks

A disk holds files and folders at places. A path leads to a place by way of the folders that it goes
through, each of which has to be there. What stands at one place can be changed without touching any
other. An operation on a path fails if something is missing, or is a folder and should not be, or
the other way around. There are no links, hard or symbolic: two places never hold one file, and a
path of names leads to the place with these names and to no other.
-/

namespace Calculator

/-- A place on a disk: the names of the folders around it from the outermost, and its own name. -/
abbrev Place := List Text

/-- What stands at a place. -/
inductive Node where
  /-- A file with its bytes. -/
  | file (bytes : ByteArray)
  /-- A folder. -/
  | folder

/-- Why the system refuses an operation on a path. -/
inductive DiskFault where
  /-- Nothing stands at the place, or one of its folders is missing. -/
  | missing
  /-- A file stands where a folder should. -/
  | notFolder
  /-- A folder stands where a file should. -/
  | isFolder
  /-- The path leads to a folder by points and not by its name. -/
  | busy
  /-- The path, or a name in it, is too long. -/
  | tooLong
  /-- The path holds the character with number zero. -/
  | nullCharacter
  /-- Any other reason. -/
  | other (reason : Text)
  deriving DecidableEq, Repr

/-- The words of the system for a fault. -/
def DiskFault.text : DiskFault → Text
  | .missing => "No such file or directory (os error 2)"
  | .notFolder => "Not a directory (os error 20)"
  | .isFolder => "Is a directory (os error 21)"
  | .busy => "Device or resource busy (os error 16)"
  | .tooLong => "File name too long (os error 36)"
  | .nullCharacter => "file name contained an unexpected NUL byte"
  | .other reason => reason

/-- The files and folders, each at its place. -/
structure Disk where
  /-- The nodes; of two at one place the first counts. -/
  nodes : List (Place × Node)
  /-- The folder where a path starts that does not start with a slash. -/
  home : Place := []

namespace Disk

/-- A disk without files, seen from its outermost folder. -/
def empty : Disk := { nodes := [] }

/-- What stands at a place. The outermost folder is always there. -/
def get? (disk : Disk) : Place → Option Node
  | [] => some .folder
  | place => disk.nodes.lookup place

/-- A disk without what stands at a place. -/
def erase (disk : Disk) (place : Place) : Disk :=
  { disk with nodes := disk.nodes.filter (·.1 != place) }

/-- A disk with something at a place. -/
def put (disk : Disk) (place : Place) (node : Node) : Disk :=
  { disk with nodes := (place, node) :: (disk.erase place).nodes }

/-- Where a path leads. -/
structure Location where
  /-- The folder that the path goes through last. -/
  folder : Place
  /-- The last part, a name or points. -/
  last : Text
  /-- Whether a slash follows the last part. -/
  slashed : Bool
  deriving DecidableEq, Repr

/-- The place of something with the name of a location. -/
def Location.place (location : Location) : Place := location.folder ++ [location.last]

/-- The folder that a part of a path leads to. -/
def enter (disk : Disk) (place : Place) (part : Text) : Except DiskFault Place :=
  if part = "." then .ok place
  else if part = ".." then .ok place.dropLast
  else if Path.maxNameLength < Text.byteLength part then .error .tooLong
  else
    match disk.get? (place ++ [part]) with
    | some .folder => .ok (place ++ [part])
    | some (.file _) => .error .notFolder
    | none => .error .missing

/-- Where a path leads, by way of folders that are all there. -/
def locate (disk : Disk) (path : Text) : Except DiskFault Location :=
  if path.contains '\x00' then .error .nullCharacter
  else if path.isEmpty then .error .missing
  else if Path.maxLength < Text.byteLength path then .error .tooLong
  else
    let parts := Path.parts path
    let start := if Path.isAbsolute path then [] else disk.home
    (parts.dropLast.foldlM disk.enter start).map fun folder =>
      ⟨folder, parts.getLastD ".", Path.endsInSlash path⟩

/-- What stands at a location; points lead to folders. -/
def nodeAt? (disk : Disk) (location : Location) : Except DiskFault (Option Node) :=
  if !Path.isName location.last then .ok (some .folder)
  else if Path.maxNameLength < Text.byteLength location.last then .error .tooLong
  else .ok (disk.get? location.place)

/-- What a path leads to. -/
def find (disk : Disk) (path : Text) : Except DiskFault Node := do
  let location ← disk.locate path
  match ← disk.nodeAt? location with
  | some .folder => .ok .folder
  | some (.file bytes) => if location.slashed then .error .notFolder else .ok (.file bytes)
  | none => .error .missing

/-- The bytes of a file. -/
def read (disk : Disk) (path : Text) : Except DiskFault ByteArray := do
  match ← disk.find path with
  | .file bytes => .ok bytes
  | .folder => .error .isFolder

/-- The place of the file that a path leads to, whether or not there is one yet. -/
def filePlace (disk : Disk) (path : Text) : Except DiskFault Place := do
  let location ← disk.locate path
  match ← disk.nodeAt? location with
  | some .folder => .error .isFolder
  | _ => if location.slashed then .error .isFolder else .ok location.place

/-- A disk on which a file has taken the place of what stood where another path leads. A folder
stays where it is. -/
def rename (disk : Disk) (source target : Text) : Except DiskFault Disk := do
  let source ← disk.locate source
  let target ← disk.locate target
  if !Path.isName source.last || !Path.isName target.last then .error .busy
  else
    match ← disk.nodeAt? source, ← disk.nodeAt? target with
    | none, _ => .error .missing
    | some .folder, _ => .error .isFolder
    | some (.file bytes), replaced =>
      if source.slashed || target.slashed then .error .notFolder
      else match replaced with
        | some .folder => .error .isFolder
        | _ => .ok ((disk.erase source.place).put target.place (.file bytes))

/-- The names in the folder where paths start, in alphabetical order. -/
def names (disk : Disk) : List Text :=
  let inside := disk.nodes.filterMap fun (place, _) =>
    if place.dropLast = disk.home then place.getLast? else none
  inside.mergeSort fun a b => decide (String.ofList a ≤ String.ofList b)

end Disk

end Calculator
