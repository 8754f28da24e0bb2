import Calculator.Text

/-!
# Paths

A path is a text of parts with slashes between them. A part of one point stays in its folder, a part
of two points leads out of it, and any other part is a name. Several slashes count as one, and
slashes and lone points after the last name do not change which name that is.

A file is saved under a temporary name first: the name without what follows its last point, and
`.json.tmp`. A point at the start of a name is part of it.
-/

namespace Calculator.Path

/-- The greatest length of a name in bytes. -/
def maxNameLength : Nat := 255

/-- The greatest length of a path in bytes. -/
def maxLength : Nat := 4095

/-- The parts of a path, from the outermost. -/
def parts (path : Text) : List Text := (Text.splitAtChar '/' path).filter (· ≠ [])

/-- Whether a path starts at the outermost folder of all. -/
def isAbsolute (path : Text) : Bool := path.head? == some '/'

/-- Whether a slash ends a path, so that it can only lead to a folder. -/
def endsInSlash (path : Text) : Bool := path.getLast? == some '/'

/-- Whether a part is a name. -/
def isName (part : Text) : Bool := !(["", ".", ".."] : List Text).contains part

/-- A reversed path from the end of its last name on: without the slashes and lone points before. -/
def skipEnd : Text → Text
  | '/' :: path => skipEnd path
  | '.' :: '/' :: path => skipEnd path
  | path => path

/-- The part of a path up to the slash before its last name. -/
def folder (path : Text) : Text := ((skipEnd path.reverse).dropWhile (· != '/')).reverse

/-- The last name of a path, or what stands in its place. -/
def name (path : Text) : Text := ((skipEnd path.reverse).takeWhile (· != '/')).reverse

/-- A name without its last point and what follows it. -/
def stem (name : Text) : Text :=
  match name.reverse.dropWhile (· != '.') with
  | [] | ['.'] => name
  | _ :: before => before.reverse

/-- What follows the last point of a name, if the name does not start with this point. -/
def ending (name : Text) : Text := name.drop ((stem name).length + 1)

/-- A path without as many characters as the ending of its name has. If slashes follow the name,
some characters of the ending are left, but its stem is not touched. -/
def withoutEnding (path : Text) : Text := path.take (path.length - (ending (name path)).length)

/-- The path under which a file is written before it takes the place of another. The new ending goes
to the stem of what is left without the old one. Two points, which are left of the name of two
points and an ending, are no name and get none. -/
def temporary (path : Text) : Text :=
  let left := withoutEnding path
  if isName (name left) then folder left ++ stem (name left) ++ ".json.tmp" else left

end Calculator.Path
