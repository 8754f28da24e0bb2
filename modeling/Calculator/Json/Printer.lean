import Calculator.Json.Basic

/-!
# Writing JSON

A value is written either without any blanks or with every member and item on a line of its own,
indented by two spaces for each level. In a string only quotes, backslashes and control characters
are escaped. A broken value is written as `null`, since no characters stand for it.
-/

namespace Calculator.Json

/-- The escape of a control character without a letter of its own. -/
def controlEscape (c : Char) : Text :=
  "\\u00" ++ [Nat.digitChar (c.toNat / 16), Nat.digitChar (c.toNat % 16)]

/-- A character inside a string. -/
def escape (c : Char) : Text :=
  if c = '"' then "\\\""
  else if c = '\\' then "\\\\"
  else if c = '\x08' then "\\b"
  else if c = '\x09' then "\\t"
  else if c = '\x0A' then "\\n"
  else if c = '\x0C' then "\\f"
  else if c = '\x0D' then "\\r"
  else if c.toNat < 0x20 then controlEscape c
  else [c]

/-- A string in quotes. -/
def quote (s : Text) : Text := '"' :: s.flatMap escape ++ ['"']

mutual

/-- A value without blanks. -/
def compact : Json → Text
  | .null | .broken => "null"
  | .bool b => if b then "true" else "false"
  | .number n => n.text
  | .string s => quote s
  | .array items => '[' :: compactItems items ++ [']']
  | .object members => '\x7b' :: compactMembers members ++ ['\x7d']

/-- Items with commas between them. -/
def compactItems : List Json → Text
  | [] => []
  | [item] => compact item
  | item :: items => compact item ++ ',' :: compactItems items

/-- Members with commas between them. -/
def compactMembers : List (Text × Json) → Text
  | [] => []
  | [(key, value)] => quote key ++ ':' :: compact value
  | (key, value) :: members => quote key ++ ':' :: compact value ++ ',' :: compactMembers members

end

/-- A new line at a level of indentation. -/
def newLine (level : Nat) : Text := '\n' :: List.replicate (2 * level) ' '

mutual

/-- A value with lines and indentation, whose first line is already indented to `level`. -/
def prettyAt (level : Nat) : Json → Text
  | .null | .broken => "null"
  | .bool b => if b then "true" else "false"
  | .number n => n.text
  | .string s => quote s
  | .array [] => "[]"
  | .array (item :: items) =>
    '[' :: prettyItems (level + 1) (item :: items) ++ newLine level ++ [']']
  | .object [] => ['\x7b', '\x7d']
  | .object (member :: members) =>
    '\x7b' :: prettyMembers (level + 1) (member :: members) ++ newLine level ++ ['\x7d']

/-- Items on lines of their own. -/
def prettyItems (level : Nat) : List Json → Text
  | [] => []
  | [item] => newLine level ++ prettyAt level item
  | item :: items => newLine level ++ prettyAt level item ++ ',' :: prettyItems level items

/-- Members on lines of their own. -/
def prettyMembers (level : Nat) : List (Text × Json) → Text
  | [] => []
  | [(key, value)] => newLine level ++ quote key ++ ':' :: ' ' :: prettyAt level value
  | (key, value) :: members =>
    newLine level ++ quote key ++ ':' :: ' ' :: prettyAt level value ++
      ',' :: prettyMembers level members

end

/-- A value with lines and indentation. -/
def pretty (json : Json) : Text := prettyAt 0 json

end Calculator.Json
