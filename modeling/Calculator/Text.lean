/-!
# Text

Expressions, displays and messages are lists of characters, so that a position counts characters
and every law about text is an induction on it. White space is Unicode's `White_Space` property.
-/

namespace Calculator

/-- A text is the list of its characters. -/
abbrev Text := List Char

instance : Coe String Text := ⟨String.toList⟩

instance decidableEqExcept {ε α : Type} [DecidableEq ε] [DecidableEq α] : DecidableEq (Except ε α)
  | .error a, .error b => decidable_of_decidable_of_iff (p := a = b) (by simp)
  | .ok a, .ok b => decidable_of_decidable_of_iff (p := a = b) (by simp)
  | .error _, .ok _ | .ok _, .error _ => isFalse nofun

namespace Text

/-- The characters with Unicode's `White_Space` property. -/
def isBlank (c : Char) : Bool :=
  let n := c.toNat
  (0x09 ≤ n && n ≤ 0x0D) || n == 0x20 || n == 0x85 || n == 0xA0 || n == 0x1680 ||
    (0x2000 ≤ n && n ≤ 0x200A) || n == 0x2028 || n == 0x2029 || n == 0x202F || n == 0x205F ||
    n == 0x3000

/-- A text without the blanks at its start. -/
def trimStart (s : Text) : Text := s.dropWhile isBlank

/-- A text without the blanks at its end. -/
def trimEnd (s : Text) : Text := (s.reverse.dropWhile isBlank).reverse

/-- A text without the blanks at either end. -/
def trim (s : Text) : Text := trimEnd (trimStart s)

/-- The maximal runs of characters that are not blank, in order. -/
def words (s : Text) : List Text := (s.splitOnP isBlank).filter (· ≠ [])

/-- Writes `replacement` for every occurrence of the character `c`. -/
def replaceChar (c : Char) (replacement s : Text) : Text :=
  s.flatMap fun x => if x = c then replacement else [x]

/-- The parts of a text between the occurrences of the character `c`; there is always one part. -/
def splitAtChar (c : Char) (s : Text) : List Text := s.splitOnP (· == c)

/-- The text `s` and blanks up to `width` characters. -/
def padRight (width : Nat) (s : Text) : Text := s ++ List.replicate (width - s.length) ' '

/-- Blanks up to `width` characters and the text `s`. -/
def padLeft (width : Nat) (s : Text) : Text := List.replicate (width - s.length) ' ' ++ s

/-- The rest of a text after one that it starts with. -/
def dropStart? : Text → Text → Option Text
  | [], s => some s
  | _ :: _, [] => none
  | c :: t, d :: s => if c = d then dropStart? t s else none

/-- The length of a text in bytes of UTF-8. -/
def byteLength (s : Text) : Nat := (s.flatMap String.utf8EncodeChar).length

/-- The decimal digits of a natural number. -/
def ofNat (n : Nat) : Text := Nat.toDigits 10 n

/-- The natural number that digits stand for, after a plus sign or not. -/
def natural? (s : Text) : Option Nat :=
  let digits := match s with
    | '+' :: digits => digits
    | digits => digits
  if digits.isEmpty || !digits.all Char.isDigit then none
  else some (Nat.ofDigitChars 10 digits 0)

/-- Texts as lines, each with its line feed. -/
def lines (parts : List Text) : Text := parts.flatMap (· ++ ['\n'])

end Text

end Calculator
