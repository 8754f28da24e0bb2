import Calculator.History.Timestamp

/-!
# The text of an instant

Instants are written as date, `T`, time and `Z`, with no fraction of a second or one of three, six
or nine digits, the fewest that are exact. Years outside of 0 to 9999 have a sign. Reading is
laxer: fields need no leading zeros and may have blanks before them, the date and the time may be
divided by a space, a fraction may have any number of digits, and any offset from universal time of
less than a day may follow.
-/

namespace Calculator.Timestamp

-- Powers are those of `Nat` itself, whatever is imported.
attribute [local instance (high)] instPowNat

/-- A number in decimal with zeros in front up to `width` digits. -/
def padded (width n : Nat) : Text :=
  let digits := Text.ofNat n
  List.replicate (width - digits.length) '0' ++ digits

/-- The text of a year. -/
def yearText (year : Int) : Text :=
  if 0 ≤ year ∧ year ≤ 9999 then padded 4 year.toNat
  else (if year < 0 then '-' else '+') :: padded 4 year.natAbs

/-- The text of a fraction of a second, with its point. -/
def fractionText (nanosecond : Nat) : Text :=
  if nanosecond = 0 then []
  else if nanosecond % 1000000 = 0 then '.' :: padded 3 (nanosecond / 1000000)
  else if nanosecond % 1000 = 0 then '.' :: padded 6 (nanosecond / 1000)
  else '.' :: padded 9 nanosecond

/-- The written form of an instant. -/
def text (t : Timestamp) : Text :=
  yearText t.date.year ++ '-' :: padded 2 t.date.month ++ '-' :: padded 2 t.date.day ++
    'T' :: padded 2 t.hour ++ ':' :: padded 2 t.minute ++ ':' :: padded 2 t.second ++
    fractionText t.nanosecond ++ ['Z']

/-- Takes something from the start of a text, or finds that it is not there. -/
abbrev Reader := StateT Text Option

namespace Reader

/-- Takes all blanks. -/
def blanks : Reader Unit := modify Text.trimStart

/-- Takes one character. -/
def next : Reader Char
  | [] => none
  | c :: s => some (c, s)

/-- Takes blanks and one given character. -/
def mark (c : Char) : Reader Unit := do
  blanks
  guard ((← next) == c)

/-- Takes digits, at least one and at most `width`. -/
def digits (width : Nat) : Reader Text := do
  let run := ((← get).take width).takeWhile Char.isDigit
  guard !run.isEmpty
  modify (·.drop run.length)
  return run

/-- Takes blanks and a number of at most `width` digits. -/
def number (width : Nat) : Reader Nat := do
  blanks
  return Nat.ofDigitChars 10 (← digits width) 0

/-- Takes blanks and a year: four digits at most, or a sign and any number of digits. -/
def year : Reader Int := do
  blanks
  match ← get with
  | '-' :: s => do
    set s
    return -(Nat.ofDigitChars 10 (← digits s.length) 0 : Int)
  | '+' :: s => do
    set s
    return (Nat.ofDigitChars 10 (← digits s.length) 0 : Int)
  | _ => return (Nat.ofDigitChars 10 (← digits 4) 0 : Int)

/-- Takes a point and a fraction of a second, in nanoseconds; digits after the ninth count for
nothing. -/
def fraction : Reader Nat := do
  match ← get with
  | '.' :: s => do
    set s
    let run ← digits 9
    modify (·.dropWhile Char.isDigit)
    return Nat.ofDigitChars 10 run 0 * 10 ^ (9 - run.length)
  | _ => return 0

/-- Takes exactly two digits, as a number. -/
def pair : Reader Nat := do
  let tens ← next
  let ones ← next
  guard (tens.isDigit && ones.isDigit)
  return Nat.ofDigitChars 10 [tens, ones] 0

/-- Takes a sign. -/
def negative : Reader Bool := do
  match ← next with
  | '+' => return false
  | '-' | '−' => return true
  | _ => failure

/-- Takes an offset from universal time, in minutes. -/
def offset : Reader Int := do
  match ← get with
  | 'Z' :: s | 'z' :: s => do
    set s
    return 0
  | s =>
    if (s.take 3).map Char.toUpper = ['U', 'T', 'C'] then
      set (s.drop 3)
      return 0
    else
      let negative ← negative
      let hours ← pair
      modify (·.dropWhile fun c => c == ':' || Text.isBlank c)
      let minutes ← pair
      guard (decide (minutes < 60) && decide (hours < 24))
      let total : Int := (hours * 60 + minutes : Nat)
      return if negative then -total else total

/-- Takes the character between the date and the time. -/
def divider : Reader Unit := do
  let c ← next
  guard (c == 'T' || c == 't' || c == ' ')

/-- Takes an instant and the blanks after it. -/
def timestamp : Reader Timestamp := do
  let year ← year
  mark '-'
  let month ← number 2
  mark '-'
  let day ← number 2
  divider
  let hour ← number 2
  mark ':'
  let minute ← number 2
  mark ':'
  let second ← number 2
  let nanosecond ← fraction
  blanks
  let offset ← offset
  blanks
  let clock : Clock := ⟨⟨year, month, day⟩, hour, minute, second, nanosecond⟩
  guard clock.isValid
  (ofClock? (clock.back offset)).elim failure pure

end Reader

/-- Reads a whole text as an instant. -/
def parse? (s : Text) : Option Timestamp :=
  match Reader.timestamp.run s with
  | some (t, []) => some t
  | _ => none

end Calculator.Timestamp
