import Calculator.Json.Parser
import Calculator.Json.Printer

/-!
# Strings in JSON

A string is written character by character, and every character is read back as one piece: a control
character without a letter of its own as the unit that its escape names, any other as itself. The
pieces of a written string are never halves of surrogate pairs, so they join to the string again.
-/

namespace Calculator.Json

/-- The characters that are written as a backslash and a letter or mark. -/
def lettered : List Char := ['"', '\\', '\x08', '\x09', '\x0A', '\x0C', '\x0D']

/-- What a written character is read as. -/
def Piece.of (c : Char) : Piece :=
  if c ∉ lettered ∧ c.toNat < 0x20 then .unit c.toNat else .char c

/-- A character is written with a letter, by its number, or as itself. -/
theorem escape_cases (c : Char) :
    (c ∈ lettered ∧ ∃ letter, escape c = ['\\', letter] ∧ letter ≠ 'u' ∧
      escaped? letter = some c) ∨
    (c ∉ lettered ∧ c.toNat < 0x20 ∧ escape c = controlEscape c) ∨
    (c ∉ lettered ∧ ¬c.toNat < 0x20 ∧ escape c = [c]) := by
  by_cases hc : c ∈ lettered
  · left
    refine ⟨hc, ?_⟩
    simp only [lettered, List.mem_cons, List.not_mem_nil, or_false] at hc
    rcases hc with rfl | rfl | rfl | rfl | rfl | rfl | rfl
    · exact ⟨'"', rfl, by decide, rfl⟩
    · exact ⟨'\\', rfl, by decide, rfl⟩
    · exact ⟨'b', rfl, by decide, rfl⟩
    · exact ⟨'t', rfl, by decide, rfl⟩
    · exact ⟨'n', rfl, by decide, rfl⟩
    · exact ⟨'f', rfl, by decide, rfl⟩
    · exact ⟨'r', rfl, by decide, rfl⟩
  · right
    have hmarks := hc
    simp only [lettered, List.mem_cons, List.not_mem_nil, or_false, not_or] at hmarks
    simp only [escape, hmarks, if_false, hc, not_false_eq_true, true_and]
    by_cases hlow : c.toNat < 0x20
    · exact .inl ⟨hlow, if_pos hlow⟩
    · exact .inr ⟨hlow, if_neg hlow⟩

/-- The digits of a control character are read as its number. -/
private theorem magnitude?_controlDigits : ∀ code < 0x20,
    Radix.hex.magnitude? ['0', '0', Nat.digitChar (code / 16), Nat.digitChar (code % 16)] =
      some code := by
  decide

/-- The reader takes a written character as its piece. -/
theorem readPieces_escape (c : Char) (rest : Text) :
    readPieces (escape c ++ rest) =
      (readPieces rest).map fun (pieces, rest) => (Piece.of c :: pieces, rest) := by
  rcases escape_cases c with ⟨hc, letter, hescape, hletter, hread⟩ | ⟨hc, hlow, hescape⟩ |
    ⟨hc, hlow, hescape⟩
  · rw [hescape, List.cons_append, List.singleton_append,
      readPieces.eq_4 _ _ fun _ _ _ _ _ h => absurd h hletter, hread, Piece.of,
      if_neg fun h => h.1 hc]
    cases readPieces rest <;> rfl
  · rw [hescape, Piece.of, if_pos ⟨hc, hlow⟩]
    change readPieces ('\\' :: 'u' :: '0' :: '0' :: _ :: _ :: rest) = _
    rw [readPieces, magnitude?_controlDigits _ hlow]
    cases readPieces rest <;> rfl
  · simp only [lettered, List.mem_cons, not_or] at hc
    rw [hescape, List.singleton_append,
      readPieces.eq_5 _ _ hc.1 (fun _ _ _ _ _ h => absurd h hc.2.1) fun _ _ h => absurd h hc.2.1,
      if_neg (by simp [hlow, hc.2.1]), Piece.of, if_neg fun h => hlow h.2]
    cases readPieces rest <;> rfl

theorem joinPieces_unit {n : Nat} (hn : n < 0xD800) (pieces : List Piece) :
    joinPieces (.unit n :: pieces) = (joinPieces pieces).map (Char.ofNat n :: ·) := by
  rcases pieces with _ | ⟨c | low, pieces⟩
  · rw [joinPieces.eq_4 _ _ (fun _ _ h => by cases h), if_neg (by omega)]
  · rw [joinPieces.eq_4 _ _ (fun _ _ h => by cases h), if_neg (by omega)]
  · rw [joinPieces, if_neg (by omega), if_neg (by omega)]

/-- The pieces of a string join to the string. -/
theorem joinPieces_map_of (s : Text) : joinPieces (s.map Piece.of) = some s := by
  induction s with
  | nil => rfl
  | cons c s ih =>
    rw [List.map_cons, Piece.of]
    split
    · rename_i hlow
      rw [joinPieces_unit (by omega), ih, Char.ofNat_toNat, Option.map_some]
    · rw [joinPieces, ih, Option.map_some]

/-- A written string is read up to its closing quote. -/
theorem readPieces_flatMap_escape (s rest : Text) :
    readPieces (s.flatMap escape ++ '"' :: rest) = some (s.map Piece.of, rest) := by
  induction s with
  | nil => rw [List.flatMap_nil, List.nil_append, readPieces, List.map_nil]
  | cons c s ih =>
    rw [List.flatMap_cons, List.append_assoc, readPieces_escape, ih, Option.map_some, List.map_cons]

end Calculator.Json
