import Calculator.Proofs.Expression.Grammar
import Calculator.Proofs.Number.Written
import Calculator.Scientific.Constants
import Mathlib.Data.List.Induction

/-!
# Writing the constants

Writing the values of the constants for their symbols works on each character alone. It leaves a
text without symbols as it is, and no double is written with a symbol, so the constant that is
written second does not change what the first one has become. Afterwards no symbol is left, and
characters that doubles are not written with are where they were.
-/

namespace Calculator

open Expression (spaces forall_mem_spaces)

theorem Text.replaceChar_eq_self {c : Char} {replacement s : Text} (hs : c ∉ s) :
    Text.replaceChar c replacement s = s := by
  induction s with
  | nil => rfl
  | cons d s ih =>
    rw [List.mem_cons, not_or] at hs
    have hne : d ≠ c := fun h => hs.1 h.symm
    have htail : s.flatMap (fun x => if x = c then replacement else [x]) = s := ih hs.2
    simp [Text.replaceChar, hne, htail]

theorem Text.replaceChar_cons (c : Char) (replacement : Text) (x : Char) (s : Text) :
    Text.replaceChar c replacement (x :: s) =
      (if x = c then replacement else [x]) ++ Text.replaceChar c replacement s :=
  List.flatMap_cons

theorem Text.replaceChar_append (c : Char) (replacement s t : Text) :
    Text.replaceChar c replacement (s ++ t) =
      Text.replaceChar c replacement s ++ Text.replaceChar c replacement t :=
  List.flatMap_append

/-- Two characters may be replaced in either order if neither is written for the other. -/
theorem Text.replaceChar_comm {c d : Char} {t u : Text} (hne : c ≠ d) (ht : d ∉ t) (hu : c ∉ u)
    (s : Text) : Text.replaceChar d u (Text.replaceChar c t s) =
      Text.replaceChar c t (Text.replaceChar d u s) := by
  induction s with
  | nil => rfl
  | cons x s ih =>
    rw [replaceChar_cons, replaceChar_cons, replaceChar_append, replaceChar_append, ih]
    congr 1
    by_cases hc : x = c
    · rw [if_pos hc, if_neg (hc ▸ hne), replaceChar_eq_self ht, hc, replaceChar_cons, if_pos rfl]
      exact (List.append_nil t).symm
    · rw [if_neg hc]
      by_cases hd : x = d
      · rw [if_pos hd, replaceChar_eq_self hu, hd, replaceChar_cons, if_pos rfl]
        exact List.append_nil u
      · rw [if_neg hd, replaceChar_cons, replaceChar_cons, if_neg hc, if_neg hd]
        rfl

namespace Constants

variable (constants : Constants)

theorem substitute_append (s t : Text) :
    constants.substitute (s ++ t) = constants.substitute s ++ constants.substitute t := by
  simp [substitute, Text.replaceChar]

/-- A text without symbols is left as it is. -/
theorem substitute_eq_self {s : Text} (hpi : 'π' ∉ s) (he : 'e' ∉ s) :
    constants.substitute s = s := by
  rw [substitute, Text.replaceChar_eq_self hpi, Text.replaceChar_eq_self he]

/-- What has the characters of numbers alone is left as it is. -/
theorem substitute_of_isOfNumber {s : Text} (hs : ∀ c ∈ s, Text.isOfNumber c = true) :
    constants.substitute s = s := by
  apply substitute_eq_self
  · intro hmem
    have hnumber := hs _ hmem
    contradiction
  · intro hmem
    have hnumber := hs _ hmem
    contradiction

theorem substitute_ofFloat (x : Float) :
    constants.substitute (Text.ofFloat x) = Text.ofFloat x :=
  constants.substitute_of_isOfNumber fun _ => Text.isOfNumber_of_mem_ofFloat

theorem substitute_pi : constants.substitute ['π'] = Text.ofFloat constants.pi := by
  have hpi : Text.replaceChar 'π' (Text.ofFloat constants.pi) ['π'] =
      Text.ofFloat constants.pi := by
    simp [Text.replaceChar]
  rw [substitute, hpi, Text.replaceChar_eq_self (Text.not_mem_ofFloat (by decide) _)]

theorem substitute_e : constants.substitute ['e'] = Text.ofFloat constants.e := by
  have hpi : Text.replaceChar 'π' (Text.ofFloat constants.pi) ['e'] = ['e'] :=
    Text.replaceChar_eq_self (by decide)
  rw [substitute, hpi]
  simp [Text.replaceChar]

theorem substitute_spaces (n : Nat) : constants.substitute (spaces n) = spaces n := by
  have hspaces : ∀ c ∈ spaces n, c ≠ 'π' ∧ c ≠ 'e' := forall_mem_spaces (by decide) n
  exact constants.substitute_eq_self (fun hmem => (hspaces _ hmem).1 rfl)
    (fun hmem => (hspaces _ hmem).2 rfl)

theorem substitute_cons {c : Char} (hpi : c ≠ 'π') (he : c ≠ 'e') (s : Text) :
    constants.substitute (c :: s) = c :: constants.substitute s := by
  have hc : constants.substitute [c] = [c] :=
    constants.substitute_eq_self (by simpa using hpi.symm) (by simpa using he.symm)
  have happend := constants.substitute_append [c] s
  rwa [hc] at happend

/-- A character is left as it is, or is a symbol and becomes the text of a double. -/
theorem substitute_singleton_cases (c : Char) :
    ((c ≠ 'π' ∧ c ≠ 'e') ∧ constants.substitute [c] = [c]) ∨
      (c = 'π' ∨ c = 'e') ∧ ∃ x, constants.substitute [c] = Text.ofFloat x := by
  by_cases hpi : c = 'π'
  · subst hpi
    exact .inr ⟨.inl rfl, _, constants.substitute_pi⟩
  · by_cases he : c = 'e'
    · subst he
      exact .inr ⟨.inr rfl, _, constants.substitute_e⟩
    · exact .inl ⟨⟨hpi, he⟩, constants.substitute_cons hpi he []⟩

theorem substitute_eq_nil_iff {s : Text} : constants.substitute s = [] ↔ s = [] := by
  cases s with
  | nil => exact iff_of_true rfl rfl
  | cons c s =>
    rw [← List.singleton_append, substitute_append]
    rcases constants.substitute_singleton_cases c with ⟨-, hc⟩ | ⟨-, x, hx⟩
    · simp [hc]
    · obtain ⟨w, d, hw, -⟩ := Text.exists_ofFloat_eq_concat x
      simp [hx, hw]

/-- No symbol is left. -/
theorem ne_symbol_of_mem_substitute {s : Text} {c : Char} (hc : c ∈ constants.substitute s) :
    c ≠ 'π' ∧ c ≠ 'e' := by
  induction s with
  | nil => cases hc
  | cons d s ih =>
    rw [← List.singleton_append, substitute_append, List.mem_append] at hc
    rcases hc with hc | hc
    · rcases constants.substitute_singleton_cases d with ⟨hne, hd⟩ | ⟨-, x, hx⟩
      · rw [hd, List.mem_singleton] at hc
        rwa [hc]
      · rw [hx] at hc
        have hnumber := Text.isOfNumber_of_mem_ofFloat hc
        constructor <;> rintro rfl <;> contradiction
    · exact ih hc

/-- Writing constants a second time changes nothing, whatever values they have then. -/
theorem substitute_substitute (other : Constants) (s : Text) :
    other.substitute (constants.substitute s) = constants.substitute s :=
  other.substitute_eq_self (fun h => (constants.ne_symbol_of_mem_substitute h).1 rfl)
    fun h => (constants.ne_symbol_of_mem_substitute h).2 rfl

/-- What is written for a character on its own. -/
def written (c : Char) : Text :=
  if c = 'π' then Text.ofFloat constants.pi
  else if c = 'e' then Text.ofFloat constants.e
  else [c]

theorem substitute_singleton (c : Char) : constants.substitute [c] = constants.written c := by
  unfold written
  split
  · rename_i hpi
    rw [hpi, substitute_pi]
  · rename_i hpi
    split
    · rename_i he
      rw [he, substitute_e]
    · rename_i he
      exact constants.substitute_cons hpi he []

/-- Every character is replaced on its own. -/
theorem substitute_eq_flatMap (s : Text) :
    constants.substitute s = s.flatMap constants.written := by
  induction s with
  | nil => rfl
  | cons c s ih =>
    rw [← List.singleton_append, substitute_append, substitute_singleton, ih,
      List.singleton_append, List.flatMap_cons]

/-- The constants may be written in the other order. -/
theorem substitute_eq_swapped (s : Text) :
    constants.substitute s = Text.replaceChar 'π' (Text.ofFloat constants.pi)
      (Text.replaceChar 'e' (Text.ofFloat constants.e) s) :=
  Text.replaceChar_comm (by decide) (Text.not_mem_ofFloat (by decide) _)
    (Text.not_mem_ofFloat (by decide) _) s

/-- **The constants are written at once**: every symbol is replaced by the text of its constant and
every other character is kept, whatever stands around it. So texts may be joined before or after,
the order of the two constants makes no difference, no symbol is left, and writing constants again,
of whatever values, changes nothing. -/
theorem substitute_simultaneous (s : Text) :
    constants.substitute s = s.flatMap constants.written ∧
    (∀ t, constants.substitute (s ++ t) = constants.substitute s ++ constants.substitute t) ∧
    constants.substitute s = Text.replaceChar 'π' (Text.ofFloat constants.pi)
      (Text.replaceChar 'e' (Text.ofFloat constants.e) s) ∧
    'π' ∉ constants.substitute s ∧ 'e' ∉ constants.substitute s ∧
    ∀ other : Constants, other.substitute (constants.substitute s) = constants.substitute s := by
  refine ⟨constants.substitute_eq_flatMap s, constants.substitute_append s,
    constants.substitute_eq_swapped s, fun hmem => ?_, fun hmem => ?_,
    fun other => constants.substitute_substitute other s⟩
  · exact (constants.ne_symbol_of_mem_substitute hmem).1 rfl
  · exact (constants.ne_symbol_of_mem_substitute hmem).2 rfl

/-- A character that is neither a symbol nor in the text of a double is as frequent as before. -/
theorem count_substitute {x : Char} (hpi : x ≠ 'π') (he : x ≠ 'e')
    (hx : Text.isOfNumber x = false) (s : Text) :
    (constants.substitute s).count x = s.count x := by
  induction s with
  | nil => rfl
  | cons c s ih =>
    rw [← List.singleton_append, substitute_append, List.count_append, List.count_append, ih]
    rcases constants.substitute_singleton_cases c with ⟨-, hc⟩ | ⟨hsymbol, y, hy⟩
    · rw [hc]
    · have hwritten : x ∉ Text.ofFloat y := Text.not_mem_ofFloat hx y
      have hne : x ∉ [c] := by
        rw [List.mem_singleton]
        rintro rfl
        exact hsymbol.elim hpi he
      rw [hy, List.count_eq_zero_of_not_mem hwritten, List.count_eq_zero_of_not_mem hne]

/-! ## What the constants are written into -/

/-- A character that is not in the text of a double is found where it stood before the constants
were written. -/
theorem exists_of_substitute_eq_append_cons {s a b : Text} {x : Char}
    (hx : Text.isOfNumber x = false) (h : constants.substitute s = a ++ x :: b) :
    ∃ a' b', s = a' ++ x :: b' ∧ constants.substitute a' = a ∧ constants.substitute b' = b := by
  induction s generalizing a with
  | nil => simp [substitute, Text.replaceChar] at h
  | cons c s ih =>
    rw [← List.singleton_append, substitute_append] at h
    rcases List.append_eq_append_iff.mp h with ⟨m, hm, hrest⟩ | ⟨m, hm, hrest⟩
    · obtain ⟨a', b', rfl, ha, hb⟩ := ih hrest
      refine ⟨c :: a', b', rfl, ?_, hb⟩
      rw [← List.singleton_append, substitute_append, ha, hm]
    · cases m with
      | nil =>
        obtain ⟨a', b', rfl, ha, hb⟩ := ih (a := []) hrest.symm
        refine ⟨c :: a', b', rfl, ?_, hb⟩
        rw [← List.singleton_append, substitute_append, ha, hm, List.append_nil, List.append_nil]
      | cons y m =>
        -- the character was written for `c`, so it is `c`
        cases hrest
        rcases constants.substitute_singleton_cases c with ⟨-, hc⟩ | ⟨-, z, hz⟩
        · rw [hc] at hm
          obtain ⟨rfl, ⟨⟨⟩, rfl⟩⟩ | h := List.singleton_eq_append_iff.mp hm
          · exact ⟨[], s, rfl, rfl, rfl⟩
          · simp at h
        · have hmem : x ∈ Text.ofFloat z := by simp [← hz, hm]
          exact absurd hmem (Text.not_mem_ofFloat hx z)

/-- An end of a text without the last characters of doubles was its end before the constants were
written. -/
theorem exists_of_substitute_eq_append {s a b : Text}
    (hb : ∀ c ∈ b, Text.endsNumber c = false) (h : constants.substitute s = a ++ b) :
    ∃ a', s = a' ++ b ∧ constants.substitute a' = a := by
  induction b using List.reverseRecOn generalizing s with
  | nil => exact ⟨s, (List.append_nil s).symm, by rw [h, List.append_nil]⟩
  | append_singleton b x ih =>
    rw [List.forall_mem_append, List.forall_mem_singleton] at hb
    rcases List.eq_nil_or_concat s with rfl | ⟨s, c, rfl⟩
    · simp [substitute, Text.replaceChar] at h
    · rw [List.concat_eq_append, substitute_append] at *
      rcases constants.substitute_singleton_cases c with ⟨-, hc⟩ | ⟨-, y, hy⟩
      · rw [hc, ← List.append_assoc] at h
        obtain ⟨hrest, ⟨⟩⟩ := List.append_inj' h rfl
        obtain ⟨a', rfl, ha⟩ := ih hb.1 hrest
        exact ⟨a', List.append_assoc .., ha⟩
      · obtain ⟨w, z, hw, hz⟩ := Text.exists_ofFloat_eq_concat y
        rw [hy, hw, ← List.append_assoc, ← List.append_assoc] at h
        obtain ⟨-, ⟨⟩⟩ := List.append_inj' h rfl
        rw [hb.2] at hz
        cases hz

end Constants

end Calculator
