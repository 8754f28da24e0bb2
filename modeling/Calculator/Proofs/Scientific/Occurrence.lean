import Calculator.Scientific.Call
import Mathlib.Data.List.Basic

/-!
# Occurrences of calls in a text

The calls that can be reduced are those whose argument is not empty and holds no bracket. This file
proves that the search for the first of them finds one exactly if there is one, and that two of them
in one text are the same call at the same place or stand apart from each other. So the one that is
found is the only one that no other comes before.
-/

namespace Calculator

theorem isBracket_iff {c : Char} : isBracket c = true ↔ c = '(' ∨ c = ')' := by
  simp [isBracket]

theorem Function.mem_all (f : Function) : f ∈ Function.all := by
  cases f <;> decide

/-- Names hold no brackets. -/
theorem Function.not_mem_name {c : Char} (hc : isBracket c = true) (f : Function) :
    c ∉ f.name := by
  have hname : f.name.all (!isBracket ·) = true := by cases f <;> decide
  intro hmem
  have hnot := List.all_eq_true.mp hname c hmem
  simp [hc] at hnot

/-- No name ends with another one, so the name before an opening bracket is unique. -/
theorem Function.eq_of_append_name {f f' : Function} {a b : Text}
    (h : a ++ f.name = b ++ f'.name) : a = b ∧ f = f' := by
  have hreverse : f.name.reverse ++ a.reverse = f'.name.reverse ++ b.reverse := by
    rw [← List.reverse_append, ← List.reverse_append, h]
  revert hreverse
  cases f <;> cases f' <;> simp [Function.name]

namespace Call

/-- A call that can be reduced: its argument is not empty and holds no bracket. -/
structure Innermost (call : Call) : Prop where
  nonempty : call.argument ≠ []
  plain : ∀ c ∈ call.argument, isBracket c = false

instance decidableInnermost (call : Call) : Decidable call.Innermost :=
  decidable_of_iff (call.argument.isEmpty = false ∧ call.argument.any isBracket = false) <| by
    rw [List.isEmpty_eq_false_iff, List.any_eq_false]
    exact ⟨fun ⟨hne, hplain⟩ => ⟨hne, by simpa using hplain⟩,
      fun ⟨hne, hplain⟩ => ⟨hne, by simpa using hplain⟩⟩

theorem Innermost.not_mem_argument {call : Call} (hcall : call.Innermost) {c : Char}
    (hc : isBracket c = true) : c ∉ call.argument := fun hmem => by
  rw [hcall.plain c hmem] at hc
  cases hc

/-- A text in which some call can be reduced. -/
def Occurs (s : Text) : Prop :=
  ∃ before call after, Innermost call ∧ s = before ++ call.text ++ after

/-! ## The search for the first call -/

theorem dropStart?_eq_some_iff {t s rest : Text} :
    t.dropStart? s = some rest ↔ s = t ++ rest := by
  induction t generalizing s with
  | nil => simp [Text.dropStart?, eq_comm]
  | cons c t ih =>
    cases s with
    | nil => simp [Text.dropStart?]
    | cons d s =>
      by_cases hc : c = d
      · simp [Text.dropStart?, hc, ih]
      · simp [Text.dropStart?, hc, Ne.symm hc]

/-- The argument that is read after a name is all up to the first bracket, which closes it. -/
theorem argument?_eq_some_iff {s argument rest : Text} :
    argument? s = some (argument, rest) ↔
      argument ≠ [] ∧ (∀ c ∈ argument, isBracket c = false) ∧
        s = '(' :: argument ++ ')' :: rest := by
  constructor
  · intro h
    unfold argument? at h
    split at h
    · rename_i s
      split at h
      · rename_i c argument' rest' htake hdrop
        cases h
        refine ⟨by simp, fun d hd => ?_, ?_⟩
        · have hall := List.all_eq_true.mp (List.all_takeWhile (p := (!isBracket ·)) (l := s)) d
          rw [htake] at hall
          simpa using hall hd
        · have hsplit := List.takeWhile_append_dropWhile (p := (!isBracket ·)) (l := s)
          rw [htake, hdrop] at hsplit
          rw [List.cons_append, hsplit]
      · cases h
    · cases h
  · rintro ⟨hne, hplain, rfl⟩
    have hpos : ∀ c ∈ argument, (!isBracket c) = true := by simpa using hplain
    have htake : (argument ++ ')' :: rest).takeWhile (!isBracket ·) = argument := by
      rw [List.takeWhile_append_of_pos hpos, List.takeWhile_cons_of_neg (by decide),
        List.append_nil]
    have hdrop : (argument ++ ')' :: rest).dropWhile (!isBracket ·) = ')' :: rest := by
      rw [List.dropWhile_append_of_pos hpos, List.dropWhile_cons_of_neg (by decide)]
    cases argument with
    | nil => exact absurd rfl hne
    | cons c argument =>
      simp only [argument?, List.cons_append] at htake hdrop ⊢
      rw [htake, hdrop]
      rfl

theorem ofFunction?_eq_some_iff {f : Function} {s rest : Text} {call : Call} :
    ofFunction? f s = some (call, rest) ↔
      call.function = f ∧ Innermost call ∧ s = call.text ++ rest := by
  constructor
  · intro h
    obtain ⟨t, ht, h⟩ := Option.bind_eq_some_iff.mp h
    obtain ⟨⟨argument, rest'⟩, hargument, h⟩ := Option.bind_eq_some_iff.mp h
    cases h
    obtain ⟨hne, hplain, rfl⟩ := argument?_eq_some_iff.mp hargument
    refine ⟨rfl, ⟨hne, hplain⟩, ?_⟩
    rw [dropStart?_eq_some_iff.mp ht]
    simp [text]
  · rintro ⟨rfl, hcall, rfl⟩
    have hname : call.function.name.dropStart? (call.text ++ rest) =
        some ('(' :: call.argument ++ ')' :: rest) := by
      rw [dropStart?_eq_some_iff]
      simp [text]
    have hargument : argument? ('(' :: call.argument ++ ')' :: rest) = some (call.argument, rest) :=
      argument?_eq_some_iff.mpr ⟨hcall.nonempty, hcall.plain, rfl⟩
    simp only [ofFunction?, hname, Option.bind_eq_bind, Option.bind_some, hargument]
    rfl

theorem starting?_sound {s rest : Text} {call : Call} (h : starting? s = some (call, rest)) :
    Innermost call ∧ s = call.text ++ rest := by
  obtain ⟨f, _, hf⟩ := List.exists_of_findSome?_eq_some h
  exact (ofFunction?_eq_some_iff.mp hf).2

theorem starting?_complete {s rest : Text} {call : Call} (hcall : Innermost call)
    (hs : s = call.text ++ rest) : starting? s ≠ none := by
  intro hnone
  have hf := List.findSome?_eq_none_iff.mp hnone call.function (Function.mem_all _)
  rw [ofFunction?_eq_some_iff.mpr ⟨rfl, hcall, hs⟩] at hf
  cases hf

/-- What the search finds is a call of the text. -/
theorem first?_sound {s before after : Text} {call : Call}
    (h : first? s = some (before, call, after)) :
    Innermost call ∧ s = before ++ call.text ++ after := by
  induction s generalizing before with
  | nil => cases h
  | cons c s ih =>
    simp only [first?] at h
    split at h
    · rename_i call' rest hstart
      cases h
      simpa using starting?_sound hstart
    · obtain ⟨⟨before', call', after'⟩, hfirst, heq⟩ := Option.map_eq_some_iff.mp h
      cases heq
      obtain ⟨hcall, hs⟩ := ih hfirst
      exact ⟨hcall, by rw [hs]; simp⟩

/-- The search finds nothing exactly in a text without calls. -/
theorem first?_eq_none_iff {s : Text} : first? s = none ↔ ¬Occurs s := by
  constructor
  · rintro h ⟨before, call, after, hcall, hs⟩
    induction before generalizing s with
    | nil =>
      rw [List.nil_append] at hs
      cases s with
      | nil => simp [text] at hs
      | cons c s =>
        simp only [first?] at h
        split at h
        · cases h
        · rename_i hstart
          exact starting?_complete hcall hs hstart
    | cons b before ih =>
      rw [List.cons_append, List.cons_append] at hs
      subst hs
      simp only [first?] at h
      split at h
      · cases h
      · exact ih (Option.map_eq_none_iff.mp h) rfl
  · intro h
    cases hfirst : first? s with
    | none => rfl
    | some found =>
      obtain ⟨before, call, after⟩ := found
      obtain ⟨hcall, hs⟩ := first?_sound hfirst
      exact absurd ⟨before, call, after, hcall, hs⟩ h

/-! ## Two calls of one text -/

/-- Two places of a character in one text are the same or one comes first. -/
theorem append_cons_cases {a b c d : Text} {x : Char} (h : a ++ x :: b = c ++ x :: d) :
    (a = c ∧ b = d) ∨ (∃ m, c = a ++ x :: m ∧ b = m ++ x :: d) ∨
      (∃ m, a = c ++ x :: m ∧ d = m ++ x :: b) := by
  rcases List.append_eq_append_iff.mp h with ⟨m, hc, hb⟩ | ⟨m, ha, hd⟩
  · cases m with
    | nil => exact .inl ⟨by simpa using hc.symm, by simpa using hb⟩
    | cons y m =>
      cases hb
      exact .inr (.inl ⟨m, hc, rfl⟩)
  · cases m with
    | nil => exact .inl ⟨by simpa using ha, by simpa using hd.symm⟩
    | cons y m =>
      cases hd
      exact .inr (.inr ⟨m, ha, rfl⟩)

/-- What holds no character `x` and comes before another character does not reach an `x`. -/
theorem prefix_of_not_mem {u a m q : Text} {x y : Char} (hu : x ∉ u) (hne : x ≠ y)
    (h : u ++ y :: a = m ++ x :: q) : ∃ m', m = u ++ y :: m' ∧ a = m' ++ x :: q := by
  rcases List.append_eq_append_iff.mp h with ⟨m', hm, hrest⟩ | ⟨m', hum, hrest⟩
  · cases m' with
    | nil =>
      cases hrest
      exact absurd rfl hne
    | cons z m' =>
      cases hrest
      exact ⟨m', hm, rfl⟩
  · cases m' with
    | nil =>
      cases hrest
      exact absurd rfl hne
    | cons z m' =>
      cases hrest
      exact absurd (by simp [hum]) hu

/-- What holds no character `x` and ends a text ends it after the last `x`. -/
theorem suffix_of_not_mem {b v p w : Text} {x : Char} (hv : x ∉ v)
    (h : b ++ v = p ++ x :: w) : ∃ m, w = m ++ v ∧ b = p ++ x :: m := by
  rcases List.append_eq_append_iff.mp h with ⟨m, _, hv'⟩ | ⟨m, hb, hrest⟩
  · exact absurd (by simp [hv']) hv
  · cases m with
    | nil =>
      rw [List.nil_append] at hrest
      exact absurd (by simp [← hrest]) hv
    | cons z m =>
      cases hrest
      exact ⟨m, rfl, hb⟩

/-- A call ends before the name that its bracket comes before begins. -/
theorem Innermost.apart_of_name {call : Call} (hcall : call.Innermost) {f : Function}
    {before after a b m : Text}
    (hname : a ++ f.name = before ++ call.function.name ++ '(' :: m)
    (hrest : call.argument ++ ')' :: after = m ++ '(' :: b) :
    ∃ between, a = before ++ call.text ++ between ∧ after = between ++ f.name ++ '(' :: b := by
  obtain ⟨m', rfl, hafter⟩ := prefix_of_not_mem (hcall.not_mem_argument rfl) (by decide) hrest
  have htext : a ++ f.name = before ++ call.function.name ++ '(' ::
      call.argument ++ ')' :: m' := by simpa using hname
  obtain ⟨between, rfl, hbefore⟩ := suffix_of_not_mem (f.not_mem_name rfl) htext
  exact ⟨between, by simp [hbefore, text], hafter⟩

/-- Two calls in one text are the same call at the same place, or stand apart. -/
theorem Innermost.same_or_apart {call₁ call₂ : Call} (h₁ : call₁.Innermost)
    (h₂ : call₂.Innermost) {before₁ before₂ after₁ after₂ : Text}
    (h : before₁ ++ call₁.text ++ after₁ = before₂ ++ call₂.text ++ after₂) :
    (before₁ = before₂ ∧ call₁ = call₂ ∧ after₁ = after₂) ∨
      (∃ between, before₂ = before₁ ++ call₁.text ++ between ∧
        after₁ = between ++ call₂.text ++ after₂) ∨
      (∃ between, before₁ = before₂ ++ call₂.text ++ between ∧
        after₂ = between ++ call₁.text ++ after₁) := by
  have hopening : (before₁ ++ call₁.function.name) ++ '(' :: (call₁.argument ++ ')' :: after₁) =
      (before₂ ++ call₂.function.name) ++ '(' :: (call₂.argument ++ ')' :: after₂) := by
    simpa [text] using h
  rcases append_cons_cases hopening with ⟨hname, hrest⟩ | ⟨m, hname, hrest⟩ | ⟨m, hname, hrest⟩
  · left
    obtain ⟨hbefore, hfunction⟩ := Function.eq_of_append_name hname
    have hread₁ : argument? ('(' :: call₁.argument ++ ')' :: after₁) = _ :=
      argument?_eq_some_iff.mpr ⟨h₁.nonempty, h₁.plain, rfl⟩
    have hread₂ : argument? ('(' :: call₂.argument ++ ')' :: after₂) = _ :=
      argument?_eq_some_iff.mpr ⟨h₂.nonempty, h₂.plain, rfl⟩
    rw [List.cons_append, hrest, ← List.cons_append, hread₂] at hread₁
    obtain ⟨hargument, hafter⟩ := Prod.mk.injEq .. ▸ Option.some.injEq .. ▸ hread₁
    refine ⟨hbefore, ?_, hafter.symm⟩
    cases call₁
    cases call₂
    simp_all
  · obtain ⟨between, hbefore, hafter⟩ := h₁.apart_of_name hname hrest
    exact .inr (.inl ⟨between, hbefore, by simp [hafter, text]⟩)
  · obtain ⟨between, hbefore, hafter⟩ := h₂.apart_of_name hname hrest
    exact .inr (.inr ⟨between, hbefore, by simp [hafter, text]⟩)

/-! ## The first call of a text -/

/-- No call comes before the one that the search finds. -/
theorem not_occurs_of_first? {s before after : Text} {call : Call}
    (h : first? s = some (before, call, after)) : ¬Occurs before := by
  have hs := (first?_sound h).2
  induction s generalizing before with
  | nil => cases h
  | cons c s ih =>
    rintro ⟨before', call', after', hcall', hbefore⟩
    simp only [first?] at h
    split at h
    · cases h
      simp [text] at hbefore
    · rename_i hstart
      obtain ⟨⟨before, call, after⟩, hfirst, heq⟩ := Option.map_eq_some_iff.mp h
      cases heq
      cases before' with
      | nil =>
        rw [hbefore] at hs
        exact starting?_complete hcall' (by simpa using hs) hstart
      | cons d before' =>
        cases hbefore
        exact ih hfirst (List.cons.inj hs).2 ⟨before', call', after', hcall', rfl⟩

/-- The search finds the call that no other one comes before. -/
theorem first?_eq_some_iff {s before after : Text} {call : Call} :
    first? s = some (before, call, after) ↔
      Innermost call ∧ s = before ++ call.text ++ after ∧ ¬Occurs before := by
  constructor
  · intro h
    obtain ⟨hcall, hs⟩ := first?_sound h
    exact ⟨hcall, hs, not_occurs_of_first? h⟩
  · rintro ⟨hcall, hs, hbefore⟩
    cases hfirst : first? s with
    | none => exact absurd ⟨before, call, after, hcall, hs⟩ (first?_eq_none_iff.mp hfirst)
    | some found =>
      obtain ⟨before', call', after'⟩ := found
      obtain ⟨hcall', hs'⟩ := first?_sound hfirst
      rcases hcall.same_or_apart hcall' (hs.symm.trans hs') with
        ⟨rfl, rfl, rfl⟩ | ⟨between, rfl, -⟩ | ⟨between, rfl, -⟩
      · rfl
      · exact absurd ⟨before, call, between, hcall, rfl⟩ (not_occurs_of_first? hfirst)
      · exact absurd ⟨before', call', between, hcall', rfl⟩ hbefore

end Call

end Calculator
