import Calculator.History.Entry
import Calculator.Proofs.Text

/-!
# The base of a kept expression

A programmer expression is kept with the name of its base in brackets after it. Reading the brackets
from the end on finds this name whatever the expression is, also where it ends in letters in
brackets itself or leaves brackets open. Letters in brackets that name no base, and brackets that
anything but blanks follows, are part of the expression.
-/

namespace Calculator

namespace Radix

variable {name : Text} {r : Radix}

theorem isAlpha_of_mem_name (r : Radix) : ∀ c ∈ r.name, c.isAlpha = true :=
  List.all_eq_true.mp (by cases r <;> decide)

/-- A base is found by its name in any mix of cases, and by nothing else. -/
theorem ofName?_eq_some_iff : ofName? name = some r ↔ name.map Char.toUpper = r.name := by
  have hfind (r : Radix) : all.find? (·.name == r.name) = some r := by cases r <;> decide
  constructor
  · intro h
    have hname := List.find?_some h
    exact (beq_iff_eq.mp hname).symm
  · intro h
    rw [ofName?, h, hfind]

theorem isAlpha_of_toUpper {c : Char} (h : c.toUpper.isAlpha = true) : c.isAlpha = true := by
  by_cases hlower : c.isLower = true
  · exact (Bool.or_eq_true _ _).mpr (.inr hlower)
  · have hsame : c.toUpper = c := dif_neg fun hbounds => hlower <|
      (Bool.and_eq_true _ _).mpr ⟨decide_eq_true hbounds.1, decide_eq_true hbounds.2⟩
    rwa [hsame] at h

/-- What names a base is letters. -/
theorem isAlpha_of_ofName? (h : ofName? name = some r) : ∀ c ∈ name, c.isAlpha = true := by
  intro c hc
  apply isAlpha_of_toUpper
  apply r.isAlpha_of_mem_name
  rw [← ofName?_eq_some_iff.mp h]
  exact List.mem_map_of_mem hc

end Radix

namespace Record

variable {s before name : Text} {r : Radix}

/-- A text that ends in letters in brackets, with blanks after them or none. -/
inductive EndsInBrackets : Text → Text → Text → Prop
  | mk (before : Text) {name blanks : Text} (hname : ∀ c ∈ name, c.isAlpha = true)
    (hblanks : ∀ c ∈ blanks, Text.isBlank c = true) :
    EndsInBrackets (before ++ '(' :: name ++ ')' :: blanks) before name

/-- Letters in brackets at the end of a text are looked up as the name of a base. -/
theorem EndsInBrackets.tag?_eq (h : EndsInBrackets s before name) :
    tag? s = (Radix.ofName? name).map (Text.trim before, ·) := by
  obtain ⟨before, hname, hblanks⟩ := h
  rename_i blanks
  have hletters : ∀ c ∈ name.reverse, c.isAlpha = true := by simpa using hname
  have hsplit : before ++ '(' :: name ++ ')' :: blanks =
      (before ++ '(' :: name ++ [')']) ++ blanks := by simp
  have hreverse : (Text.trimEnd (before ++ '(' :: name ++ ')' :: blanks)).reverse =
      ')' :: (name.reverse ++ '(' :: before.reverse) := by
    rw [hsplit, Text.trimEnd_append_blanks hblanks, Text.trimEnd_append_singleton (by decide)]
    simp
  rw [tag?, hreverse]
  simp only [List.dropWhile_append_of_pos hletters, List.takeWhile_append_of_pos hletters]
  rw [List.dropWhile_cons_of_neg (by decide), List.takeWhile_cons_of_neg (by decide)]
  simp

/-- A base is found in letters in brackets alone. -/
theorem exists_endsInBrackets {tag : Text × Radix} (h : tag? s = some tag) :
    ∃ before name, EndsInBrackets s before name ∧ Radix.ofName? name = some tag.2 := by
  obtain ⟨blanks, hs, hblanks⟩ := Text.exists_eq_trimEnd_append s
  rw [tag?] at h
  split at h
  · rename_i rest hrest
    split at h
    · rename_i before hbefore
      obtain ⟨r, hr, rfl⟩ := Option.map_eq_some_iff.mp h
      have hletters : ∀ c ∈ (rest.takeWhile Char.isAlpha).reverse, c.isAlpha = true := by
        simpa using fun c hc => List.mem_takeWhile_imp hc
      have htrimmed : Text.trimEnd s =
          before.reverse ++ '(' :: (rest.takeWhile Char.isAlpha).reverse ++ [')'] := by
        rw [← List.takeWhile_append_dropWhile (p := Char.isAlpha) (l := rest), hbefore] at hrest
        rw [← List.reverse_reverse (Text.trimEnd s), hrest]
        simp
      have hends := EndsInBrackets.mk before.reverse hletters hblanks
      rw [List.append_cons, ← htrimmed, ← hs] at hends
      exact ⟨_, _, hends, hr⟩
    · cases h
  · cases h

/-- A text that ends in the name of a base in brackets, in any mix of cases, with blanks after it or
none: what is before the brackets, and the base. -/
def IsTagged (s before : Text) (r : Radix) : Prop :=
  ∃ name blanks, s = before ++ '(' :: name ++ ')' :: blanks ∧
    name.map Char.toUpper = r.name ∧ ∀ c ∈ blanks, Text.isBlank c = true

theorem isTagged_iff :
    IsTagged s before r ↔
      ∃ name, EndsInBrackets s before name ∧ Radix.ofName? name = some r := by
  constructor
  · rintro ⟨name, blanks, rfl, hname, hblanks⟩
    have hbase := Radix.ofName?_eq_some_iff.mpr hname
    exact ⟨name, .mk before (Radix.isAlpha_of_ofName? hbase) hblanks, hbase⟩
  · rintro ⟨_, ⟨_, -, hblanks⟩, hbase⟩
    exact ⟨_, _, rfl, Radix.ofName?_eq_some_iff.mp hbase, hblanks⟩

theorem IsTagged.tag?_eq (h : IsTagged s before r) : tag? s = some (Text.trim before, r) := by
  obtain ⟨name, hends, hbase⟩ := isTagged_iff.mp h
  rw [hends.tag?_eq, hbase, Option.map_some]

/-- A text without a tag is kept whole. -/
theorem tag?_eq_none (h : ∀ before r, ¬IsTagged s before r) : tag? s = none := by
  by_contra hsome
  obtain ⟨tag, htag⟩ := Option.ne_none_iff_exists'.mp hsome
  obtain ⟨before, name, hends, hbase⟩ := exists_endsInBrackets htag
  exact h before tag.2 (isTagged_iff.mpr ⟨name, hends, hbase⟩)

theorem isTagged_tagged (expression : Text) (r : Radix) :
    IsTagged (tagged expression r) (expression ++ [' ']) r := by
  refine ⟨r.name, [], ?_, by cases r <;> decide, nofun⟩
  simp [tagged]

/-- The tag is the last one of a kept expression: the base is found, and the expression is what is
before it. -/
theorem untagged_tagged (expression : Text) (r : Radix) :
    untagged (tagged expression r) = (Text.trim expression, r) := by
  rw [untagged, (isTagged_tagged expression r).tag?_eq, Option.getD_some,
    Text.trim_append_singleton (by decide)]

/-- Letters in brackets at the end of an expression are part of it. -/
example : untagged (tagged "BAD+(DEC)".toList .hex) = ("BAD+(DEC)".toList, .hex) := by decide

/-- **Exactly a tag at the end is removed.** A text that ends in the name of a base in brackets
is split into what is before the brackets and the base. Any other text is an expression in base ten.
So a search that finds letters in brackets at the end, together with any of the blanks before them,
finds the tag if there is one. The tag of a kept expression is the one that is removed, whatever the
expression ends in itself. -/
theorem untagged_removes_tag (s : Text) :
    (∀ before r, IsTagged s before r → untagged s = (Text.trim before, r)) ∧
    ((∀ before r, ¬IsTagged s before r) → untagged s = (Text.trim s, .dec)) ∧
    (∀ before gap name, EndsInBrackets s (before ++ gap) name →
      (∀ c ∈ gap, Text.isBlank c = true) →
      untagged s = ((Radix.ofName? name).map (Text.trim before, ·)).getD (Text.trim s, .dec)) ∧
    ∀ expression r result,
      untagged (programmer expression r result).expression = (Text.trim expression, r) := by
  refine ⟨fun before r h => ?_, fun h => ?_, fun before gap name hends hgap => ?_,
    fun expression r _ => untagged_tagged expression r⟩
  · rw [untagged, h.tag?_eq, Option.getD_some]
  · rw [untagged, tag?_eq_none h, Option.getD_none]
  · rw [untagged, hends.tag?_eq, Text.trim_append_blanks hgap]

/-- A name in mixed cases before a blank that is no space, after another tag; letters that name no
base; and a name that letters follow. -/
theorem untagged_removes_tag_mixed :
    untagged "1 (BIN) (hEx)\u3000".toList = ("1 (BIN)".toList, .hex) ∧
    untagged " 7 (XYZ) ".toList = ("7 (XYZ)".toList, .dec) ∧
    untagged "7 (HEX) x".toList = ("7 (HEX) x".toList, .dec) := by
  have hmixed : IsTagged "1 (BIN) (hEx)\u3000".toList "1 (BIN) ".toList .hex :=
    ⟨"hEx".toList, ['\u3000'], by decide, by decide, List.forall_mem_singleton.mpr (by decide)⟩
  have hletters : ∀ before r, ¬IsTagged " 7 (XYZ) ".toList before r := by
    intro before r h
    exact absurd h.tag?_eq (by rw [show tag? " 7 (XYZ) ".toList = none by decide]; exact nofun)
  have hfollowed : ∀ before r, ¬IsTagged "7 (HEX) x".toList before r := by
    intro before r h
    exact absurd h.tag?_eq (by rw [show tag? "7 (HEX) x".toList = none by decide]; exact nofun)
  exact ⟨(untagged_removes_tag _).1 _ _ hmixed, (untagged_removes_tag _).2.1 hletters,
    (untagged_removes_tag _).2.1 hfollowed⟩

end Record

end Calculator
