import Calculator.Proofs.Keypad.Input

/-!
# Changes of the base

The input of the programmer keypad is an operand, of which the active base gives a text. A base that
is chosen while another one is active writes the operand anew, and its text reads back as the same
operand. So the operand stays as it is under any changes of the base, and of all the texts that it
had in between nothing is left.
-/

namespace Calculator.Keypad.Programmer

variable {keypad : Programmer} {bases : List Radix} {r : Radix}

/-- The integer that the input stands for, or zero if it is no literal of the active base. -/
def operand (keypad : Programmer) : Int64 := (keypad.radix.parse? keypad.input).getD 0

/-- Every base that is chosen is the one that is active then. -/
def ChoosesActive (keypad : Programmer) (bases : List Radix) : Prop :=
  ∀ earlier r, earlier ++ [r] <+: bases → r = (earlier.foldl activate keypad).radix

theorem choosesActive_nil (keypad : Programmer) : keypad.ChoosesActive [] := by
  intro earlier r hprefix
  simpa using List.prefix_nil.mp hprefix

theorem choosesActive_append_singleton : keypad.ChoosesActive (bases ++ [r]) ↔
    keypad.ChoosesActive bases ∧ r = (bases.foldl activate keypad).radix := by
  constructor
  · intro h
    exact ⟨fun earlier s hs => h earlier s (hs.trans (List.prefix_append ..)),
      h bases r List.prefix_rfl⟩
  · rintro ⟨h, hr⟩ earlier s hs
    rcases List.prefix_concat_iff.mp hs with hlast | hearlier
    · obtain ⟨rfl, hsame⟩ := List.append_inj' hlast rfl
      exact (List.singleton_inj.mp hsame).trans hr
    · exact h earlier s hearlier

/-! ## One change -/

theorem inEveryBase_eq (keypad : Programmer) :
    keypad.inEveryBase = Radix.all.map fun r => (r, r.render keypad.operand) := rfl

theorem activate_radix (keypad : Programmer) (r : Radix) : (keypad.activate r).radix = r := by
  unfold activate
  split
  · rename_i hr
    exact hr.symm
  · rfl

theorem activate_result (keypad : Programmer) (r : Radix) :
    (keypad.activate r).result = keypad.result := by
  unfold activate
  split <;> rfl

theorem activate_self (keypad : Programmer) : keypad.activate keypad.radix = keypad := if_pos rfl

/-- Another base writes the operand in its own way. -/
theorem activate_input (hr : r ≠ keypad.radix) :
    (keypad.activate r).input = r.render keypad.operand := by
  rw [activate, if_neg hr]
  rfl

/-- A change of the base leaves the operand as it is. -/
theorem activate_operand (keypad : Programmer) (r : Radix) :
    (keypad.activate r).operand = keypad.operand := by
  by_cases hr : r = keypad.radix
  · rw [hr, activate_self]
  · rw [operand, activate_radix, activate_input hr, Radix.parse?_render, Option.getD_some]

/-! ## Any number of changes -/

/-- What one change keeps, any number of them keeps. -/
theorem foldl_activate_of_kept {α : Type} {kept : Programmer → α}
    (hkept : ∀ keypad r, kept (keypad.activate r) = kept keypad) (keypad : Programmer)
    (bases : List Radix) : kept (bases.foldl activate keypad) = kept keypad := by
  induction bases generalizing keypad with
  | nil => rfl
  | cons r bases ih => rw [List.foldl_cons, ih, hkept]

theorem operand_foldl_activate (keypad : Programmer) (bases : List Radix) :
    (bases.foldl activate keypad).operand = keypad.operand :=
  foldl_activate_of_kept activate_operand keypad bases

theorem result_foldl_activate (keypad : Programmer) (bases : List Radix) :
    (bases.foldl activate keypad).result = keypad.result :=
  foldl_activate_of_kept activate_result keypad bases

theorem radix_foldl_activate (keypad : Programmer) (bases : List Radix) :
    (bases.foldl activate keypad).radix = bases.getLastD keypad.radix := by
  induction bases using List.reverseRecOn with
  | nil => rfl
  | append_singleton bases r _ =>
    rw [List.foldl_append, List.foldl_cons, List.foldl_nil, activate_radix, List.getLastD_concat]

/-- By induction on the changes, the last of which comes after all others: nothing has changed yet,
or the input is the text that the active base gives the operand. -/
theorem foldl_activate_cases (keypad : Programmer) (bases : List Radix) :
    (keypad.ChoosesActive bases ∧ bases.foldl activate keypad = keypad) ∨
      (¬keypad.ChoosesActive bases ∧ (bases.foldl activate keypad).input =
        (bases.foldl activate keypad).radix.render keypad.operand) := by
  induction bases using List.reverseRecOn with
  | nil => exact .inl ⟨keypad.choosesActive_nil, rfl⟩
  | append_singleton bases r ih =>
    have hoperand := keypad.operand_foldl_activate bases
    rw [choosesActive_append_singleton, List.foldl_append, List.foldl_cons, List.foldl_nil]
    generalize bases.foldl activate keypad = reached at ih hoperand
    by_cases hr : r = reached.radix
    · subst hr
      rw [activate_self]
      simpa using ih
    · right
      rw [activate_input hr, activate_radix, hoperand]
      exact ⟨fun h => hr h.2, rfl⟩

/-- **Changes of the base never change the operand.** Whatever the input is and whichever bases are
chosen one after the other, the conversions and the result stay as they are. The input stays too if
every chosen base is active already. Otherwise it is the operand as the last base writes it, and
does not depend on the bases in between. After a calculation that does not read `Error`, the
conversions are texts of one integer, each in its base, and that of the active base is the
result. -/
theorem foldl_activate_keeps_operand (keypad : Programmer) (bases : List Radix) :
    (bases.foldl activate keypad).inEveryBase = keypad.inEveryBase ∧
    (bases.foldl activate keypad).result = keypad.result ∧
    (bases.foldl activate keypad).radix = bases.getLastD keypad.radix ∧
    (keypad.ChoosesActive bases → (bases.foldl activate keypad).input = keypad.input) ∧
    (¬keypad.ChoosesActive bases → (bases.foldl activate keypad).input =
      (bases.getLastD keypad.radix).render ((keypad.radix.parse? keypad.input).getD 0)) ∧
    (keypad.calculate.1.result ≠ Display.error →
      keypad.calculate.1.inEveryBase.map Prod.fst = Radix.all ∧
      (keypad.radix, keypad.calculate.1.result) ∈ keypad.calculate.1.inEveryBase ∧
      ∃ n : Int, ∀ entry ∈ keypad.calculate.1.inEveryBase, entry.1.Denotes entry.2 n) := by
  have hcases := foldl_activate_cases keypad bases
  have hlast := radix_foldl_activate keypad bases
  refine ⟨?_, result_foldl_activate keypad bases, hlast, fun hactive => ?_, fun hother => ?_,
    fun hresult => ?_⟩
  · rw [inEveryBase_eq, operand_foldl_activate, ← inEveryBase_eq]
  · rcases hcases with ⟨-, hsame⟩ | ⟨hother, -⟩
    · rw [hsame]
    · exact absurd hactive hother
  · rcases hcases with ⟨hactive, -⟩ | ⟨-, hinput⟩
    · exact absurd hactive hother
    · rw [hinput, hlast, operand]
  · obtain ⟨n, hn⟩ := exists_programmerDisplay_eq_render hresult
    have hoperand : keypad.calculate.1.operand = n := by
      have hparse := Radix.parse?_render keypad.radix n
      rw [← hn] at hparse
      exact congrArg (Option.getD · 0) hparse
    have hentry : (keypad.radix, keypad.calculate.1.result) =
        (keypad.radix, keypad.radix.render n) := congrArg (Prod.mk _) hn
    rw [inEveryBase_eq, hoperand, hentry]
    refine ⟨by simp [Function.comp_def], List.mem_map.mpr ⟨keypad.radix, keypad.radix.mem_all, rfl⟩,
      n.toInt, ?_⟩
    rintro entry hmem
    obtain ⟨r, -, rfl⟩ := List.mem_map.mp hmem
    exact r.denotes_render n

/-- The small letters of a hexadecimal operand stay as long as no other base is chosen, and are
capitals after it has been written in base ten. A product is displayed in every base. -/
theorem foldl_activate_keeps_operand_hex :
    let keypad : Programmer := { input := "-ff".toList, radix := .hex }
    let product : Programmer := { input := "F*2".toList, radix := .hex }
    ([Radix.hex, .hex].foldl activate keypad).input = "-ff".toList ∧
      ([Radix.hex, .dec, .hex].foldl activate keypad).input = "-FF".toList ∧
      (Radix.hex, "1E".toList) ∈ product.calculate.1.inEveryBase ∧
      ∃ n : Int, ∀ entry ∈ product.calculate.1.inEveryBase, entry.1.Denotes entry.2 n := by
  intro keypad product
  have hactive : keypad.ChoosesActive ([] ++ [.hex] ++ [.hex]) :=
    choosesActive_append_singleton.mpr
      ⟨choosesActive_append_singleton.mpr ⟨keypad.choosesActive_nil, rfl⟩, rfl⟩
  have hother : ¬keypad.ChoosesActive [.hex, .dec, .hex] := by
    intro h
    exact absurd (h [.hex] .dec ⟨[.hex], rfl⟩) (by decide)
  have hresult : product.calculate.1.result = "1E".toList := by decide +kernel
  obtain ⟨-, -, -, hkept, -⟩ := foldl_activate_keeps_operand keypad [.hex, .hex]
  obtain ⟨-, -, -, -, hwritten, -⟩ := foldl_activate_keeps_operand keypad [.hex, .dec, .hex]
  obtain ⟨-, -, -, -, -, hcalculated⟩ := foldl_activate_keeps_operand product []
  obtain ⟨-, hentry, hdenotes⟩ := hcalculated (by rw [hresult]; decide)
  rw [hresult] at hentry
  exact ⟨hkept hactive, (hwritten hother).trans (by decide), hentry, hdenotes⟩

end Calculator.Keypad.Programmer
