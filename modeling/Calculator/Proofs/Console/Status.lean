import Calculator.Console.Run
import Calculator.Proofs.Display

/-!
# Kept calculations and the status of a program

A keypad keeps a calculation exactly if its result does not read `Error`. The results that a
programmer keypad refuses besides are never displayed: an integer is neither empty nor `NaN`. So a
program that calculates one expression fails exactly if no calculation is kept.
-/

namespace Calculator

namespace Keypad

/-- No result of a programmer keypad is unusable but `Error`. -/
theorem Programmer.mem_unusable_iff (r : Radix) (s : Text) :
    programmerDisplay r s ∈ unusable ↔ programmerDisplay r s = Display.error := by
  have htells := programmerDisplay_tells r s
  refine ⟨fun hmem => ?_, fun herror => herror ▸ List.mem_cons_self⟩
  by_contra hne
  have hinteger := htells.integer.mpr (not_not.mp (mt htells.other.mpr hne))
  rcases List.mem_cons.mp hmem with herror | hmem
  · exact hne herror
  rcases List.mem_cons.mp hmem with hnil | hmem
  · exact hinteger.ne_nil hnil
  · have hletter : 'N' ∉ programmerDisplay r s := hinteger.not_mem (by decide) (by decide)
    rw [List.mem_singleton.mp hmem] at hletter
    exact hletter (by decide)

/-- A programmer keypad keeps every calculation but one whose result reads `Error`. -/
theorem Programmer.calculate_snd (keypad : Programmer) :
    keypad.calculate.2 =
      if programmerDisplay keypad.radix keypad.input = Display.error then none
      else some (.programmer keypad.input keypad.radix
        (programmerDisplay keypad.radix keypad.input)) := by
  rw [calculate]
  simp only [mem_unusable_iff]

/-- A programmer keypad keeps a calculation exactly if it does not show `Error`. -/
theorem Programmer.isSome_calculate_iff (keypad : Programmer) :
    keypad.calculate.2.isSome ↔ keypad.calculate.1.result ≠ Display.error := by
  rw [calculate_snd]
  change _ ↔ programmerDisplay keypad.radix keypad.input ≠ _
  split <;> simp [*]

/-- A scientific keypad keeps a calculation exactly if it does not show `Error`. -/
theorem Scientific.isSome_calculate_iff (settings : Settings) (keypad : Scientific) :
    (keypad.calculate settings).2.isSome ↔
      (keypad.calculate settings).1.result ≠ Display.error := by
  rw [calculate]
  dsimp only
  split <;> simp [*]

end Keypad

namespace Console

/-- What the calculator in use keeps of a line. -/
def kept? (console : Console) (line : Text) : Option Record :=
  match console.mode with
  | .programmer => (console.programmer.typeLine line).calculate.2
  | _ => ((console.scientific.typeLine line).calculate console.settings).2

/-- A calculated line fails exactly if nothing is kept of it. -/
theorem fails_calculate_iff (console : Console) (stamp : Stamp) (line : Text) :
    (console.calculate stamp line).fails = false ↔ (console.kept? line).isSome := by
  cases hmode : console.mode with
  | programmer =>
    rw [calculate, kept?, hmode]
    dsimp only [recorded]
    rw [Keypad.Programmer.isSome_calculate_iff, beq_eq_false_iff_ne]
  | engineering | graph =>
    rw [calculate, kept?, hmode]
    dsimp only [recorded]
    rw [Keypad.Scientific.isSome_calculate_iff, beq_eq_false_iff_ne]

end Console

/-- A run fails with the last line. -/
theorem Run.fails_settle (run : Run) (reply : Console.Reply) :
    (run.settle reply).fails = reply.fails := by
  unfold Run.settle
  dsimp only
  split
  · rfl
  · split <;> rfl

/-- **Displays tell what they are displays of, and calculations are kept and programs succeed
accordingly.** A scientific display is one of the three texts for outcomes without a value, each for
its own outcome, or a number; a programmer display is an integer in its base, or `Error` for
everything but a finite value. Both keypads keep a calculation exactly if its result does not read
`Error`, and a program whose files load and that is given one expression succeeds exactly if the
calculation is kept. -/
theorem display_vocabulary (settings : Settings) (r : Radix) (s : Text) :
    Display.Tells (settings.scientificDisplay s) (settings.scientificOutcome s) ∧
    Display.TellsIn r (programmerDisplay r s) (programmerOutcome r s) ∧
    (∀ keypad : Keypad.Scientific, (keypad.calculate settings).2.isSome ↔
      (keypad.calculate settings).1.result ≠ Display.error) ∧
    (∀ keypad : Keypad.Programmer, keypad.calculate.2.isSome ↔
      keypad.calculate.1.result ≠ Display.error) ∧
    ∀ (options : Options) (stamps : Nat → Stamp) (disk : Disk) (input : ByteArray)
      (console : Console), options.load disk = .ok console → options.expression = some s →
      ((options.run stamps disk input).fails = false ↔ (console.kept? s).isSome) := by
  refine ⟨settings.scientificDisplay_tells s, programmerDisplay_tells r s,
    Keypad.Scientific.isSome_calculate_iff settings, Keypad.Programmer.isSome_calculate_iff, ?_⟩
  intro options stamps disk input console hload hexpression
  rw [Options.run, hload, hexpression]
  dsimp only
  rw [Run.once, Run.fails_settle, Console.fails_calculate_iff]

/-- `FF+1` is no scientific expression, and in base sixteen it is `100`. -/
theorem display_vocabulary_hex :
    let options : Options :=
      { mode := some .programmer, base := some .hex, expression := some "FF+1".toList }
    let console := Console.start options {} .empty
    let stamps : Nat → Stamp := fun _ => ⟨⟨1⟩, ⟨⟨⟨2024, 5, 2⟩, 12, 0, 0, 0⟩, by decide⟩⟩
    options.load .empty = .ok console ∧ options.expression = some "FF+1".toList ∧
    console.kept? "FF+1".toList = some (.programmer "FF+1".toList .hex "100".toList) ∧
    (options.run stamps .empty .empty).fails = false ∧
    (programmerOutcome .hex "FF+1".toList).IsFinite ∧
    ({} : Settings).scientificOutcome "FF+1".toList = .malformed := by
  intro options console stamps
  obtain ⟨hscientific, hprogrammer, -, -, hstatus⟩ := display_vocabulary {} .hex "FF+1".toList
  have hload : options.load .empty = .ok console := rfl
  have hkept : console.kept? "FF+1".toList =
      some (.programmer "FF+1".toList .hex "100".toList) := by decide +kernel
  have hsome : (console.kept? "FF+1".toList).isSome := by rw [hkept, Option.isSome_some]
  have hsucceeds := (hstatus options stamps .empty .empty console hload rfl).mpr hsome
  have hscientificText : ({} : Settings).scientificDisplay "FF+1".toList = Display.error := by
    decide +kernel
  have hprogrammerText : programmerDisplay .hex "FF+1".toList ≠ Display.error := by
    decide +kernel
  exact ⟨hload, rfl, hkept, hsucceeds, not_not.mp (mt hprogrammer.other.mpr hprogrammerText),
    hscientific.malformed.mp hscientificText⟩

end Calculator
