import Calculator.Proofs.History.Reading
import Calculator.Proofs.Storage.Save

/-!
# Saved histories

The bytes of a file give a value if they are a text, the text is JSON, and the value is one that can
be read from it. Those of a saved history give the history. So a history that has been saved is
loaded whenever its version is one that can be read.
-/

namespace Calculator

/-- The bytes of a written value are read as what the value gives. -/
theorem readContents_pretty {α : Type} (operation path : Text) {ofJson? : Json → Option α}
    {json : Json} (hjson : json.IsWritable) {value : α} (hvalue : ofJson? json = some value) :
    readContents operation path ofJson? (Text.toBytes json.pretty) = .ok value := by
  rw [readContents, Text.ofBytes?_toBytes]
  dsimp only
  rw [hjson.parse?_pretty]
  dsimp only
  rw [hvalue]

/-- What the bytes of a file give is read from their text. -/
theorem readsAs_of_readContents {α : Type} {operation path : Text} {ofJson? : Json → Option α}
    {bytes : ByteArray} {value : α} (h : readContents operation path ofJson? bytes = .ok value) :
    ((Text.ofBytes? bytes).bind Json.parse?).bind ofJson? = some value := by
  rw [readContents] at h
  split at h
  · cases h
  · rename_i s htext
    split at h
    · cases h
    · rename_i json hjson
      split at h
      · cases h
      · rename_i value' hvalue
        cases h
        rw [htext, Option.bind_some, hjson, Option.bind_some, hvalue]

namespace History

/-- What is loaded is read from the text of the file, and of a version that can be read. -/
theorem exists_of_load {disk : Disk} {path : Text} {history : History}
    (h : load disk path = .ok history) : ∃ bytes, disk.read path = .ok bytes ∧
      (Text.ofBytes? bytes).bind parse? = some history ∧
      acceptsVersion history.version = true := by
  obtain ⟨bytes, hread, hcontents⟩ := bind_eq_ok_iff.mp h
  obtain ⟨history', hhistory, hcheck⟩ := bind_eq_ok_iff.mp hcontents
  rw [checkVersion] at hcheck
  split at hcheck
  · rename_i haccepts
    cases hcheck
    refine ⟨bytes, mapError_eq_ok_iff.mp hread, ?_, haccepts⟩
    rw [← readsAs_of_readContents hhistory, Option.bind_assoc]
    rfl
  · cases hcheck

variable {faults : SaveFaults} {disk : Disk} {path : Text} {history : History}

theorem read_of_save (h : (save faults disk path history).2 = .ok ()) :
    (save faults disk path history).1.read path = .ok (Text.toBytes history.text) := by
  have hsaves : disk.Saves path (Text.toBytes history.text)
      ((save faults disk path history).1, (save faults disk path history).2) :=
    Disk.saves_save faults disk path _
  rw [h] at hsaves
  exact hsaves.of_ok.2.1

/-- What has been saved is held. -/
theorem holds_of_save (h : (save faults disk path history).2 = .ok ()) :
    (save faults disk path history).1.Holds path history :=
  ⟨read_of_save h, history.parse?_toBytes_text⟩

/-- A history that is held is loaded if its version can be read. -/
theorem load_of_holds (h : disk.Holds path history) : load disk path = checkVersion history := by
  have hcontents : readContents reading path ofJson? (Text.toBytes history.text) = .ok history :=
    readContents_pretty reading path history.isWritable_toJson history.ofJson?_toJson
  rw [load, h.text, Except.mapError, ok_bind, ofContents, hcontents, ok_bind]

theorem load_of_save (h : (save faults disk path history).2 = .ok ()) :
    load (save faults disk path history).1 path = checkVersion history :=
  load_of_holds (holds_of_save h)

/-- **Saving and loading a history loses nothing.** The text of every history reads back, character
by character or from its bytes. A history of a version that can be read is loaded as it was saved,
and what was loaded is saved with the same bytes. -/
theorem save_load_lossless :
    (∀ history : History, parse? history.text = some history ∧
      (Text.ofBytes? (Text.toBytes history.text)).bind parse? = some history) ∧
    ∀ (faults : SaveFaults) (disk : Disk) (path : Text) (history : History),
      let saved := save faults disk path history
      saved.2 = .ok () →
        saved.1.read path = .ok (Text.toBytes history.text) ∧
        (acceptsVersion history.version = true →
          load saved.1 path = .ok history ∧
          ∀ (faults' : SaveFaults) (loaded : History), load saved.1 path = .ok loaded →
            let again := save faults' saved.1 path loaded
            again.2 = .ok () → again.1.read path = saved.1.read path) := by
  constructor
  · exact fun history => ⟨history.parse?_text, history.parse?_toBytes_text⟩
  · intro faults disk path history saved hsaved
    have hread := read_of_save hsaved
    refine ⟨hread, fun hversion => ?_⟩
    have hload : load saved.1 path = .ok history := by
      rw [load_of_save hsaved, checkVersion, if_pos hversion]
    refine ⟨hload, ?_⟩
    intro faults' loaded hloaded again hagain
    obtain rfl : history = loaded := Except.ok.inj (hload.symm.trans hloaded)
    exact (read_of_save hagain).trans hread.symm

/-- Entries of all calculators, with quotation marks, backslashes, control and non-ASCII characters
and with fractions of a second of every length, are saved, loaded and saved again. -/
theorem save_load_lossless_twice :
    let history : History := ⟨"0.1.0", [
      (Record.graph "sin(x)·\"é\"\\𝄞").stamp
        ⟨⟨.ofNat 128 (2 ^ 128 - 1)⟩, ⟨⟨⟨9999, 12, 31⟩, 23, 59, 59, 999999999⟩, by decide⟩⟩,
      (Record.programmer "ff\t+\x01" .hex "Error: \"\\\n\"").stamp
        ⟨⟨.ofNat 128 7⟩, ⟨⟨⟨2024, 2, 29⟩, 12, 0, 0, 120000⟩, by decide⟩⟩,
      (Record.engineering "2×π" "6.28").stamp
        ⟨⟨.ofNat 128 6⟩, ⟨⟨⟨2024, 2, 29⟩, 11, 59, 59, 500000000⟩, by decide⟩⟩,
      (Record.engineering "" "\x7f\x00").stamp
        ⟨⟨.ofNat 128 0⟩, ⟨⟨⟨0, 1, 1⟩, 0, 0, 0, 0⟩, by decide⟩⟩]⟩
    let saved := save {} .empty "h.json" history
    let again := save {} saved.1 "h.json" history
    saved.2 = .ok () ∧ load saved.1 "h.json" = .ok history ∧
      again.2 = .ok () ∧ again.1.read "h.json" = saved.1.read "h.json" := by
  intro history saved again
  have hsaved : saved.2 = .ok () := by decide +kernel
  have hagain : again.2 = .ok () := by decide +kernel
  obtain ⟨-, hloads⟩ := save_load_lossless.2 {} .empty "h.json" history hsaved
  obtain ⟨hload, hsame⟩ := hloads (by decide)
  exact ⟨hsaved, hload, hagain, hsame {} history hload hagain⟩

end History

end Calculator
