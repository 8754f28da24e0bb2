import Calculator.Proofs.History.Reading
import Calculator.Proofs.Storage.Disk

/-!
# Saving

Saving goes through four steps, and ends with the first that fails. The temporary file stands beside
the file that is saved, so until it is renamed nothing changes where the path leads, and nothing
else ever changes.
-/

namespace Calculator

namespace Disk

variable {disk disk' : Disk} {path : Text} {place : Place}

/-- The temporary path leads into the folder before the last name of the path, but not to this
name. -/
theorem LeadsTo.of_temporary (hname : Path.isName (Path.name path) = true)
    (h : disk.LeadsTo (Path.temporary path) place) :
    ∃ folder, disk.walk (Path.folder path) (Path.parts (Path.folder path)) = .ok folder ∧
      folder ++ [Path.name path] ≠ place := by
  obtain ⟨trail, hsplits⟩ := Path.exists_splits_of_isName hname
  rcases hsplits.of_temporary hname with htemporary | ⟨-, htemporary⟩
  · obtain ⟨folder, hwalk, rfl⟩ := h.of_splits htemporary
    refine ⟨folder, hwalk, ?_⟩
    rw [onward_of_isName (Path.isName_of_length (by simp))]
    intro heq
    exact Path.stem_append_ne _ (List.singleton_inj.mp (List.append_cancel_left heq)).symm
  · obtain ⟨folder, hwalk, rfl⟩ := h.of_splits htemporary
    refine ⟨folder, hwalk, ?_⟩
    intro heq
    have hlength := congrArg List.length heq
    rw [show onward folder ".." = folder.dropLast from rfl, List.length_dropLast,
      List.length_append, List.length_singleton] at hlength
    omega

/-- A path and its temporary path never lead to one place. -/
theorem LeadsTo.not_temporary (hname : Path.isName (Path.name path) = true)
    (h : disk.LeadsTo path place) : ¬disk.LeadsTo (Path.temporary path) place := by
  intro htemporary
  obtain ⟨folder, hwalk, hne⟩ := htemporary.of_temporary hname
  obtain ⟨trail, hsplits⟩ := Path.exists_splits_of_isName hname
  obtain ⟨folder', hwalk', hplace⟩ := h.of_splits hsplits
  rw [hwalk] at hwalk'
  cases hwalk'
  rw [onward_of_isName hname] at hplace
  exact hne hplace

/-- A change of the temporary file alone leaves what the path finds. -/
theorem DiffersAt.find_eq_of_temporary (hname : Path.isName (Path.name path) = true)
    (htemporary : disk.LeadsTo (Path.temporary path) place) (h : DiffersAt [place] disk disk') :
    disk'.find path = disk.find path := by
  obtain ⟨folder, hwalk, hne⟩ := htemporary.of_temporary hname
  obtain ⟨trail, hsplits⟩ := Path.exists_splits_of_isName hname
  exact h.find_eq hsplits hname hwalk (by simpa using hne)

/-- A temporary file can be created for a path with a last name only. -/
theorem isName_of_filePlace (h : disk.filePlace (Path.temporary path) = .ok place) :
    Path.isName (Path.name path) = true := by
  by_contra hname
  rw [Path.temporary_of_not_isName hname] at h
  obtain ⟨location, hlocation, -, -⟩ := exists_of_filePlace h
  obtain ⟨-, hlast⟩ := walk_of_locate hlocation.locate
  exact hname (Path.isName_of_last (hlast ▸ hlocation.isName))

/-- The ways in which saving bytes at a path ends. -/
inductive Saves (disk : Disk) (path : Text) (bytes : ByteArray) :
    Disk × Except Failure Unit → Prop
  | notCreated (fault : DiskFault) :
    Saves disk path bytes
      (disk, .error (.ofFault "create temp file" (Path.temporary path) fault))
  | notWritten {place : Place} (hplace : disk.filePlace (Path.temporary path) = .ok place)
      (count : Nat) (fault : DiskFault) :
    Saves disk path bytes (disk.put place (.file (bytes.extract 0 count)),
      .error (.ofFault "write temp file" (Path.temporary path) fault))
  | notSynced {place : Place} (hplace : disk.filePlace (Path.temporary path) = .ok place)
      (fault : DiskFault) :
    Saves disk path bytes (disk.put place (.file bytes),
      .error (.ofFault "sync temp file" (Path.temporary path) fault))
  | notRenamed {place : Place} (hplace : disk.filePlace (Path.temporary path) = .ok place)
      (fault : DiskFault) :
    Saves disk path bytes ((disk.put place (.file bytes)).erase place,
      .error (.ofFault "rename to final" path fault))
  | renamed {place : Place} (hplace : disk.filePlace (Path.temporary path) = .ok place)
      {disk' : Disk}
      (hrename : (disk.put place (.file bytes)).rename (Path.temporary path) path = .ok disk') :
    Saves disk path bytes (disk', .ok ())

theorem saves_save (faults : SaveFaults) (disk : Disk) (path : Text) (bytes : ByteArray) :
    disk.Saves path bytes (disk.save faults path bytes) := by
  unfold save
  dsimp only
  split
  · exact .notCreated _
  · rename_i place hcreate
    have hplace : disk.filePlace (Path.temporary path) = .ok place := by
      cases hfault : faults.create with
      | none => rwa [hfault] at hcreate
      | some fault =>
        rw [hfault] at hcreate
        cases hcreate
    split
    · exact .notWritten hplace _ _
    · split
      · exact .notSynced hplace _
      · split
        · exact .notRenamed hplace _
        · rename_i disk' hrename
          cases hfault : faults.rename with
          | none =>
            rw [hfault] at hrename
            exact .renamed hplace hrename
          | some fault =>
            rw [hfault] at hrename
            cases hrename

variable {bytes : ByteArray}

/-- A file that has been created and written differs at its place alone. -/
theorem DiffersAt.of_created (hplace : disk.filePlace (Path.temporary path) = .ok place)
    (bytes : ByteArray) : DiffersAt [place] disk (disk.put place (.file bytes)) := by
  obtain ⟨location, -, -, hnotFolder⟩ := exists_of_filePlace hplace
  exact (DiffersAt.refl (by simpa using hnotFolder)).put List.mem_cons_self _

/-- A failed saving changes the temporary file at most, and a failed renaming leaves none. -/
theorem Saves.of_error (hname : Path.isName (Path.name path) = true) {failure : Failure}
    (h : disk.Saves path bytes (disk', .error failure)) :
    (∃ places, (∀ place ∈ places, disk.LeadsTo (Path.temporary path) place) ∧
      DiffersAt places disk disk') ∧
    disk'.find path = disk.find path ∧
    ∀ fault, failure = .ofFault "rename to final" path fault →
      disk'.find (Path.temporary path) = .error .missing := by
  have hchanged {location : Location} (hlocation : disk.IsFilePath (Path.temporary path) location)
      (h : DiffersAt [location.place] disk disk') :
      (∃ places, (∀ place ∈ places, disk.LeadsTo (Path.temporary path) place) ∧
        DiffersAt places disk disk') ∧ disk'.find path = disk.find path := by
    have hleads := hlocation.leadsTo
    exact ⟨⟨_, by simpa using hleads, h⟩, h.find_eq_of_temporary hname hleads⟩
  have hother {operation : Text} {fault fault' : DiskFault} {path' : Text} {P : Prop}
      (hne : operation ≠ "rename to final")
      (h : Failure.ofFault operation path' fault = .ofFault "rename to final" path fault') : P :=
    absurd (Failure.file.inj h).1 hne
  cases h with
  | notCreated fault =>
    exact ⟨⟨[], by simp, .refl (by simp)⟩, rfl, fun _ => hother (by decide)⟩
  | notWritten hplace count fault =>
    obtain ⟨location, hlocation, rfl, -⟩ := exists_of_filePlace hplace
    obtain ⟨hplaces, hfind⟩ := hchanged hlocation (.of_created hplace _)
    exact ⟨hplaces, hfind, fun _ => hother (by decide)⟩
  | notSynced hplace fault =>
    obtain ⟨location, hlocation, rfl, -⟩ := exists_of_filePlace hplace
    obtain ⟨hplaces, hfind⟩ := hchanged hlocation (.of_created hplace _)
    exact ⟨hplaces, hfind, fun _ => hother (by decide)⟩
  | notRenamed hplace fault =>
    obtain ⟨location, hlocation, rfl, -⟩ := exists_of_filePlace hplace
    have hdiffers := (DiffersAt.of_created hplace bytes).erase List.mem_cons_self
    obtain ⟨hplaces, hfind⟩ := hchanged hlocation hdiffers
    have hgone := get?_erase_self (disk.put location.place (.file bytes)) location.place_ne_nil
    exact ⟨hplaces, hfind, fun _ _ => (hdiffers.isFilePath hlocation).find_eq_missing hgone⟩

/-- A saving that succeeds leaves the bytes at the path and no temporary file. -/
theorem Saves.of_ok (h : disk.Saves path bytes (disk', .ok ())) :
    (∃ places, (∀ place ∈ places, disk.LeadsTo (Path.temporary path) place ∨
      disk.LeadsTo path place) ∧ DiffersAt places disk disk') ∧
    disk'.read path = .ok bytes ∧ disk'.find (Path.temporary path) = .error .missing := by
  cases h with
  | @renamed place hplace _ hrename =>
    have hname := isName_of_filePlace hplace
    have hcreated := DiffersAt.of_created hplace bytes
    obtain ⟨location, hlocation, rfl, hfree⟩ := exists_of_filePlace hplace
    obtain ⟨old, new, moved, hold, hnew, hmoved, hnotFolder, rfl⟩ := exists_of_rename hrename
    -- what is renamed is the temporary file, and it does not stand at the path
    have hfile := get?_put_self disk location.place_ne_nil (.file bytes)
    obtain rfl := (hcreated.isFilePath hlocation).eq hold
    rw [hfile] at hmoved
    cases hmoved
    have hne : new.place ≠ old.place := by
      intro heq
      have hleads := hnew.leadsTo
      rw [heq] at hleads
      exact hleads.not_temporary hname hold.leadsTo
    have hback : DiffersAt [old.place] (disk.put old.place (.file bytes)) disk :=
      hcreated.symm (by simp [hfile])
    have hkeeps : DiffersAt [old.place, new.place] (disk.put old.place (.file bytes))
        (((disk.put old.place (.file bytes)).erase old.place).put new.place (.file bytes)) :=
      ((DiffersAt.refl (by simp [hfile, hnotFolder])).erase (by simp)).put (by simp) _
    rw [get?_put_of_ne _ hne] at hnotFolder
    refine ⟨⟨[old.place, new.place], ?_, ?_⟩, ?_, ?_⟩
    · simp [hlocation.leadsTo, (hback.isFilePath hnew).leadsTo]
    · exact (((DiffersAt.refl (by simp [hfree, hnotFolder])).put (by simp) _).erase
        (by simp)).put (by simp) _
    · exact (hkeeps.isFilePath hnew).read_eq (get?_put_self _ new.place_ne_nil _)
    · apply (hkeeps.isFilePath hold).find_eq_missing
      rw [get?_put_of_ne _ hne.symm, get?_erase_self _ old.place_ne_nil]

/-- However saving ends, nothing changes but where the path and its temporary path lead. -/
theorem Saves.differsAt (hname : Path.isName (Path.name path) = true)
    {result : Except Failure Unit} (h : disk.Saves path bytes (disk', result)) :
    ∃ places, (∀ place ∈ places, disk.LeadsTo (Path.temporary path) place ∨
      disk.LeadsTo path place) ∧ DiffersAt places disk disk' := by
  cases result with
  | ok => exact h.of_ok.1
  | error failure =>
    obtain ⟨⟨places, hplaces, hdiffers⟩, -⟩ := h.of_error hname
    exact ⟨places, fun place hmem => .inl (hplaces place hmem), hdiffers⟩

end Disk

/-- A disk holds a history at a path: there is a file with exactly the text of the history, and
these bytes read back as the history. -/
structure Disk.Holds (disk : Disk) (path : Text) (history : History) : Prop where
  text : disk.read path = .ok (Text.toBytes history.text)
  parses : (Text.ofBytes? (Text.toBytes history.text)).bind History.parse? = some history

namespace History

/-- **Saving is all or nothing.** The temporary path is another path and leads to another place. If
saving succeeds, the path leads to a file with exactly the text of the history, which reads back as
the history, and the temporary file is gone; if it fails, the path leads to what it led to before,
nothing but the temporary file has changed, and a temporary file that could not be renamed is gone.
Whatever happens, nothing changes at any other place. -/
theorem save_all_or_nothing (faults : SaveFaults) (disk : Disk) (history : History) {path : Text}
    (hname : Path.isName (Path.name path) = true) :
    let saved := save faults disk path history
    let temporary := Path.temporary path
    temporary ≠ path ∧
    (temporary = Path.folder path ++ Path.stem (Path.name path) ++ ".json.tmp" ∨
      Path.stem (Path.name path) = "." ∧ temporary = Path.folder path ++ "..") ∧
    (∀ place, disk.LeadsTo path place → ¬disk.LeadsTo temporary place) ∧
    (saved.2 = .ok () → saved.1.Holds path history ∧
      saved.1.find temporary = .error .missing) ∧
    (∀ failure, saved.2 = .error failure → saved.1.find path = disk.find path ∧
      (∀ place, ¬disk.LeadsTo temporary place → saved.1.get? place = disk.get? place) ∧
      ∀ fault, failure = .ofFault "rename to final" path fault →
        saved.1.find temporary = .error .missing) ∧
    saved.1.home = disk.home ∧
    ∀ place, ¬disk.LeadsTo path place → ¬disk.LeadsTo temporary place →
      saved.1.get? place = disk.get? place := by
  intro saved temporary
  have hsaves : disk.Saves path (Text.toBytes history.text) (saved.1, saved.2) :=
    Disk.saves_save faults disk path _
  obtain ⟨trail, hsplits⟩ := Path.exists_splits_of_isName hname
  obtain ⟨places, hplaces, hdiffers⟩ := hsaves.differsAt hname
  refine ⟨Path.temporary_ne hname, ?_, fun _ h => h.not_temporary hname, fun hok => ?_,
    fun failure herror => ?_, hdiffers.home, fun place hpath htemporary => ?_⟩
  · rcases hsplits.of_temporary hname with h | ⟨hstem, h⟩
    · exact .inl (by simpa using h.eq)
    · exact .inr ⟨hstem, by simpa using h.eq⟩
  · rw [hok] at hsaves
    obtain ⟨-, hread, hgone⟩ := hsaves.of_ok
    exact ⟨⟨hread, history.parse?_toBytes_text⟩, hgone⟩
  · rw [herror] at hsaves
    obtain ⟨⟨places, hplaces, hdiffers⟩, hfind, hrenaming⟩ := hsaves.of_error hname
    exact ⟨hfind, fun place hplace => hdiffers.get? place (mt (hplaces place) hplace), hrenaming⟩
  · exact hdiffers.get? place fun hmem => (hplaces place hmem).elim htemporary hpath

/-- Over an old file and the temporary file of a saving that was broken off, a saving that succeeds
leaves the text of the history and no temporary file. A writing that breaks off after three bytes
leaves the old file, and so does a renaming that is refused, without a temporary file. -/
theorem save_all_or_nothing_over_old_file :
    let disk : Disk := { nodes := [(["h.json".toList], .file (Text.toBytes "old".toList)),
      (["h.json.tmp".toList], .file (Text.toBytes "stale".toList))] }
    let history : History := ⟨"0.1.0", [(Record.programmer "7/2" .dec "3").stamp
      ⟨⟨.ofNat 128 7⟩, ⟨⟨⟨2024, 5, 2⟩, 12, 0, 0, 500000000⟩, by decide⟩⟩]⟩
    let text : Text :=
      "\x7b\n  \"version\": \"0.1.0\",\n  \"entries\": [\n    \x7b\n".toList ++
      "      \"id\": \"00000000-0000-0000-0000-000000000007\",\n".toList ++
      "      \"expression\": \"7/2 (DEC)\",\n      \"result\": \"3\",\n".toList ++
      "      \"timestamp\": \"2024-05-02T12:00:00.500Z\",\n".toList ++
      "      \"calculator_type\": \"programmer\"\n    \x7d\n  ]\n\x7d".toList
    let full : DiskFault := .other "No space left on device (os error 28)"
    let denied : DiskFault := .other "Permission denied (os error 13)"
    let written := (save {} disk "h.json" history).1
    let brokenOff := (save { write := some (3, full) } disk "h.json" history).1
    let refused := (save { rename := some denied } disk "h.json" history).1
    written.read "h.json" = .ok (Text.toBytes text) ∧
    written.find "h.json.tmp" = .error .missing ∧
    brokenOff.find "h.json" = .ok (.file (Text.toBytes "old".toList)) ∧
    refused.find "h.json" = .ok (.file (Text.toBytes "old".toList)) ∧
    refused.find "h.json.tmp" = .error .missing := by
  intro disk history text full denied written brokenOff refused
  have hname : Path.isName (Path.name "h.json") = true := by decide
  have hold : disk.find "h.json" = .ok (.file (Text.toBytes "old".toList)) := by rfl
  have htext : history.text = text := by decide +kernel
  obtain ⟨-, -, -, hok, -⟩ := save_all_or_nothing {} disk history hname
  obtain ⟨hholds, hgone⟩ := hok (by decide +kernel)
  obtain ⟨-, -, -, -, hwrite, -⟩ :=
    save_all_or_nothing { write := some (3, full) } disk history hname
  obtain ⟨hkept, -⟩ := hwrite (.ofFault "write temp file" "h.json.tmp" full) (by decide +kernel)
  obtain ⟨-, -, -, -, hrename, -⟩ :=
    save_all_or_nothing { rename := some denied } disk history hname
  obtain ⟨hkept', -, hgone'⟩ :=
    hrename (.ofFault "rename to final" "h.json" denied) (by decide +kernel)
  exact ⟨htext ▸ hholds.text, hgone, hkept.trans hold, hkept'.trans hold, hgone' denied rfl⟩

end History

end Calculator
