import Calculator.Storage.Disk
import Calculator.Proofs.Except
import Calculator.Proofs.Storage.Path

/-!
# Changes on a disk

A change that leaves every folder where it is leaves every path leading where it leads. A path with
a last name leads to the place with this name in the folder before it, however many slashes and lone
points follow.
-/

namespace Calculator.Disk

variable {disk disk' : Disk} {place other : Place}

/-! ## What stands at a place -/

/-- A key keeps its entry if the key itself is kept. -/
theorem lookup_filter (keeps : Place → Bool) (key : Place) (nodes : List (Place × Node)) :
    (nodes.filter fun entry => keeps entry.1).lookup key =
      if keeps key then nodes.lookup key else none := by
  induction nodes with
  | nil => simp
  | cons entry nodes ih =>
    obtain ⟨first, node⟩ := entry
    by_cases hkey : key = first
    · subst hkey
      cases hkeeps : keeps key <;> simp [hkeeps, ih]
    · have hne : (key == first) = false := beq_eq_false_iff_ne.mpr hkey
      cases hkeeps : keeps first <;> simp [hkeeps, List.lookup_cons, hne, ih]

theorem get?_of_ne_nil (disk : Disk) (h : place ≠ []) :
    disk.get? place = disk.nodes.lookup place := by
  obtain ⟨name, place, rfl⟩ := List.exists_cons_of_ne_nil h
  rfl

theorem get?_erase_self (disk : Disk) (h : place ≠ []) : (disk.erase place).get? place = none := by
  rw [get?_of_ne_nil _ h, erase, lookup_filter (· != place), if_neg (by simp)]

theorem get?_erase_of_ne (disk : Disk) (h : other ≠ place) :
    (disk.erase place).get? other = disk.get? other := by
  cases other with
  | nil => rfl
  | cons name other =>
    rw [get?_of_ne_nil _ (by simp), get?_of_ne_nil _ (by simp), erase, lookup_filter (· != place),
      if_pos (by simpa using h)]

theorem get?_put_self (disk : Disk) (h : place ≠ []) (node : Node) :
    (disk.put place node).get? place = some node := by
  rw [get?_of_ne_nil _ h, put, List.lookup_cons_self]

theorem get?_put_of_ne (disk : Disk) (h : other ≠ place) (node : Node) :
    (disk.put place node).get? other = disk.get? other := by
  rw [← get?_erase_of_ne disk h]
  cases other with
  | nil => rfl
  | cons name other =>
    rw [get?_of_ne_nil _ (by simp), get?_of_ne_nil _ (by simp), put, List.lookup_cons,
      beq_eq_false_iff_ne.mpr h]

/-! ## Disks that differ at places without folders -/

/-- Two disks differ at most at some places, where the first one has no folders. -/
structure DiffersAt (places : List Place) (disk disk' : Disk) : Prop where
  home : disk'.home = disk.home
  notFolder : ∀ place ∈ places, disk.get? place ≠ some .folder
  get? : ∀ place ∉ places, disk'.get? place = disk.get? place

variable {places : List Place}

theorem DiffersAt.refl (h : ∀ place ∈ places, disk.get? place ≠ some .folder) :
    DiffersAt places disk disk :=
  ⟨rfl, h, fun _ _ => rfl⟩

theorem DiffersAt.put (h : DiffersAt places disk disk') (hplace : place ∈ places) (node : Node) :
    DiffersAt places disk (disk'.put place node) := by
  refine ⟨h.home, h.notFolder, fun other hother => ?_⟩
  rw [get?_put_of_ne _ (ne_of_mem_of_not_mem hplace hother).symm, h.get? other hother]

theorem DiffersAt.erase (h : DiffersAt places disk disk') (hplace : place ∈ places) :
    DiffersAt places disk (disk'.erase place) := by
  refine ⟨h.home, h.notFolder, fun other hother => ?_⟩
  rw [get?_erase_of_ne _ (ne_of_mem_of_not_mem hplace hother).symm, h.get? other hother]

theorem DiffersAt.symm (h : DiffersAt places disk disk')
    (hnotFolder : ∀ place ∈ places, disk'.get? place ≠ some .folder) :
    DiffersAt places disk' disk :=
  ⟨h.home.symm, hnotFolder, fun place hplace => (h.get? place hplace).symm⟩

theorem DiffersAt.get?_folder (h : DiffersAt places disk disk')
    (hfolder : disk.get? place = some .folder) : disk'.get? place = some .folder := by
  rw [h.get? place fun hplace => h.notFolder place hplace hfolder, hfolder]

/-- A folder that can be entered can still be entered. -/
theorem DiffersAt.enter (h : DiffersAt places disk disk') {part : Text}
    (hok : disk.enter place part = .ok other) : disk'.enter place part = .ok other := by
  unfold Disk.enter at hok ⊢
  split_ifs at hok ⊢
  · exact hok
  · exact hok
  · split at hok
    · rename_i hfolder
      rw [h.get?_folder hfolder]
      exact hok
    · cases hok
    · cases hok

theorem DiffersAt.foldlM_enter (h : DiffersAt places disk disk') {parts : List Text}
    (hok : parts.foldlM disk.enter place = .ok other) :
    parts.foldlM disk'.enter place = .ok other := by
  induction parts generalizing place with
  | nil => exact hok
  | cons part parts ih =>
    rw [List.foldlM_cons] at hok ⊢
    obtain ⟨next, hnext, hok⟩ := bind_eq_ok_iff.mp hok
    rw [h.enter hnext, ok_bind]
    exact ih hok

/-! ## Where a path leads -/

/-- The folder that parts lead to from where a path starts. -/
def walk (disk : Disk) (path : Text) (parts : List Text) : Except DiskFault Place :=
  parts.foldlM disk.enter (if Path.isAbsolute path then [] else disk.home)

theorem DiffersAt.walk_eq (h : DiffersAt places disk disk') {path : Text} {parts : List Text}
    {folder : Place} (hwalk : disk.walk path parts = .ok folder) :
    disk'.walk path parts = .ok folder := by
  rw [walk] at hwalk ⊢
  rw [h.home]
  exact h.foldlM_enter hwalk

theorem locate_eq (disk : Disk) (path : Text) :
    disk.locate path =
      if path.contains '\x00' then .error .nullCharacter
      else if path.isEmpty then .error .missing
      else if Path.maxLength < Text.byteLength path then .error .tooLong
      else (disk.walk path (Path.parts path).dropLast).map fun folder =>
        ⟨folder, (Path.parts path).getLastD ".", Path.endsInSlash path⟩ := rfl

theorem locate_congr {path : Text} (h : disk'.walk path (Path.parts path).dropLast =
    disk.walk path (Path.parts path).dropLast) : disk'.locate path = disk.locate path := by
  rw [locate_eq, locate_eq, h]

theorem walk_of_locate {path : Text} {location : Location}
    (h : disk.locate path = .ok location) :
    disk.walk path (Path.parts path).dropLast = .ok location.folder ∧
      location.last = (Path.parts path).getLastD "." := by
  rw [locate_eq] at h
  split_ifs at h
  cases hwalk : disk.walk path (Path.parts path).dropLast with
  | error fault =>
    rw [hwalk] at h
    cases h
  | ok folder =>
    rw [hwalk] at h
    cases h
    exact ⟨rfl, rfl⟩

/-- A path still leads where it leads. -/
theorem DiffersAt.locate (h : DiffersAt places disk disk') {path : Text} {location : Location}
    (hok : disk.locate path = .ok location) : disk'.locate path = .ok location := by
  obtain ⟨hwalk, -⟩ := walk_of_locate hok
  rw [locate_congr, hok]
  rw [hwalk, h.walk_eq hwalk]

/-- The place that a part leads to from a place. -/
def onward (place : Place) (part : Text) : Place :=
  if part = "." then place else if part = ".." then place.dropLast else place ++ [part]

theorem onward_of_isName {part : Text} (h : Path.isName part = true) (place : Place) :
    onward place part = place ++ [part] := by
  obtain ⟨-, hpoint, hpoints⟩ := Path.isName_iff.mp h
  rw [onward, if_neg hpoint, if_neg hpoints]

theorem onward_of_enter {part : Text} (h : disk.enter place part = .ok other) :
    onward place part = other := by
  unfold Disk.enter at h
  unfold onward
  split_ifs at h ⊢
  · exact Except.ok.inj h
  · exact Except.ok.inj h
  · split at h
    · exact Except.ok.inj h
    · cases h
    · cases h

/-- A path leads to a place, whether or not something stands there. -/
def LeadsTo (disk : Disk) (path : Text) (place : Place) : Prop :=
  ∃ location, disk.locate path = .ok location ∧ onward location.folder location.last = place

theorem enter_points (disk : Disk) (place : Place) (points : Nat) :
    (List.replicate points ['.']).foldlM disk.enter place = .ok place := by
  induction points with
  | zero => rfl
  | succ points ih =>
    rw [List.replicate_succ, List.foldlM_cons]
    exact ih

/-- The walk to a path with a last name goes to the folder before the name, or through the name if
it has points after it. -/
theorem walk_of_splits {path front n trail : Text} (h : Path.Splits path front n trail) :
    ((∀ disk : Disk, disk.walk path (Path.parts path).dropLast =
          disk.walk front (Path.parts front)) ∧
        (Path.parts path).getLastD "." = n) ∨
      ((∀ disk : Disk, disk.walk path (Path.parts path).dropLast =
          (disk.walk front (Path.parts front)).bind (disk.enter · n)) ∧
        (Path.parts path).getLastD "." = ['.']) := by
  obtain ⟨points, hparts⟩ := h.parts_eq
  simp only [walk, h.isAbsolute_eq, hparts]
  cases points with
  | zero =>
    rw [List.replicate_zero, List.dropLast_concat, List.getLastD_concat]
    exact .inl ⟨fun _ => rfl, rfl⟩
  | succ points =>
    have hsplit : Path.parts front ++ n :: List.replicate (points + 1) ['.'] =
        (Path.parts front ++ n :: List.replicate points ['.']) ++ [['.']] := by
      rw [List.replicate_succ', List.append_assoc, List.cons_append]
    right
    simp only [hsplit, List.dropLast_concat, List.getLastD_concat, List.foldlM_append]
    refine ⟨fun disk => ?_, trivial⟩
    congr 1
    funext folder
    rw [List.foldlM_cons]
    cases disk.enter folder n with
    | error fault => rfl
    | ok next => exact enter_points disk next points

/-- A path with a last name leads to the place with this name in the folder before it. -/
theorem LeadsTo.of_splits {path front n trail : Text} (h : disk.LeadsTo path place)
    (hsplits : Path.Splits path front n trail) :
    ∃ folder, disk.walk front (Path.parts front) = .ok folder ∧ onward folder n = place := by
  obtain ⟨location, hlocate, rfl⟩ := h
  obtain ⟨hwalk, hlast⟩ := walk_of_locate hlocate
  rcases walk_of_splits hsplits with ⟨hfront, hlast'⟩ | ⟨hfront, hlast'⟩
  · rw [hlast, hlast']
    exact ⟨location.folder, hfront disk ▸ hwalk, rfl⟩
  · rw [hfront] at hwalk
    obtain ⟨folder, hfolder, henter⟩ := bind_eq_ok_iff.mp hwalk
    rw [hlast, hlast']
    exact ⟨folder, hfolder, onward_of_enter henter⟩

/-! ## Files -/

/-- A path leads by a name to where a file may stand. -/
structure IsFilePath (disk : Disk) (path : Text) (location : Location) : Prop where
  locate : disk.locate path = .ok location
  isName : Path.isName location.last = true
  short : ¬Path.maxNameLength < Text.byteLength location.last
  unslashed : location.slashed = false

variable {path : Text} {location : Location}

theorem Location.place_ne_nil (location : Location) : location.place ≠ [] :=
  List.append_ne_nil_of_right_ne_nil _ (List.cons_ne_nil _ _)

theorem IsFilePath.leadsTo (h : disk.IsFilePath path location) :
    disk.LeadsTo path location.place :=
  ⟨location, h.locate, onward_of_isName h.isName _⟩

theorem IsFilePath.eq {other : Location} (h : disk.IsFilePath path location)
    (hother : disk.IsFilePath path other) : other = location :=
  Except.ok.inj (hother.locate.symm.trans h.locate)

theorem IsFilePath.nodeAt?_eq (h : disk.IsFilePath path location) (disk' : Disk) :
    disk'.nodeAt? location = .ok (disk'.get? location.place) := by
  rw [nodeAt?, h.isName, if_neg (by simp), if_neg h.short]

/-- What is no folder stands at the place of a name. -/
theorem of_nodeAt? {node : Option Node} (h : disk.nodeAt? location = .ok node)
    (hnode : node ≠ some .folder) :
    Path.isName location.last = true ∧ ¬Path.maxNameLength < Text.byteLength location.last ∧
      disk.get? location.place = node := by
  unfold nodeAt? at h
  split_ifs at h with hname hlong
  · exact absurd (Except.ok.inj h).symm hnode
  · exact ⟨by simpa using hname, hlong, Except.ok.inj h⟩

theorem DiffersAt.isFilePath (h : DiffersAt places disk disk')
    (hpath : disk.IsFilePath path location) : disk'.IsFilePath path location :=
  { hpath with locate := h.locate hpath.locate }

theorem IsFilePath.read_eq (h : disk.IsFilePath path location) {bytes : ByteArray}
    (hfile : disk.get? location.place = some (.file bytes)) : disk.read path = .ok bytes := by
  simp [read, find, h.locate, ok_bind, h.nodeAt?_eq, hfile, h.unslashed]

theorem IsFilePath.find_eq_missing (h : disk.IsFilePath path location)
    (hnone : disk.get? location.place = none) : disk.find path = .error .missing := by
  rw [find, h.locate, ok_bind, h.nodeAt?_eq, hnone, ok_bind]

/-- A place for a file is the one that the path leads to, and no folder stands there. -/
theorem exists_of_filePlace (h : disk.filePlace path = .ok place) :
    ∃ location, disk.IsFilePath path location ∧ location.place = place ∧
      disk.get? place ≠ some .folder := by
  obtain ⟨location, hlocate, h⟩ := bind_eq_ok_iff.mp h
  obtain ⟨node, hnodeAt, h⟩ := bind_eq_ok_iff.mp h
  split at h
  · cases h
  · rename_i hnode
    split_ifs at h with hslashed
    cases h
    obtain ⟨hname, hshort, hget⟩ := of_nodeAt? hnodeAt hnode
    exact ⟨location, ⟨hlocate, hname, hshort, by simpa using hslashed⟩, rfl, hget ▸ hnode⟩

/-- A file takes the place of what is no folder. -/
theorem exists_of_rename {source target : Text} (h : disk.rename source target = .ok disk') :
    ∃ old new bytes, disk.IsFilePath source old ∧ disk.IsFilePath target new ∧
      disk.get? old.place = some (.file bytes) ∧ disk.get? new.place ≠ some .folder ∧
      disk' = (disk.erase old.place).put new.place (.file bytes) := by
  obtain ⟨old, hold, h⟩ := bind_eq_ok_iff.mp h
  obtain ⟨new, hnew, h⟩ := bind_eq_ok_iff.mp h
  split at h
  · cases h
  obtain ⟨oldNode, holdAt, h⟩ := bind_eq_ok_iff.mp h
  obtain ⟨newNode, hnewAt, h⟩ := bind_eq_ok_iff.mp h
  cases oldNode with
  | none => cases h
  | some node =>
    cases node with
    | folder => cases h
    | file bytes =>
      dsimp only at h
      split_ifs at h with hslashed
      split at h
      · cases h
      · rename_i hnode
        cases h
        obtain ⟨holdName, holdShort, holdGet⟩ := of_nodeAt? holdAt (by simp)
        obtain ⟨hnewName, hnewShort, hnewGet⟩ := of_nodeAt? hnewAt hnode
        simp only [Bool.or_eq_true, not_or, Bool.not_eq_true] at hslashed
        exact ⟨old, new, bytes, ⟨hold, holdName, holdShort, hslashed.1⟩,
          ⟨hnew, hnewName, hnewShort, hslashed.2⟩, holdGet, hnewGet ▸ hnode, rfl⟩

theorem DiffersAt.enter_eq (h : DiffersAt places disk disk') {part : Text}
    (hplace : place ++ [part] ∉ places) : disk'.enter place part = disk.enter place part := by
  simp only [Disk.enter, h.get? _ hplace]

/-- A path finds what it found if nothing changes where its last name leads. -/
theorem DiffersAt.find_eq {front n trail : Text} (h : DiffersAt places disk disk')
    (hsplits : Path.Splits path front n trail) (hn : Path.isName n = true) {folder : Place}
    (hfolder : disk.walk front (Path.parts front) = .ok folder) (hplace : folder ++ [n] ∉ places) :
    disk'.find path = disk.find path := by
  have hfolder' := h.walk_eq hfolder
  have hlocate : disk'.locate path = disk.locate path := by
    apply locate_congr
    rcases walk_of_splits hsplits with ⟨hwalk, -⟩ | ⟨hwalk, -⟩
    · rw [hwalk, hwalk, hfolder, hfolder']
    · rw [hwalk, hwalk, hfolder, hfolder']
      exact h.enter_eq hplace
  rw [find, find, hlocate]
  cases hlocation : disk.locate path with
  | error fault => rfl
  | ok location =>
    have hnodeAt : disk'.nodeAt? location = disk.nodeAt? location := by
      by_cases hname : Path.isName location.last = true
      · obtain ⟨folder', hwalk, honward⟩ := LeadsTo.of_splits ⟨location, hlocation, rfl⟩ hsplits
        rw [hfolder] at hwalk
        cases hwalk
        rw [onward_of_isName hn, onward_of_isName hname] at honward
        rw [honward] at hplace
        rw [nodeAt?, nodeAt?, Location.place, h.get? _ hplace]
      · simp [nodeAt?, hname]
    rw [ok_bind, ok_bind, hnodeAt]

end Calculator.Disk
