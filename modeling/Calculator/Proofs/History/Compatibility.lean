import Calculator.History.Version
import Calculator.Proofs.History.Saving

/-!
# Versions that can be read

A history can be read when the first two numbers of its version are right. Parts that are no numbers
below `2^32` are skipped before the numbers are counted, so these need not be the numbers of the
first two parts. They are if neither of these is skipped, and then no version is read that is not
compatible with ours.
-/

namespace Calculator.History

variable {version : Text}

/-- The number in a place of a version, however many digits it has. -/
def numberAt? (version : Text) (place : Nat) : Option Nat :=
  (Text.splitAtChar '.' version)[place]?.bind Text.natural?

/-- The first part of a version is the number zero, and the second is not a number above one. -/
structure IsCompatible (version : Text) : Prop where
  major : numberAt? version 0 = some 0
  minor : ∀ n ∈ numberAt? version 1, n ≤ 1

/-- Our version is compatible with itself, and no greater second number is. -/
example : numberAt? historyVersion 0 = some 0 ∧ numberAt? historyVersion 1 = some 1 := by
  decide

/-- The first part of a version is a number below `2^32`, and the second is not a number above
that. -/
structure KeepsPlaces (version : Text) : Prop where
  major : ∃ n ∈ numberAt? version 0, n < 2 ^ 32
  minor : ∀ n ∈ numberAt? version 1, n < 2 ^ 32

theorem versionNumber?_of_lt {part : Text} {n : Nat} (hpart : Text.natural? part = some n)
    (hlt : n < 2 ^ 32) : versionNumber? part = some n := by
  rw [versionNumber?, hpart, Option.filter_some_pos (by simpa using hlt)]

/-- The first number of a version that can be read is zero, and the second is not above one. -/
theorem versionNumbers_of_acceptsVersion (h : acceptsVersion version = true) :
    ∃ minors, versionNumbers version = 0 :: minors ∧ ∀ minor ∈ minors.head?, minor ≤ 1 := by
  have hours : versionNumbers historyVersion = [0, 1, 0] := by decide
  rw [acceptsVersion, hours] at h
  cases hnumbers : versionNumbers version with
  | nil =>
    rw [hnumbers] at h
    cases h
  | cons major minors =>
    rw [hnumbers] at h
    obtain ⟨hmajor, hminor⟩ := Bool.and_eq_true_iff.mp h
    refine ⟨minors, by rw [eq_of_beq hmajor], ?_⟩
    rintro minor hmem
    cases minors with
    | nil => cases hmem
    | cons other others =>
      cases hmem
      exact of_decide_eq_true hminor

theorem IsCompatible.keepsPlaces (h : IsCompatible version) : KeepsPlaces version :=
  ⟨⟨0, h.major, by decide⟩, fun n hn => Nat.lt_of_le_of_lt (h.minor n hn) (by decide)⟩

/-- The numbers of a version that keeps its places begin with the numbers of its first two parts. -/
theorem KeepsPlaces.isCompatible (h : KeepsPlaces version)
    (haccepts : acceptsVersion version = true) : IsCompatible version := by
  obtain ⟨⟨major, hmajor, hfits⟩, hminor⟩ := h
  obtain ⟨minors, hnumbers, hle⟩ := versionNumbers_of_acceptsVersion haccepts
  unfold numberAt? at hmajor hminor
  unfold versionNumbers at hnumbers
  cases hparts : Text.splitAtChar '.' version with
  | nil =>
    rw [hparts] at hmajor
    cases hmajor
  | cons first others =>
    rw [hparts] at hmajor hminor hnumbers
    have hfirst : Text.natural? first = some major := hmajor
    rw [List.filterMap_cons_some (versionNumber?_of_lt hfirst hfits)] at hnumbers
    obtain ⟨rfl, rfl⟩ := List.cons.inj hnumbers
    refine ⟨by rw [numberAt?, hparts]; exact hfirst, fun n hn => ?_⟩
    rw [numberAt?, hparts] at hn
    cases others with
    | nil => cases hn
    | cons second others =>
      have hsecond : Text.natural? second = some n := hn
      rw [List.filterMap_cons_some (versionNumber?_of_lt hsecond (hminor n hn))] at hle
      exact hle n rfl

theorem acceptsVersion_of_load {disk : Disk} {path : Text} {history : History}
    (h : load disk path = .ok history) : acceptsVersion history.version = true := by
  obtain ⟨-, -, -, haccepts⟩ := exists_of_load h
  exact haccepts

/-- **A history that is loaded is of a compatible version exactly if its version keeps its places.**
A file with a history of any other version that keeps its places is refused with both versions. -/
theorem load_compatible_iff (disk : Disk) (path : Text) :
    (∀ history, load disk path = .ok history →
      (IsCompatible history.version ↔ KeepsPlaces history.version)) ∧
    ∀ bytes history, disk.read path = .ok bytes →
      readContents reading path ofJson? bytes = .ok history →
      KeepsPlaces history.version → ¬IsCompatible history.version →
      load disk path = .error (.version history.version historyVersion) := by
  constructor
  · intro history hload
    have haccepts := acceptsVersion_of_load hload
    exact ⟨IsCompatible.keepsPlaces, fun hplaces => hplaces.isCompatible haccepts⟩
  · intro bytes history hbytes hcontents hplaces hincompatible
    have hrefuses : ¬acceptsVersion history.version = true :=
      fun haccepts => hincompatible (hplaces.isCompatible haccepts)
    rw [load, hbytes, Except.mapError, ok_bind, ofContents, hcontents, ok_bind, checkVersion,
      if_neg hrefuses]

/-- A history of an older version is loaded, and one of a newer version is refused. -/
theorem load_compatible_older :
    (load (save {} .empty "h.json" ⟨"0.0.9", []⟩).1 "h.json" = .ok ⟨"0.0.9", []⟩ ∧
      IsCompatible "0.0.9") ∧
    load (save {} .empty "h.json" ⟨"0.2.0", []⟩).1 "h.json" =
      .error (.version "0.2.0" historyVersion) := by
  have holder : load (save {} .empty "h.json" ⟨"0.0.9", []⟩).1 "h.json" = .ok ⟨"0.0.9", []⟩ :=
    load_of_save rfl
  refine ⟨⟨holder, ?_⟩, ?_⟩
  · exact ((load_compatible_iff _ _).1 _ holder).mpr ⟨by decide, by decide⟩
  · refine (load_compatible_iff _ _).2 _ ⟨"0.2.0", []⟩ (read_of_save rfl) ?_ ?_ ?_
    · exact readContents_pretty _ _ (isWritable_toJson _) (ofJson?_toJson _)
    · exact ⟨by decide, by decide⟩
    · intro h
      have hminor := h.minor 2 (by decide)
      omega

/-- A part that is too large for a number, or no number, is skipped, so that the number after it is
taken for its own. -/
theorem load_skips_parts :
    (load (save {} .empty "h.json" ⟨"0.4294967296.0", []⟩).1 "h.json" =
        .ok ⟨"0.4294967296.0", []⟩ ∧
      ¬IsCompatible "0.4294967296.0") ∧
    load (save {} .empty "h.json" ⟨"x.0.1", []⟩).1 "h.json" = .ok ⟨"x.0.1", []⟩ ∧
      ¬IsCompatible "x.0.1" := by
  refine ⟨⟨load_of_save rfl, fun h => ?_⟩, load_of_save rfl, fun h => ?_⟩
  · have hminor := h.minor 4294967296 (by decide)
    omega
  · have hmajor : numberAt? "x.0.1" 0 = none := by decide
    rw [h.major] at hmajor
    cases hmajor

end Calculator.History
