import Calculator.Proofs.History.Saving
import Mathlib.Data.List.Sort

/-!
# The order of a history

Whatever is done to a history that started without entries, its entries stay newest first. A new
entry is inserted in this order, before all that are not newer; everything else only leaves entries
out, and saving and loading gives them all back. So what a limit leaves out is never newer than what
it keeps.
-/

namespace Calculator

namespace Timestamp

theorem le_trans {t u v : Timestamp} (htu : t ≤ u) (huv : u ≤ v) : t ≤ v :=
  Int.le_trans htu huv

theorem le_total (t u : Timestamp) : t ≤ u ∨ u ≤ t :=
  Int.le_total t.rank u.rank

end Timestamp

/-- An entry is not older than another. -/
def Entry.NotOlder (entry other : Entry) : Prop := other.timestamp ≤ entry.timestamp

namespace Entry.NotOlder

instance : DecidableRel NotOlder := fun entry other =>
  inferInstanceAs (Decidable (other.timestamp ≤ entry.timestamp))

instance : IsTrans Entry NotOlder := ⟨fun _ _ _ h h' => Timestamp.le_trans h' h⟩

instance : Std.Total NotOlder := ⟨fun _ _ => Timestamp.le_total _ _⟩

end Entry.NotOlder

namespace History

/-- No entry of a history is older than one after it. -/
def NewestFirst (history : History) : Prop := history.entries.Pairwise Entry.NotOlder

/-- What can be done to a history. -/
inductive Operation where
  /-- Adding an entry. -/
  | add (entry : Entry)
  /-- Adding a plotted function. -/
  | plot (function : Text) (stamp : Stamp)
  /-- Removing the first entry with an identifier. -/
  | remove (id : Uuid)
  /-- Removing all entries. -/
  | clear
  /-- Removing all plotted functions. -/
  | clearPlots
  /-- Keeping the newest entries. -/
  | keepNewest (limit : Nat)
  /-- Saving to a disk at a path and loading from there. -/
  | reload (faults : SaveFaults) (disk : Disk) (path : Text)

/-- A history after an operation. What cannot be saved or loaded stays as it is. -/
def Operation.apply (history : History) : Operation → History
  | .add entry => history.add entry
  | .plot function stamp => history.add ((Record.graph function).stamp stamp)
  | .remove id => history.remove id
  | .clear => history.clear
  | .clearPlots => history.withoutPlots
  | .keepNewest limit => history.keepNewest limit
  | .reload faults disk path =>
    match save faults disk path history with
    | (saved, .ok ()) => (load saved path).toOption.getD history
    | (_, .error _) => history

/-- The history after operations on one without entries. -/
def run (operations : List Operation) : History := operations.foldl Operation.apply empty

/-! ## Adding -/

theorem insert_eq_orderedInsert (entry : Entry) (entries : List Entry) :
    insert entry entries = entries.orderedInsert Entry.NotOlder entry := by
  induction entries with
  | nil => rfl
  | cons other rest ih =>
    rw [insert, ih]
    rfl

theorem NewestFirst.add {history : History} (h : history.NewestFirst) (entry : Entry) :
    (history.add entry).NewestFirst := by
  rw [NewestFirst, History.add, insert_eq_orderedInsert]
  exact h.orderedInsert entry _

/-- A new entry goes between those that are newer and those that are not. -/
theorem NewestFirst.exists_add {history : History} (h : history.NewestFirst) (entry : Entry) :
    ∃ before after, history.entries = before ++ after ∧
      (history.add entry).entries = before ++ entry :: after ∧
      (∀ other ∈ before, ¬other.timestamp ≤ entry.timestamp) ∧
      ∀ other ∈ after, other.timestamp ≤ entry.timestamp := by
  have hadd : (history.add entry).entries =
      history.entries.takeWhile (fun other => ¬Entry.NotOlder entry other) ++
        entry :: history.entries.dropWhile fun other => ¬Entry.NotOlder entry other := by
    rw [History.add, insert_eq_orderedInsert, List.orderedInsert_eq_take_drop]
  have hordered := h.add entry
  rw [NewestFirst, hadd, List.pairwise_append] at hordered
  refine ⟨_, _, List.takeWhile_append_dropWhile.symm, hadd, ?_, ?_⟩
  · intro other hother
    have hnewer := List.mem_takeWhile_imp hother
    exact of_decide_eq_true hnewer
  · exact fun other hother => List.rel_of_pairwise_cons hordered.2.1 hother

/-! ## Leaving entries out -/

/-- A history with fewer entries in the same order. -/
theorem NewestFirst.sublist {history history' : History} (h : history.NewestFirst)
    (hsublist : history'.entries.Sublist history.entries) : history'.NewestFirst :=
  List.Pairwise.sublist hsublist h

/-- What a limit leaves out is not newer than what it keeps. -/
theorem NewestFirst.keepNewest {history : History} (h : history.NewestFirst) {limit : Nat}
    (hlimit : 0 < limit) :
    (history.keepNewest limit).entries.length = min limit history.entries.length ∧
      ∃ dropped, history.entries = (history.keepNewest limit).entries ++ dropped ∧
        ∀ entry ∈ (history.keepNewest limit).entries, ∀ other ∈ dropped,
          other.timestamp ≤ entry.timestamp := by
  have hentries : (history.keepNewest limit).entries = history.entries.take limit := by
    rw [History.keepNewest, if_neg (by omega)]
  rw [hentries]
  exact ⟨List.length_take, _, (List.take_append_drop limit _).symm, fun _ hkept _ hdropped =>
    h.rel_of_mem_take_of_mem_drop hkept hdropped⟩

/-! ## Operations -/

/-- What is saved and then loaded is the same history. -/
theorem apply_reload (faults : SaveFaults) (disk : Disk) (path : Text) (history : History) :
    (Operation.reload faults disk path).apply history = history := by
  have hload := @load_of_save faults disk path history
  rw [Operation.apply]
  cases hsaved : save faults disk path history with
  | mk saved result =>
    rw [hsaved] at hload
    cases result with
    | error failure => rfl
    | ok =>
      dsimp only at hload ⊢
      rw [hload rfl, checkVersion]
      split <;> rfl

/-- Every operation keeps a history newest first. -/
theorem NewestFirst.apply {history : History} (h : history.NewestFirst) (operation : Operation) :
    (operation.apply history).NewestFirst := by
  cases operation with
  | add entry => exact h.add entry
  | plot function stamp => exact h.add _
  | remove id => exact h.sublist List.eraseP_sublist
  | clear => exact h.sublist (List.nil_sublist _)
  | clearPlots => exact h.sublist List.filter_sublist
  | keepNewest limit =>
    change (history.keepNewest limit).NewestFirst
    unfold History.keepNewest
    split
    · exact h
    · exact h.sublist (List.take_sublist _ _)
  | reload faults disk path =>
    rw [apply_reload]
    exact h

/-- Operations keep a history newest first. -/
theorem NewestFirst.foldl {history : History} (h : history.NewestFirst)
    (operations : List Operation) : (operations.foldl Operation.apply history).NewestFirst := by
  induction operations generalizing history with
  | nil => exact h
  | cons operation operations ih => exact ih (h.apply operation)

/-- **A history is always newest first**, whatever was done to it since it had no entries. A new
entry is inserted before all that are not newer, among them those of the same instant, and after
all that are newer, without any change to them. A limit keeps as many entries as it allows, and what
it leaves out is not newer than what it keeps; a limit of zero keeps them all. -/
theorem newestFirst_run (operations : List Operation) :
    let history := run operations
    history.NewestFirst ∧
    (∀ entry, ∃ before after, history.entries = before ++ after ∧
      (history.add entry).entries = before ++ entry :: after ∧
      (∀ other ∈ before, ¬other.timestamp ≤ entry.timestamp) ∧
      ∀ other ∈ after, other.timestamp ≤ entry.timestamp) ∧
    (∀ limit, 0 < limit →
      (history.keepNewest limit).entries.length = min limit history.entries.length ∧
      ∃ dropped, history.entries = (history.keepNewest limit).entries ++ dropped ∧
        ∀ entry ∈ (history.keepNewest limit).entries, ∀ other ∈ dropped,
          other.timestamp ≤ entry.timestamp) ∧
    history.keepNewest 0 = history := by
  intro history
  have hempty : empty.NewestFirst := List.Pairwise.nil
  have hordered : history.NewestFirst := hempty.foldl operations
  exact ⟨hordered, hordered.exists_add, fun _ hlimit => hordered.keepNewest hlimit, rfl⟩

/-- A function that is plotted by a clock that runs behind is the one that a limit leaves out. -/
theorem newestFirst_run_plots :
    ((run [.plot "x" ⟨⟨1⟩, ⟨⟨⟨2024, 5, 2⟩, 12, 0, 0, 0⟩, by decide⟩⟩,
        .plot "y" ⟨⟨2⟩, ⟨⟨⟨2024, 5, 1⟩, 12, 0, 0, 0⟩, by decide⟩⟩]).keepNewest 1).entries.length =
          1 ∧
      ((run [.plot "x" ⟨⟨1⟩, ⟨⟨⟨2024, 5, 2⟩, 12, 0, 0, 0⟩, by decide⟩⟩,
        .plot "y" ⟨⟨2⟩, ⟨⟨⟨2024, 5, 1⟩, 12, 0, 0, 0⟩, by decide⟩⟩]).keepNewest 1).entries.map
          (·.expression) = ["x".toList] := by
  obtain ⟨-, -, hlimit, -⟩ := newestFirst_run
    [.plot "x" ⟨⟨1⟩, ⟨⟨⟨2024, 5, 2⟩, 12, 0, 0, 0⟩, by decide⟩⟩,
      .plot "y" ⟨⟨2⟩, ⟨⟨⟨2024, 5, 1⟩, 12, 0, 0, 0⟩, by decide⟩⟩]
  exact ⟨(hlimit 1 (by decide)).1, by decide⟩

end History

end Calculator
