import Calculator.Proofs.History.Instant
import Calculator.Proofs.History.Order

/-!
# Limits and orders of adding

A history that is cut to a limit after every new entry has the entries of one that is cut at the
end: what a limit leaves out has all kept entries before it, so a later entry never brings it back.
This needs no order of the entries. Which entries there are decides their order as well, if all are
of different instants. So a history of such entries is the same in whichever order they were added.
-/

namespace Calculator

namespace Timestamp

/-- The fields of an instant can be told from its rank. -/
theorem le_antisymm {t u : Timestamp} (htu : t ≤ u) (hut : u ≤ t) : t = u := by
  have hrank : t.rank = u.rank := Int.le_antisymm htu hut
  obtain ⟨⟨⟨year, month, day⟩, hour, minute, second, nanosecond⟩, hvalid⟩ := t
  obtain ⟨⟨⟨year', month', day'⟩, hour', minute', second', nanosecond'⟩, hvalid'⟩ := u
  obtain ⟨hmonth, hday, hhour, hminute, hsecond, hnanosecond⟩ := Clock.bounds_of_isValid hvalid
  obtain ⟨hmonth', hday', hhour', hminute', hsecond', hnanosecond'⟩ :=
    Clock.bounds_of_isValid hvalid'
  dsimp only [rank] at *
  -- the fields that weigh less than one field never reach its weight together
  obtain ⟨rfl, rfl, rfl, rfl, rfl, rfl, rfl⟩ : year = year' ∧ month = month' ∧ day = day' ∧
      hour = hour' ∧ minute = minute' ∧ second = second' ∧ nanosecond = nanosecond' := by
    omega
  rfl

end Timestamp

namespace History

variable {history : History}

/-! ## Limits -/

/-- By induction on the entries: inserting into the first entries gives the same first entries as
inserting into all of them. -/
theorem take_insert_take (entry : Entry) (entries : List Entry) (limit : Nat) :
    (insert entry (entries.take limit)).take limit = (insert entry entries).take limit := by
  induction entries generalizing limit with
  | nil => rw [List.take_nil]
  | cons other rest ih =>
    cases limit with
    | zero => rfl
    | succ limit =>
      have hcut : other :: rest.take limit = (other :: rest).take (limit + 1) := rfl
      rw [List.take_succ_cons, insert, insert]
      split
      · rw [List.take_succ_cons, List.take_succ_cons, hcut, List.take_take,
          Nat.min_eq_left (Nat.le_succ limit)]
      · rw [List.take_succ_cons, List.take_succ_cons, ih]

/-- A history with one more entry, cut to a limit. -/
def addWithin (limit : Nat) (history : History) (entry : Entry) : History :=
  (history.add entry).keepNewest limit

theorem keepNewest_keepNewest (history : History) (limit : Nat) :
    (history.keepNewest limit).keepNewest limit = history.keepNewest limit := by
  unfold keepNewest
  split
  · rfl
  · dsimp only
    rw [List.take_take, Nat.min_self]

theorem addWithin_keepNewest (history : History) (limit : Nat) (entry : Entry) :
    addWithin limit (history.keepNewest limit) entry = (history.add entry).keepNewest limit := by
  unfold addWithin keepNewest add
  split
  · rfl
  · dsimp only
    rw [take_insert_take]

/-- By induction on the entries, the last of which comes after all others. -/
theorem foldl_addWithin (history : History) (limit : Nat) (entries : List Entry) :
    entries.foldl (addWithin limit) (history.keepNewest limit) =
      (entries.foldl add history).keepNewest limit := by
  induction entries using List.reverseRecOn with
  | nil => rfl
  | append_singleton entries entry ih =>
    simp only [List.foldl_append, List.foldl_cons, List.foldl_nil]
    rw [ih, addWithin_keepNewest]

/-! ## Orders -/

theorem perm_insert (entry : Entry) (entries : List Entry) :
    (insert entry entries).Perm (entry :: entries) := by
  rw [insert_eq_orderedInsert]
  exact List.perm_orderedInsert Entry.NotOlder entry entries

/-- The entries of a history are those that were added and those that it had. -/
theorem perm_foldl_add (history : History) (entries : List Entry) :
    (entries.foldl add history).entries.Perm (entries ++ history.entries) := by
  induction entries generalizing history with
  | nil => rfl
  | cons entry entries ih =>
    refine (ih (history.add entry)).trans ?_
    exact ((perm_insert entry history.entries).append_left entries).trans List.perm_middle

theorem NewestFirst.foldl_add (h : history.NewestFirst) (entries : List Entry) :
    (entries.foldl History.add history).NewestFirst := by
  have hordered := h.foldl (entries.map Operation.add)
  rw [List.foldl_map] at hordered
  exact hordered

theorem version_foldl_add (history : History) (entries : List Entry) :
    (entries.foldl add history).version = history.version := by
  induction entries generalizing history with
  | nil => rfl
  | cons entry entries ih => exact ih (history.add entry)

/-- Histories that are newest first and have the same entries, all of different instants, have them
in the same order. -/
theorem NewestFirst.entries_eq_of_perm {history' : History} (h : history.NewestFirst)
    (h' : history'.NewestFirst) (hperm : history.entries.Perm history'.entries)
    (hdistinct : (history.entries.map (·.timestamp)).Nodup) :
    history.entries = history'.entries := by
  refine List.Perm.eq_of_pairwise (fun entry other hentry hother hle hge => ?_) h h' hperm
  exact List.inj_on_of_nodup_map hdistinct hentry (hperm.mem_iff.mpr hother)
    (Timestamp.le_antisymm hge hle)

/-- Entries of different instants make the same history in every order. -/
theorem foldl_add_eq_of_perm {entries shuffled : List Entry} (hempty : history.entries = [])
    (hperm : entries.Perm shuffled) (hdistinct : (entries.map (·.timestamp)).Nodup) :
    entries.foldl add history = shuffled.foldl add history := by
  have hordered : history.NewestFirst := by
    rw [NewestFirst, hempty]
    exact .nil
  have hadded (entries : List Entry) : (entries.foldl add history).entries.Perm entries := by
    have hperm := perm_foldl_add history entries
    rwa [hempty, List.append_nil] at hperm
  have hentries : (entries.foldl add history).entries = (shuffled.foldl add history).entries := by
    refine (hordered.foldl_add _).entries_eq_of_perm (hordered.foldl_add _) ?_ ?_
    · exact (hadded entries).trans (hperm.trans (hadded shuffled).symm)
    · exact ((hadded entries).map _).nodup_iff.mpr hdistinct
  have hversion : (entries.foldl add history).version = (shuffled.foldl add history).version := by
    rw [version_foldl_add, version_foldl_add]
  exact congrArg₂ History.mk hversion hentries

/-- **Cutting after every new entry keeps the same entries as cutting once**, whatever the history
is, whichever instants the entries are of, and whether the history is cut before the first of them
or with it. Entries of different instants make the same history in whichever order they are added to
one without entries. -/
theorem cutting_each_eq_cutting_once (history : History) (limit : Nat) (entries : List Entry) :
    entries.foldl (addWithin limit) (history.keepNewest limit) =
      (entries.foldl add history).keepNewest limit ∧
    entries.foldl (addWithin limit) (history.keepNewest limit) =
      (entries.foldl add (history.keepNewest limit)).keepNewest limit ∧
    (entries ≠ [] → entries.foldl (addWithin limit) history =
      (entries.foldl add history).keepNewest limit) ∧
    ∀ shuffled, history.entries = [] → entries.Perm shuffled →
      (entries.map (·.timestamp)).Nodup →
      entries.foldl add history = shuffled.foldl add history := by
  refine ⟨foldl_addWithin history limit entries, ?_, fun hne => ?_,
    fun _ hempty hperm hdistinct => foldl_add_eq_of_perm hempty hperm hdistinct⟩
  · rw [← foldl_addWithin, keepNewest_keepNewest]
  · obtain ⟨entry, rest, rfl⟩ := List.exists_cons_of_ne_nil hne
    rw [List.foldl_cons, List.foldl_cons, addWithin, foldl_addWithin]

/-- A clock that runs behind makes the second entry the older one, which a limit of one leaves
out. -/
theorem cutting_each_eq_cutting_once_behind :
    let later := (Record.graph "x").stamp ⟨⟨1⟩, ⟨⟨⟨2024, 5, 2⟩, 12, 0, 0, 0⟩, by decide⟩⟩
    let earlier := (Record.graph "y").stamp ⟨⟨2⟩, ⟨⟨⟨2024, 5, 1⟩, 12, 0, 0, 0⟩, by decide⟩⟩
    [later, earlier].foldl (addWithin 1) empty = ⟨historyVersion, [later]⟩ ∧
    [later, earlier].foldl (addWithin 1) empty =
      ([later, earlier].foldl add empty).keepNewest 1 ∧
    [later, earlier].foldl add empty = [earlier, later].foldl add empty := by
  intro later earlier
  obtain ⟨-, -, hcut, hshuffled⟩ := cutting_each_eq_cutting_once empty 1 [later, earlier]
  exact ⟨by decide, hcut (List.cons_ne_nil _ _), hshuffled [earlier, later] rfl (.swap _ _ _)
    (by decide)⟩

end History

end Calculator
