import Calculator.Proofs.History.Order

/-!
# Removing what was added

Entries are added by their instants, but found and removed by their identifiers and left out by
their calculators. In a history that is newest first a new entry stands between those that are newer
and those that are not, and it still does when others are left out. So removing it again gives the
history back, and leaving out other entries may as well come before adding it.
-/

namespace Calculator

/-- A list made of two others, each of them in its order. -/
inductive Interleaves {α : Type} : List α → List α → List α → Prop
  /-- Nothing is left of either. -/
  | nil : Interleaves [] [] []
  /-- The next one comes from the first list. -/
  | left {as bs cs : List α} (a : α) (h : Interleaves as bs cs) : Interleaves (a :: as) bs (a :: cs)
  /-- The next one comes from the second list. -/
  | right {as bs cs : List α} (b : α) (h : Interleaves as bs cs) :
    Interleaves as (b :: bs) (b :: cs)

/-- A list is made of what is chosen from it and what is not. -/
theorem interleaves_filter {α : Type} (p : α → Bool) (as : List α) :
    Interleaves (as.filter p) (as.filter (!p ·)) as := by
  induction as with
  | nil => exact .nil
  | cons a as ih =>
    by_cases ha : p a = true
    · rw [List.filter_cons_of_pos ha, List.filter_cons_of_neg (by simp [ha])]
      exact .left a ih
    · rw [List.filter_cons_of_neg ha, List.filter_cons_of_pos (by simpa using ha)]
      exact .right a ih

namespace History

variable {history : History}

/-- What is taken out is the first entry with the identifier. -/
theorem takeOut_eq (history : History) (id : Uuid) :
    history.takeOut id = (history.get? id, history.remove id) := by
  rw [get?, List.find?_eq_bind_findIdx?_getElem?, remove, List.eraseP_eq_eraseIdx, takeOut]
  cases history.entries.findIdx? (·.id == id) <;> rfl

/-- An entry is inserted between those that are newer and those that are not. -/
theorem insert_append {entry : Entry} {before after : List Entry}
    (hnewer : ∀ other ∈ before, ¬other.timestamp ≤ entry.timestamp)
    (holder : ∀ other ∈ after, other.timestamp ≤ entry.timestamp) :
    insert entry (before ++ after) = before ++ entry :: after := by
  induction before with
  | nil =>
    cases after with
    | nil => rfl
    | cons other after => exact if_pos (holder other List.mem_cons_self)
  | cons other before ih =>
    rw [List.forall_mem_cons] at hnewer
    rw [List.cons_append, insert, if_neg hnewer.1, ih hnewer.2, List.cons_append]

/-! ## Identifiers -/

/-- A new entry is found by its identifier, if no other has it. -/
theorem NewestFirst.get?_add_self (h : history.NewestFirst) {entry : Entry}
    (hfresh : ∀ other ∈ history.entries, other.id ≠ entry.id) :
    (history.add entry).get? entry.id = some entry := by
  obtain ⟨before, after, hentries, hadd, -, -⟩ := h.exists_add entry
  rw [hentries, List.forall_mem_append] at hfresh
  have hbefore : before.find? (·.id == entry.id) = none := by
    simpa using hfresh.1
  rw [get?, hadd, List.find?_append, hbefore, Option.none_or,
    List.find?_cons_of_pos (by simp)]

/-- Removing a new entry undoes adding it. -/
theorem NewestFirst.remove_add_self (h : history.NewestFirst) {entry : Entry}
    (hfresh : ∀ other ∈ history.entries, other.id ≠ entry.id) :
    (history.add entry).remove entry.id = history := by
  obtain ⟨before, after, hentries, hadd, -, -⟩ := h.exists_add entry
  rw [hentries, List.forall_mem_append] at hfresh
  have hbefore : ∀ other ∈ before, ¬(other.id == entry.id) = true := by
    simpa using hfresh.1
  have hremove : (history.add entry).entries.eraseP (·.id == entry.id) = history.entries := by
    rw [hadd, List.eraseP_append_right _ hbefore,
      List.eraseP_cons_of_pos (by simp), hentries]
  exact congrArg (History.mk history.version) hremove

/-- Other identifiers lead to the same entries as before. -/
theorem NewestFirst.get?_add_of_ne (h : history.NewestFirst) {entry : Entry} {id : Uuid}
    (hne : id ≠ entry.id) : (history.add entry).get? id = history.get? id := by
  obtain ⟨before, after, hentries, hadd, -, -⟩ := h.exists_add entry
  rw [get?, get?, hadd, hentries, List.find?_append, List.find?_append,
    List.find?_cons_of_neg (by simpa using hne.symm)]

/-- Removing another entry may as well come before adding. -/
theorem NewestFirst.remove_add_of_ne (h : history.NewestFirst) {entry : Entry} {id : Uuid}
    (hne : id ≠ entry.id) : (history.add entry).remove id = (history.remove id).add entry := by
  obtain ⟨before, after, hentries, hadd, hnewer, holder⟩ := h.exists_add entry
  have hremove : (history.add entry).entries.eraseP (·.id == id) =
      insert entry (history.entries.eraseP (·.id == id)) := by
    rw [hadd, hentries, List.eraseP_append, List.eraseP_append]
    -- the entry that is removed is newer than the new one, or it is not
    split
    · rw [insert_append (fun other hmem => hnewer other (List.mem_of_mem_eraseP hmem)) holder]
    · rw [List.eraseP_cons_of_neg (by simpa using hne.symm),
        insert_append hnewer fun other hmem => holder other (List.mem_of_mem_eraseP hmem)]
  exact congrArg (History.mk history.version) hremove

/-! ## Plotted functions -/

/-- A new plotted function is left out like the others, and any other entry may as well be added
afterwards. -/
theorem NewestFirst.withoutPlots_add (h : history.NewestFirst) (entry : Entry) :
    (history.add entry).withoutPlots =
      if entry.isPlot then history.withoutPlots else history.withoutPlots.add entry := by
  obtain ⟨before, after, hentries, hadd, hnewer, holder⟩ := h.exists_add entry
  by_cases hplot : entry.isPlot = true
  · have hkept : (history.add entry).entries.filter (!·.isPlot) =
        history.entries.filter (!·.isPlot) := by
      rw [hadd, hentries, List.filter_append, List.filter_append,
        List.filter_cons_of_neg (by simp [hplot])]
    rw [if_pos hplot]
    exact congrArg (History.mk history.version) hkept
  · have hkept : (history.add entry).entries.filter (!·.isPlot) =
        insert entry (history.entries.filter (!·.isPlot)) := by
      rw [hadd, hentries, List.filter_append, List.filter_append,
        List.filter_cons_of_pos (by simp [hplot]),
        insert_append (fun other hmem => hnewer other (List.mem_of_mem_filter hmem))
          fun other hmem => holder other (List.mem_of_mem_filter hmem)]
    rw [if_neg hplot]
    exact congrArg (History.mk history.version) hkept

/-- **Removing undoes adding, and leaving out plotted functions commutes with it**, in every history
that operations lead to. An entry with a new identifier is found by it, and taking it out leaves the
history as it was. Every other identifier leads to the same entry as before, and taking that one out
may as well come before adding. The plotted functions and what is kept without them make up the
history, both in its order. -/
theorem takeOut_undoes_add (operations : List Operation) (entry : Entry) :
    let history := run operations
    ((∀ other ∈ history.entries, other.id ≠ entry.id) →
      (history.add entry).get? entry.id = some entry ∧
      (history.add entry).takeOut entry.id = (some entry, history)) ∧
    (∀ id, id ≠ entry.id →
      (history.add entry).get? id = history.get? id ∧
      (history.add entry).takeOut id =
        ((history.takeOut id).1, (history.takeOut id).2.add entry)) ∧
    (history.add entry).withoutPlots =
      (if entry.isPlot then history.withoutPlots else history.withoutPlots.add entry) ∧
    Interleaves history.plots history.withoutPlots.entries history.entries ∧
    (∀ other ∈ history.plots, other.isPlot = true) ∧
    ∀ other ∈ history.withoutPlots.entries, other.isPlot = false := by
  intro history
  have hempty : empty.NewestFirst := List.Pairwise.nil
  have hordered : history.NewestFirst := hempty.foldl operations
  refine ⟨fun hfresh => ?_, fun id hne => ?_, hordered.withoutPlots_add entry,
    interleaves_filter _ _, fun _ => List.of_mem_filter, fun other hmem => ?_⟩
  · have hfound := hordered.get?_add_self hfresh
    refine ⟨hfound, ?_⟩
    rw [takeOut_eq, hfound, hordered.remove_add_self hfresh]
  · have hfound := hordered.get?_add_of_ne hne
    refine ⟨hfound, ?_⟩
    rw [takeOut_eq, takeOut_eq, hfound, hordered.remove_add_of_ne hne]
  · simpa using List.of_mem_filter hmem

/-- A calculation of the same instant as a plotted function comes before it, and taking it out
leaves the function. -/
theorem takeOut_undoes_add_tie :
    let plot := (Record.graph "x").stamp ⟨⟨1⟩, ⟨⟨⟨2024, 5, 1⟩, 12, 0, 0, 0⟩, by decide⟩⟩
    let entry := (Record.engineering "1" "1").stamp
      ⟨⟨2⟩, ⟨⟨⟨2024, 5, 1⟩, 12, 0, 0, 0⟩, by decide⟩⟩
    ((run [.add plot]).add entry).entries = [entry, plot] ∧
    ((run [.add plot]).add entry).takeOut ⟨2⟩ = (some entry, run [.add plot]) ∧
    ((run [.add plot]).add entry).get? ⟨1⟩ = some plot ∧
    ((run [.add plot]).add entry).withoutPlots = (run [.add plot]).withoutPlots.add entry := by
  intro plot entry
  obtain ⟨hself, hother, hplots, -⟩ := takeOut_undoes_add [.add plot] entry
  exact ⟨by decide, (hself (by decide)).2, (hother ⟨1⟩ (by decide)).1, hplots⟩

end History

end Calculator
