import Calculator.Json.Fields
import Calculator.Proofs.Json.Values
import Mathlib.Data.List.Nodup

/-!
# Records in JSON

An object in which no key is repeated gives a record its fields: the values of its members, when the
record asks for their keys in the order of the members.
-/

namespace Calculator.Json

theorem member?_of_mem {members : List (Text × Json)} (hkeys : (members.map (·.1)).Nodup)
    {m : Text × Json} (hm : m ∈ members) : member? members m.1 = some (some m.2) := by
  obtain ⟨before, after, rfl⟩ := List.append_of_mem hm
  rw [List.map_append, List.map_cons, List.nodup_middle, List.nodup_cons, List.mem_append,
    not_or] at hkeys
  obtain ⟨⟨hbefore, hafter⟩, -⟩ := hkeys
  have hnone {others : List (Text × Json)} (h : m.1 ∉ others.map (·.1)) :
      others.filter (·.1 == m.1) = [] := by
    apply List.filter_eq_nil_iff.mpr
    intro other hother heq
    rw [← eq_of_beq heq] at h
    exact h (List.mem_map_of_mem hother)
  have hself : (m :: after).filter (·.1 == m.1) = m :: after.filter (·.1 == m.1) :=
    List.filter_cons_of_pos (beq_self_eq_true m.1)
  rw [member?, List.filter_append, hself, hnone hbefore, hnone hafter]
  rfl

/-- The fields of a record are the values of the members. -/
theorem fields?_object {members : List (Text × Json)} (hkeys : (members.map (·.1)).Nodup) :
    (object members).fields? (members.map (·.1)) = some (members.map (some ·.2)) := by
  rw [fields?]
  exact mapM_map_eq_some fun m hm => member?_of_mem hkeys hm

end Calculator.Json
