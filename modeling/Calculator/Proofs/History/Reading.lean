import Calculator.Proofs.History.Instant
import Calculator.Proofs.History.Uuid
import Calculator.Proofs.Json.Fields
import Calculator.Storage.Files

/-!
# The text of a history

Every entry of a history is written with all of its fields, each under its own key and in a form
that reads back, and so is the history itself. The bytes of a text are read as the text.
-/

namespace Calculator

/-- The bytes of a text give the text back. -/
theorem Text.ofBytes?_toBytes (s : Text) : ofBytes? (toBytes s) = some s := by
  rw [ofBytes?, toBytes, String.toUTF8_eq_toByteArray, String.fromUTF8?,
    dif_pos (String.isValidUTF8 _)]
  exact congrArg some String.toList_ofList

/-- The word for a calculator names it. -/
theorem Mode.ofJson?_tag (mode : Mode) : ofJson? (.string mode.tag) = some mode := by
  cases mode <;> rfl

namespace Entry

/-- An entry reads back from its value. -/
theorem ofJson?_toJson (entry : Entry) : ofJson? entry.toJson = some entry := by
  have hfields : entry.toJson.fields? ["id", "expression", "result", "timestamp",
      "calculator_type"] = some [some (.string entry.id.text), some (.string entry.expression),
        some (.string entry.result), some (.string entry.timestamp.text),
        some (.string entry.mode.tag)] :=
    Json.fields?_object (by simp)
  simp only [ofJson?, hfields, Option.bind_eq_bind, Option.bind_some, Json.string?,
    Uuid.parse?_text, Timestamp.parse?_text, Mode.ofJson?_tag, Option.pure_def]

theorem isWritable_toJson (entry : Entry) : entry.toJson.IsWritable := by
  apply Json.IsWritable.object
  simp [Json.IsWritable.string]

end Entry

namespace History

/-- A history reads back from its value. -/
theorem ofJson?_toJson (history : History) : ofJson? history.toJson = some history := by
  have hfields : history.toJson.fields? ["version", "entries"] =
      some [some (.string history.version), some (.array (history.entries.map Entry.toJson))] :=
    Json.fields?_object (by simp)
  have hentries : (history.entries.map Entry.toJson).mapM Entry.ofJson? = some history.entries := by
    rw [Json.mapM_map_eq_some fun entry _ => entry.ofJson?_toJson, List.map_id']
  simp only [ofJson?, hfields, Option.bind_eq_bind, Option.bind_some, Json.string?, Json.array?,
    hentries, Option.pure_def]

theorem isWritable_toJson (history : History) : history.toJson.IsWritable := by
  have hentries : (Json.array (history.entries.map Entry.toJson)).IsWritable := by
    apply Json.IsWritable.array
    rw [List.forall_mem_map]
    exact fun entry _ => entry.isWritable_toJson
  apply Json.IsWritable.object
  simp [Json.IsWritable.string, hentries]

/-- The text of a history reads back. -/
theorem parse?_text (history : History) : parse? history.text = some history := by
  rw [parse?, text, history.isWritable_toJson.parse?_pretty, Option.bind_some, ofJson?_toJson]

/-- The bytes of the text of a history read back. -/
theorem parse?_toBytes_text (history : History) :
    (Text.ofBytes? (Text.toBytes history.text)).bind parse? = some history := by
  rw [Text.ofBytes?_toBytes, Option.bind_some, parse?_text]

end History

end Calculator
