import Calculator.Console.Basic
import Calculator.Proofs.Json.Fields
import Calculator.Proofs.Json.Naturals

/-!
# Reports of failures

A report holds the kind of a failure and its details under their own keys. The kind says which
details to look for, so the failure reads back from them, with or without blanks in the text. Details
that come first have to be kept for a while, and can be: they are strings, and numbers that are
doubles as well. So a text is the report of one failure at most.
-/

namespace Calculator

namespace Json

variable {n : Nat}

theorem isWritable_ofNat (n : Nat) : (ofNat n).IsWritable :=
  .number (Numeral.isWellFormed_ofNat n)

theorem nat?_ofNat {width : Nat} (hn : n < 2 ^ width) : (ofNat n).nat? width = some n :=
  Numeral.toNat?_ofNat hn

theorem isStorable_ofNat (hn : n < 2 ^ 64) (depth : Nat) : (ofNat n).isStorable depth = true := by
  rw [ofNat, isStorable, Numeral.isSome_toFloat?_ofNat hn]

end Json

namespace Failure

/-- The numbers of a failure have the widths that are read: 64 bits for what is counted and 32 bits
for a base. -/
def Fits : Failure → Prop
  | .unexpected position _ => position < 2 ^ 64
  | .literal _ n | .base n => n < 2 ^ 32
  | .reductions limit => limit < 2 ^ 64
  | .argument .. | .file .. | .format .. | .version .. => True

variable {failure : Failure}

theorem isWritable_details (failure : Failure) : ∀ m ∈ failure.details, m.2.IsWritable := by
  cases failure <;> simp [details, Json.IsWritable.string, Json.isWritable_ofNat]

/-- The kind and the details of a failure give it back. -/
theorem ofDetails?_details (h : failure.Fits) :
    ofDetails? failure.kind (.object failure.details) = some failure := by
  -- keys and texts are compared as they stand, only numbers have to be read
  cases failure with
  | unexpected position found =>
    change (do return Failure.unexpected (← (Json.ofNat position).nat? 64) found) = _
    rw [Json.nat?_ofNat h]
    rfl
  | literal text n =>
    change (do return Failure.literal text (← (Json.ofNat n).nat? 32)) = _
    rw [Json.nat?_ofNat h]
    rfl
  | base n =>
    change (do return Failure.base (← (Json.ofNat n).nat? 32)) = _
    rw [Json.nat?_ofNat h]
    rfl
  | reductions limit =>
    change (do return Failure.reductions (← (Json.ofNat limit).nat? 64)) = _
    rw [Json.nat?_ofNat h]
    rfl
  | argument function reason => rfl
  | file operation path reason => rfl
  | format reason => rfl
  | version found expected => rfl

/-- Everything in the details of a failure is a string or a number that is a double as well. -/
theorem isStorable_of_mem_details (h : failure.Fits) (depth : Nat) :
    ∀ m ∈ failure.details, m.2.isStorable depth = true := by
  cases failure with
  | unexpected position found => simp [details, Json.isStorable, Json.isStorable_ofNat h]
  | literal text n =>
    simp [details, Json.isStorable, Json.isStorable_ofNat (Nat.lt_trans h (by decide))]
  | base n => simp [details, Json.isStorable_ofNat (Nat.lt_trans h (by decide))]
  | reductions limit => simp [details, Json.isStorable_ofNat h]
  | argument | file | format | version => simp [details, Json.isStorable]

/-- The details of a failure can be kept until its kind is known. -/
theorem isStorable_details (h : failure.Fits) :
    (Json.object failure.details).isStorable maxDetailDepth = true :=
  List.all_eq_true.mpr (isStorable_of_mem_details h _)

/-- The report of a failure, with its kind or its details first. -/
def reports (failure : Failure) : List Json := [failure.toJson, failure.toJsonDetailsFirst]

theorem isWritable_of_mem_reports {json : Json} (hjson : json ∈ failure.reports) :
    json.IsWritable := by
  have hdetails := Json.IsWritable.object failure.isWritable_details
  simp only [reports, List.mem_cons, List.not_mem_nil, or_false] at hjson
  rcases hjson with rfl | rfl <;>
    exact .object (by simp [Json.IsWritable.string, hdetails])

/-- A failure reads back from its reports. -/
theorem ofJson?_of_mem_reports (h : failure.Fits) {json : Json} (hjson : json ∈ failure.reports) :
    ofJson? json = some failure := by
  simp only [reports, List.mem_cons, List.not_mem_nil, or_false] at hjson
  rcases hjson with rfl | rfl
  · exact ofDetails?_details h
  · change (do
      guard (!true || (Json.object failure.details).isStorable maxDetailDepth)
      ofDetails? failure.kind (.object failure.details)) = _
    rw [isStorable_details h]
    exact ofDetails?_details h

/-- The texts of the reports of a failure, without blanks and with lines and indentation. -/
def reportTexts (failure : Failure) : List Text :=
  failure.reports.map Json.compact ++ failure.reports.map Json.pretty

theorem parse?_of_mem_reportTexts (h : failure.Fits) {s : Text} (hs : s ∈ failure.reportTexts) :
    parse? s = some failure := by
  rw [reportTexts, List.mem_append, List.mem_map, List.mem_map] at hs
  rcases hs with ⟨json, hjson, rfl⟩ | ⟨json, hjson, rfl⟩
  · rw [parse?, (isWritable_of_mem_reports hjson).parse?_compact, Option.bind_some,
      ofJson?_of_mem_reports h hjson]
  · rw [parse?, (isWritable_of_mem_reports hjson).parse?_pretty, Option.bind_some,
      ofJson?_of_mem_reports h hjson]

/-- **Every failure reads back from its report**, whatever texts it holds, and in whichever order
and layout the report is written; what the console prints of it ends with such a text. So no text is
the report of two failures. -/
theorem report_reads_back (failure : Failure) (h : failure.Fits) :
    (∀ s ∈ failure.reportTexts, parse? s = some failure) ∧
    (∃ s ∈ failure.reportTexts,
      failure.report = Text.lines ["Error: " ++ failure.message, [], "Error JSON:", s]) ∧
    ∀ other : Failure, other.Fits → other ≠ failure →
      (∀ json ∈ failure.reports, json ∉ other.reports) ∧
      ∀ s ∈ failure.reportTexts, s ∉ other.reportTexts := by
  refine ⟨fun s hs => parse?_of_mem_reportTexts h hs, ⟨failure.toJson.pretty, ?_, rfl⟩,
    fun other hother hne => ⟨fun json hjson hmem => ?_, fun s hs hmem => ?_⟩⟩
  · simp [reportTexts, reports]
  · have hread := ofJson?_of_mem_reports h hjson
    rw [ofJson?_of_mem_reports hother hmem] at hread
    exact hne (Option.some.inj hread)
  · have hread := parse?_of_mem_reportTexts h hs
    rw [parse?_of_mem_reportTexts hother hmem] at hread
    exact hne (Option.some.inj hread)

/-- A failure whose text has to be escaped reads back from its details and its kind. -/
theorem report_reads_back_escaped :
    let failure := Failure.literal "\"1\\π\n\x07".toList 16
    failure.Fits ∧ parse? failure.toJsonDetailsFirst.compact = some failure ∧
      parse? failure.toJson.pretty = some failure ∧
      failure.toJson ∉ (Failure.literal "1π".toList 16).reports := by
  intro failure
  have hfits : failure.Fits := show 16 < 2 ^ 32 by decide
  have hother : (Failure.literal "1π".toList 16).Fits := show 16 < 2 ^ 32 by decide
  obtain ⟨htexts, -, hreports⟩ := report_reads_back failure hfits
  refine ⟨hfits, htexts _ ?_, htexts _ ?_, (hreports _ hother (by decide)).1 _ ?_⟩
  · simp [reportTexts, reports]
  · simp [reportTexts, reports]
  · simp [reports]

end Failure

end Calculator
