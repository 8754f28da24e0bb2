import Calculator.Proofs.Json.Numbers
import Calculator.Proofs.Json.Strings
import Mathlib.Data.List.DropRight

/-!
# Values in JSON

A text is read as a value if the reader takes it whole, whatever follows it that does not go on with
a number. Brackets keep this: items that are read are read with commas between them and blanks
around them. From this the text of every value reads back, without blanks as well as with lines and
indentation.
-/

namespace Calculator.Json

/-- A run of characters that may stand between tokens. -/
def IsGap (s : Text) : Prop := ∀ c ∈ s, isBlank c = true

theorem IsGap.skipBlanks_append {gap : Text} (h : IsGap gap) (s : Text) :
    skipBlanks (gap ++ s) = skipBlanks s :=
  List.dropWhile_append_of_pos h

theorem skipBlanks_cons {c : Char} (hc : isBlank c = false) (s : Text) :
    skipBlanks (c :: s) = c :: s :=
  List.dropWhile_cons_of_neg (by simp [hc])

theorem skipBlanks_skipBlanks (s : Text) : skipBlanks (skipBlanks s) = skipBlanks s :=
  List.dropWhile_idempotent _ s

theorem IsGap.endsNumber_append {gap : Text} (h : IsGap gap) {s : Text} (hs : EndsNumber s) :
    EndsNumber (gap ++ s) := by
  cases gap with
  | nil => exact hs
  | cons c gap =>
    have hblank : isBlank c = true := h c (by simp)
    simp only [isBlank, Bool.or_eq_true, beq_iff_eq] at hblank
    rcases hblank with ((rfl | rfl) | rfl) | rfl <;>
      exact endsNumber_cons (by decide) (by decide) _

/-- A reader takes a text whole, as a value, if its depth is not less than the text is long. -/
def ReadsAs {α : Type} (reader : Nat → Text → Option (α × Text)) (s : Text) (value : α) : Prop :=
  ∀ rest depth, EndsNumber rest → s.length ≤ depth →
    reader (depth + 1) (s ++ rest) = some (value, rest)

/-- The reader of a member at every depth. -/
def readMemberAt (depth : Nat) : Text → Option ((Option Text × Json) × Text) :=
  readMember (readValue depth)

/-- What a reader of items has to respect: blanks before an item count for nothing, and neither
nothing nor a closing bracket is an item. -/
structure IsItemReader {α : Type} (item : Text → Option (α × Text)) (closing : Char) : Prop where
  blanks : ∀ s, item (skipBlanks s) = item s
  nil : item [] = none
  closing : ∀ s, item (closing :: s) = none

theorem isItemReader_readValue (depth : Nat) : IsItemReader (readValue depth) ']' := by
  cases depth with
  | zero => exact ⟨fun _ => rfl, rfl, fun _ => rfl⟩
  | succ depth =>
    refine ⟨?_, rfl, fun _ => rfl⟩
    intro s
    rw [readValue, readValue, skipBlanks_skipBlanks]

theorem isItemReader_readMemberAt (depth : Nat) : IsItemReader (readMemberAt depth) '\x7d' := by
  refine ⟨?_, rfl, fun _ => rfl⟩
  intro s
  rw [readMemberAt, readMember, readMember, skipBlanks_skipBlanks]

section Items

variable {α β : Type} {item : Text → Option (α × Text)} {closing : Char} {text : β → Text}
  {value : β → α}

/-- A closing bracket ends items: it is no blank, no comma, and nothing of a number. -/
structure IsClosing (closing : Char) : Prop where
  blank : isBlank closing = false
  comma : closing ≠ ','
  ends : ∀ s, EndsNumber (closing :: s)

theorem isClosing_bracket : IsClosing ']' :=
  ⟨by decide, by decide, fun _ => endsNumber_cons (by decide) (by decide) _⟩

theorem isClosing_brace : IsClosing '\x7d' :=
  ⟨by decide, by decide, fun _ => endsNumber_cons (by decide) (by decide) _⟩

/-- Items with commas between them are read one after the other. -/
theorem readItems_intercalate (hclosing : IsClosing closing) {gap : Text} (hgap : IsGap gap)
    (rest : Text) {entries : List β} (hne : entries ≠ [])
    (hitem : ∀ e ∈ entries, ∀ rest, EndsNumber rest → item (text e ++ rest) = some (value e, rest))
    {limit : Nat} (hlimit : entries.length ≤ limit) :
    readItems item closing limit
      ([','].intercalate (entries.map text) ++ (gap ++ closing :: rest)) =
        some (entries.map value, rest) := by
  induction entries generalizing limit with
  | nil => exact absurd rfl hne
  | cons e entries ih =>
    obtain ⟨limit, rfl⟩ : ∃ n, limit = n + 1 := Nat.exists_eq_add_one.mpr (by simp at hlimit; omega)
    have hfirst := hitem e (by simp)
    cases entries with
    | nil =>
      rw [List.map_singleton, List.intercalate_singleton, readItems,
        hfirst _ (hgap.endsNumber_append (hclosing.ends rest))]
      simp [hgap.skipBlanks_append, skipBlanks_cons hclosing.blank]
    | cons e' entries =>
      have hfewer : (e' :: entries).length ≤ limit := by simpa using hlimit
      have hih := ih (by simp) (fun x hx => hitem x (List.mem_cons_of_mem e hx)) hfewer
      have hcomma : isBlank ',' = false := by decide
      rw [List.map_cons, List.map_cons, List.intercalate_cons_cons, List.append_assoc,
        List.append_assoc, List.singleton_append, readItems,
        hfirst _ (endsNumber_cons (by decide) (by decide) _)]
      rw [List.map_cons] at hih
      simp [skipBlanks_cons hcomma, hclosing.comma.symm, hih]

/-- The inside of brackets is read as items if it is not empty. -/
theorem readInside_eq_readItems (hreader : IsItemReader item closing) {s : Text}
    (hs : (item s).isSome) :
    readInside item closing s = readItems item closing (s.length + 1) s := by
  have hitems : readItems item closing (s.length + 1) s =
      readItems item closing (s.length + 1) (skipBlanks s) := by
    rw [readItems, readItems, hreader.blanks]
  rw [hitems, readInside]
  cases hskip : skipBlanks s with
  | nil =>
    rw [← hreader.blanks, hskip, hreader.nil] at hs
    cases hs
  | cons c rest =>
    have hc : c ≠ closing := by
      rintro rfl
      rw [← hreader.blanks, hskip, hreader.closing] at hs
      cases hs
    simp [hc]

/-- Every text but the first comes after a comma. -/
theorem length_le_intercalate (texts : List Text) :
    texts.length ≤ ([','].intercalate texts).length + 1 := by
  induction texts with
  | nil => simp
  | cons s texts ih =>
    cases texts with
    | nil => simp
    | cons t texts =>
      rw [List.intercalate_cons_cons]
      simp only [List.length_append, List.length_cons, List.length_nil] at ih ⊢
      omega

theorem length_le_intercalate_of_mem {s : Text} {texts : List Text} (hs : s ∈ texts) :
    s.length ≤ ([','].intercalate texts).length := by
  induction texts with
  | nil => cases hs
  | cons t texts ih =>
    cases texts with
    | nil =>
      rw [List.mem_singleton.mp hs, List.intercalate_singleton]
    | cons u texts =>
      rw [List.intercalate_cons_cons]
      simp only [List.length_append]
      rcases List.mem_cons.mp hs with rfl | hs
      · omega
      · have := ih hs
        omega

/-- Brackets around items are read as the items. -/
theorem readInside_intercalate (hreader : IsItemReader item closing) (hclosing : IsClosing closing)
    {gap : Text} (hgap : IsGap gap) (rest : Text) {entries : List β}
    (hitem : ∀ e ∈ entries, ∀ rest, EndsNumber rest →
      item (text e ++ rest) = some (value e, rest)) :
    readInside item closing
      ([','].intercalate (entries.map text) ++ (gap ++ closing :: rest)) =
        some (entries.map value, rest) := by
  cases entries with
  | nil =>
    rw [List.map_nil, List.intercalate_nil, List.nil_append, readInside, hgap.skipBlanks_append,
      skipBlanks_cons hclosing.blank]
    exact if_pos rfl
  | cons e entries =>
    have hread (limit : Nat) (hlimit : (e :: entries).length ≤ limit) :=
      readItems_intercalate hclosing hgap rest (List.cons_ne_nil e entries) hitem hlimit
    generalize hs : [','].intercalate ((e :: entries).map text) ++ (gap ++ closing :: rest) = s
      at hread ⊢
    have hlength : (e :: entries).length ≤ s.length + 1 := by
      have hle := length_le_intercalate ((e :: entries).map text)
      rw [List.length_map] at hle
      rw [← hs, List.length_append]
      omega
    have hfirst : (item s).isSome := by
      have hone := hread (s.length + 1) hlength
      cases hitem : item s with
      | none => simp [readItems, hitem] at hone
      | some _ => rfl
    rw [readInside_eq_readItems hreader hfirst]
    exact hread _ hlength

end Items

section Values

variable {α β : Type} {reader : Nat → Text → Option (α × Text)}

theorem ReadsAs.gap_append (hblanks : ∀ depth s, reader depth (skipBlanks s) = reader depth s)
    {gap : Text} (hgap : IsGap gap) {s : Text} {value : α} (h : ReadsAs reader s value) :
    ReadsAs reader (gap ++ s) value := by
  intro rest depth hrest hlength
  rw [List.length_append] at hlength
  rw [← hblanks, List.append_assoc, hgap.skipBlanks_append, hblanks]
  exact h rest depth hrest (by omega)

/-- Texts that are read as items are read in brackets. -/
theorem ReadsAs.inside {closing : Char} (hreader : ∀ depth, IsItemReader (reader depth) closing)
    (hclosing : IsClosing closing) {gap : Text} (hgap : IsGap gap) (rest : Text) {text : β → Text}
    {value : β → α} {entries : List β} (hitem : ∀ e ∈ entries, ReadsAs reader (text e) (value e))
    {depth : Nat}
    (hdepth : ([','].intercalate (entries.map text)).length < depth) :
    readInside (reader depth) closing
      ([','].intercalate (entries.map text) ++ (gap ++ closing :: rest)) =
        some (entries.map value, rest) := by
  obtain ⟨depth, rfl⟩ : ∃ n, depth = n + 1 := Nat.exists_eq_add_one.mpr (by omega)
  apply readInside_intercalate (hreader _) hclosing hgap rest
  intro e he rest hrest
  have hle := length_le_intercalate_of_mem (List.mem_map_of_mem (f := text) he)
  exact hitem e he rest depth hrest (by omega)

theorem readsAs_null : ReadsAs readValue "null" .null :=
  fun _ _ _ _ => rfl

theorem readsAs_bool (b : Bool) : ReadsAs readValue (if b then "true" else "false") (.bool b) := by
  intro rest depth _ _
  cases b <;> rfl

theorem readsAs_quote (s : Text) : ReadsAs readValue (quote s) (.string s) := by
  intro rest depth _ _
  rw [quote, List.cons_append, List.cons_append, List.append_assoc, List.singleton_append,
    readValue, skipBlanks_cons (by decide)]
  simp [readPieces_flatMap_escape, joinPieces_map_of]

/-- What starts with a minus sign or a digit is read as a number. -/
theorem readValue_eq_readNumeral {s : Text} {c : Char} (hhead : s.head? = some c)
    (hc : c = '-' ∨ c.isDigit = true) (depth : Nat) :
    readValue (depth + 1) s = readNumeral s := by
  obtain ⟨t, rfl⟩ : ∃ t, s = c :: t := by
    cases s with
    | nil => cases hhead
    | cons d t =>
      cases hhead
      exact ⟨t, rfl⟩
  have hother (d : Char) (hd : d ≠ '-' ∧ d.isDigit = false) : c ≠ d := by
    rintro rfl
    rcases hc with hc | hc
    · exact hd.1 hc
    · rw [hd.2] at hc
      cases hc
  have hblank : isBlank c = false := by
    simp [isBlank, hother ' ' (by decide), hother '\t' (by decide), hother '\n' (by decide),
      hother '\x0d' (by decide)]
  rw [readValue, skipBlanks_cons hblank]
  split
  · rename_i heq
    exact absurd (List.cons.inj heq).1 (hother 'n' (by decide))
  · rename_i heq
    exact absurd (List.cons.inj heq).1 (hother 't' (by decide))
  · rename_i heq
    exact absurd (List.cons.inj heq).1 (hother 'f' (by decide))
  · rename_i heq
    exact absurd (List.cons.inj heq).1 (hother '"' (by decide))
  · rename_i heq
    exact absurd (List.cons.inj heq).1 (hother '[' (by decide))
  · rename_i heq
    exact absurd (List.cons.inj heq).1 (hother '\x7b' (by decide))
  · rfl

theorem readsAs_numeral {n : Numeral} (hn : n.IsWellFormed) :
    ReadsAs readValue n.text (.number n) := by
  intro rest depth hrest _
  obtain ⟨c, hhead, hc⟩ := head?_text hn
  rw [readValue_eq_readNumeral (by rw [List.head?_append, hhead, Option.some_or]) hc]
  exact readNumeral_text hn hrest

theorem ReadsAs.array {items : List Json} {text : Json → Text}
    (h : ∀ item ∈ items, ReadsAs readValue (text item) item) {gap : Text} (hgap : IsGap gap) :
    ReadsAs readValue ('[' :: [','].intercalate (items.map text) ++ (gap ++ [']']))
      (.array items) := by
  intro rest depth _ hlength
  have hdepth : ([','].intercalate (items.map text)).length < depth := by
    simp at hlength
    omega
  have hread := ReadsAs.inside isItemReader_readValue isClosing_bracket hgap rest h hdepth
  rw [List.cons_append, List.cons_append, List.append_assoc, List.append_assoc,
    List.singleton_append, readValue, skipBlanks_cons (by decide)]
  simp [hread]

theorem ReadsAs.member {s key : Text} {value : Json} (h : ReadsAs readValue s value) :
    ReadsAs readMemberAt (quote key ++ ':' :: s) (some key, value) := by
  intro rest depth hrest hlength
  have hread := h rest depth hrest (by simp at hlength; omega)
  rw [quote, List.cons_append, List.cons_append, List.cons_append, List.append_assoc,
    List.append_assoc, List.singleton_append, readMemberAt, readMember,
    skipBlanks_cons (by decide)]
  simp [readPieces_flatMap_escape, skipBlanks_cons (show isBlank ':' = false by decide), hread,
    joinPieces_map_of]

/-- Every item of a list may be turned into another if each single one may. -/
theorem mapM_map_eq_some {γ : Type} {f : β → Option γ} {g : α → β} {h : α → γ} {as : List α}
    (hf : ∀ a ∈ as, f (g a) = some (h a)) : (as.map g).mapM f = some (as.map h) := by
  induction as with
  | nil => rfl
  | cons a as ih =>
    have has := ih fun b hb => hf b (List.mem_cons_of_mem a hb)
    rw [List.map_cons, List.mapM_cons, hf a List.mem_cons_self, has]
    rfl

/-- An object is not broken if all of its keys have characters. -/
theorem ofMembers_map_some (members : List (Text × Json)) :
    ofMembers (members.map fun m => (some m.1, m.2)) = .object members := by
  have hkeys : (members.map fun m => (some m.1, m.2)).mapM
      (fun (m : Option Text × Json) => m.1.map (·, m.2)) = some (members.map id) :=
    mapM_map_eq_some fun _ _ => rfl
  rw [ofMembers, hkeys, List.map_id]

theorem ReadsAs.object {members : List (Text × Json)} {text : Text × Json → Text}
    (h : ∀ m ∈ members, ReadsAs readMemberAt (text m) (some m.1, m.2)) {gap : Text}
    (hgap : IsGap gap) :
    ReadsAs readValue ('\x7b' :: [','].intercalate (members.map text) ++ (gap ++ ['\x7d']))
      (.object members) := by
  intro rest depth _ hlength
  have hdepth : ([','].intercalate (members.map text)).length < depth := by
    simp at hlength
    omega
  have hread := ReadsAs.inside isItemReader_readMemberAt isClosing_brace hgap rest h hdepth
  rw [readMemberAt] at hread
  rw [List.cons_append, List.cons_append, List.append_assoc, List.append_assoc,
    List.singleton_append, readValue, skipBlanks_cons (by decide)]
  simp [hread, ofMembers_map_some]

/-- A value that has a text: none of its parts is broken, and its numbers are well formed. -/
inductive IsWritable : Json → Prop
  | null : IsWritable .null
  | bool (b : Bool) : IsWritable (.bool b)
  | number {n : Numeral} (h : n.IsWellFormed) : IsWritable (.number n)
  | string (s : Text) : IsWritable (.string s)
  | array {items : List Json} (h : ∀ item ∈ items, IsWritable item) : IsWritable (.array items)
  | object {members : List (Text × Json)} (h : ∀ m ∈ members, IsWritable m.2) :
    IsWritable (.object members)

theorem isGap_newLine (level : Nat) : IsGap (newLine level) := by
  intro c hc
  rcases List.mem_cons.mp hc with rfl | hc
  · rfl
  · rw [List.eq_of_mem_replicate hc]
    rfl

theorem prettyItems_eq (level : Nat) (items : List Json) :
    prettyItems level items =
      [','].intercalate (items.map fun item => newLine level ++ prettyAt level item) := by
  induction items with
  | nil => rfl
  | cons item items ih =>
    cases items with
    | nil => rw [prettyItems, List.map_singleton, List.intercalate_singleton]
    | cons next items =>
      rw [List.map_cons, List.intercalate_cons_of_ne_nil (by simp), ← ih, prettyItems,
        List.append_assoc _ [','], List.singleton_append]
      exact List.cons_ne_nil next items

theorem prettyMembers_eq (level : Nat) (members : List (Text × Json)) :
    prettyMembers level members = [','].intercalate (members.map fun m =>
      newLine level ++ (quote m.1 ++ ':' :: (' ' :: prettyAt level m.2))) := by
  induction members with
  | nil => rfl
  | cons m members ih =>
    obtain ⟨key, value⟩ := m
    cases members with
    | nil => rw [prettyMembers, List.map_singleton, List.intercalate_singleton, List.append_assoc]
    | cons next members =>
      rw [List.map_cons, List.intercalate_cons_of_ne_nil (by simp), ← ih, prettyMembers,
        List.append_assoc _ [','], List.singleton_append, ← List.append_assoc]
      exact List.cons_ne_nil next members

/-- The text of a value with lines and indentation is read as the value. -/
theorem IsWritable.readsAs_prettyAt {json : Json} (h : IsWritable json) (level : Nat) :
    ReadsAs readValue (prettyAt level json) json := by
  induction h generalizing level with
  | null => exact readsAs_null
  | bool b => exact readsAs_bool b
  | number h => exact readsAs_numeral h
  | string s => exact readsAs_quote s
  | @array items h ih =>
    cases items with
    | nil =>
      have hempty : ReadsAs readValue ('[' :: [','].intercalate ([].map (prettyAt level)) ++
        ([] ++ [']'])) (.array []) := .array (List.forall_mem_nil _) (List.forall_mem_nil _)
      exact hempty
    | cons item items =>
      rw [prettyAt, prettyItems_eq, List.append_assoc]
      apply ReadsAs.array _ (isGap_newLine level)
      intro item hitem
      exact (ih item hitem (level + 1)).gap_append (fun _ s => (isItemReader_readValue _).blanks s)
        (isGap_newLine _)
  | @object members h ih =>
    cases members with
    | nil =>
      have hempty : ReadsAs readValue ('\x7b' :: [','].intercalate ([].map fun m : Text × Json =>
        prettyAt level m.2) ++ ([] ++ ['\x7d'])) (.object []) :=
        .object (List.forall_mem_nil _) (List.forall_mem_nil _)
      exact hempty
    | cons m members =>
      rw [prettyAt, prettyMembers_eq, List.append_assoc]
      apply ReadsAs.object _ (isGap_newLine level)
      intro m hm
      have hspace : IsGap [' '] := by
        intro c hc
        rw [List.mem_singleton.mp hc]
        rfl
      have hvalue := (ih m hm (level + 1)).gap_append
        (fun _ s => (isItemReader_readValue _).blanks s) hspace
      exact hvalue.member.gap_append (fun _ s => (isItemReader_readMemberAt _).blanks s)
        (isGap_newLine _)

theorem compactItems_eq (items : List Json) :
    compactItems items = [','].intercalate (items.map compact) := by
  induction items with
  | nil => rfl
  | cons item items ih =>
    cases items with
    | nil => rw [compactItems, List.map_singleton, List.intercalate_singleton]
    | cons next items =>
      rw [List.map_cons, List.intercalate_cons_of_ne_nil (by simp), ← ih, compactItems,
        List.append_assoc, List.singleton_append]
      exact List.cons_ne_nil next items

theorem compactMembers_eq (members : List (Text × Json)) :
    compactMembers members =
      [','].intercalate (members.map fun m => quote m.1 ++ ':' :: compact m.2) := by
  induction members with
  | nil => rfl
  | cons m members ih =>
    obtain ⟨key, value⟩ := m
    cases members with
    | nil => rw [compactMembers, List.map_singleton, List.intercalate_singleton]
    | cons next members =>
      rw [List.map_cons, List.intercalate_cons_of_ne_nil (by simp), ← ih, compactMembers,
        List.append_assoc _ [','], List.singleton_append]
      exact List.cons_ne_nil next members

/-- The text of a value without blanks is read as the value. -/
theorem IsWritable.readsAs_compact {json : Json} (h : IsWritable json) :
    ReadsAs readValue json.compact json := by
  induction h with
  | null => exact readsAs_null
  | bool b => exact readsAs_bool b
  | number h => exact readsAs_numeral h
  | string s => exact readsAs_quote s
  | array h ih =>
    rw [compact, compactItems_eq]
    exact ReadsAs.array ih (List.forall_mem_nil _)
  | object h ih =>
    rw [compact, compactMembers_eq]
    exact ReadsAs.object (fun m hm => (ih m hm).member) (List.forall_mem_nil _)

/-- A text that is read whole as a value gives the value. -/
theorem ReadsAs.parse? {s : Text} {json : Json} (h : ReadsAs readValue s json) :
    Json.parse? s = some json := by
  have hread := h [] _ endsNumber_nil (Nat.le_refl _)
  rw [List.append_nil] at hread
  rw [Json.parse?, hread]
  rfl

/-- **A value with lines and indentation reads back.** -/
theorem IsWritable.parse?_pretty {json : Json} (h : IsWritable json) :
    parse? json.pretty = some json :=
  (h.readsAs_prettyAt 0).parse?

/-- **A value without blanks reads back.** -/
theorem IsWritable.parse?_compact {json : Json} (h : IsWritable json) :
    parse? json.compact = some json :=
  h.readsAs_compact.parse?

end Values

end Calculator.Json
