import Calculator.Proofs.Expression.FaultPlace
import Calculator.Proofs.Expression.Machine
import Calculator.Proofs.Expression.Nesting

/-!
# Calls that come back

Every call of the machine comes back to the stack that it was made on, with what the reader of its
level gives for the text after the cursor. Each reader is followed step by step, on top of any
stack. So the loops of the machine end, what has been read has moved the cursor, and a run gives
what the readers give for the whole text.
-/

namespace Calculator.Expression

namespace Machine

variable {g : Grammar} {s : Text} {c : Cursor} {task : Task} {frame : Frame}
  {stack : List Frame} {m m' : Machine}

/-! ## On top of a stack -/

/-- What has been begun on top of `stack` is going on: all of it is still there, and nothing has
come back to it yet. -/
def IsUnderWay (stack : List Frame) (m : Machine) : Prop :=
  stack <:+ m.stack ∧ (m.stack = stack → m.task.isBack = false)

/-- The second machine is reached from the first one by steps that are all under way. -/
def Leads (g : Grammar) (s : Text) (stack : List Frame) : Machine → Machine → Prop :=
  Relation.ReflTransGen fun m m' => m.IsUnderWay stack ∧ step g s m = some m'

/-- What the machine has begun comes back to its stack, with an outcome and with a cursor. -/
def Returns (g : Grammar) (s : Text) (m : Machine) (outcome : Except Unexpected Expression)
    (c : Cursor) : Prop :=
  Leads g s m.stack m ⟨c, .back outcome, m.stack⟩

/-- What has been begun is under way until it comes back. -/
theorem isUnderWay_of_task (h : task.isBack = false) :
    IsUnderWay stack ⟨c, task, stack⟩ :=
  ⟨List.suffix_rfl, fun _ => h⟩

theorem IsUnderWay.of_cons (h : m.IsUnderWay (frame :: stack)) : m.IsUnderWay stack := by
  refine ⟨(List.suffix_cons frame stack).trans h.1, fun hstack => ?_⟩
  have hle := h.1.length_le
  rw [hstack, List.length_cons] at hle
  omega

/-- As long as a frame is on top of it, a stack has not been come back to. -/
theorem isUnderWay_cons (c : Cursor) (task : Task) (frame : Frame) (stack : List Frame) :
    IsUnderWay stack ⟨c, task, frame :: stack⟩ := by
  refine ⟨List.suffix_cons frame stack, fun hstack => ?_⟩
  have hlength := congrArg List.length hstack
  rw [List.length_cons] at hlength
  omega

/-- What is reached on top of a frame is also reached on top of what is under it. -/
theorem Leads.of_cons (h : Leads g s (frame :: stack) m m') : Leads g s stack m m' :=
  Relation.ReflTransGen.mono (fun _ _ hstep => ⟨hstep.1.of_cons, hstep.2⟩) _ _ h

theorem Leads.reaches (h : Leads g s stack m m') : Reaches g s m m' :=
  Relation.ReflTransGen.mono (fun _ _ hstep => hstep.2) _ _ h

end Machine

/-! ## Cursors before an end of the text -/

/-- The cursor before the end `t` of the text `s`. -/
def Cursor.before (s t : Text) (depth : Nat) : Cursor := ⟨s.length - t.length, t.head?, depth⟩

/-- The fault of a reading, with its place in the whole text. -/
def Stop.place (s : Text) (stop : Stop) : Unexpected := ⟨s.length - stop.rest.length, stop.found⟩

/-- What a reading gives to the whole text: its tree, or its fault. -/
def outcomeIn (s : Text) (reading : Reading) : Except Unexpected Expression :=
  (reading.map Prod.fst).mapError (Stop.place s)

variable {s t u rest : Text} {depth : Nat}

/-- Before the first character the whole text is left. -/
theorem Cursor.start_eq (s : Text) : start s = before s s 0 := by
  rw [before, Nat.sub_self]
  rfl

/-- Passing the next character leaves what stands behind it. -/
theorem Cursor.advance_before {x : Char} (h : x :: t <:+ s) :
    (before s (x :: t) depth).advance s = before s t depth := by
  obtain ⟨u, rfl⟩ := h
  have hposition :
      (u ++ x :: t).length - (x :: t).length + 1 = (u ++ x :: t).length - t.length := by
    simp only [List.length_append, List.length_cons]
    omega
  have hlength : (u ++ x :: t).length - t.length = u.length + 1 := by
    simp only [List.length_append, List.length_cons]
    omega
  have hlookahead : (u ++ x :: t)[u.length + 1]? = t.head? := by
    simp [List.getElem?_append_right, List.head?_eq_getElem?]
  simp only [advance, before, hposition, hlength, hlookahead]

/-- A cursor that is placed in the text stands before what is left there. -/
theorem Cursor.IsPlaced.eq_before {c : Cursor} (h : c.IsPlaced s) :
    c = before s (s.drop c.position) c.depth := by
  have hle := h.position_le
  have hposition : s.length - (s.drop c.position).length = c.position := by
    rw [List.length_drop]
    omega
  rw [before, hposition, List.head?_drop, ← h.lookahead_eq]

/-- The machine reports the fault of the readers. -/
theorem Cursor.unexpected_before (s t : Text) (depth : Nat) :
    (before s t depth).unexpected = (Stop.at t).place s := by
  cases t <;> rfl

/-- What has been passed between two cursors. -/
theorem slice?_before (h : u ++ rest <:+ s) :
    slice? s (s.length - (u ++ rest).length) (s.length - rest.length) = some u := by
  obtain ⟨v, rfl⟩ := h
  have hstart : (v ++ (u ++ rest)).length - (u ++ rest).length = v.length := by simp
  have hstop : (v ++ (u ++ rest)).length - rest.length = v.length + u.length := by
    simp only [List.length_append]
    omega
  have hle : v.length + u.length ≤ (v ++ (u ++ rest)).length := by
    simp only [List.length_append]
    omega
  rw [hstart, hstop, slice?_of_le (Nat.le_add_right _ _) hle]
  simp

namespace Machine

variable {g : Grammar} {c : Cursor} {task : Task} {frame : Frame} {stack : List Frame}
  {m m' : Machine} {reading : Reading} {e left : Expression} {operand : Text → Reading}
  {level : Level}

/-! ## What a call delivers -/

/-- The machine comes back to `stack` with what a reading gives: the tree, with the cursor before
what is left, or the fault. It is inside of as many factors as before. -/
inductive Delivers (g : Grammar) (s : Text) (stack : List Frame) (depth : Nat) (m : Machine) :
    Reading → Prop
  | read {e : Expression} {rest : Text}
      (h : Leads g s stack m ⟨.before s rest depth, .back (.ok e), stack⟩) :
      Delivers g s stack depth m (.ok (e, rest))
  | fault {stop : Stop} {c : Cursor} (hdepth : c.depth = depth)
      (h : Leads g s stack m ⟨c, .back (.error (stop.place s)), stack⟩) :
      Delivers g s stack depth m (.error stop)

theorem Delivers.of_leads (hleads : Leads g s stack m m')
    (h : Delivers g s stack depth m' reading) : Delivers g s stack depth m reading := by
  cases h with
  | read h => exact .read (hleads.trans h)
  | fault hdepth h => exact .fault hdepth (hleads.trans h)

theorem Delivers.of_step (hstep : step g s m = some m') (hunder : m.IsUnderWay stack)
    (h : Delivers g s stack depth m' reading) : Delivers g s stack depth m reading :=
  h.of_leads (.single ⟨hunder, hstep⟩)

/-- What a call on top of a frame delivers is handed on by the frame, and a fault is passed on. -/
theorem Delivers.bind {next : Expression × Text → Reading}
    (h : Delivers g s (frame :: stack) depth m reading) (hframe : frame.isCounted = false)
    (hnext : ∀ e rest, reading = .ok (e, rest) → Delivers g s stack depth
      ⟨.before s rest depth, .back (.ok e), frame :: stack⟩ (next (e, rest))) :
    Delivers g s stack depth m (reading >>= next) := by
  cases h with
  | read h => exact (hnext _ _ rfl).of_leads h.of_cons
  | @fault stop c hdepth h =>
    -- the frame takes no part in a fault
    have hstep : step g s ⟨c, .back (.error (stop.place s)), frame :: stack⟩ =
        some ⟨c, .back (.error (stop.place s)), stack⟩ := by
      cases frame with
      | counted => cases hframe
      | whole | first | right | plus | minus | group => rfl
    exact .fault hdepth (h.of_cons.tail ⟨isUnderWay_cons _ _ _ _, hstep⟩)

/-- A factor that has been counted is no longer counted once it has been read, or not. -/
theorem Delivers.of_counted (h : Delivers g s (.counted :: stack) (depth + 1) m reading) :
    Delivers g s stack depth m reading := by
  cases h with
  | read h => exact .read (h.of_cons.tail ⟨isUnderWay_cons _ _ _ _, rfl⟩)
  | @fault stop c hdepth h =>
    have hstep : step g s ⟨c, .back (.error (stop.place s)), .counted :: stack⟩ =
        some ⟨{ c with depth }, .back (.error (stop.place s)), stack⟩ := by
      simp only [step, resume, hdepth]
    exact .fault rfl (h.of_cons.tail ⟨isUnderWay_cons _ _ _ _, hstep⟩)

/-- Calls of a level deliver what a reader gives for the text after the cursor, on top of any
stack. -/
def Performs (g : Grammar) (s : Text) (depth : Nat) (level : Level) (read : Text → Reading) :
    Prop :=
  ∀ t stack, t <:+ s → Delivers g s stack depth ⟨.before s t depth, .call level, stack⟩ (read t)

/-! ## Loops over characters -/

/-- A loop passes the characters that it is made for. -/
theorem leads_dropWhile {p : Char → Bool} (htask : task.isBack = false)
    (hstep : ∀ c x, c.lookahead = some x → p x = true →
      step g s ⟨c, task, stack⟩ = some ⟨c.advance s, task, stack⟩) (ht : t <:+ s) :
    Leads g s stack ⟨.before s t depth, task, stack⟩
      ⟨.before s (t.dropWhile p) depth, task, stack⟩ := by
  induction t with
  | nil => exact .refl
  | cons x t ih =>
    cases hp : p x with
    | false =>
      rw [List.dropWhile_cons_of_neg (by simp [hp])]
      exact .refl
    | true =>
      rw [List.dropWhile_cons_of_pos hp]
      refine .head ⟨isUnderWay_of_task htask, hstep _ x rfl hp⟩ ?_
      rw [Cursor.advance_before ht]
      exact ih ((List.suffix_cons x t).trans ht)

/-- Where spaces are passed, nothing depends on them. -/
theorem Delivers.of_skipSpaces (htask : task.passesSpaces = true) (ht : t <:+ s)
    (h : Delivers g s stack depth ⟨.before s (skipSpaces t) depth, task, stack⟩ reading) :
    Delivers g s stack depth ⟨.before s t depth, task, stack⟩ reading := by
  have hback : task.isBack = false := by
    cases task with
    | back outcome => cases htask
    | call | chain | factor | digits | word | letters | closing => rfl
  refine h.of_leads (leads_dropWhile hback (fun c x hx hspace => ?_) ht)
  obtain rfl : x = ' ' := by simpa using hspace
  exact step_space htask hx

/-- The letters of a word are passed one by one. -/
theorem leads_letters {word : Text} (h : word ++ rest <:+ s) :
    Leads g s stack ⟨.before s (word ++ rest) depth, .letters word.length e, stack⟩
      ⟨.before s rest depth, .back (.ok e), stack⟩ := by
  induction word with
  | nil => exact .single ⟨isUnderWay_of_task rfl, rfl⟩
  | cons x word ih =>
    have hstep : step g s
        ⟨.before s (x :: word ++ rest) depth, .letters (word.length + 1) e, stack⟩ =
        some ⟨.before s (word ++ rest) depth, .letters word.length e, stack⟩ := by
      rw [← Cursor.advance_before (t := word ++ rest) h]
      rfl
    exact .head ⟨isUnderWay_of_task rfl, hstep⟩ (ih ((List.suffix_cons x _).trans h))

/-! ## Leaves -/

/-- The digits and points of a number are passed, taken out of the text and read. -/
theorem digits_delivers (ht : t <:+ s) :
    Delivers g s stack depth ⟨.before s t depth, .digits (s.length - t.length), stack⟩
      (readNumber t) := by
  have hloop : Leads g s stack ⟨.before s t depth, .digits (s.length - t.length), stack⟩
      ⟨.before s (t.dropWhile isNumeric) depth, .digits (s.length - t.length), stack⟩ := by
    refine leads_dropWhile rfl (fun c x hx hnumeric => ?_) ht
    simp only [step, hx, Option.any_some, hnumeric, if_true]
  have hend : ((t.dropWhile isNumeric).head?.any isNumeric) = false := by
    cases hrest : t.dropWhile isNumeric with
    | nil => rfl
    | cons x rest => exact endsNumber_dropWhile t x rest hrest
  have hslice : slice? s (s.length - t.length) (s.length - (t.dropWhile isNumeric).length) =
      some (t.takeWhile isNumeric) := by
    have hsplit : t.takeWhile isNumeric ++ t.dropWhile isNumeric <:+ s := by
      rwa [List.takeWhile_append_dropWhile]
    have hslice := slice?_before hsplit
    rwa [List.takeWhile_append_dropWhile] at hslice
  have hstep : step g s
      ⟨.before s (t.dropWhile isNumeric) depth, .digits (s.length - t.length), stack⟩ =
      some ⟨.before s (t.dropWhile isNumeric) depth,
        .back (readRun (s.length - t.length) (t.takeWhile isNumeric)), stack⟩ := by
    simp only [step, Cursor.before, hend, hslice, Bool.false_eq_true, if_false, Option.map_some]
  have hleads := hloop.tail ⟨isUnderWay_of_task rfl, hstep⟩
  unfold readRun at hleads
  unfold readNumber
  cases hparse : Decimal.parse? (t.takeWhile isNumeric) with
  | some d =>
    rw [hparse] at hleads
    simp only [hparse]
    exact .read hleads
  | none =>
    rw [hparse] at hleads
    simp only [hparse]
    exact .fault rfl hleads

/-- The reader of words looks for one of them at the start of its text. -/
theorem readWord_scientific (t : Text) :
    readWord .scientific t = (wordTrees.find? fun word => word.1.isPrefixOf t).elim
      (.error (.at t)) fun word => .ok (word.2, t.drop word.1.length) := by
  unfold readWord
  split
  · rfl
  · rfl
  · rename_i s _ _ hundefined hinfinity
    cases hfind : wordTrees.find? fun word => word.1.isPrefixOf s with
    | none => rfl
    | some found =>
      have hfound := List.find?_some hfind
      have hmem := List.mem_of_find?_eq_some hfind
      simp only [wordTrees, List.mem_cons, List.not_mem_nil, or_false] at hmem
      obtain ⟨rest, rfl⟩ := List.isPrefixOf_iff_prefix.mp hfound
      rcases hmem with rfl | rfl
      · exact absurd rfl (hundefined rest rfl)
      · exact absurd rfl (hinfinity rest rfl)

/-- A word is found in what is left of the text, and its letters are passed. -/
theorem word_delivers (ht : t <:+ s) :
    Delivers g s stack depth ⟨.before s t depth, .word, stack⟩ (readWord .scientific t) := by
  have hslice : slice? s (s.length - t.length) s.length = some t := by
    have hsplit : t ++ [] <:+ s := by rwa [List.append_nil]
    have hslice := slice?_before hsplit
    rwa [List.append_nil] at hslice
  rw [readWord_scientific]
  cases hfind : wordTrees.find? fun word => word.1.isPrefixOf t with
  | none =>
    have hstep : step g s ⟨.before s t depth, .word, stack⟩ =
        some ⟨.before s t depth, .back (.error ((Stop.at t).place s)), stack⟩ := by
      rw [← Cursor.unexpected_before s t depth]
      simp only [step, Cursor.before, hslice, Option.map_some, hfind]
    exact .fault rfl (.single ⟨isUnderWay_of_task rfl, hstep⟩)
  | some found =>
    obtain ⟨word, e⟩ := found
    have hfound := List.find?_some hfind
    obtain ⟨rest, rfl⟩ := List.isPrefixOf_iff_prefix.mp hfound
    have hstep : step g s ⟨.before s (word ++ rest) depth, .word, stack⟩ =
        some ⟨.before s (word ++ rest) depth, .letters word.length e, stack⟩ := by
      simp only [step, Cursor.before, hslice, Option.map_some, hfind]
    simp only [Option.elim_some, List.drop_left]
    exact .read (.head ⟨isUnderWay_of_task rfl, hstep⟩ (leads_letters ht))

/-! ## Calls -/

/-- A loop over operators ends at a character that is none of them. -/
theorem step_chain_of_none {x : Char} (hspace : x ≠ ' ') (hop : level.operator? g x = none) :
    step g s ⟨.before s (x :: rest) depth, .chain level left, stack⟩ =
      some ⟨.before s (x :: rest) depth, .back (.ok left), stack⟩ := by
  have hne : some x ≠ some ' ' := fun heq => hspace (Option.some.inj heq)
  simp only [step, Cursor.before, List.head?_cons, hne, if_false, Option.bind_some, hop]

/-- A loop over operators calls for the operand after one of them. -/
theorem step_chain_of_some {x : Char} {op : Operator} (h : x :: rest <:+ s) (hspace : x ≠ ' ')
    (hop : level.operator? g x = some op) :
    step g s ⟨.before s (x :: rest) depth, .chain level left, stack⟩ =
      some ⟨.before s rest depth, .call level.operand, .right level op left :: stack⟩ := by
  have hne : some x ≠ some ' ' := fun heq => hspace (Option.some.inj heq)
  rw [← Cursor.advance_before h]
  simp only [step, Cursor.before, List.head?_cons, hne, if_false, Option.bind_some, hop]

/-- By induction on the bound on operators, which exceeds what is left of the text. -/
theorem chainFrom_delivers (hshort : Shortens operand) (hwithin : IsWithin operand)
    (hoperand : Performs g s depth level.operand operand) {limit : Nat}
    (ht : t <:+ s) (hlimit : t.length < limit) :
    Delivers g s stack depth ⟨.before s t depth, .chain level left, stack⟩
      (chainFrom (level.operator? g) operand limit left t) := by
  induction limit generalizing left t with
  | zero => omega
  | succ limit ih =>
    have hskip := (skipSpaces_suffix t).trans ht
    have hlength := skipSpaces_length_le t
    refine Delivers.of_skipSpaces rfl ht ?_
    rw [chainFrom]
    cases hs : skipSpaces t with
    | nil => exact .read (.single ⟨isUnderWay_of_task rfl, rfl⟩)
    | cons x rest =>
      rw [hs] at hskip hlength
      have hspace := ne_space_of_skipSpaces hs
      cases hop : level.operator? g x with
      | none =>
        simp only [hop]
        exact .read (.single ⟨isUnderWay_of_task rfl, step_chain_of_none hspace hop⟩)
      | some op =>
        simp only [hop]
        have hrest := (List.suffix_cons x rest).trans hskip
        refine .of_step (step_chain_of_some hskip hspace hop) (isUnderWay_of_task rfl)
          ((hoperand rest _ hrest).bind rfl ?_)
        -- the operand has been read: the loop goes on after it, on a shorter text
        intro right rest' hread
        have hlt := hshort _ _ _ hread
        rw [List.length_cons] at hlength
        have hlimit' : rest'.length < limit := by omega
        exact .of_step rfl (isUnderWay_cons _ _ _ _)
          (ih ((hwithin.suffix hread).trans hrest) hlimit')

/-- A level above the factors is read operand by operand. -/
theorem Performs.chain (hcall : ∀ c stack, step g s ⟨c, .call level, stack⟩ =
      some ⟨c, .call level.operand, .first level :: stack⟩)
    (hshort : Shortens operand) (hwithin : IsWithin operand)
    (hoperand : Performs g s depth level.operand operand) :
    Performs g s depth level (chain (level.operator? g) operand) := by
  intro t stack ht
  refine .of_step (hcall _ _) (isUnderWay_of_task rfl) ((hoperand t _ ht).bind rfl ?_)
  intro left rest hread
  exact .of_step rfl (isUnderWay_cons _ _ _ _) (chainFrom_delivers hshort hwithin hoperand
    ((hwithin.suffix hread).trans ht) (Nat.lt_succ_self _))

/-- The closing bracket may come next, after spaces. -/
theorem closing_delivers (ht : t <:+ s) :
    Delivers g s stack depth ⟨.before s t depth, .closing e, stack⟩
      (.ok (.group e, skipClosing t)) := by
  have hskip := (skipSpaces_suffix t).trans ht
  refine Delivers.of_skipSpaces rfl ht ?_
  unfold skipClosing
  split
  · rename_i rest hs
    rw [hs] at hskip ⊢
    have hstep : step g s ⟨.before s (')' :: rest) depth, .closing e, stack⟩ =
        some ⟨.before s rest depth, .back (.ok (.group e)), stack⟩ := by
      rw [← Cursor.advance_before hskip]
      rfl
    exact .read (.single ⟨isUnderWay_of_task rfl, hstep⟩)
  · rename_i hnot
    have hspace : (skipSpaces t).head? ≠ some ' ' := by
      intro hhead
      obtain ⟨rest, hs⟩ := List.head?_eq_some_iff.mp hhead
      exact ne_space_of_skipSpaces hs rfl
    have hclosing : (skipSpaces t).head? ≠ some ')' := by
      intro hhead
      obtain ⟨rest, hs⟩ := List.head?_eq_some_iff.mp hhead
      exact hnot rest hs
    have hstep : step g s ⟨.before s (skipSpaces t) depth, .closing e, stack⟩ =
        some ⟨.before s (skipSpaces t) depth, .back (.ok (.group e)), stack⟩ := by
      simp only [step, Cursor.before, hspace, hclosing, if_false]
    exact .read (.single ⟨isUnderWay_of_task rfl, hstep⟩)

theorem reader_shortens (g : Grammar) (depth : Nat) (level : Level) :
    Shortens (reader g depth level) := by
  cases level with
  | factor => exact readFactor_shortens g depth
  | term => exact readTerm_shortens g depth
  | sum => exact chain_shortens (readTerm_shortens g depth)

theorem reader_isWithin (g : Grammar) (depth : Nat) (level : Level) :
    IsWithin (reader g depth level) := by
  cases level with
  | factor => exact readFactor_isWithin g depth
  | term => exact chain_isWithin (readFactor_isWithin g depth)
  | sum => exact chain_isWithin (chain_isWithin (readFactor_isWithin g depth))

/-- The levels above the factors perform what their readers read, if the factors do. -/
theorem Performs.reader {room : Nat} (h : Performs g s depth .factor (readFactor g room))
    (level : Level) : Performs g s depth level (reader g room level) := by
  have hterm : Performs g s depth .term (Expression.reader g room .term) :=
    .chain (fun _ _ => rfl) (reader_shortens g room .factor) (reader_isWithin g room .factor) h
  cases level with
  | factor => exact h
  | term => exact hterm
  | sum =>
    exact .chain (fun _ _ => rfl) (reader_shortens g room .term) (reader_isWithin g room .term)
      hterm

/-- What the machine does at the first character of a factor. -/
theorem step_factor (g : Grammar) (depth : Nat) (stack : List Frame) {x : Char}
    (h : x :: rest <:+ s) (hspace : x ≠ ' ') :
    step g s ⟨.before s (x :: rest) depth, .factor, stack⟩ =
      if x = '+' then some ⟨.before s rest depth, .call .factor, .plus :: stack⟩
      else if x = '-' then some ⟨.before s rest depth, .call .factor, .minus :: stack⟩
      else if x = '(' then some ⟨.before s rest depth, .call .sum, .group :: stack⟩
      else if isNumeric x then
        some ⟨.before s (x :: rest) depth, .digits (s.length - (x :: rest).length), stack⟩
      else if g = .scientific then some ⟨.before s (x :: rest) depth, .word, stack⟩
      else some ⟨.before s (x :: rest) depth, .back (.error ((Stop.at (x :: rest)).place s)),
        stack⟩ := by
  rw [← Cursor.advance_before h, ← Cursor.unexpected_before s _ depth]
  simp only [step, Cursor.before, List.head?_cons, hspace, if_false]

/-- A factor behind a sign, which a frame puts before the operand. -/
theorem sign_delivers {room : Nat} {f : Expression → Expression}
    (h : Performs g s depth .factor (readFactor g room)) (ht : t <:+ s)
    (hframe : frame.isCounted = false)
    (hback : ∀ c e, step g s ⟨c, .back (.ok e), frame :: stack⟩ =
      some ⟨c, .back (.ok (f e)), stack⟩) :
    Delivers g s stack depth ⟨.before s t depth, .call .factor, frame :: stack⟩
      (readFactor g room t >>= fun read => .ok (f read.1, read.2)) :=
  (h t _ ht).bind hframe fun e _ _ => .read (.single ⟨isUnderWay_cons _ _ _ _, hback _ e⟩)

/-- A factor is read by its first character, as the reader does. -/
theorem factor_delivers {room : Nat} (h : Performs g s depth .factor (readFactor g room))
    (ht : t <:+ s) :
    Delivers g s stack depth ⟨.before s t depth, .factor, stack⟩ (readFactor g (room + 1) t) := by
  have hskip := (skipSpaces_suffix t).trans ht
  refine Delivers.of_skipSpaces rfl ht ?_
  unfold readFactor
  cases hs : skipSpaces t with
  | nil => exact .fault rfl (.single ⟨isUnderWay_of_task rfl, rfl⟩)
  | cons x rest =>
    rw [hs] at hskip
    have hrest := (List.suffix_cons x rest).trans hskip
    have hadvance := step_factor g depth stack hskip (ne_space_of_skipSpaces hs)
    dsimp only
    by_cases hplus : x = '+'
    · rw [if_pos hplus] at hadvance ⊢
      exact .of_step hadvance (isUnderWay_of_task rfl) (sign_delivers h hrest rfl fun _ _ => rfl)
    rw [if_neg hplus] at hadvance ⊢
    by_cases hminus : x = '-'
    · rw [if_pos hminus] at hadvance ⊢
      exact .of_step hadvance (isUnderWay_of_task rfl) (sign_delivers h hrest rfl fun _ _ => rfl)
    rw [if_neg hminus] at hadvance ⊢
    by_cases hopening : x = '('
    · rw [if_pos hopening] at hadvance ⊢
      refine .of_step hadvance (isUnderWay_of_task rfl) ((h.reader .sum rest _ hrest).bind rfl ?_)
      intro e rest' hread
      exact .of_step rfl (isUnderWay_cons _ _ _ _)
        (closing_delivers (((reader_isWithin g room .sum).suffix hread).trans hrest))
    rw [if_neg hopening] at hadvance ⊢
    by_cases hnumeric : isNumeric x = true
    · rw [if_pos hnumeric] at hadvance ⊢
      exact .of_step hadvance (isUnderWay_of_task rfl) (digits_delivers hskip)
    rw [if_neg hnumeric] at hadvance ⊢
    cases g with
    | scientific => exact .of_step hadvance (isUnderWay_of_task rfl) (word_delivers hskip)
    | programmer => exact .fault rfl (.single ⟨isUnderWay_of_task rfl, hadvance⟩)

/-- By induction on the signs and brackets that may still be opened. What the readers count down
from the limit, the machine counts up to it. -/
theorem readFactor_performed (g : Grammar) (s : Text) (room : Nat) :
    ∀ depth, depth + room = maxNesting → Performs g s depth .factor (readFactor g room) := by
  induction room with
  | zero =>
    -- the limit is reached before any space is passed
    intro depth hdepth t stack _
    have hstep : step g s ⟨.before s t depth, .call .factor, stack⟩ =
        some ⟨.before s t depth, .back (.error (Stop.place s ⟨t, .nesting⟩)), stack⟩ :=
      if_pos (Nat.le_of_eq hdepth.symm)
    exact .fault rfl (.single ⟨isUnderWay_of_task rfl, hstep⟩)
  | succ room ih =>
    intro depth hdepth t stack ht
    have hlt : ¬maxNesting ≤ depth := by omega
    have hstep : step g s ⟨.before s t depth, .call .factor, stack⟩ =
        some ⟨.before s t (depth + 1), .factor, .counted :: stack⟩ := if_neg hlt
    have hperforms := ih (depth + 1) (by omega)
    exact .of_step hstep (isUnderWay_of_task rfl) (factor_delivers hperforms ht).of_counted

/-- Every call of a machine in order delivers what the reader of its level gives. -/
theorem reader_performed (g : Grammar) (s : Text) (hdepth : depth ≤ maxNesting) (level : Level) :
    Performs g s depth level (reader g (maxNesting - depth) level) :=
  (readFactor_performed g s _ depth (by omega)).reader level

/-! ## Runs -/

/-- The run on a text ends with what the readers give for it. -/
theorem reaches_parse (g : Grammar) (s : Text) :
    ∃ c, Reaches g s (start s) ⟨c, .back (parse g s), []⟩ := by
  have hdelivers := reader_performed g s (Nat.zero_le _) .sum s [.whole] List.suffix_rfl
  rw [← Cursor.start_eq] at hdelivers
  have hparse : parse g s = (reader g maxNesting .sum s >>= fun read =>
      if read.2.isEmpty then pure read.1 else throw (Stop.at read.2)).mapError (Stop.place s) := rfl
  have hwithin := reader_isWithin g maxNesting .sum s
  rw [hparse]
  generalize hread : reader g maxNesting .sum s = reading at hwithin
  rw [Nat.sub_zero, hread] at hdelivers
  cases hdelivers with
  | @fault stop c _ h => exact ⟨c, h.reaches.tail rfl⟩
  | @read e rest h =>
    refine ⟨.before s rest 0, h.reaches.tail ?_⟩
    cases rest with
    | nil => exact if_neg (Nat.lt_irrefl _)
    | cons x rest =>
      cases hwithin with
      | read hrest =>
        have hle := hrest.length_le
        have hlt : s.length - (x :: rest).length < s.length := by
          rw [List.length_cons] at hle ⊢
          omega
        exact if_pos hlt

/-- What is delivered comes back inside of as many factors, with the cursor before what is left. -/
theorem Delivers.returns (h : Delivers g s stack depth ⟨c, task, stack⟩ reading) :
    ∃ c', Returns g s ⟨c, task, stack⟩ (outcomeIn s reading) c' ∧ c'.depth = depth ∧
      ∀ e rest, reading = .ok (e, rest) → c' = .before s rest depth := by
  cases h with
  | @read e rest h =>
    refine ⟨_, h, rfl, ?_⟩
    rintro _ _ ⟨⟩
    rfl
  | @fault stop c hdepth h =>
    refine ⟨c, h, hdepth, ?_⟩
    rintro _ _ ⟨⟩

/-- A call comes back with what the reader of its level gives, and with a tree only after a
character has been passed. -/
theorem InOrder.call_returns (h : InOrder s ⟨c, .call level, stack⟩) :
    ∃ outcome c', Returns g s ⟨c, .call level, stack⟩ outcome c' ∧
      outcome = outcomeIn s (reader g (maxNesting - c.depth) level (s.drop c.position)) ∧
      c'.depth = c.depth ∧ ∀ e, outcome = .ok e → c.position < c'.position := by
  have hplaced : c.IsPlaced s := h.isPlaced
  have hle := hplaced.position_le
  have hdelivers := reader_performed g s h.depth_le level _ stack (List.drop_suffix c.position s)
  rw [← hplaced.eq_before] at hdelivers
  obtain ⟨c', hreturns, hdepth, hread⟩ := hdelivers.returns
  refine ⟨_, c', hreturns, rfl, hdepth, fun e he => ?_⟩
  cases hreading : reader g (maxNesting - c.depth) level (s.drop c.position) with
  | error stop =>
    rw [hreading] at he
    cases he
  | ok read =>
    obtain ⟨e, rest⟩ := read
    have hlt := reader_shortens g _ level _ _ _ hreading
    rw [List.length_drop] at hlt
    rw [hread e rest hreading]
    show c.position < s.length - rest.length
    omega

/-- A loop over the operators of a level comes to its end. -/
theorem InOrder.chain_returns (h : InOrder s ⟨c, .chain level left, stack⟩) :
    ∃ outcome c', Returns g s ⟨c, .chain level left, stack⟩ outcome c' ∧ c'.depth = c.depth := by
  have hplaced : c.IsPlaced s := h.isPlaced
  have hperforms := reader_performed g s h.depth_le level.operand
  have hdelivers : Delivers g s stack c.depth ⟨.before s (s.drop c.position) c.depth,
      .chain level left, stack⟩ _ :=
    chainFrom_delivers (reader_shortens g _ _) (reader_isWithin g _ _) hperforms
      (List.drop_suffix c.position s) (Nat.lt_succ_self _)
  rw [← hplaced.eq_before] at hdelivers
  obtain ⟨c', hreturns, hdepth, -⟩ := hdelivers.returns
  exact ⟨_, c', hreturns, hdepth⟩

/-- **The cursor stays in its text and every call comes back.** At every point of every run the
cursor is a place of the text and looks at the character there, it is inside of at most 256 factors,
what is taken out of the text is in the text, and the cursor never moves backwards from there. Every
call comes back with what the reader of its level gives, inside of as many factors as before, and
after a character at least if it has succeeded; so every loop over operators ends. The run ends with
what the readers give for the whole text. -/
theorem cursor_placed_throughout (g : Grammar) (s : Text) :
    (∀ m, Reaches g s (start s) m →
      m.cursor.position ≤ s.length ∧ m.cursor.lookahead = s[m.cursor.position]? ∧
      m.cursor.depth ≤ 256 ∧ m.TakesWithin s ∧ (step g s m = none → m.HasEnded) ∧
      (∀ m', Reaches g s m m' → m.cursor.position ≤ m'.cursor.position) ∧
      (∀ level, m.task = .call level → ∃ outcome c, m.Returns g s outcome c ∧
        outcome = outcomeIn s
          (reader g (256 - m.cursor.depth) level (s.drop m.cursor.position)) ∧
        c.depth = m.cursor.depth ∧ ∀ e, outcome = .ok e → m.cursor.position < c.position) ∧
      (∀ level left, m.task = .chain level left → ∃ outcome c, m.Returns g s outcome c ∧
        c.depth = m.cursor.depth)) ∧
    ∃ c, Reaches g s (start s) ⟨c, .back (parse g s), []⟩ := by
  refine ⟨fun m hreaches => ?_, reaches_parse g s⟩
  have horder := ((inOrder_start s).reaches hreaches).1
  have hmoves (m' : Machine) (h : Reaches g s m m') : m.cursor.position ≤ m'.cursor.position :=
    (horder.reaches h).2
  refine ⟨horder.isPlaced.position_le, horder.isPlaced.lookahead_eq, horder.depth_le,
    horder.takesWithin, horder.hasEnded, hmoves, ?_, ?_⟩
  · obtain ⟨c, task, stack⟩ := m
    rintro level rfl
    exact horder.call_returns
  · obtain ⟨c, task, stack⟩ := m
    rintro level left rfl
    exact horder.chain_returns

/-- The sum in the brackets of `2*(3` is called before the fourth character, inside of one factor,
and comes back with the number. -/
theorem cursor_placed_throughout_bracket :
    ∃ m, Reaches .scientific "2*(3".toList (start "2*(3".toList) m ∧ m.task = .call .sum ∧
      m.cursor = ⟨3, some '3', 1⟩ ∧
      ∃ outcome c, m.Returns .scientific "2*(3".toList outcome c ∧
        outcome = .ok (.number ⟨3, 0⟩) ∧ c.depth = 1 ∧ 3 < c.position := by
  have hrun : run .scientific "2*(3".toList 11 (start "2*(3".toList) =
      some ⟨⟨3, some '3', 1⟩, .call .sum, [.group, .counted,
        .right .term .multiply (.number ⟨2, 0⟩), .first .sum, .whole]⟩ := rfl
  have hreaches := reaches_of_run hrun
  obtain ⟨-, -, -, -, -, -, hcalls, -⟩ :=
    (cursor_placed_throughout .scientific "2*(3".toList).1 _ hreaches
  obtain ⟨outcome, c, hreturns, houtcome, hdepth, hpassed⟩ := hcalls .sum rfl
  have hread : outcomeIn "2*(3".toList (reader .scientific 255 .sum ("2*(3".toList.drop 3)) =
      .ok (.number ⟨3, 0⟩) := by
    decide +kernel
  have hnumber : outcome = .ok (.number ⟨3, 0⟩) := houtcome.trans hread
  exact ⟨_, hreaches, rfl, rfl, outcome, c, hreturns, hnumber, hdepth, hpassed _ hnumber⟩

end Machine

end Calculator.Expression
