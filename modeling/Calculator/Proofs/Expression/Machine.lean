import Calculator.Proofs.Expression.Grammar
import Mathlib.Logic.Relation

/-!
# Reading with a cursor

The readers hand on the text that is left. Here the same reading is taken apart into the steps of a
machine. It keeps the whole text, passes one character at a time with a cursor, counts the factors
that it is inside of, and has the calls that are not finished on a stack. Nothing in its state ties
the cursor to the text, and a step that would take characters from outside of the text is no step.
Every state of a run is shown to be in order, and a machine in order goes on until it has ended.
-/

namespace Calculator.Expression

/-- The operators that join the operands of a level. A factor has no operands. -/
def Level.operator? (g : Grammar) : Level → Char → Option Operator
  | .sum => Operator.ofTermSign?
  | .term => Operator.ofFactorSign? g
  | .factor => fun _ => none

/-- The level of the operands. -/
def Level.operand : Level → Level
  | .sum => .term
  | .term | .factor => .factor

/-! ## Cursors -/

/-- Where a reading stands in its text. -/
structure Cursor where
  /-- The number of characters before the cursor. -/
  position : Nat
  /-- The character that comes next, or none where the text ends. -/
  lookahead : Option Char
  /-- The number of factors around the cursor. -/
  depth : Nat

/-- The cursor at the start of a text. -/
def Cursor.start (s : Text) : Cursor := ⟨0, s.head?, 0⟩

/-- Passes one character, whether there is one or not. -/
def Cursor.advance (s : Text) (c : Cursor) : Cursor :=
  { c with position := c.position + 1, lookahead := s[c.position + 1]? }

/-- The fault of a text that cannot go on at the cursor. -/
def Cursor.unexpected (c : Cursor) : Unexpected :=
  ⟨c.position, c.lookahead.elim .ending .character⟩

/-- The cursor is a place of the text, and looks at the character there. -/
structure Cursor.IsPlaced (s : Text) (c : Cursor) : Prop where
  position_le : c.position ≤ s.length
  lookahead_eq : c.lookahead = s[c.position]?

theorem Cursor.isPlaced_start (s : Text) : (start s).IsPlaced s :=
  ⟨Nat.zero_le _, List.head?_eq_getElem?⟩

theorem Cursor.IsPlaced.lt_length {s : Text} {c : Cursor} {x : Char} (h : c.IsPlaced s)
    (hx : c.lookahead = some x) : c.position < s.length := by
  rw [h.lookahead_eq] at hx
  exact (List.getElem?_eq_some_iff.mp hx).1

theorem Cursor.IsPlaced.advance {s : Text} {c : Cursor} (h : c.position < s.length) :
    (c.advance s).IsPlaced s :=
  ⟨h, rfl⟩

/-- The characters of a text from one place up to another, if these are places of the text in this
order. -/
def slice? (s : Text) (start stop : Nat) : Option Text :=
  if start ≤ stop ∧ stop ≤ s.length then some (s.extract start stop) else none

theorem slice?_of_le {s : Text} {start stop : Nat} (hstart : start ≤ stop)
    (hstop : stop ≤ s.length) : slice? s start stop = some (s.extract start stop) :=
  if_pos ⟨hstart, hstop⟩

/-! ## The machine -/

/-- What the machine is doing. -/
inductive Task where
  /-- It begins to read a level. -/
  | call (level : Level)
  /-- It looks for another operator of a level, after what has been read of it. -/
  | chain (level : Level) (left : Expression)
  /-- It looks for the first character of a factor. -/
  | factor
  /-- It passes the digits and points of a number that starts at a place. -/
  | digits (start : Nat)
  /-- It looks for a word. -/
  | word
  /-- It passes the letters of a word that has been found. -/
  | letters (count : Nat) (e : Expression)
  /-- It looks for the closing bracket after an expression. -/
  | closing (inner : Expression)
  /-- It comes back from a call. -/
  | back (outcome : Except Unexpected Expression)

/-- Whether the machine passes spaces on the way to what it looks for. -/
def Task.passesSpaces : Task → Bool
  | .chain _ _ | .factor | .closing _ => true
  | _ => false

/-- Whether a call has come back. -/
def Task.isBack : Task → Bool
  | .back _ => true
  | _ => false

/-- What is left to do once a call has come back. -/
inductive Frame where
  /-- The whole text must have been read. -/
  | whole
  /-- A level goes on after its first operand. -/
  | first (level : Level)
  /-- A level goes on after the operand on the right of an operator. -/
  | right (level : Level) (op : Operator) (left : Expression)
  /-- A factor is no longer counted. -/
  | counted
  /-- The operand stands after a sign. -/
  | plus
  /-- The operand stands after a sign. -/
  | minus
  /-- The expression stands in brackets. -/
  | group

/-- Whether a frame stands for a factor that is counted. -/
def Frame.isCounted : Frame → Bool
  | .counted => true
  | _ => false

/-- A state of the machine. -/
structure Machine where
  /-- Where it stands in the text. -/
  cursor : Cursor
  /-- What it is doing. -/
  task : Task
  /-- What is left to do afterwards, the innermost call first. -/
  stack : List Frame

/-- The words of the scientific grammar, each with its tree. -/
def wordTrees : List (Text × Expression) :=
  [(['N', 'a', 'N'], .undefined), (['i', 'n', 'f'], .infinity)]

/-- What the digits and points from `start` on are read as. -/
def readRun (start : Nat) (run : Text) : Except Unexpected Expression :=
  match Decimal.parse? run with
  | some d => .ok (.number d)
  | none => .error ⟨start, .numeral run⟩

/-- What a task has noted of the text agrees with the position of the cursor. -/
def Task.Fits (s : Text) (position : Nat) : Task → Prop
  | .digits start => start ≤ position
  | .letters count _ => position + count ≤ s.length
  | _ => True

namespace Machine

/-- The machine before a text. -/
def start (s : Text) : Machine := ⟨.start s, .call .sum, [.whole]⟩

/-- Goes on after a call. A fault goes on to the end of the run, but no factor stays counted. -/
def resume (s : Text) (c : Cursor) (stack : List Frame) :
    Frame → Except Unexpected Expression → Option Machine
  | .counted, outcome =>
    match c.depth with
    | 0 => none
    | depth + 1 => some ⟨{ c with depth }, .back outcome, stack⟩
  | _, .error u => some ⟨c, .back (.error u), stack⟩
  | .whole, .ok e =>
    if c.position < s.length then some ⟨c, .back (.error c.unexpected), stack⟩
    else some ⟨c, .back (.ok e), stack⟩
  | .first level, .ok e => some ⟨c, .chain level e, stack⟩
  | .right level op left, .ok e => some ⟨c, .chain level (.binary op left e), stack⟩
  | .plus, .ok e => some ⟨c, .back (.ok (.plus e)), stack⟩
  | .minus, .ok e => some ⟨c, .back (.ok (.minus e)), stack⟩
  | .group, .ok e => some ⟨c, .closing e, stack⟩

/-- One step on the text `s`. It passes one character at most. -/
def step (g : Grammar) (s : Text) : Machine → Option Machine
  | ⟨c, .call .factor, stack⟩ =>
    if maxNesting ≤ c.depth then some ⟨c, .back (.error ⟨c.position, .nesting⟩), stack⟩
    else some ⟨{ c with depth := c.depth + 1 }, .factor, .counted :: stack⟩
  | ⟨c, .call level, stack⟩ => some ⟨c, .call level.operand, .first level :: stack⟩
  | ⟨c, .chain level left, stack⟩ =>
    if c.lookahead = some ' ' then some ⟨c.advance s, .chain level left, stack⟩
    else match c.lookahead.bind (level.operator? g) with
      | some op => some ⟨c.advance s, .call level.operand, .right level op left :: stack⟩
      | none => some ⟨c, .back (.ok left), stack⟩
  | ⟨c, .factor, stack⟩ =>
    match c.lookahead with
    | none => some ⟨c, .back (.error c.unexpected), stack⟩
    | some x =>
      if x = ' ' then some ⟨c.advance s, .factor, stack⟩
      else if x = '+' then some ⟨c.advance s, .call .factor, .plus :: stack⟩
      else if x = '-' then some ⟨c.advance s, .call .factor, .minus :: stack⟩
      else if x = '(' then some ⟨c.advance s, .call .sum, .group :: stack⟩
      else if isNumeric x then some ⟨c, .digits c.position, stack⟩
      else if g = .scientific then some ⟨c, .word, stack⟩
      else some ⟨c, .back (.error c.unexpected), stack⟩
  | ⟨c, .digits start, stack⟩ =>
    if c.lookahead.any isNumeric then some ⟨c.advance s, .digits start, stack⟩
    else (slice? s start c.position).map fun run => ⟨c, .back (readRun start run), stack⟩
  | ⟨c, .word, stack⟩ =>
    (slice? s c.position s.length).map fun rest =>
      match wordTrees.find? fun word => word.1.isPrefixOf rest with
      | some (word, e) => ⟨c, .letters word.length e, stack⟩
      | none => ⟨c, .back (.error c.unexpected), stack⟩
  | ⟨c, .letters 0 e, stack⟩ => some ⟨c, .back (.ok e), stack⟩
  | ⟨c, .letters (count + 1) e, stack⟩ => some ⟨c.advance s, .letters count e, stack⟩
  | ⟨c, .closing inner, stack⟩ =>
    if c.lookahead = some ' ' then some ⟨c.advance s, .closing inner, stack⟩
    else if c.lookahead = some ')' then some ⟨c.advance s, .back (.ok (.group inner)), stack⟩
    else some ⟨c, .back (.ok (.group inner)), stack⟩
  | ⟨_, .back _, []⟩ => none
  | ⟨c, .back outcome, frame :: stack⟩ => resume s c stack frame outcome

/-- The machine has come back from its first call. -/
def HasEnded (m : Machine) : Prop := m.stack = [] ∧ m.task.isBack = true

/-- The characters that the machine takes out of the text are characters of the text. -/
def TakesWithin (s : Text) (m : Machine) : Prop :=
  match m.task with
  | .digits start => start ≤ m.cursor.position ∧ m.cursor.position ≤ s.length
  | .word => m.cursor.position ≤ s.length
  | _ => True

/-- The second machine is reached from the first one. -/
def Reaches (g : Grammar) (s : Text) : Machine → Machine → Prop :=
  Relation.ReflTransGen fun m m' => step g s m = some m'

/-- A space is passed where it may stand. -/
theorem step_space {g : Grammar} {s : Text} {c : Cursor} {task : Task} {stack : List Frame}
    (htask : task.passesSpaces = true) (hspace : c.lookahead = some ' ') :
    step g s ⟨c, task, stack⟩ = some ⟨c.advance s, task, stack⟩ := by
  cases task with
  | chain | closing => exact if_pos hspace
  | factor => simp only [step, hspace, if_true]
  | call | digits | word | letters | back => cases htask

/-- The machine after a number of steps, if it takes them. -/
def run (g : Grammar) (s : Text) : Nat → Machine → Option Machine
  | 0, m => some m
  | n + 1, m => (step g s m).bind (run g s n)

theorem reaches_of_run {g : Grammar} {s : Text} {n : Nat} {m m' : Machine}
    (h : run g s n m = some m') : Reaches g s m m' := by
  induction n generalizing m with
  | zero =>
    obtain rfl := Option.some.inj h
    exact .refl
  | succ n ih =>
    obtain ⟨next, hstep, hrun⟩ := Option.bind_eq_some_iff.mp h
    exact .head hstep (ih hrun)

/-! ## Machines in order -/

/-- The cursor is placed in the text, and counts the factors that are on the stack. -/
structure InOrder (s : Text) (m : Machine) : Prop where
  isPlaced : m.cursor.IsPlaced s
  depth_eq : m.cursor.depth = m.stack.countP Frame.isCounted
  depth_le : m.cursor.depth ≤ maxNesting
  fits : m.task.Fits s m.cursor.position

theorem inOrder_start (s : Text) : (start s).InOrder s :=
  ⟨Cursor.isPlaced_start s, rfl, Nat.zero_le _, trivial⟩

/-- What becomes of a machine in order: it has ended, or goes on in order and not backwards. -/
inductive Progresses (s : Text) (m : Machine) : Option Machine → Prop
  | ended (h : m.HasEnded) : Progresses s m none
  | step {m' : Machine} (h : m'.InOrder s) (hle : m.cursor.position ≤ m'.cursor.position) :
      Progresses s m (some m')

variable {g : Grammar} {s : Text} {c : Cursor} {task task' : Task} {stack stack' : List Frame}

/-- The machine turns to another task and leaves the cursor. -/
theorem InOrder.stay (h : InOrder s ⟨c, task, stack⟩)
    (hstack : stack'.countP Frame.isCounted = stack.countP Frame.isCounted)
    (hfits : task'.Fits s c.position) :
    Progresses s ⟨c, task, stack⟩ (some ⟨c, task', stack'⟩) :=
  .step ⟨h.isPlaced, h.depth_eq.trans hstack.symm, h.depth_le, hfits⟩ (Nat.le_refl _)

/-- The machine passes a character of the text. -/
theorem InOrder.pass (h : InOrder s ⟨c, task, stack⟩) (hlt : c.position < s.length)
    (hstack : stack'.countP Frame.isCounted = stack.countP Frame.isCounted)
    (hfits : task'.Fits s (c.position + 1)) :
    Progresses s ⟨c, task, stack⟩ (some ⟨c.advance s, task', stack'⟩) :=
  .step ⟨.advance hlt, h.depth_eq.trans hstack.symm, h.depth_le, hfits⟩ (Nat.le_succ _)

/-- A factor is begun in order. -/
theorem InOrder.factor (h : InOrder s ⟨c, .factor, stack⟩) :
    Progresses s ⟨c, .factor, stack⟩ (step g s ⟨c, .factor, stack⟩) := by
  simp only [step]
  split
  · exact h.stay rfl trivial
  · rename_i x hx
    have hlt := h.isPlaced.lt_length hx
    split
    · exact h.pass hlt rfl trivial
    split
    · exact h.pass hlt rfl trivial
    split
    · exact h.pass hlt rfl trivial
    split
    · exact h.pass hlt rfl trivial
    split
    · exact h.stay rfl (Nat.le_refl _)
    split
    · exact h.stay rfl trivial
    · exact h.stay rfl trivial

/-- The letters of a word that has been found are all in the text. -/
theorem InOrder.word (h : InOrder s ⟨c, .word, stack⟩) :
    Progresses s ⟨c, .word, stack⟩ (step g s ⟨c, .word, stack⟩) := by
  have hle : c.position ≤ s.length := h.isPlaced.position_le
  simp only [step]
  rw [slice?_of_le hle (Nat.le_refl _), Option.map_some]
  split
  · rename_i word e hfind
    have hfound := List.find?_some hfind
    have hprefix : word <+: s.extract c.position s.length :=
      List.isPrefixOf_iff_prefix.mp hfound
    have hlength := hprefix.length_le
    rw [List.length_take, List.length_drop] at hlength
    refine h.stay rfl ?_
    show c.position + word.length ≤ s.length
    omega
  · exact h.stay rfl trivial

/-- After a call that has come back the machine goes on in order. -/
theorem InOrder.resume {frame : Frame} {outcome : Except Unexpected Expression}
    (h : InOrder s ⟨c, .back outcome, frame :: stack⟩) :
    Progresses s ⟨c, .back outcome, frame :: stack⟩ (Machine.resume s c stack frame outcome) := by
  cases frame with
  | counted =>
    -- the count is the number of frames, so it is not zero here
    have hdepth : c.depth = stack.countP Frame.isCounted + 1 :=
      h.depth_eq.trans (List.countP_cons_of_pos rfl)
    have hle : stack.countP Frame.isCounted + 1 ≤ maxNesting := hdepth ▸ h.depth_le
    simp only [Machine.resume, hdepth]
    exact .step ⟨⟨h.isPlaced.1, h.isPlaced.2⟩, rfl, Nat.le_of_succ_le hle, trivial⟩ (Nat.le_refl _)
  | whole =>
    cases outcome with
    | error u => exact h.stay rfl trivial
    | ok e =>
      simp only [Machine.resume]
      split
      · exact h.stay rfl trivial
      · exact h.stay rfl trivial
  | first | right | plus | minus | group =>
    cases outcome with
    | error u => exact h.stay rfl trivial
    | ok e => exact h.stay rfl trivial

/-- **A machine in order goes on in order until it has ended.** By cases on what it is doing. -/
theorem InOrder.progresses {m : Machine} (h : m.InOrder s) :
    Progresses s m (step g s m) := by
  obtain ⟨c, task, stack⟩ := m
  cases task with
  | call level =>
    cases level with
    | factor =>
      simp only [step]
      split
      · exact h.stay rfl trivial
      · rename_i hdepth
        refine .step ⟨⟨h.isPlaced.1, h.isPlaced.2⟩, ?_, Nat.lt_of_not_le hdepth, trivial⟩
          (Nat.le_refl _)
        exact (congrArg (· + 1) h.depth_eq).trans (List.countP_cons_of_pos rfl).symm
    | sum | term => exact h.stay rfl trivial
  | chain level left =>
    simp only [step]
    split
    · rename_i hspace
      exact h.pass (h.isPlaced.lt_length hspace) rfl trivial
    split
    · rename_i op hop
      obtain ⟨x, hx, -⟩ := Option.bind_eq_some_iff.mp hop
      exact h.pass (h.isPlaced.lt_length hx) rfl trivial
    · exact h.stay rfl trivial
  | factor => exact h.factor
  | digits start =>
    simp only [step]
    split
    · rename_i hnumeric
      obtain ⟨x, hx, -⟩ := (Option.any_eq_true _ _).mp hnumeric
      exact h.pass (h.isPlaced.lt_length hx) rfl (Nat.le_succ_of_le h.fits)
    · rw [slice?_of_le h.fits h.isPlaced.position_le]
      exact h.stay rfl trivial
  | word => exact h.word
  | letters count e =>
    cases count with
    | zero => exact h.stay rfl trivial
    | succ count =>
      have hfits : c.position + (count + 1) ≤ s.length := h.fits
      refine h.pass ?_ rfl ?_
      · omega
      · show c.position + 1 + count ≤ s.length
        omega
  | closing inner =>
    simp only [step]
    split
    · rename_i hspace
      exact h.pass (h.isPlaced.lt_length hspace) rfl trivial
    split
    · rename_i hclosing
      exact h.pass (h.isPlaced.lt_length hclosing) rfl trivial
    · exact h.stay rfl trivial
  | back outcome =>
    cases stack with
    | nil => exact .ended ⟨rfl, rfl⟩
    | cons frame stack => exact h.resume

variable {m m' : Machine}

/-- One step keeps the order and does not move the cursor backwards. -/
theorem InOrder.of_step (h : m.InOrder s) (hstep : step g s m = some m') :
    m'.InOrder s ∧ m.cursor.position ≤ m'.cursor.position := by
  have hprogresses := h.progresses (g := g)
  rw [hstep] at hprogresses
  cases hprogresses with
  | step horder hle => exact ⟨horder, hle⟩

/-- A machine in order does not stop before it has ended. -/
theorem InOrder.hasEnded (h : m.InOrder s) (hstep : step g s m = none) : m.HasEnded := by
  have hprogresses := h.progresses (g := g)
  rw [hstep] at hprogresses
  cases hprogresses with
  | ended hended => exact hended

/-- By induction on the steps: order is kept, and the cursor never moves backwards. -/
theorem InOrder.reaches (h : m.InOrder s) (hreaches : Reaches g s m m') :
    m'.InOrder s ∧ m.cursor.position ≤ m'.cursor.position := by
  induction hreaches with
  | refl => exact ⟨h, Nat.le_refl _⟩
  | tail _ hstep ih =>
    obtain ⟨horder, hle⟩ := ih.1.of_step hstep
    exact ⟨horder, Nat.le_trans ih.2 hle⟩

/-- A machine in order takes nothing from outside of the text. -/
theorem InOrder.takesWithin (h : m.InOrder s) : m.TakesWithin s := by
  obtain ⟨c, task, stack⟩ := m
  cases task with
  | digits start => exact ⟨h.fits, h.isPlaced.position_le⟩
  | word => exact h.isPlaced.position_le
  | call | chain | factor | letters | closing | back => exact trivial

end Machine

end Calculator.Expression
