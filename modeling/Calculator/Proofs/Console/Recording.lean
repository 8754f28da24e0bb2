import Calculator.Proofs.Console.Status
import Calculator.Proofs.History.Order

/-!
# What lines do to the history

A calculated line adds its entry to the history and cuts it to the limit, unless its display reads
`Error`; `:clear-history` removes all entries; and no other line does anything, whatever it changes
in the calculators. Every line that does something has the history saved. What is done is a change
of a list of entries, written out apart from the functions with which the console does it.
-/

namespace Calculator

namespace History

/-- What a line changes in the entries of a history. -/
inductive Change where
  /-- An entry goes before the first one that is not newer. Then as many of the first entries stay
  as the limit allows, or all of them if it is zero. -/
  | recorded (entry : Entry) (limit : Nat)
  /-- No entry stays. -/
  | cleared
  deriving DecidableEq, Repr

/-- Entries after a change. -/
def Change.apply (entries : List Entry) : Change → List Entry
  | .recorded entry limit =>
    if limit = 0 then entries.orderedInsert Entry.NotOlder entry
    else (entries.orderedInsert Entry.NotOlder entry).take limit
  | .cleared => []

/-- A history of the same version after changes of its entries. -/
def changed (history : History) (changes : List Change) : History :=
  ⟨history.version, changes.foldl Change.apply history.entries⟩

theorem changed_append (history : History) (changes more : List Change) :
    history.changed (changes ++ more) = (history.changed changes).changed more := by
  rw [changed, List.foldl_append]
  rfl

/-- Adding an entry and keeping the newest ones is a recorded change. -/
theorem keepNewest_add (history : History) (entry : Entry) (limit : Nat) :
    (history.add entry).keepNewest limit = history.changed [.recorded entry limit] := by
  change _ = History.mk history.version (Change.apply history.entries (.recorded entry limit))
  rw [keepNewest, add, insert_eq_orderedInsert, Change.apply]
  split <;> rfl

theorem clear_eq_changed (history : History) : history.clear = history.changed [.cleared] := rfl

end History

open History (Change)

namespace Console

/-! ## What lines do -/

/-- The display of a line in the calculator in use. -/
def display (console : Console) (line : Text) : Text :=
  match console.mode with
  | .programmer => programmerDisplay console.programmer.radix (Text.trim line)
  | _ => console.settings.scientificDisplay (Text.trim line)

/-- A line and its display as the calculator in use hands them to the history. -/
def calculation (console : Console) (line : Text) : Record :=
  match console.mode with
  | .programmer =>
    .programmer (Text.trim line) console.programmer.radix (console.display line)
  | _ => .engineering (Text.trim line) (console.display line)

/-- What calculating a line does to the history. -/
def recording (console : Console) (stamp : Stamp) (line : Text) : List Change :=
  if console.display line = Display.error then []
  else [.recorded ((console.calculation line).stamp stamp) console.settings.historyLimit]

/-- What a line of input does to the history. -/
def changes (console : Console) (stamp : Stamp) (line : Text) : List Change :=
  match Text.trim line with
  | [] => []
  | ':' :: rest =>
    if (Text.words (':' :: rest)).head? = some ":clear-history".toList then [.cleared] else []
  | line => console.recording stamp line

theorem kept?_eq (console : Console) (line : Text) :
    console.kept? line =
      if console.display line = Display.error then none else some (console.calculation line) := by
  rw [kept?, display, calculation, display]
  cases console.mode with
  | programmer => exact Keypad.Programmer.calculate_snd _
  | engineering | graph => rfl

/-! ## What replies do -/

/-- A reply of a console does something to its history, and has it saved if it is anything at all.
Without a file, a history without entries stays as it is. -/
structure Reply.Does (reply : Reply) (console : Console) (changes : List Change) : Prop where
  settings : reply.console.settings = console.settings
  archive : reply.console.archive = console.archive
  history : console.archive.isSome = true →
    reply.console.history = console.history.changed changes
  empty : console.archive = none → console.history = .empty → reply.console.history = .empty
  saves : reply.saves = (!changes.isEmpty && console.archive.isSome)

variable {console console' : Console} {reply : Reply}

/-- A reply that keeps the history does nothing to it. -/
theorem Reply.Does.nothing (hsettings : reply.console.settings = console.settings)
    (harchive : reply.console.archive = console.archive)
    (hhistory : reply.console.history = console.history) (hsaves : reply.saves = false) :
    reply.Does console [] :=
  ⟨hsettings, harchive, fun _ => hhistory, fun _ hempty => hhistory.trans hempty, hsaves⟩

@[simp] theorem settings_record (console : Console) (entry : Entry) :
    (console.record entry).settings = console.settings := by
  unfold record
  split <;> rfl

@[simp] theorem archive_record (console : Console) (entry : Entry) :
    (console.record entry).archive = console.archive := by
  unfold record
  split <;> rfl

theorem history_record (console : Console) (entry : Entry) :
    (console.record entry).history = if console.archive.isSome then
      (console.history.add entry).keepNewest console.settings.historyLimit
      else console.history := by
  unfold record
  split <;> rfl

/-- A reply of a console that differs in its calculators only records the entry that is kept. -/
theorem recorded_does (hsettings : console'.settings = console.settings)
    (harchive : console'.archive = console.archive) (hhistory : console'.history = console.history)
    (result output : Text) (kept : Option Entry) :
    (console'.recorded result output kept).Does console
      (kept.elim [] fun entry => [.recorded entry console.settings.historyLimit]) := by
  cases kept with
  | none => exact .nothing hsettings harchive hhistory rfl
  | some entry =>
    have hconsole : (console'.recorded result output (some entry)).console =
        console'.record entry := rfl
    refine ⟨?_, ?_, ?_, ?_, ?_⟩
    · rw [hconsole, settings_record, hsettings]
    · rw [hconsole, archive_record, harchive]
    · intro hplace
      rw [hconsole, history_record, harchive, if_pos hplace, hhistory, hsettings,
        History.keepNewest_add]
      rfl
    · intro hnone hempty
      rw [hconsole, history_record, harchive, hnone, hhistory]
      exact hempty
    · rw [recorded, harchive]
      rfl

theorem calculate_does (console : Console) (stamp : Stamp) (line : Text) :
    (console.calculate stamp line).Does console (console.recording stamp line) := by
  have hrecording : console.recording stamp line =
      ((console.kept? line).map (·.stamp stamp)).elim []
        fun entry => [.recorded entry console.settings.historyLimit] := by
    rw [recording, kept?_eq]
    split <;> rfl
  rw [hrecording, calculate, kept?]
  cases console.mode with
  | programmer => apply recorded_does <;> rfl
  | engineering | graph => apply recorded_does <;> rfl

/-- The first word of a command tells whether it removes all entries. -/
theorem Command.parse_eq_clearHistory_iff (line : Text) :
    Command.parse line = .clearHistory ↔
      (Text.words line).head? = some ":clear-history".toList := by
  have hfirst : (Text.words line).head? = some ":clear-history".toList ↔
      (Text.words line).headD [] = ":clear-history".toList := by
    cases Text.words line with
    | nil => exact iff_of_false nofun (by decide)
    | cons word words => exact Option.some_inj
  rw [hfirst, parse]
  generalize (Text.words line).headD [] = name
  by_cases hname : name = ":clear-history".toList
  · subst hname
    refine iff_of_true ?_ rfl
    iterate 6 rw [if_neg (by decide)]
    exact if_pos rfl
  · refine iff_of_false ?_ hname
    generalize (Text.words line)[1]? = argument
    split_ifs <;> cases argument <;> simp

theorem reopen_does (console : Console) (number : Text) :
    (console.reopen number).Does console [] := by
  rw [reopen]
  split
  · exact .nothing rfl rfl rfl rfl
  · split <;> exact .nothing rfl rfl rfl rfl

theorem perform_does (console : Console) (command : Command) :
    (console.perform command).Does console
      (if command = .clearHistory then [.cleared] else []) := by
  cases command with
  | quit | help | showBase | convert | showHistory | unknown name =>
    exact .nothing rfl rfl rfl rfl
  | mode mode => cases mode <;> exact .nothing rfl rfl rfl rfl
  | base name =>
    rw [if_neg nofun, perform, activateBase]
    split <;> exact .nothing rfl rfl rfl rfl
  | reopen number => exact console.reopen_does number
  | clearHistory =>
    refine ⟨rfl, rfl, fun _ => console.history.clear_eq_changed, ?_, ?_⟩
    · intro _ hempty
      change console.history.clear = .empty
      rw [hempty]
      rfl
    · exact (Bool.true_and _).symm

/-- A line that is neither blank nor a command is calculated. -/
theorem changes_of_expression {line : Text} (hblank : Text.trim line ≠ [])
    (hcommand : ∀ rest, Text.trim line ≠ ':' :: rest) (stamp : Stamp) :
    console.changes stamp line = console.recording stamp (Text.trim line) := by
  rw [changes]
  split
  · exact absurd ‹_› hblank
  · exact absurd ‹_› (hcommand _)
  · rfl

theorem handle_does (console : Console) (stamp : Stamp) (line : Text) :
    (console.handle stamp line).Does console (console.changes stamp line) := by
  rw [handle]
  split
  · rename_i hline
    rw [changes, hline]
    exact .nothing rfl rfl rfl rfl
  · rename_i rest hline
    rw [changes, hline]
    simp only [← Command.parse_eq_clearHistory_iff]
    exact console.perform_does _
  · rename_i hblank hcommand
    rw [changes_of_expression hblank hcommand]
    exact console.calculate_does stamp _

end Console

end Calculator
