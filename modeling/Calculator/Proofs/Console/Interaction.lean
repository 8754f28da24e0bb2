import Calculator.Proofs.Console.Archive

/-!
# Lines of a session and programs with one expression

What is printed for a calculated line depends on the settings, the way of printing, the calculator
in use and its base, on the line, and on the stamp of a new entry. What is left in the keypads from
earlier lines and what is in the history have no part in it. So a line of a session is printed as a
program prints it that is given this line alone.
-/

namespace Calculator

/-- Texts that are the same apart from identifiers and timestamps: where one stamp is written in the
first text, another one is written in the second. -/
inductive SameApart (stamp stamp' : Stamp) : Text → Text → Prop
  /-- A text without a stamp. -/
  | same (s : Text) : SameApart stamp stamp' s s
  /-- An identifier. -/
  | id : SameApart stamp stamp' (Json.quote stamp.id.text) (Json.quote stamp'.id.text)
  /-- An instant. -/
  | timestamp :
    SameApart stamp stamp' (Json.quote stamp.timestamp.text) (Json.quote stamp'.timestamp.text)
  /-- A text after a text. -/
  | append {s s' t t' : Text} (hs : SameApart stamp stamp' s s')
    (ht : SameApart stamp stamp' t t') : SameApart stamp stamp' (s ++ t) (s' ++ t')

namespace SameApart

variable {stamp stamp' : Stamp} {s s' : Text}

theorem prepend (s : Text) {t t' : Text} (h : SameApart stamp stamp' t t') :
    SameApart stamp stamp' (s ++ t) (s ++ t') := .append (.same s) h

theorem cons (c : Char) (h : SameApart stamp stamp' s s') :
    SameApart stamp stamp' (c :: s) (c :: s') := h.prepend [c]

/-- With one stamp for both, the texts are equal. -/
theorem eq_of_self (h : SameApart stamp stamp s s') : s = s' := by
  induction h with
  | same | id | timestamp => rfl
  | append _ _ ihs iht => rw [ihs, iht]

/-- Members whose values are printed the same apart from stamps are so themselves. -/
theorem prettyMembers {members members' : List (Text × Json)}
    (h : List.Forall₂ (fun m m' => m.1 = m'.1 ∧
      ∀ level, SameApart stamp stamp' (m.2.prettyAt level) (m'.2.prettyAt level)) members members')
    (level : Nat) :
    SameApart stamp stamp' (Json.prettyMembers level members)
      (Json.prettyMembers level members') := by
  induction h with
  | nil => exact .same _
  | @cons m m' rest rest' hm hrest ih =>
    obtain ⟨key, value⟩ := m
    obtain ⟨key', value'⟩ := m'
    obtain ⟨rfl, hvalue⟩ := hm
    have hmember : SameApart stamp stamp'
        (Json.newLine level ++ Json.quote key ++ ':' :: ' ' :: value.prettyAt level)
        (Json.newLine level ++ Json.quote key ++ ':' :: ' ' :: value'.prettyAt level) :=
      .prepend _ (.cons ':' (.cons ' ' (hvalue level)))
    cases hrest with
    | nil => exact hmember
    | cons => exact hmember.append (ih.cons ',')

end SameApart

/-- An entry is printed the same apart from its stamp. -/
theorem Record.toJson_sameApart (record : Record) (stamp stamp' : Stamp) :
    SameApart stamp stamp' (record.stamp stamp).toJson.pretty
      (record.stamp stamp').toJson.pretty := by
  rw [Entry.toJson, Entry.toJson, Json.pretty, Json.pretty, Json.prettyAt, Json.prettyAt]
  refine .append (.append (.cons _ (.prettyMembers ?_ 1)) (.same _)) (.same _)
  -- the first member is the identifier and the fourth one is the instant
  refine .cons ⟨rfl, fun level => ?_⟩ (.cons ⟨rfl, fun _ => .same _⟩ (.cons ⟨rfl, fun _ => .same _⟩
    (.cons ⟨rfl, fun level => ?_⟩ (.cons ⟨rfl, fun _ => .same _⟩ .nil))))
  · rw [Json.prettyAt, Json.prettyAt]
    exact .id
  · rw [Json.prettyAt, Json.prettyAt]
    exact .timestamp

namespace Console

variable {console console' : Console}

/-! ## What is printed for a line -/

/-- Consoles that calculate and print alike: what was typed, what is shown and what is in the
history may be different. -/
structure Agrees (console console' : Console) : Prop where
  settings : console.settings = console'.settings
  mode : console.mode = console'.mode
  radix : console.programmer.radix = console'.programmer.radix
  json : console.json = console'.json

theorem resultText_sameApart (hjson : console.json = console'.json) (result : Text)
    (kept : Option Record) (stamp stamp' : Stamp) :
    SameApart stamp stamp' (console.resultText result (kept.map (·.stamp stamp)))
      (console'.resultText result (kept.map (·.stamp stamp'))) := by
  unfold resultText
  rw [← hjson]
  cases console.json with
  | false => exact .same _
  | true =>
    cases kept with
    | none => exact .same _
    | some record =>
      have hentry := record.toJson_sameApart stamp stamp'
      exact (hentry.append (.same _)).append (.same _)

theorem everyBaseText_sameApart (hjson : console.json = console'.json)
    (hprogrammer : console.programmer = console'.programmer) (stamp stamp' : Stamp) :
    SameApart stamp stamp' console.everyBaseText console'.everyBaseText := by
  rw [everyBaseText, everyBaseText, hjson, hprogrammer]
  exact .same _

/-- Consoles that agree print the same for a line. -/
theorem Agrees.calculate (h : console.Agrees console') (stamp stamp' : Stamp) {line line' : Text}
    (hline : Text.trim line = Text.trim line') :
    SameApart stamp stamp' (console.calculate stamp line).output
      (console'.calculate stamp' line').output := by
  obtain ⟨hsettings, hmode, hradix, hjson⟩ := h
  -- typing a line leaves nothing of what was typed or shown before
  have hprogrammer : console.programmer.typeLine line = console'.programmer.typeLine line' := by
    rw [Keypad.Programmer.typeLine, Keypad.Programmer.typeLine, hline, hradix]
  have hscientific : console.scientific.typeLine line = console'.scientific.typeLine line' := by
    rw [Keypad.Scientific.typeLine, Keypad.Scientific.typeLine, hline]
  rw [Console.calculate, Console.calculate, ← hmode]
  cases console.mode with
  | programmer =>
    dsimp only [recorded]
    rw [hprogrammer]
    refine .append (resultText_sameApart ?_ _ _ stamp stamp')
      (everyBaseText_sameApart ?_ ?_ stamp stamp')
    · exact hjson
    · exact hjson
    · rfl
  | engineering | graph =>
    dsimp only [recorded]
    rw [hscientific, hsettings]
    refine resultText_sameApart ?_ _ _ stamp stamp'
    exact hjson

/-! ## What lines leave as it is -/

theorem json_calculate (console : Console) (stamp : Stamp) (line : Text) :
    (console.calculate stamp line).console.json = console.json := by
  have hrecord (console : Console) (kept : Option Entry) :
      (kept.elim console console.record).json = console.json := by
    cases kept with
    | none => rfl
    | some entry =>
      rw [Option.elim_some, record]
      split <;> rfl
  rw [calculate]
  cases console.mode with
  | programmer | engineering | graph => exact hrecord _ _

theorem json_perform (console : Console) (command : Command) :
    (console.perform command).console.json = console.json := by
  cases command with
  | quit | help | showBase | convert | showHistory | unknown | clearHistory => rfl
  | mode mode => cases mode <;> rfl
  | base name =>
    rw [perform, activateBase]
    split <;> rfl
  | reopen number =>
    rw [perform, reopen]
    split
    · rfl
    · split <;> rfl

/-- No line changes the way of printing. -/
theorem json_handle (console : Console) (stamp : Stamp) (line : Text) :
    (console.handle stamp line).console.json = console.json := by
  rw [handle]
  split
  · rfl
  · exact console.json_perform _
  · exact console.json_calculate stamp _

/-- A line that is neither blank nor a command is calculated. -/
theorem handle_of_expression {line : Text} (hblank : Text.trim line ≠ [])
    (hcommand : ∀ rest, Text.trim line ≠ ':' :: rest) (stamp : Stamp) :
    console.handle stamp line = console.calculate stamp (Text.trim line) := by
  rw [handle]
  split
  · exact absurd ‹_› hblank
  · exact absurd ‹_› (hcommand _)
  · rfl

theorem confirmation_calculate (console : Console) (stamp : Stamp) (line : Text) :
    (console.calculate stamp line).confirmation = [] := by
  rw [calculate]
  cases console.mode <;> rfl

end Console

namespace Run

variable {run : Run} {stamps : Nat → Stamp}

/-! ## The output of a run -/

/-- The confirmation is not printed if saving fails. -/
theorem output_settle_cases (run : Run) (reply : Console.Reply) :
    (run.settle reply).output = run.output ++ reply.output ++ reply.confirmation ∨
      (run.settle reply).output = run.output ++ reply.output := by
  unfold settle
  dsimp only
  split
  · exact .inl rfl
  · split
    · exact .inl rfl
    · exact .inr rfl

theorem output_settle (run : Run) {reply : Console.Reply} (h : reply.confirmation = []) :
    (run.settle reply).output = run.output ++ reply.output := by
  rcases run.output_settle_cases reply with houtput | houtput
  · rw [houtput, h, List.append_nil]
  · exact houtput

theorem output_prefix_settle (run : Run) (reply : Console.Reply) :
    run.output <+: (run.settle reply).output := by
  have hreply : run.output <+: run.output ++ reply.output := List.prefix_append _ _
  rcases run.output_settle_cases reply with houtput | houtput
  · rw [houtput]
    exact hreply.trans (List.prefix_append _ _)
  · rwa [houtput]

/-- What was printed stays printed. -/
theorem output_prefix_take (run : Run) (line : Text) :
    run.output <+: (run.take stamps line).output := by
  rw [take]
  split
  · exact List.prefix_rfl
  · have hprompt : run.output <+: (run.print run.console.prompt).output := List.prefix_append _ _
    have hsettle := (run.print run.console.prompt).output_prefix_settle
      (run.console.handle (stamps run.taken) line)
    exact hprompt.trans hsettle

theorem output_prefix_foldl_take (run : Run) (lines : List Text) :
    run.output <+: (lines.foldl (take stamps) run).output := by
  induction lines generalizing run with
  | nil => exact List.prefix_rfl
  | cons line lines ih => exact (run.output_prefix_take line).trans (ih _)

theorem output_prefix_finish (run : Run) : run.output <+: run.finish.output := by
  rw [finish]
  split
  · exact List.prefix_rfl
  · exact List.prefix_append _ _

/-- A calculated line is printed after its prompt. -/
theorem output_take (stamps : Nat → Stamp) {line : Text} (hgoing : run.ended = false)
    (hblank : Text.trim line ≠ []) (hcommand : ∀ rest, Text.trim line ≠ ':' :: rest) :
    (run.take stamps line).output = run.output ++ run.console.prompt ++
      (run.console.calculate (stamps run.taken) (Text.trim line)).output := by
  rw [take, if_neg (by simp [hgoing]), Console.handle_of_expression hblank hcommand]
  have hsettle := (run.print run.console.prompt).output_settle
    (run.console.confirmation_calculate (stamps run.taken) (Text.trim line))
  exact hsettle

/-! ## What a run leaves as it is -/

/-- No line changes the settings or the way of printing. -/
theorem take_keeps (stamps : Nat → Stamp) (run : Run) (line : Text) :
    (run.take stamps line).console.settings = run.console.settings ∧
      (run.take stamps line).console.json = run.console.json := by
  rw [take]
  split
  · exact ⟨rfl, rfl⟩
  · dsimp only
    rw [console_settle]
    exact ⟨(run.console.handle_does _ line).settings, run.console.json_handle _ line⟩

theorem foldl_take_keeps (stamps : Nat → Stamp) (run : Run) (lines : List Text) :
    (lines.foldl (take stamps) run).console.settings = run.console.settings ∧
      (lines.foldl (take stamps) run).console.json = run.console.json := by
  induction lines generalizing run with
  | nil => exact ⟨rfl, rfl⟩
  | cons line lines ih =>
    obtain ⟨hsettings, hjson⟩ := take_keeps stamps run line
    exact ⟨(ih _).1.trans hsettings, (ih _).2.trans hjson⟩

end Run

namespace Options

variable {options options' : Options} {stamps : Nat → Stamp} {disk : Disk} {input : ByteArray}
  {console started : Console} {run : Run} {line : Text}

/-! ## Programs -/

/-- The settings and the way of printing of a console that files give. -/
theorem settings_of_load (h : options.load disk = .ok console) :
    options.config.elim (.ok {}) (Settings.load disk) = .ok console.settings ∧
      console.json = options.json := by
  obtain ⟨settings, hsettings, h⟩ := bind_eq_ok_iff.mp h
  obtain ⟨history, -, hstart⟩ := bind_eq_ok_iff.mp h
  cases hstart
  exact ⟨hsettings, rfl⟩

/-- A session takes a line that is neither blank nor a command, and the run before this line. -/
structure Calculates (stamps : Nat → Stamp) (console : Console) (disk : Disk) (input : ByteArray)
    (run : Run) (line : Text) : Prop where
  lines : ∃ before, before ++ [line] <+: Console.inputLines input ∧
    run = before.foldl (Run.take stamps) (opening console disk)
  going : run.ended = false
  nonblank : Text.trim line ≠ []
  expression : ∀ rest, Text.trim line ≠ ':' :: rest

/-- A program is given a line alone, and starts with the settings, the way of printing, the
calculator and the base of a console. -/
structure Alone (options : Options) (disk : Disk) (started console : Console) (line : Text) :
    Prop where
  loads : options.load disk = .ok started
  expression : ∃ s, options.expression = some s ∧ Text.trim s = Text.trim line
  agrees : console.Agrees started

/-- The options of a program that is given a line alone. -/
def alone (options : Options) (console : Console) (line : Text) : Options :=
  { options with
    mode := some console.mode
    base := some console.programmer.radix
    expression := some line
    archive := none }

/-- There is such a program for every point of a session. -/
theorem alone_of_keeps {current : Console} (hload : options.load disk = .ok console)
    (hsettings : current.settings = console.settings) (hjson : current.json = console.json)
    (line : Text) :
    (options.alone current line).Alone disk
      (.start (options.alone current line) console.settings .empty) current line := by
  obtain ⟨hconfig, hoption⟩ := settings_of_load hload
  refine ⟨?_, ⟨line, rfl, rfl⟩, ⟨hsettings, rfl, rfl, hjson.trans hoption⟩⟩
  rw [load, show (options.alone current line).config = options.config from rfl, hconfig]
  rfl

/-- A program that is given a line alone prints what the console prints for the line. -/
theorem Alone.output (h : options.Alone disk started console line) (stamp : Stamp)
    (stamps : Nat → Stamp) (input : ByteArray) :
    SameApart stamp (stamps 0) (console.calculate stamp (Text.trim line)).output
      (options.run stamps disk input).output := by
  obtain ⟨hload, ⟨s, hexpression, hline⟩, hagrees⟩ := h
  rw [Options.run, hload, hexpression]
  dsimp only [Run.once]
  rw [Run.output_settle _ (Console.confirmation_calculate _ _ _), List.nil_append]
  exact hagrees.calculate stamp (stamps 0) ((Text.trim_trim line).trans hline.symm)

/-- **A line of a session is printed as it is printed alone.** Whatever lines a session has taken
before a line that it calculates, the settings and the way of printing are those of its start, and
what is printed for the line, after the prompt, is the same, apart from identifiers and timestamps,
as what every program prints that is given the line alone and that starts with the same settings and
way of printing in the calculator and the base that are current then; with the same stamp it is the
same altogether. There is such a program: one with the same files but the history, and with the
calculator and the base as options. -/
theorem session_prints_as_alone (hload : options.load disk = .ok console)
    (hsession : options.expression = none) (hline : Calculates stamps console disk input run line) :
    run.console.settings = console.settings ∧ run.console.json = options.json ∧
    (options.alone run.console line).Alone disk
      (.start (options.alone run.console line) console.settings .empty) run.console line ∧
    ∃ printed,
      run.output ++ run.console.prompt ++ printed <+: (options.run stamps disk input).output ∧
      (run.take stamps line).output = run.output ++ run.console.prompt ++ printed ∧
      ∀ (options' : Options) (disk' : Disk) (started : Console) (stamps' : Nat → Stamp)
        (input' : ByteArray), options'.Alone disk' started run.console line →
        SameApart (stamps run.taken) (stamps' 0) printed
            (options'.run stamps' disk' input').output ∧
          (stamps run.taken = stamps' 0 →
            printed = (options'.run stamps' disk' input').output) := by
  obtain ⟨⟨before, ⟨after, hlines⟩, hrun⟩, hgoing, hblank, hcommand⟩ := hline
  obtain ⟨hsettings, hjson⟩ : run.console.settings = console.settings ∧
      run.console.json = console.json := by
    rw [hrun]
    exact Run.foldl_take_keeps stamps (opening console disk) before
  have htake := Run.output_take stamps hgoing hblank hcommand
  have hwhole : (run.take stamps line).output <+: (options.run stamps disk input).output := by
    rw [Options.run, hload, hsession]
    dsimp only [Run.interact]
    rw [← hlines, List.foldl_append, List.foldl_append, List.foldl_cons, List.foldl_nil]
    change _ <+: (after.foldl (Run.take stamps)
      ((before.foldl (Run.take stamps) (opening console disk)).take stamps line)).finish.output
    rw [← hrun]
    exact (Run.output_prefix_foldl_take _ after).trans (Run.output_prefix_finish _)
  refine ⟨hsettings, hjson.trans (settings_of_load hload).2, alone_of_keeps hload hsettings hjson
    line, _, ?_, htake, ?_⟩
  · rwa [← htake]
  · intro options' disk' started stamps' input' halone
    have hprints := halone.output (stamps run.taken) stamps' input'
    refine ⟨hprints, fun hstamp => ?_⟩
    rw [hstamp] at hprints ⊢
    exact hprints.eq_of_self

/-- A recalled entry brings back the base and the calculator that it was made in, and the next line
is printed as in a program that starts there. -/
theorem session_prints_as_alone_recalled :
    let stamps : Nat → Stamp := fun n =>
      ⟨⟨.ofNat 128 n⟩, ⟨⟨⟨2024, 5, 2⟩, 12, 0, 0, 0⟩, by decide⟩⟩
    let stamps' : Nat → Stamp := fun n =>
      ⟨⟨.ofNat 128 (n + 100)⟩, ⟨⟨⟨2025, 1, 31⟩, 23, 59, 60, 5⟩, by decide⟩⟩
    let options : Options := { json := true, archive := some "h.json".toList }
    let options' : Options :=
      { json := true, mode := some .programmer, base := some .hex, expression := some "A*2".toList }
    let input := Text.toBytes (Text.lines [":mode programmer", ":base hex", "F+1", ":base bin",
      ":mode engineering", "1+", ":history 1", "A*2"])
    ∃ before printed,
      before ++ "[HEX] > ".toList ++ printed <+: (options.run stamps .empty input).output ∧
      SameApart (stamps 7) (stamps' 0) printed (options'.run stamps' .empty .empty).output := by
  intro stamps stamps' options options' input
  let console := Console.start options {} .empty
  let before : List Text := [":mode programmer", ":base hex", "F+1", ":base bin",
    ":mode engineering", "1+", ":history 1"]
  let run := before.foldl (Run.take stamps) (opening console .empty)
  have hlines : before ++ ["A*2".toList] = Console.inputLines input := by decide +kernel
  have htrim : Text.trim "A*2".toList = ['A', '*', '2'] := by decide
  have hline : Calculates stamps console .empty input run "A*2".toList := by
    refine ⟨⟨before, ⟨[], ?_⟩, rfl⟩, by decide +kernel, ?_, ?_⟩
    · rw [hlines, List.append_nil]
    · rw [htrim]
      exact List.cons_ne_nil _ _
    · intro rest
      rw [htrim]
      simp
  have hload : options.load .empty = .ok console := rfl
  obtain ⟨hsettings, hjson, -, printed, hoccurs, -, hprints⟩ :=
    session_prints_as_alone hload rfl hline
  have hmode : run.console.mode = .programmer := by decide +kernel
  have hradix : run.console.programmer.radix = .hex := by decide +kernel
  have halone : options'.Alone .empty (.start options' {} .empty) run.console "A*2".toList :=
    ⟨rfl, ⟨_, rfl, rfl⟩, ⟨hsettings, hmode, hradix, hjson⟩⟩
  have htaken : run.taken = 7 := by decide +kernel
  have hprompt : run.console.prompt = "[HEX] > ".toList := by decide +kernel
  refine ⟨run.output, printed, ?_, ?_⟩
  · rwa [hprompt] at hoccurs
  · rw [← htaken]
    exact (hprints options' .empty _ stamps' .empty halone).1

end Options

end Calculator
