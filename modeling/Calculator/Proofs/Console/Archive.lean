import Calculator.Proofs.Console.Recording

/-!
# The file of the history

What a run does to its history is told by the lines that it takes. Whenever something was done, the
history is saved. So the file is as it was at the start, or it holds the history of the console.
Without a file there is no history.
-/

namespace Calculator

open History (Change)

/-- The history that a disk gives at a path: the one that the text of the file there reads as, if it
is of a version that can be read, or one without entries if the path leads to nothing. -/
inductive Disk.Gives (disk : Disk) (path : Text) : History → Prop
  | file {bytes : ByteArray} {history : History} (hread : disk.read path = .ok bytes)
    (hparses : (Text.ofBytes? bytes).bind History.parse? = some history)
    (haccepts : History.acceptsVersion history.version = true) : Gives disk path history
  | missing {fault : DiskFault} (hmissing : disk.find path = .error fault) :
    Gives disk path ⟨historyVersion, []⟩

theorem History.gives_of_loadOrEmpty {disk : Disk} {path : Text} {history : History}
    (h : loadOrEmpty disk path = .ok history) : disk.Gives path history := by
  rw [loadOrEmpty] at h
  split at h
  · obtain ⟨bytes, hread, hparses, haccepts⟩ := exists_of_load h
    exact .file hread hparses haccepts
  · rename_i fault hmissing
    cases h
    exact .missing hmissing

/-- The report of a failure is never empty. -/
theorem Failure.report_ne_nil (failure : Failure) : failure.report ≠ [] := by
  simp [Failure.report, Text.lines]

/-- Where the history is saved after a reply, if it has to be. -/
def Console.Reply.place (reply : Reply) : Option Text :=
  if reply.saves then reply.console.archive else none

namespace Run

variable {run run' : Run} {reply : Console.Reply} {console : Console} {before : Disk} {path : Text}
  {stamps : Nat → Stamp} {done more : List Change}

/-! ## What runs do -/

/-- The ways in which a run goes on after a reply. -/
inductive Settled (run : Run) (reply : Console.Reply) (next : Run) : Prop
  | unsaved (hplace : reply.place = none) (hdisk : next.disk = run.disk)
    (herrors : next.errors = run.errors)
  | saved {path : Text} (hplace : reply.place = some path)
    (hsave : (reply.console.history.save {} run.disk path).2 = .ok ())
    (hdisk : next.disk = (reply.console.history.save {} run.disk path).1)
    (herrors : next.errors = run.errors)
  | failed {path : Text} (failure : Failure) (hplace : reply.place = some path)
    (herrors : next.errors = run.errors ++ failure.report)

theorem console_settle (run : Run) (reply : Console.Reply) :
    (run.settle reply).console = reply.console := by
  unfold settle
  dsimp only
  split
  · rfl
  · split <;> rfl

theorem settled_settle (run : Run) (reply : Console.Reply) :
    Settled run reply (run.settle reply) := by
  unfold settle
  dsimp only
  split
  · rename_i hplace
    exact .unsaved hplace rfl rfl
  · rename_i path hplace
    split
    · rename_i disk hsave
      have hsave : reply.console.history.save {} run.disk path = (disk, .ok ()) := hsave
      exact .saved hplace (congrArg Prod.snd hsave) (congrArg Prod.fst hsave).symm rfl
    · rename_i disk failure hsave
      exact .failed failure hplace rfl

/-- A failure that was reported stays reported. -/
theorem errors_of_settle (h : (run.settle reply).errors = []) : run.errors = [] := by
  cases run.settled_settle reply with
  | unsaved _ _ herrors => exact herrors ▸ h
  | saved _ _ _ herrors => exact herrors ▸ h
  | failed failure _ herrors =>
    rw [herrors] at h
    exact (List.append_eq_nil_iff.mp h).1

theorem errors_of_take {line : Text} (h : (run.take stamps line).errors = []) :
    run.errors = [] := by
  rw [take] at h
  split at h
  · exact h
  · have hsettle : ((run.print run.console.prompt).settle
        (run.console.handle (stamps run.taken) line)).errors = [] := h
    have hprompt := errors_of_settle hsettle
    exact hprompt

theorem errors_of_foldl_take {lines : List Text}
    (h : (lines.foldl (take stamps) run).errors = []) : run.errors = [] := by
  induction lines generalizing run with
  | nil => exact h
  | cons line lines ih => exact errors_of_take (ih h)

/-- What lines do to the history of a run, and nothing once a line has ended it. -/
def changes (stamps : Nat → Stamp) (run : Run) : List Text → List Change
  | [] => []
  | line :: lines =>
    (if run.ended then [] else run.console.changes (stamps run.taken) line) ++
      changes stamps (run.take stamps line) lines

/-- A run has made changes to the history that its console started with, and keeps the history in a
file: either there were no changes and the disk is as it was before, or the file holds the
history. -/
structure Mirrors (run : Run) (console : Console) (before : Disk) (path : Text)
    (changes : List Change) : Prop where
  settings : run.console.settings = console.settings
  archive : run.console.archive = some path
  history : run.console.history = console.history.changed changes
  file : changes = [] ∧ run.disk = before ∨ run.disk.Holds path run.console.history

theorem Mirrors.congr (h : run.Mirrors console before path done)
    (hconsole : run'.console = run.console) (hdisk : run'.disk = run.disk) :
    run'.Mirrors console before path done := by
  obtain ⟨hsettings, harchive, hhistory, hfile⟩ := h
  rw [← hconsole] at hsettings harchive hhistory hfile
  rw [← hdisk] at hfile
  exact ⟨hsettings, harchive, hhistory, hfile⟩

/-- A reply is mirrored if saving succeeds. -/
theorem Mirrors.settle (h : run.Mirrors console before path done)
    (hdoes : reply.Does run.console more) (herrors : (run.settle reply).errors = []) :
    (run.settle reply).Mirrors console before path (done ++ more) := by
  have hplaced : run.console.archive.isSome = true := by rw [h.archive, Option.isSome_some]
  have harchive : reply.console.archive = some path := hdoes.archive.trans h.archive
  have hhistory : reply.console.history = console.history.changed (done ++ more) := by
    rw [hdoes.history hplaced, h.history, History.changed_append]
  have hsaves : reply.saves = !more.isEmpty := by rw [hdoes.saves, hplaced, Bool.and_true]
  refine ⟨?_, ?_, ?_, ?_⟩
  · rw [console_settle, hdoes.settings, h.settings]
  · rw [console_settle, harchive]
  · rw [console_settle, hhistory]
  rw [console_settle]
  cases run.settled_settle reply with
  | unsaved hplace hdisk _ =>
    -- there is a file, so what is not saved did nothing
    have hmore : more = [] := by
      by_contra hmore
      rw [Console.Reply.place, hsaves, harchive] at hplace
      simp [hmore] at hplace
    subst hmore
    rw [hdisk, hdoes.history hplaced, List.append_nil]
    exact h.file
  | @saved other hplace hsave hdisk _ =>
    have hpath : other = path := by
      rw [Console.Reply.place] at hplace
      split at hplace
      · exact Option.some_inj.mp (hplace.symm.trans harchive)
      · cases hplace
    subst hpath
    rw [hdisk]
    exact .inr (History.holds_of_save hsave)
  | failed failure _ hfailed =>
    rw [hfailed] at herrors
    exact absurd (List.append_eq_nil_iff.mp herrors).2 failure.report_ne_nil

theorem Mirrors.take (h : run.Mirrors console before path done) {line : Text}
    (herrors : (run.take stamps line).errors = []) :
    (run.take stamps line).Mirrors console before path
      (done ++ if run.ended then [] else run.console.changes (stamps run.taken) line) := by
  rw [Run.take] at herrors ⊢
  split
  · rwa [List.append_nil]
  · rename_i hended
    rw [if_neg hended] at herrors
    have hprompt : (run.print run.console.prompt).Mirrors console before path done :=
      h.congr rfl rfl
    have hsettle := hprompt.settle (run.console.handle_does (stamps run.taken) line) herrors
    exact hsettle.congr rfl rfl

/-- Every run whose saves succeed mirrors its history. -/
theorem Mirrors.foldl_take (h : run.Mirrors console before path done) {lines : List Text}
    (herrors : (lines.foldl (Run.take stamps) run).errors = []) :
    (lines.foldl (Run.take stamps) run).Mirrors console before path
      (done ++ run.changes stamps lines) := by
  induction lines generalizing run done with
  | nil =>
    rw [Run.changes, List.append_nil]
    exact h
  | cons line lines ih =>
    rw [Run.changes, ← List.append_assoc]
    exact ih (h.take (errors_of_foldl_take herrors)) herrors

/-! ## Runs without a file -/

/-- A run without a file for its history has no history, and leaves the disk as it was before. -/
structure KeepsNothing (run : Run) (before : Disk) : Prop where
  archive : run.console.archive = none
  history : run.console.history = ⟨historyVersion, []⟩
  disk : run.disk = before

theorem KeepsNothing.settle (h : run.KeepsNothing before) (hdoes : reply.Does run.console more) :
    (run.settle reply).KeepsNothing before := by
  have harchive : reply.console.archive = none := hdoes.archive.trans h.archive
  refine ⟨?_, ?_, ?_⟩
  · rw [console_settle, harchive]
  · rw [console_settle]
    exact hdoes.empty h.archive h.history
  · cases run.settled_settle reply with
    | unsaved _ hdisk _ => exact hdisk.trans h.disk
    | saved hplace _ _ _ | failed _ hplace _ =>
      rw [Console.Reply.place, harchive, ite_self] at hplace
      cases hplace

theorem KeepsNothing.take (h : run.KeepsNothing before) (line : Text) :
    (run.take stamps line).KeepsNothing before := by
  rw [Run.take]
  split
  · exact h
  · have hprompt : (run.print run.console.prompt).KeepsNothing before := ⟨h.1, h.2, h.3⟩
    have hsettle := hprompt.settle (run.console.handle_does (stamps run.taken) line)
    exact ⟨hsettle.archive, hsettle.history, hsettle.disk⟩

theorem KeepsNothing.foldl_take (h : run.KeepsNothing before) (lines : List Text) :
    (lines.foldl (Run.take stamps) run).KeepsNothing before := by
  induction lines generalizing run with
  | nil => exact h
  | cons line lines ih => exact ih (h.take line)

end Run

/-! ## Programs -/

namespace Options

variable {options : Options} {disk : Disk} {console : Console}

/-- A console that files give has the history of its file, and no history without a file. -/
theorem history_of_load (h : options.load disk = .ok console) :
    console.archive = options.archive ∧
    (∀ path, options.archive = some path → disk.Gives path console.history) ∧
    (options.archive = none → console.history = ⟨historyVersion, []⟩) := by
  obtain ⟨settings, -, h⟩ := bind_eq_ok_iff.mp h
  obtain ⟨history, hhistory, hstart⟩ := bind_eq_ok_iff.mp h
  cases hstart
  refine ⟨rfl, fun path hpath => ?_, fun hnone => ?_⟩
  · rw [hpath] at hhistory
    exact History.gives_of_loadOrEmpty hhistory
  · rw [hnone] at hhistory
    exact (Except.ok.inj hhistory).symm

/-- Files that can be loaded give a console. -/
theorem load_of_files {config archive : Text} {settings : Settings} {history : History}
    (hconfig : options.config = some config) (harchive : options.archive = some archive)
    (hsettings : Settings.load disk config = .ok settings)
    (hhistory : History.loadOrEmpty disk archive = .ok history) :
    options.load disk = .ok (Console.start options settings history) := by
  rw [load, hconfig, harchive, Option.elim_some, Option.elim_some, hsettings, ok_bind, hhistory,
    ok_bind]
  rfl

/-- A run before the first line of its input. -/
def opening (console : Console) (disk : Disk) : Run :=
  ({ console, disk } : Run).print Console.banner

/-- The points of a program that has loaded its files, and what was done to the history until then:
at the start, after the one expression, and after each line of the input. -/
inductive Point (options : Options) (stamps : Nat → Stamp) (disk : Disk) (input : ByteArray)
    (console : Console) : Run → List Change → Prop
  | start : Point options stamps disk input console { console, disk } []
  | once {expression : Text} (h : options.expression = some expression) :
    Point options stamps disk input console
      (Run.once (stamps 0) { console, disk } expression) (console.recording (stamps 0) expression)
  | lines (h : options.expression = none) {lines : List Text}
    (hlines : lines <+: Console.inputLines input) :
    Point options stamps disk input console
      (lines.foldl (Run.take stamps) (opening console disk))
      ((opening console disk).changes stamps lines)

/-- A program with an expression ends after it. -/
theorem run_of_expression (hload : options.load disk = .ok console) {expression : Text}
    (h : options.expression = some expression) (stamps : Nat → Stamp) (input : ByteArray) :
    let last := Run.once (stamps 0) { console, disk } expression
    (options.run stamps disk input).disk = last.disk ∧
      (options.run stamps disk input).errors = last.errors := by
  rw [Options.run, hload, h]
  exact ⟨rfl, rfl⟩

/-- A program without an expression ends after its input. -/
theorem run_of_lines (hload : options.load disk = .ok console) (h : options.expression = none)
    (stamps : Nat → Stamp) (input : ByteArray) :
    let last := (Console.inputLines input).foldl (Run.take stamps) (opening console disk)
    (options.run stamps disk input).disk = last.disk ∧
      (options.run stamps disk input).errors = last.errors := by
  rw [Options.run, hload, h]
  dsimp only [Run.interact, Run.finish]
  split <;> exact ⟨rfl, rfl⟩

/-- A program that reports no failure has reported none at any of its points. -/
theorem Point.errors_eq_nil {stamps : Nat → Stamp} {input : ByteArray} {run : Run}
    {done : List Change} (h : options.Point stamps disk input console run done)
    (hload : options.load disk = .ok console)
    (herrors : (options.run stamps disk input).errors = []) : run.errors = [] := by
  cases h with
  | start => rfl
  | once h => rwa [(run_of_expression hload h stamps input).2] at herrors
  | lines h hlines =>
    obtain ⟨rest, hrest⟩ := hlines
    rw [(run_of_lines hload h stamps input).2, ← hrest, List.foldl_append] at herrors
    exact Run.errors_of_foldl_take herrors

/-- **The file of the history always holds the history.** A program that has loaded its files starts
with the history that its file reads as, or without entries if there is no file yet. If it reports
no failure to save, at every point the history is this one after the changes that the lines until
then made, and the file is as it was before if they made none, and otherwise has exactly the text of
the history. A program that is given no file has no history at any point, and writes nothing. What
the program leaves on the disk is what its last point has left there. -/
theorem history_mirrored (hload : options.load disk = .ok console) (stamps : Nat → Stamp)
    (input : ByteArray) :
    (∀ path, options.archive = some path →
      disk.Gives path console.history ∧
      ((options.run stamps disk input).errors = [] →
        ∀ run done, options.Point stamps disk input console run done →
          run.Mirrors console disk path done)) ∧
    (options.archive = none →
      ∀ run done, options.Point stamps disk input console run done → run.KeepsNothing disk) ∧
    (∀ expression, options.expression = some expression →
      (options.run stamps disk input).disk =
        (Run.once (stamps 0) { console, disk } expression).disk) ∧
    (options.expression = none →
      (options.run stamps disk input).disk =
        ((Console.inputLines input).foldl (Run.take stamps) (opening console disk)).disk) := by
  obtain ⟨harchive, hgives, hempty⟩ := history_of_load hload
  refine ⟨fun path hpath => ⟨hgives path hpath, ?_⟩, ?_, ?_, ?_⟩
  · intro herrors run done hpoint
    have hrun := hpoint.errors_eq_nil hload herrors
    have hstart : ({ console, disk } : Run).Mirrors console disk path [] :=
      ⟨rfl, harchive.trans hpath, rfl, .inl ⟨rfl, rfl⟩⟩
    cases hpoint with
    | start => exact hstart
    | once => exact hstart.settle (console.calculate_does _ _) hrun
    | lines =>
      have hopening : (opening console disk).Mirrors console disk path [] := hstart.congr rfl rfl
      exact hopening.foldl_take hrun
  · intro hnone run done hpoint
    have hstart : ({ console, disk } : Run).KeepsNothing disk :=
      ⟨harchive.trans hnone, hempty hnone, rfl⟩
    cases hpoint with
    | start => exact hstart
    | once => exact hstart.settle (console.calculate_does _ _)
    | lines =>
      have hopening : (opening console disk).KeepsNothing disk :=
        ⟨hstart.archive, hstart.history, rfl⟩
      exact hopening.foldl_take _
  · exact fun _ h => (run_of_expression hload h stamps input).1
  · exact fun h => (run_of_lines hload h stamps input).1

/-- With settings that keep two entries, a file with two entries is opened. A calculation between
their instants leaves out the older one; a division by zero of integers and a recall change nothing;
and then all entries are removed. The version stays that of the file. -/
theorem history_mirrored_cut_and_cleared :
    let options : Options := { config := some "s.json", archive := some "h.json" }
    let newer : Entry := ⟨⟨"3*3", "9", .engineering⟩,
      ⟨⟨2⟩, ⟨⟨⟨2024, 6, 1⟩, 12, 0, 0, 0⟩, by decide⟩⟩⟩
    let older : Entry := ⟨⟨"2-1", "1", .engineering⟩,
      ⟨⟨1⟩, ⟨⟨⟨2024, 5, 1⟩, 12, 0, 0, 0⟩, by decide⟩⟩⟩
    let stamp : Stamp := ⟨⟨3⟩, ⟨⟨⟨2024, 5, 2⟩, 12, 0, 0, 0⟩, by decide⟩⟩
    let disk : Disk := { nodes := [
      (["s.json".toList], .file (Text.toBytes "\x7b\"history_limit\": 2\x7d".toList)),
      (["h.json".toList], .file (Text.toBytes (History.text ⟨"0.0.9", [newer, older]⟩)))] }
    let lines : List Text := [":mode programmer", "7/2", "1/0", ":history 1", ":clear-history"]
    let first := Text.toBytes (Text.lines (lines.take 4))
    let all := Text.toBytes (Text.lines lines)
    let cleared : Text := "\x7b\n  \"version\": \"0.0.9\",\n  \"entries\": []\n\x7d"
    (options.run (fun _ => stamp) disk first).errors = [] ∧
    (options.run (fun _ => stamp) disk first).disk.Holds "h.json"
      ⟨"0.0.9", [newer, ⟨⟨"7/2 (DEC)", "3", .programmer⟩, stamp⟩]⟩ ∧
    (options.run (fun _ => stamp) disk all).errors = [] ∧
    (options.run (fun _ => stamp) disk all).disk.read "h.json" = .ok (Text.toBytes cleared) := by
  intro options newer older stamp disk lines first all cleared
  let console := Console.start options { historyLimit := 2 } ⟨"0.0.9", [newer, older]⟩
  let recorded : Change := .recorded ⟨⟨"7/2 (DEC)", "3", .programmer⟩, stamp⟩ 2
  have hsettings (nodes : List (Place × Node)) : Settings.load { nodes :=
      (["s.json".toList], .file (Text.toBytes "\x7b\"history_limit\": 2\x7d".toList)) :: nodes }
      "s.json" = .ok { historyLimit := 2 } := by rfl
  have hold : disk.Holds "h.json" ⟨"0.0.9", [newer, older]⟩ :=
    ⟨rfl, History.parse?_toBytes_text _⟩
  have hload : options.load disk = .ok console :=
    load_of_files rfl rfl (hsettings _) (History.load_of_holds hold)
  have herrors (input : ByteArray) (h : ((Console.inputLines input).foldl
      (Run.take fun _ => stamp) (opening console disk)).errors = []) :
      (options.run (fun _ => stamp) disk input).errors = [] :=
    (run_of_lines hload rfl _ input).2.trans h
  have hholds (input : ByteArray) (done : List Change)
      (herrors : (options.run (fun _ => stamp) disk input).errors = [])
      (hdone : (opening console disk).changes (fun _ => stamp) (Console.inputLines input) = done)
      (hchanged : done ≠ []) : (options.run (fun _ => stamp) disk input).disk.Holds "h.json"
        (console.history.changed done) := by
    obtain ⟨hmirrors, -, -, hlast⟩ := history_mirrored hload (fun _ => stamp) input
    -- the point after all lines is the last one
    have hpoint := (hmirrors _ rfl).2 herrors _ _ (.lines rfl List.prefix_rfl)
    rw [hdone] at hpoint
    rw [hlast rfl, ← hpoint.history]
    exact hpoint.file.resolve_left fun hnone => hchanged hnone.1
  have hfirst := herrors first (by decide +kernel)
  have hall := herrors all (by decide +kernel)
  have hcut : console.history.changed [recorded] =
      ⟨"0.0.9", [newer, ⟨⟨"7/2 (DEC)", "3", .programmer⟩, stamp⟩]⟩ := by decide +kernel
  have hcleared : (console.history.changed [recorded, .cleared]).text = cleared := by
    decide +kernel
  have hone := hholds first [recorded] hfirst (by decide +kernel) nofun
  have htwo := hholds all [recorded, .cleared] hall (by decide +kernel) nofun
  exact ⟨hfirst, hcut ▸ hone, hall, hcleared ▸ htwo.text⟩

end Options

end Calculator
