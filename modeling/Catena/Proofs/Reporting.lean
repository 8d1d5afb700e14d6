import Catena.Proofs.Excerpts
import Catena.Proofs.Numbering
import Catena.Proofs.Refinement

/-!
# Reports of errors

A runner can report every error that it meets (`Shell.Job.reportable`).  A report shows the lines around the error, and
they must be among the sources of the runner: a source without any text is looked up as a file, which need not exist.

* A `Job` is what a command line has a runner do (`exists_job_of_run`), and `Job.log` lists the files that it loads and
  the lines that it feeds to the session, each with the runner as it is then.
* A line that is fed is among the sources (`Feeding.IsReady`).  The lines of the interactive loop stay there unless a
  file of the same name takes their place, which is why no file may have that name (`SparesLoop`).
* `Runner.Logs` says of a part of a job that it counts the lines of its log, reports those that fail and keeps the
  runner ready, and parts are put together by `Runner.Logs.append`.

An error that escapes is not reported, and it ends the job and with it the log.  It is the host's, and no host with room
for calls down to the limit fails a line.
-/

namespace Catena

open Catena.Text

namespace Shell

/-! ### Logs

Each function by which a runner comes to feed lines has a log, from the lines of a source to a list of actions. -/

/-- A line that a runner feeds to its session. -/
structure Feeding where
  runner : Runner
  text : List Char
  file : String
  number : Int

def Feeding.executed (c : Feeding) : Executed :=
  c.runner.session.execute ⟨c.text, some c.file, c.number⟩ c.runner.verbosity c.runner.tally

/-- What happens in a job: a file is loaded, or a line is fed to the session. -/
inductive Event where
  | loaded (path : List Char)
  | fed (line : Feeding)

namespace Event

def path? : Event → Option (List Char)
  | loaded path => some path
  | fed _ => none

def succeeds : Event → Bool
  | loaded _ => false
  | fed c => c.executed.error?.isNone

/-- An error that escapes is no failure of the line. -/
def fails : Event → Bool
  | loaded _ => false
  | fed c => c.executed.error?.any fun e => !e.escapes

theorem succeeds_fed (c : Feeding) : (fed c).succeeds = (c.executed.result.toOption == some true) := by
  simp only [succeeds, Executed.result]
  cases c.executed.error? with
  | none => rfl
  | some error => cases hescapes : error.escapes <;> simp [hescapes, Except.toOption]

theorem fails_fed (c : Feeding) : (fed c).fails = (c.executed.result.toOption == some false) := by
  simp only [fails, Executed.result]
  cases c.executed.error? with
  | none => rfl
  | some error => cases hescapes : error.escapes <;> simp [hescapes, Except.toOption]

end Event

namespace Runner

def linesLog (file : String) : (number : Nat) → List (List Char) → Runner → List Event
  | _, [], _ => []
  | n, text :: texts, r =>
    let r' := (r.runLine text file n false).1
    .fed ⟨r, text, file, n⟩ :: if r'.escaped?.isSome then [] else linesLog file (n + 1) texts r'

def sourceLog (r : Runner) (source : List Char) (name : String) : List Event :=
  linesLog name 1 (linesOf source) (r.setSource name (linesOf source))

/-- A file that cannot be read is not loaded. -/
def fileLog (r : Runner) (path : List Char) : List Event :=
  match (r.files (Path.normalize path)).read with
  | .ok source => .loaded path :: r.sourceLog source (String.ofList path)
  | .error _ => []

def codeLog (r : Runner) (code : List Char) (name : String) : List Event :=
  [.fed ⟨r.setSource name [code], code, name, 1⟩]

def answerLog (r : Runner) (line : List Char) : List Event :=
  match LoopLine.of line with
  | .load path => r.fileLog path
  | .code => [.fed ⟨r.remember line, line, loopName, (r.remember line).history.length⟩]
  | .quit | .idle => []

def answersLog (r : Runner) : List (List Char) → List Event
  | [] => []
  | line :: lines =>
    let r := r.write [prompt]
    let (r', goesOn) := r.answer line
    r.answerLog line ++ if goesOn && r'.escaped?.isNone then r'.answersLog lines else []

/-- A runner that has just started a loop: it has greeted, and goes on with the lines of the loop before. -/
def greeted (r : Runner) : Runner :=
  { r.say "arrfl - Array stack language REPL; type .help for builtins, Ctrl+C to exit.".toList with
    sources := r.sources.set loopName (r.sources.lines loopName)
    history? := none }

theorem loop_eq (r : Runner) : r.loop = r.greeted.answerAll r.input := rfl

def loopLog (r : Runner) : List Event := r.greeted.answersLog r.input

def performLog (r : Runner) (number : Nat) : Action → List Event
  | .file path => r.fileLog path
  | .code text => r.codeLog text (codeName number)
  | .loop => r.loopLog

def actLog : (number : Nat) → List Action → Runner → List Event
  | _, [], _ => []
  | n, action :: actions, r =>
    let r' := r.perform n action
    r.performLog n action ++ if r'.escaped?.isSome then [] else actLog (nextNumber n action) actions r'

end Runner

/-- What a runner is made for: a list of actions, or a script. -/
inductive Job where
  | actions (actions : List Action)
  | script (source : List Char) (name : String)

def Job.run (start : Runner) : Job → Runner
  | actions list => start.act 1 list
  | script source name => start.runSource source name

def Job.log (start : Runner) : Job → List Event
  | actions list => start.actLog 1 list
  | script source name => start.sourceLog source name

theorem Runner.act_singleton (r : Runner) (number : Nat) (action : Action) :
    r.act number [action] = r.perform number action := by
  unfold act
  exact ite_self _

/-- Every command line that runs comes to a job of a new runner. -/
theorem exists_job_of_run {i : Invocation} {options : Options} {r : Runner} (h : run i = .ran options r) :
    ∃ (job : Job) (input : List (List Char)), r = job.run (Runner.ofOptions options i.files input i.host) := by
  unfold run at h
  dsimp only at h
  split at h
  · cases h
  · split at h
    · cases h
      exact ⟨.actions [.loop], _, (Runner.act_singleton _ 1 .loop).symm⟩
    · split at h
      · cases h
      · cases h
        exact ⟨.script _ _, [], rfl⟩
    · split at h
      · cases h
      · split at h
        · cases h
        · split at h
          · cases h
          · cases h
            exact ⟨.actions [.loop], _, (Runner.act_singleton _ 1 .loop).symm⟩
          · cases h
            exact ⟨.actions _, _, rfl⟩

/-- No file that is loaded has the name of the interactive loop. -/
def SparesLoop (log : List Event) : Prop := ∀ path ∈ log.filterMap Event.path?, String.ofList path ≠ loopName

theorem sparesLoop_append {log log' : List Event} : SparesLoop (log ++ log') ↔ SparesLoop log ∧ SparesLoop log' := by
  unfold SparesLoop
  rw [List.filterMap_append, List.forall_mem_append]

theorem Sources.lines_set (sources : Sources) (name : String) (lines : List (List Char)) :
    (sources.set name lines).lines name = lines := by
  simp [set, Sources.lines]

/-- Setting a source leaves the others as they are. -/
theorem Sources.lines_set_of_ne {name name' : String} (h : name ≠ name') (sources : Sources)
    (lines : List (List Char)) : (sources.set name lines).lines name' = sources.lines name' := by
  have hlookup : (sources.filter (·.1 ≠ name)).lookup name' = sources.lookup name' := by
    induction sources with
    | nil => rfl
    | cons source sources ih =>
      obtain ⟨name'', lines''⟩ := source
      by_cases hname : name'' = name
      · have hne : (name' == name'') = false := by
          rw [hname]
          exact beq_false_of_ne h.symm
        rw [List.filter_cons_of_neg (by simpa using hname), ih, List.lookup_cons, hne]
      · rw [List.filter_cons_of_pos (by simpa using hname), List.lookup_cons, List.lookup_cons, ih]
  have hne : (name' == name) = false := beq_false_of_ne h.symm
  rw [Sources.set, Sources.lines, Sources.lines, List.lookup_cons, hne, hlookup]

/-! ### What can be reported -/

/-- The lines around a line of a source can be shown.  The source has a text, which is cut into lines without a look at
any files; the line has a number from one on; and an excerpt there shows those of the lines around it that there are. -/
structure Runner.CanShow (r : Runner) (name : String) (line : Int) : Prop where
  text_ne_nil : joinLines (r.sources.lines name) ≠ []
  sourceLines_eq (files : Files) :
    sourceLines files (some name) (joinLines (r.sources.lines name)) = .ok (r.excerptLines name)
  one_le : 1 ≤ line
  exists_shown (spot : Spot) (hspot : spot.line = some line) :
    ∃ shown, spot.excerpt (r.excerptLines name) = spot.page shown ∧
      ∀ l i, (l, i) ∈ shown ↔ (r.excerptLines name)[i]? = some l ∧ line - 3 ≤ i ∧ i < line + 2

/-- The error of a line that is fed can be reported: it is a refusal and the lines around it can be shown, or it is a
fault that is blamed on a token with a place, with the stack that the line left, and the lines around the token can be
shown if there are any. -/
inductive Feeding.CanReport (c : Feeding) : LineError → Prop where
  | refused {e : ParseError} (h : c.runner.CanShow c.file e.start.line) : CanReport c (.unread (.refused e))
  | fault {cause : Fault} {blame : Blame} {file : String} {line : Int}
      (hstack : blame.stack = c.executed.session.stack) (hfile : blame.origin.file = some (some file))
      (hline : blame.origin.line = some line)
      (h : joinLines (c.runner.sources.lines file) ≠ [] → c.runner.CanShow file line) :
      CanReport c (.failed (.fault cause blame))

private theorem joinLines_ne_nil {ls : List (List Char)} {l : List Char} (h : l ∈ ls) (hl : l ≠ []) :
    joinLines ls ≠ [] := by
  induction ls with
  | nil => cases h
  | cons first rest ih =>
    cases rest with
    | nil => rwa [joinLines, ← List.mem_singleton.1 h]
    | cons second rest => simp [joinLines]

theorem Runner.excerptLines_eq {r : Runner} {name : String} (h : joinLines (r.sources.lines name) ≠ []) :
    r.excerptLines name = fullLinesOf (joinLines (r.sources.lines name)) := by
  unfold excerptLines
  rw [sourceLines_eq h]
  rfl

private theorem Runner.canShow {r : Runner} {name : String} {line : Int} (h : joinLines (r.sources.lines name) ≠ [])
    (hline : 1 ≤ line) : r.CanShow name line := by
  refine ⟨h, fun files => excerptLines_eq h ▸ sourceLines_eq h files name, hline, fun spot hspot => ?_⟩
  refine ⟨_, spot.excerpt_eq (r.excerptLines name), fun l i => ?_⟩
  rw [Spot.mem_shown_iff, spot.shownLine_eq hspot hline]

/-- Whether the host of a runner has room for calls down to the limit on the depth. -/
def Runner.hasRoom (r : Runner) : Bool := r.session.hasRoom r.verbosity

/-- A line that is fed to a session with numbered tokens stands among the sources, and its number is from one on. -/
structure Feeding.IsReady (room : Bool) (c : Feeding) : Prop where
  numbered : c.runner.session.IsNumbered
  hasRoom_eq : c.runner.hasRoom = room
  mem_lines : c.text ∈ c.runner.sources.lines c.file
  one_le : 1 ≤ c.number

theorem Feeding.IsReady.canReport {room : Bool} {c : Feeding} (h : c.IsReady room) {e : LineError}
    (he : c.executed.error? = some e) : c.CanReport e ∨ e = .failed .overflowed ∧ room = false := by
  obtain ⟨-, herrors⟩ := h.numbered.execute h.one_le c.runner.verbosity c.runner.tally
  rcases herrors e he with ⟨refusal, rfl, htext, hline⟩ |
    ⟨cause, blame, rfl, ⟨file, line, hfile, hline, hle⟩, hstack⟩ | rfl
  · exact .inl (.refused (Runner.canShow (joinLines_ne_nil h.mem_lines htext) hline))
  · exact .inl (.fault hstack hfile hline fun htext => Runner.canShow htext hle)
  · exact .inr ⟨rfl, h.hasRoom_eq.symm.trans (h.numbered.isSound.eq_of_escapes he rfl).2⟩

/-! ### Parts of a job -/

namespace Runner

/-- The session has numbered tokens, and the lines of the loop are kept among the sources. -/
structure IsReady (room : Bool) (r : Runner) : Prop where
  numbered : r.session.IsNumbered
  history?_eq : r.history? = none
  hasRoom_eq : r.hasRoom = room

/-- What a part of a job does from one runner to another: it counts the lines of the log, writes a report of each that
fails, and it keeps the runner ready and feeds it only lines that are. -/
structure Logs (room : Bool) (r : Runner) (log : List Event) (r' : Runner) : Prop where
  executed_eq : r'.executed = r.executed + log.countP Event.succeeds
  failed_eq : r'.failed = (r.failed || log.any Event.fails)
  written_suffix : r.written <:+ r'.written
  reported : ∀ c, .fed c ∈ log → ∀ e, c.executed.error? = some e → c.runner.reportError c.file e ⊆ r'.written
  isReady : SparesLoop log → r.IsReady room → r'.IsReady room ∧ ∀ c, .fed c ∈ log → c.IsReady room

variable {room : Bool} {r r' r'' : Runner}

theorem Logs.append {log log' : List Event} (h : r.Logs room log r') (h' : r'.Logs room log' r'') :
    r.Logs room (log ++ log') r'' := by
  refine ⟨?_, ?_, h.written_suffix.trans h'.written_suffix, fun c hc e he => ?_, fun hspares hr => ?_⟩
  · rw [h'.executed_eq, h.executed_eq, List.countP_append, Nat.add_assoc]
  · rw [h'.failed_eq, h.failed_eq, List.any_append, Bool.or_assoc]
  · rcases List.mem_append.1 hc with hc | hc
    · exact List.Subset.trans (h.reported c hc e he) h'.written_suffix.subset
    · exact h'.reported c hc e he
  · obtain ⟨hlog, hlog'⟩ := sparesLoop_append.1 hspares
    obtain ⟨hr', hfed⟩ := h.isReady hlog hr
    obtain ⟨hr'', hfed'⟩ := h'.isReady hlog' hr'
    exact ⟨hr'', fun c hc => (List.mem_append.1 hc).elim (hfed c) (hfed' c)⟩

/-- Nothing happens that counts. -/
theorem Logs.quiet (hexecuted : r'.executed = r.executed) (hfailed : r'.failed = r.failed)
    (hwritten : r.written <:+ r'.written) (hready : r.IsReady room → r'.IsReady room) : r.Logs room [] r' := by
  have hnot : ∀ c, .fed c ∉ ([] : List Event) := fun _ => List.not_mem_nil
  refine ⟨hexecuted, ?_, hwritten, fun c hc => absurd hc (hnot c), fun _ hr => ⟨hready hr, fun c hc => ?_⟩⟩
  · rw [hfailed, List.any_nil, Bool.or_false]
  · exact absurd hc (hnot c)

theorem Logs.refl (r : Runner) : r.Logs room [] r := .quiet rfl rfl List.suffix_rfl id

theorem logs_write (r : Runner) (chunks : List Chunk) : r.Logs room [] (r.write chunks) :=
  .quiet rfl rfl (List.suffix_append ..) fun hr => ⟨hr.numbered, hr.history?_eq, hr.hasRoom_eq⟩

theorem logs_setSource (r : Runner) {name : String} (hname : name ≠ loopName) (lines : List (List Char)) :
    r.Logs room [] (r.setSource name lines) := by
  refine .quiet rfl rfl List.suffix_rfl fun hr => ⟨hr.numbered, ?_, hr.hasRoom_eq⟩
  unfold setSource
  rw [if_neg hname]
  exact hr.history?_eq

/-- What is reported depends on nothing but the files and the sources of a runner. -/
theorem reportError_congr (hfiles : r'.files = r.files) (hsources : r'.sources = r.sources) (file : String)
    (e : LineError) : r'.reportError file e = r.reportError file e := by
  unfold reportError reportRefusal reportFault faultContext excerptLines
  rw [hfiles, hsources]

theorem written_write (r : Runner) (chunks : List Chunk) : (r.write chunks).written = chunks.reverse ++ r.written := rfl

theorem reportError_of_escapes (r : Runner) (file : String) {e : LineError} (h : e.escapes = true) :
    r.reportError file e = [] := by
  unfold LineError.escapes at h
  split at h
  · cases h
  · cases h
  all_goals rfl

theorem written_fail (r : Runner) (file : String) (e : LineError) :
    r.written <:+ (r.fail file e).written ∧ r.reportError file e ⊆ (r.fail file e).written := by
  unfold fail
  split
  · rename_i hescapes
    rw [r.reportError_of_escapes file hescapes]
    exact ⟨List.suffix_rfl, List.nil_subset _⟩
  · refine ⟨List.suffix_append .., fun chunk hchunk => ?_⟩
    rw [written_write]
    exact List.mem_append_left _ (List.mem_reverse.2 hchunk)

/-- A line that fails is reported. -/
theorem written_runLine (r : Runner) (text : List Char) (file : String) (number : Int) (showTop : Bool) :
    r.written <:+ (r.runLine text file number showTop).1.written ∧
      ∀ e, (Feeding.mk r text file number).executed.error? = some e →
        r.reportError file e ⊆ (r.runLine text file number showTop).1.written := by
  unfold runLine
  extract_lets e r₁ r₂ r₃
  have hwritten : r.written <:+ r₁.written := List.suffix_append ..
  have hreport : ∀ error, r₁.reportError file error = r.reportError file error := reportError_congr rfl rfl file
  have hmid : r₁.written <:+ r₃.written ∧ ∀ error, e.error? = some error → r.reportError file error ⊆ r₃.written := by
    unfold r₃
    cases e.error? with
    | some error =>
      have hfail := r₁.written_fail file error
      rw [hreport] at hfail
      refine ⟨hfail.1, ?_⟩
      rintro _ ⟨⟩
      exact hfail.2
    | none =>
      refine ⟨?_, fun _ herror => nomatch herror⟩
      dsimp only
      split
      · exact List.suffix_append ..
      · exact List.suffix_rfl
  have hend : r₃.written <:+ (r₃.write r₃.session.dumpIfDebugging).written := List.suffix_append ..
  refine ⟨(hwritten.trans hmid.1).trans hend, fun error herror => ?_⟩
  exact List.Subset.trans (hmid.2 error herror) hend.subset

theorem hasRoom_runLine (r : Runner) (text : List Char) (file : String) (number : Int) (showTop : Bool) :
    (r.runLine text file number showTop).1.hasRoom = r.hasRoom := by
  obtain ⟨hsession, hverbosity, -⟩ := r.runLine_cases text file number showTop
  unfold hasRoom
  rw [hsession, hverbosity, Session.hasRoom_execute]

/-- A line is fed that stands among the sources. -/
theorem logs_runLine (r : Runner) {text : List Char} {file : String} {number : Int}
    (h : r.IsReady room → text ∈ r.sources.lines file ∧ 1 ≤ number) (showTop : Bool) :
    r.Logs room [.fed ⟨r, text, file, number⟩] (r.runLine text file number showTop).1 := by
  obtain ⟨hsession, -, -, -, -, hhistory, hcases⟩ := r.runLine_cases text file number showTop
  obtain ⟨hwritten, hreported⟩ := r.written_runLine text file number showTop
  refine ⟨?_, ?_, hwritten, fun c hc => ?_, fun _ hr => ?_⟩
  · rw [List.countP_singleton, Event.succeeds_fed, Feeding.executed]
    rcases hcases with ⟨hresult, -, -, hexecuted⟩ | ⟨hresult, -, -, hexecuted⟩ | ⟨error, hresult, -, -, hexecuted⟩ <;>
      simpa [hresult, Except.toOption] using hexecuted
  · rw [List.any_cons, List.any_nil, Bool.or_false, Event.fails_fed, Feeding.executed]
    rcases hcases with ⟨hresult, -, hfailed, -⟩ | ⟨hresult, -, hfailed, -⟩ | ⟨error, hresult, -, hfailed, -⟩ <;>
      simp [hresult, hfailed, Except.toOption]
  · obtain rfl := Event.fed.inj (List.mem_singleton.1 hc)
    exact hreported
  · obtain ⟨htext, hnumber⟩ := h hr
    refine ⟨⟨?_, hhistory.trans hr.history?_eq, (r.hasRoom_runLine ..).trans hr.hasRoom_eq⟩, fun c hc => ?_⟩
    · rw [hsession]
      exact (hr.numbered.execute hnumber r.verbosity r.tally).1
    · obtain rfl := Event.fed.inj (List.mem_singleton.1 hc)
      exact ⟨hr.numbered, hr.hasRoom_eq, htext, hnumber⟩

/-- The lines of a file are fed one after the other. -/
theorem logs_runLines {file : String} {texts : List (List Char)} {r : Runner}
    (h : ∀ text ∈ texts, text ∈ r.sources.lines file) {number : Nat} (hnumber : 1 ≤ number) :
    r.Logs room (linesLog file number texts r) (runLines file number texts r) := by
  induction texts generalizing r number with
  | nil => exact .refl r
  | cons text texts ih =>
    obtain ⟨-, -, -, -, hsources, -, -⟩ := r.runLine_cases text file number false
    have hfirst : r.Logs room _ _ :=
      r.logs_runLine (fun _ => ⟨h text (List.mem_cons_self ..), Int.ofNat_le.2 hnumber⟩) false
    unfold linesLog runLines
    dsimp only
    split
    · exact hfirst
    · refine hfirst.append (ih (fun text' htext' => ?_) (Nat.le_add_left 1 number))
      rw [hsources]
      exact h text' (List.mem_cons_of_mem text htext')

theorem lines_setSource (r : Runner) (name : String) (lines : List (List Char)) :
    (r.setSource name lines).sources.lines name = lines :=
  Sources.lines_set ..

theorem logs_loadFile (r : Runner) (path : List Char) : r.Logs room (r.fileLog path) (r.loadFile path) := by
  unfold loadFile fileLog
  cases (r.files (Path.normalize path)).read with
  | error reason => exact r.logs_write _
  | ok source =>
    have hloaded : r.Logs room [.loaded path] (r.setSource (String.ofList path) (linesOf source)) := by
      have hnot : ∀ c, .fed c ∉ [Event.loaded path] := fun c hc => nomatch List.mem_singleton.1 hc
      refine ⟨rfl, (Bool.or_false _).symm, List.suffix_rfl, fun c hc => absurd hc (hnot c), fun hspares hr => ?_⟩
      have hname : String.ofList path ≠ loopName := hspares path (List.mem_singleton_self path)
      obtain ⟨hset, -⟩ := (r.logs_setSource hname (linesOf source)).isReady nofun hr
      exact ⟨hset, fun c hc => absurd hc (hnot c)⟩
    refine hloaded.append (logs_runLines (fun text htext => ?_) (Nat.le_refl 1))
    rwa [lines_setSource]

theorem logs_runCode (r : Runner) {name : String} (hname : name ≠ loopName) (code : List Char) :
    r.Logs room (r.codeLog code name) (r.runCode code name) := by
  refine (r.logs_setSource hname [code]).append (logs_runLine _ (fun _ => ⟨?_, Int.le_refl 1⟩) true)
  rw [lines_setSource]
  exact List.mem_singleton_self code

/-! ### The interactive loop -/

theorem logs_remember (r : Runner) (line : List Char) : r.Logs room [] (r.remember line) := by
  unfold remember
  split
  · rename_i lines hlost
    refine .quiet rfl rfl List.suffix_rfl fun hr => ?_
    rw [hr.history?_eq] at hlost
    cases hlost
  · exact .quiet rfl rfl List.suffix_rfl fun hr => ⟨hr.numbered, hr.history?_eq, hr.hasRoom_eq⟩

theorem mem_lines_remember {line : List Char} (h : (r.remember line).history? = none) :
    line ∈ (r.remember line).sources.lines loopName := by
  cases hlost : r.history? with
  | some lines => simp [remember, hlost] at h
  | none => simp [remember, hlost, Sources.lines_set]

theorem logs_answer (r : Runner) (line : List Char) : r.Logs room (r.answerLog line) (r.answer line).1 := by
  have hanswers := r.answers line
  unfold answerLog
  generalize LoopLine.of line = asked, r.answer line = result at hanswers ⊢
  cases hanswers with
  | quit => exact .refl r
  | load path => exact r.logs_loadFile path
  | idle debug chunks =>
    exact .quiet rfl rfl (List.suffix_append ..) fun hr =>
      ⟨⟨hr.numbered.isSound, hr.numbered.words⟩, hr.history?_eq, hr.hasRoom_eq⟩
  | code chunks =>
    refine ((r.logs_remember line).append (logs_runLine _ (fun hr => ?_) false)).append (logs_write _ chunks)
    have hmem := mem_lines_remember hr.history?_eq
    have hhistory : (r.remember line).history = (r.remember line).sources.lines loopName := by
      unfold history
      rw [hr.history?_eq]
      rfl
    have hlength := List.length_pos_of_mem hmem
    rw [hhistory]
    exact ⟨hmem, by omega⟩

theorem logs_answerAll (r : Runner) (lines : List (List Char)) :
    r.Logs room (r.answersLog lines) (r.answerAll lines) := by
  induction lines generalizing r with
  | nil => exact .quiet rfl rfl (List.suffix_append ..) fun hr => ⟨hr.numbered, hr.history?_eq, hr.hasRoom_eq⟩
  | cons line lines ih =>
    have hline : r.Logs room _ _ := (r.logs_write [prompt]).append ((r.write [prompt]).logs_answer line)
    unfold answersLog answerAll
    dsimp only
    generalize (r.write [prompt]).answer line = result at hline ⊢
    obtain ⟨r', goesOn⟩ := result
    dsimp only at hline ⊢
    split
    · exact hline.append (ih r')
    · exact hline.append (.quiet rfl rfl List.suffix_rfl fun hr => ⟨hr.numbered, hr.history?_eq, hr.hasRoom_eq⟩)

theorem logs_loop (r : Runner) : r.Logs room r.loopLog r.loop := by
  have hgreeted : r.Logs room [] r.greeted :=
    .quiet rfl rfl (List.suffix_append ..) fun hr => ⟨hr.numbered, rfl, hr.hasRoom_eq⟩
  rw [loop_eq]
  exact hgreeted.append (r.greeted.logs_answerAll r.input)

/-! ### Jobs -/

theorem codeName_ne_loopName (number : Nat) : codeName number ≠ loopName := by
  intro hname
  have hchars := congrArg String.toList hname
  simp [codeName, loopName] at hchars

theorem logs_perform (r : Runner) (number : Nat) (action : Action) :
    r.Logs room (r.performLog number action) (r.perform number action) := by
  cases action with
  | file path => exact r.logs_loadFile path
  | code text => exact r.logs_runCode (codeName_ne_loopName number) text
  | loop => exact r.logs_loop

theorem logs_act (r : Runner) (number : Nat) (actions : List Action) :
    r.Logs room (actLog number actions r) (act number actions r) := by
  induction actions generalizing r number with
  | nil => exact .refl r
  | cons action actions ih =>
    have hfirst : r.Logs room _ _ := r.logs_perform number action
    unfold actLog act
    dsimp only
    split
    · rw [List.append_nil]
      exact hfirst
    · exact hfirst.append (ih _ (nextNumber number action))

/-- The lines of a source are ready to be fed, whatever its name is. -/
theorem isReady_of_mem_linesLog {file : String} {texts : List (List Char)} {r : Runner}
    (hr : r.session.IsNumbered) (hroom : r.hasRoom = room) (h : ∀ text ∈ texts, text ∈ r.sources.lines file)
    {number : Nat} (hnumber : 1 ≤ number) {c : Feeding} (hc : .fed c ∈ linesLog file number texts r) :
    c.IsReady room := by
  induction texts generalizing r number with
  | nil => cases hc
  | cons text texts ih =>
    have hnumber' : 1 ≤ (number : Int) := Int.ofNat_le.2 hnumber
    obtain ⟨hsession, -, -, -, hsources, -, -⟩ := r.runLine_cases text file number false
    unfold linesLog at hc
    rcases List.mem_cons.1 hc with hc | hc
    · obtain rfl := Event.fed.inj hc
      exact ⟨hr, hroom, h text (List.mem_cons_self ..), hnumber'⟩
    · split at hc
      · cases hc
      · refine ih ?_ ((r.hasRoom_runLine ..).trans hroom) (fun text' htext' => ?_) (Nat.le_add_left 1 number) hc
        · rw [hsession]
          exact (hr.execute hnumber' r.verbosity r.tally).1
        · rw [hsources]
          exact h text' (List.mem_cons_of_mem text htext')

end Runner

/-- Reporting errors never fails.  Whatever a new runner is made to do, with whatever files and standard input, its log
has the lines that succeed and those that fail, and of each line that fails a report is written.  Unless a file with the
name of the interactive loop is loaded, the report has all that it shows.  An error that is not reported is the host's,
which is then short of room for calls down to the limit. -/
theorem Job.reportable (options : Options) (files : Files) (input : List (List Char)) (host : Host) (job : Job) :
    let start := Runner.ofOptions options files input host
    let log := job.log start
    (job.run start).executed = log.countP Event.succeeds ∧
    (job.run start).failed = log.any Event.fails ∧
    (∀ c, .fed c ∈ log → ∀ e, c.executed.error? = some e →
      c.runner.reportError c.file e ⊆ (job.run start).written) ∧
    (SparesLoop log → ∀ c, .fed c ∈ log → ∀ e, c.executed.error? = some e →
      c.CanReport e ∨ e = .failed .overflowed ∧ start.hasRoom = false) := by
  intro start log
  have hnumbered : start.session.IsNumbered := ⟨Words.forall_empty, Words.forall_empty⟩
  cases job with
  | actions list =>
    have hlogs : start.Logs start.hasRoom _ _ := start.logs_act 1 list
    refine ⟨hlogs.executed_eq.trans (Nat.zero_add _), hlogs.failed_eq.trans (Bool.false_or _), hlogs.reported,
      fun hspares c hc e he => ?_⟩
    obtain ⟨-, hfed⟩ := hlogs.isReady hspares ⟨hnumbered, rfl, rfl⟩
    exact (hfed c hc).canReport he
  | script source name =>
    have hlines : ∀ text ∈ linesOf source, text ∈ (start.setSource name (linesOf source)).sources.lines name := by
      intro text htext
      rwa [Runner.lines_setSource]
    have hlogs : (start.setSource name (linesOf source)).Logs start.hasRoom _ _ :=
      Runner.logs_runLines hlines (Nat.le_refl 1)
    refine ⟨hlogs.executed_eq.trans (Nat.zero_add _), hlogs.failed_eq.trans (Bool.false_or _), hlogs.reported,
      fun _ c hc e he => ?_⟩
    have hready := Runner.isReady_of_mem_linesLog (r := start.setSource name (linesOf source)) hnumbered rfl hlines
      (Nat.le_refl 1) hc
    exact hready.canReport he

/-- A file is loaded, and loaded again in a loop in which a line is refused; its word fails there and in code after the
loop. -/
theorem Job.reportable_reloads :
    let files : Files := (Folder.ofFiles [("a".toList, ": w pop ;\n1 w w".toList)]).entry
    let input := [".load a", "[ 1", "w", "quit"].map String.toList
    let start := Runner.ofOptions {} files input
    let job : Job := .actions [.file "a".toList, .loop, .code "w".toList]
    let title? : Event → Option String
      | .loaded _ => none
      | .fed c => c.executed.error?.map LineError.title
    (job.log start).filterMap title? =
        ["ArrStackError", "ArrStackError", "ArrUnmatchedDelimiter", "ArrStackError", "ArrStackError"] ∧
      SparesLoop (job.log start) ∧
      start.hasRoom = true ∧ ∀ c, .fed c ∈ job.log start → ∀ e, c.executed.error? = some e → c.CanReport e := by
  intro files input start job title?
  have hpaths : (job.log start).filterMap Event.path? = ["a".toList, "a".toList] := by decide +kernel
  have hspares : SparesLoop (job.log start) := by
    unfold SparesLoop
    rw [hpaths]
    decide
  refine ⟨by decide +kernel, hspares, rfl, fun c hc e he => ?_⟩
  exact ((Job.reportable {} files input {} job).2.2.2 hspares c hc e he).resolve_right fun h => nomatch h.2

end Shell

end Catena
