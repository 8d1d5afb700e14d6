import Catena.Proofs.History
import Catena.Proofs.Limits
import Catena.Shell.Command

/-!
# Runners and sessions

A runner does to its session what the plain operations of a session do, whatever it is asked for: `Shell.actsOf` says
which they are, and `Shell.Runner.act_refines` that the stack, the dictionary, the failures and the exit status are
theirs.  Lines that a runner feeds are placed in files and numbered and those of the session are not, so that the two
dictionaries are the same up to the places of tokens.

The runner takes up frames of the host for itself.  So the session may have more room, and if the host fails the runner
it need not fail the session.

* Sessions that differ in the places of tokens, and of which the second may have more room, are `Session.Alike`.  A line
  with the same text keeps them so, unless the first overflows (`Session.Alike.execute`).
* A runner `Tracks` a session with the failures and the lines so far.  Each operation of a runner is matched by acts of
  the session, from one line (`Runner.Tracks.runLine`) to the interactive loop (`Runner.Tracks.answerAll`), whose lines
  are sorted out by `Runner.answers`, or the host fails the runner and it stops (`Runner.TracksActs`).
-/

namespace Catena

open Catena.Text

/-! ### Sessions in other places -/

/-- The runs are equal, the places of tokens apart, or the first overflows and that is an excuse. -/
def Likeness.unplaced (excusesOverflow : Prop) : Likeness :=
  { Likeness.ofEq Origin.unplaced (fun _ => False) (fun _ => True) (fun _ => rfl) rfl fun _ hc => hc.elim with
    excusesOverflow }

private theorem Run.Follows.eq_of_unplaced {O : Prop} {r r' : Run Failure} (h : Run.Follows (.unplaced O) r r') :
    r'.machine = r.machine ∧ r'.failure? = r.failure?.map (Failure.relocate Origin.unplaced) ∨
      r.failure? = some .overflowed ∧ O := by
  cases h with
  | done hm => exact .inl ⟨hm.symm, rfl⟩
  | halted hm => exact .inl ⟨hm.symm, rfl⟩
  | @excused why m r hwhy =>
    cases why with
    | overflowed => exact .inr ⟨rfl, hwhy⟩
    | _ => exact hwhy.elim

/-- Every call that the second host has room for, the first has room for, if nothing is traced. -/
def Host.Covers (host host' : Host) : Prop :=
  ∀ k, ({ host := host' } : Settings).hasRoom k = true → ({ host } : Settings).hasRoom k = true

/-- Settings without a trace and without the places of tokens. -/
private def Settings.unplaced (s : Settings) : Settings :=
  { s with words := s.words.relocate Origin.unplaced, verbosity := 0, tally := .off }

private theorem Settings.follows_unplaced {s : Settings} (hs : s.verbosity = 0) {O : Prop} {host : Host}
    (hhost : host = s.host ∨ host.Covers s.host ∧ O) : s.Follows (.unplaced O) { s.unplaced with host } where
  body?_eq := s.words.body?_relocate Origin.unplaced
  admits _ _ _ _ := trivial
  strict := .inl rfl
  maxDepth := .inl rfl
  patience_eq := rfl
  hasRoom := by
    have hquiet : ∀ s : Settings, s.verbosity = 0 → s.hasRoom = ({ host := s.host } : Settings).hasRoom := by
      intro s hs
      funext k
      unfold Settings.hasRoom
      rw [hs]
    rw [hquiet s hs, hquiet { s.unplaced with host } rfl]
    exact hhost.imp (fun h => congrArg (fun host => ({ host } : Settings).hasRoom) h) id
  traceStep depth height height' call call' i p _ m m' hm := by
    simp only [Frame.traceStep, Settings.unplaced, hs]
    exact .done hm
  traceCall depth name body _ m m' hm := by
    simp only [Settings.traceCall, Settings.unplaced, hs]
    exact .done hm
  traceEnd hm := by
    simp only [Settings.unplaced, hs]
    exact .done hm

/-- What a program does depends on nothing but what is left of it without places, unless it overflows and there is more
room elsewhere. -/
private theorem interpret_unplaced {s s' : Settings} (hs : s.verbosity = 0) (hs' : s'.verbosity = 0)
    (hsettings : { s.unplaced with host := s'.host } = s'.unplaced) (hhost : s'.host.Covers s.host) {p p' : Program}
    (hp : Program.relocate Origin.unplaced p = Program.relocate Origin.unplaced p') (m : Machine) :
    (interpret s' p' m).machine = (interpret s p m).machine ∧
        (interpret s' p' m).failure?.map (Failure.relocate Origin.unplaced) =
          (interpret s p m).failure?.map (Failure.relocate Origin.unplaced) ∨
      (interpret s p m).failure? = some .overflowed := by
  have hrun := (interpret_follows (Settings.follows_unplaced hs (.inr ⟨hhost, trivial⟩)) (p := p) (fun _ _ => trivial)
    (rfl : m = m)).eq_of_unplaced
  have hrun' := (interpret_follows (Settings.follows_unplaced hs' (O := False) (.inl rfl)) (p := p')
    (fun _ _ => trivial) (rfl : m = m)).eq_of_unplaced
  have horigin : ∀ O, (Likeness.unplaced O).origin = Origin.unplaced := fun _ => rfl
  rw [horigin, hsettings, hp] at hrun
  rw [horigin] at hrun'
  rcases hrun with ⟨hmachine, hfailure⟩ | ⟨hover, -⟩
  · rcases hrun' with ⟨hmachine', hfailure'⟩ | ⟨-, hfalse⟩
    · exact .inl ⟨hmachine'.symm.trans hmachine, hfailure'.symm.trans hfailure⟩
    · exact hfalse.elim
  · exact .inr hover

namespace Session

/-- Sessions that differ in what they show and in the places of tokens only, and of which the second may have more
room. -/
structure Alike (s s' : Session) : Prop where
  stack_eq : s.stack = s'.stack
  words_eq : s.words.relocate Origin.unplaced = s'.words.relocate Origin.unplaced
  strict_eq : s.strict = s'.strict
  maxDepth_eq : s.maxDepth = s'.maxDepth
  covers : s'.host.Covers s.host

/-- The run of a program that a session has read. -/
private def run (s : Session) (p : Program) (tally : Tally) : Run Failure :=
  interpret { words := s.words.insertAll (definitionsOf p), strict := s.strict, maxDepth := s.maxDepth, tally,
              host := s.host } p { stack := s.stack }

private theorem execute_of_read {s : Session} {line : Line} {p : Program}
    (hp : Program.parse line.text line.file line.number = .ok p) (tally : Tally) :
    (s.execute line 0 tally).session =
        { s with words := s.words.insertAll (definitionsOf p), stack := (s.run p tally).machine.stack } ∧
      (s.execute line 0 tally).error? = (s.run p tally).failure?.map .failed := by
  unfold Session.execute Session.run
  rw [hp]
  dsimp only
  refine ⟨rfl, ?_⟩
  split <;> rename_i hrun <;> rw [hrun] <;> rfl

private theorem Alike.run {s s' : Session} (h : s.Alike s') {p p' : Program}
    (hp : Program.relocate Origin.unplaced p = Program.relocate Origin.unplaced p') (tally tally' : Tally) :
    (s.words.insertAll (definitionsOf p)).relocate Origin.unplaced =
        (s'.words.insertAll (definitionsOf p')).relocate Origin.unplaced ∧
      ((s'.run p' tally').machine = (s.run p tally).machine ∧
          (s'.run p' tally').failure?.map (Failure.relocate Origin.unplaced) =
            (s.run p tally).failure?.map (Failure.relocate Origin.unplaced) ∨
        (s.run p tally).failure? = some .overflowed) := by
  have hwords : (s.words.insertAll (definitionsOf p)).relocate Origin.unplaced =
      (s'.words.insertAll (definitionsOf p')).relocate Origin.unplaced := by
    rw [Words.relocate_insertAll, Words.relocate_insertAll, ← definitionsOf_relocate, ← definitionsOf_relocate,
      h.words_eq, hp]
  refine ⟨hwords, ?_⟩
  unfold Session.run
  rw [← h.stack_eq]
  refine interpret_unplaced rfl rfl ?_ h.covers hp _
  simp only [Settings.unplaced, hwords, h.strict_eq, h.maxDepth_eq]

/-- What a line comes to depends on its failure only, and not on the places in that. -/
private theorem result_eq {e e' : Executed} {failure? failure?' : Option Failure}
    (he : e.error? = failure?.map .failed) (he' : e'.error? = failure?'.map .failed)
    (h : failure?'.map (Failure.relocate Origin.unplaced) = failure?.map (Failure.relocate Origin.unplaced)) {ok : Bool}
    (hok : e.result = .ok ok) : e'.result = .ok ok := by
  have hescapes : ∀ why : Failure,
      (LineError.failed (why.relocate Origin.unplaced)).escapes = (LineError.failed why).escapes := by
    intro why
    cases why <;> rfl
  unfold Executed.result at hok ⊢
  rw [he] at hok
  rw [he']
  cases failure? with
  | none =>
    rw [Option.map_none, Option.map_eq_none_iff] at h
    rwa [h]
  | some why =>
    obtain ⟨why', rfl, hwhy⟩ := Option.map_eq_some_iff.1 h
    simp only [Option.map_some] at hok ⊢
    rw [← hescapes why', hwhy, hescapes why]
    split at hok
    · cases hok
    · rename_i hnot
      rw [if_neg hnot]
      exact hok

private theorem result_of_unread {s : Session} {line : Line} {e : ReadError}
    (h : Program.parse line.text line.file line.number = .error e) (tally : Tally) :
    (s.execute line 0 tally).result = .ok false := by
  have hrefused := Program.parse_refused h
  rw [execute_of_unread h]
  cases e with
  | refused refusal => rfl
  | originLacks field => exact hrefused.elim

private theorem Alike.execute_of_ok {s s' : Session} (h : s.Alike s') {line line' : Line} (ht : line.text = line'.text)
    {tally : Tally} (tally' : Tally) {ok : Bool} (hok : (s.execute line 0 tally).result = .ok ok) :
    (s.execute line 0 tally).session.Alike (s'.execute line' 0 tally').session ∧
      (s'.execute line' 0 tally').result = .ok ok := by
  have hparse := Program.parse_unplaced line.text line.file line'.file line.number line'.number
  cases hp : Program.parse line.text line.file line.number with
  | error e =>
    cases hp' : Program.parse line'.text line'.file line'.number with
    | error e' =>
      rw [result_of_unread hp] at hok
      rw [result_of_unread hp', execute_of_unread hp, execute_of_unread hp']
      exact ⟨h, hok⟩
    | ok p' =>
      rw [hp, ht, hp'] at hparse
      cases hparse
  | ok p =>
    cases hp' : Program.parse line'.text line'.file line'.number with
    | error e' =>
      rw [hp, ht, hp'] at hparse
      cases hparse
    | ok p' =>
      rw [hp, ht, hp'] at hparse
      obtain ⟨hsession, herror⟩ := execute_of_read (s := s) hp tally
      obtain ⟨hsession', herror'⟩ := execute_of_read (s := s') hp' tally'
      obtain ⟨hwords, ⟨hmachine, hfailure⟩ | hover⟩ := h.run (Option.some.inj hparse) tally tally'
      · refine ⟨?_, result_eq herror herror' hfailure hok⟩
        rw [hsession, hsession', hmachine]
        exact ⟨rfl, hwords, h.strict_eq, h.maxDepth_eq, h.covers⟩
      · rw [Executed.result, herror, hover] at hok
        cases hok

/-- A line keeps sessions alike and succeeds in both or in none, wherever it stands, unless the host fails the first. -/
theorem Alike.execute {s s' : Session} (h : s.Alike s') (hs : s.IsSound) {line line' : Line}
    (ht : line.text = line'.text) (tally tally' : Tally) :
    (s.execute line 0 tally).session.Alike (s'.execute line' 0 tally').session ∧
        (∃ ok, (s.execute line 0 tally).result = .ok ok ∧ (s'.execute line' 0 tally').result = .ok ok) ∨
      (s.execute line 0 tally).result = .error (.failed .overflowed) ∧ s.hasRoom 0 = false := by
  rcases (s.execute line 0 tally).result_cases with ⟨hok, -⟩ | ⟨e, he, hescapes, herror⟩
  · obtain ⟨halike, hok'⟩ := h.execute_of_ok ht tally' hok
    exact .inl ⟨halike, _, hok, hok'⟩
  · obtain ⟨rfl, hroom⟩ := hs.eq_of_escapes he hescapes
    exact .inr ⟨herror, hroom⟩

/-! ### Failures of acts -/

/-- How many lines fail when an act is performed, unless an error escapes. -/
def failuresOf (s : Session) : Act → Except LineError Nat
  | .execute line verbosity tally => (s.execute line verbosity tally).result.map fun ok => if ok then 0 else 1
  | .runLine line => (s.runLine line).2.2.map fun ok => if ok then 0 else 1
  | .load source file => (s.load source file).2.2
  | _ => .ok 0

/-- How many lines fail when acts are performed one after the other, unless an error escapes. -/
def failures (s : Session) : List Act → Except LineError Nat
  | [] => .ok 0
  | a :: acts => do
    let n ← s.failuresOf a
    let more ← (s.perform a).failures acts
    return n + more

theorem failures_singleton {s : Session} {a : Act} {n : Nat} (h : s.failuresOf a = .ok n) : s.failures [a] = .ok n := by
  simp only [failures, h]
  rfl

theorem failures_append {s : Session} {acts acts' : List Act} {n n' : Nat} (h : s.failures acts = .ok n)
    (h' : (s.performAll acts).failures acts' = .ok n') : s.failures (acts ++ acts') = .ok (n + n') := by
  induction acts generalizing s n with
  | nil =>
    cases h
    rw [Nat.zero_add]
    exact h'
  | cons a acts ih =>
    unfold failures at h
    cases ha : s.failuresOf a with
    | error e =>
      rw [ha] at h
      cases h
    | ok k =>
      cases hrest : (s.perform a).failures acts with
      | error e =>
        rw [ha, hrest] at h
        cases h
      | ok more =>
        rw [ha, hrest] at h
        cases h
        rw [List.cons_append, failures, ha, ih hrest h', Nat.add_assoc]
        rfl

end Session

namespace Shell

/-! ### What is asked of the session -/

/-- A file that can be read is loaded. -/
def fileActs (files : Files) (path : List Char) : List Session.Act :=
  match (files (Path.normalize path)).read with
  | .ok text => [.load text none]
  | .error _ => []

/-- What a line of the interactive loop asks for. -/
inductive LoopLine where
  | quit
  | load (path : List Char)
  /-- Nothing that concerns the session: the line is blank or another command. -/
  | idle
  | code

/-- Commands start with a dot or ask to leave the loop; blanks at the ends of a line do not count. -/
def LoopLine.of (line : List Char) : LoopLine :=
  let stripped := strip line
  if stripped = "quit".toList || stripped = "exit".toList then .quit
  else if stripped.head? = some '.' then
    match String.ofList (stripped.takeWhile (· ≠ ' ')) with
    | ".quit" => .quit
    | ".load" =>
      let path := strip ((stripped.dropWhile (· ≠ ' ')).drop 1)
      if path.isEmpty then .idle else .load path
    | _ => .idle
  else if stripped.isEmpty then .idle
  else .code

def LoopLine.acts (files : Files) (line : List Char) : LoopLine → List Session.Act
  | load path => fileActs files path
  | code => [.runLine ⟨line, none, 1⟩]
  | quit | idle => []

/-- What the lines of an interactive loop ask for up to the first that leaves it, and the lines after that one. -/
def loopActs (files : Files) : List (List Char) → List Session.Act × List (List Char)
  | [] => ([], [])
  | line :: lines =>
    match LoopLine.of line with
    | .quit => ([], lines)
    | asked => (asked.acts files line ++ (loopActs files lines).1, (loopActs files lines).2)

private theorem loopActs_of_ne_quit {files : Files} {line : List Char} (h : LoopLine.of line ≠ .quit)
    (lines : List (List Char)) :
    loopActs files (line :: lines) =
      ((LoopLine.of line).acts files line ++ (loopActs files lines).1, (loopActs files lines).2) := by
  rw [loopActs]
  split
  · contradiction
  · rfl

/-- What actions ask of the session, if standard input has the given lines: files are loaded, and inline code and lines
of code in a loop are run. -/
def actsOf (files : Files) : List Action → (input : List (List Char)) → List Session.Act
  | [], _ => []
  | .file path :: actions, input => fileActs files path ++ actsOf files actions input
  | .code text :: actions, input => .runLine ⟨text, none, 1⟩ :: actsOf files actions input
  | .loop :: actions, input => (loopActs files input).1 ++ actsOf files actions (loopActs files input).2

/-! ### Runners that track a session -/

namespace Runner

/-- A runner without a trace has done what leads to the session, in so many lines with so many failures, and nothing has
escaped.  Its own session is sound, and `room` says whether the host has room for calls down to the limit. -/
structure Tracks (room : Bool) (files : Files) (input : List (List Char)) (s : Session) (failures lines : Nat)
    (r : Runner) : Prop where
  alike : r.session.Alike s
  isSound : r.session.IsSound
  hasRoom_eq : r.session.hasRoom 0 = room
  failed : r.failed = true ↔ 0 < failures
  executed : r.executed + failures = lines
  verbosity_eq : r.verbosity = 0
  files_eq : r.files = files
  input_eq : r.input = input
  escaped?_eq : r.escaped? = none

/-- The host has failed a runner, for want of room for calls down to the limit. -/
def Overflows (room : Bool) (r : Runner) : Prop := r.escaped? = some (.failed .overflowed) ∧ room = false

variable {room : Bool} {files : Files} {input : List (List Char)} {s : Session} {failures lines : Nat} {r : Runner}

/-- What a runner has written and the sources that it keeps do not count. -/
private theorem Tracks.kept (h : r.Tracks room files input s failures lines) {r' : Runner}
    (e : (r'.session, r'.failed, r'.executed, r'.verbosity, r'.files, r'.input, r'.escaped?) =
      (r.session, r.failed, r.executed, r.verbosity, r.files, r.input, r.escaped?)) :
    r'.Tracks room files input s failures lines := by
  simp only [Prod.mk.injEq] at e
  obtain ⟨hsession, hfailed, hexecuted, hverbosity, hfiles, hinput, hescaped⟩ := e
  exact ⟨hsession ▸ h.alike, hsession ▸ h.isSound, hsession ▸ h.hasRoom_eq, hfailed ▸ h.failed,
    hexecuted ▸ h.executed, hverbosity.trans h.verbosity_eq, hfiles.trans h.files_eq, hinput.trans h.input_eq,
    hescaped.trans h.escaped?_eq⟩

/-- What a line changes in a runner, apart from what it writes. -/
theorem runLine_cases (r : Runner) (text : List Char) (file : String) (number : Int) (showTop : Bool) :
    let e := r.session.execute ⟨text, some file, number⟩ r.verbosity r.tally
    let r' := (r.runLine text file number showTop).1
    r'.session = e.session ∧ r'.verbosity = r.verbosity ∧ r'.files = r.files ∧ r'.input = r.input ∧
      r'.sources = r.sources ∧ r'.history? = r.history? ∧
      (e.result = .ok true ∧ r'.escaped? = r.escaped? ∧ r'.failed = r.failed ∧ r'.executed = r.executed + 1 ∨
        e.result = .ok false ∧ r'.escaped? = r.escaped? ∧ r'.failed = true ∧ r'.executed = r.executed ∨
        ∃ error, e.result = .error error ∧ r'.escaped? = some error ∧ r'.failed = r.failed ∧
          r'.executed = r.executed) := by
  unfold Runner.runLine
  generalize r.session.execute ⟨text, some file, number⟩ r.verbosity r.tally = e
  obtain ⟨session, emissions, tally, error?⟩ := e
  cases error? with
  | some error =>
    cases hescapes : error.escapes with
    | false =>
      have hresult : Executed.result ⟨session, emissions, tally, some error⟩ = .ok false := by
        simp [Executed.result, hescapes]
      simp only [Runner.fail, hescapes, Bool.false_eq_true, ↓reduceIte]
      exact ⟨rfl, rfl, rfl, rfl, rfl, rfl, .inr (.inl ⟨hresult, rfl, rfl, rfl⟩)⟩
    | true =>
      have hresult : Executed.result ⟨session, emissions, tally, some error⟩ = .error error := by
        simp [Executed.result, hescapes]
      simp only [Runner.fail, hescapes, ↓reduceIte]
      exact ⟨rfl, rfl, rfl, rfl, rfl, rfl, .inr (.inr ⟨error, hresult, rfl, rfl, rfl⟩)⟩
  | none =>
    cases showTop with
    | false => exact ⟨rfl, rfl, rfl, rfl, rfl, rfl, .inl ⟨rfl, rfl, rfl, rfl⟩⟩
    | true =>
      obtain ⟨stack, words, debug, strict, maxDepth, host⟩ := session
      cases stack <;> exact ⟨rfl, rfl, rfl, rfl, rfl, rfl, .inl ⟨rfl, rfl, rfl, rfl⟩⟩

/-- A line that is fed to a runner is fed to the session, from any place, unless the host fails it. -/
theorem Tracks.runLine (h : r.Tracks room files input s failures lines) (file : String) (number : Int)
    (showTop : Bool) (line : Line) :
    let r' := (r.runLine line.text file number showTop).1
    (∃ ok, (s.runLine line).2.2 = .ok ok ∧
        r'.Tracks room files input (s.runLine line).1 (failures + if ok then 0 else 1) (lines + 1)) ∨
      r'.Overflows room := by
  obtain ⟨hsession, hverbosity, hfiles, hinput, -, -, hcases⟩ := r.runLine_cases line.text file number showTop
  rw [h.verbosity_eq] at hsession hverbosity hcases
  generalize (r.runLine line.text file number showTop).1 = r' at hsession hverbosity hfiles hinput hcases ⊢
  have htext : (⟨line.text, some file, number⟩ : Line).text = line.text := rfl
  have hsound := (h.isSound.execute ⟨line.text, some file, number⟩ 0 r.tally).1
  have hroom := (Session.hasRoom_execute (s := r.session) ⟨line.text, some file, number⟩ 0 r.tally 0).trans h.hasRoom_eq
  have hexecuted := h.executed
  generalize he : r.session.execute ⟨line.text, some file, number⟩ 0 r.tally = e at hsession hcases hsound hroom
  rcases h.alike.execute h.isSound htext r.tally .off with ⟨halike, ok, hok, hok'⟩ | ⟨hover, hfull⟩
  · rw [he] at halike hok
    have htracks {failures' lines' : Nat} (hfailed : r'.failed = true ↔ 0 < failures')
        (hlines : r'.executed + failures' = lines') (hescaped : r'.escaped? = r.escaped?) :
        r'.Tracks room files input (s.runLine line).1 failures' lines' :=
      ⟨hsession ▸ halike, hsession ▸ hsound, hsession ▸ hroom, hfailed, hlines, hverbosity, hfiles.trans h.files_eq,
        hinput.trans h.input_eq, hescaped.trans h.escaped?_eq⟩
    refine .inl ⟨ok, hok', ?_⟩
    rcases hcases with ⟨htrue, hescaped, hf, hn⟩ | ⟨hfalse, hescaped, hf, hn⟩ | ⟨error, herror, -⟩
    · obtain rfl := Except.ok.inj (htrue.symm.trans hok)
      exact htracks (hf ▸ h.failed) (by rw [if_pos rfl]; omega) hescaped
    · obtain rfl := Except.ok.inj (hfalse.symm.trans hok)
      exact htracks (by simp [hf]) (by rw [if_neg Bool.false_ne_true]; omega) hescaped
    · cases herror.symm.trans hok
  · rw [he] at hover
    rcases hcases with ⟨htrue, -⟩ | ⟨hfalse, -⟩ | ⟨error, herror, hescaped, -⟩
    · cases htrue.symm.trans hover
    · cases hfalse.symm.trans hover
    · obtain rfl := Except.error.inj (herror.symm.trans hover)
      exact .inr ⟨hescaped, h.hasRoom_eq.symm.trans hfull⟩

theorem Tracks.runLines (h : r.Tracks room files input s failures lines) (file : String) (number : Nat)
    (texts : List (List Char)) :
    let r' := Runner.runLines file number texts r
    (∃ more, (s.runLines none number texts).2.2 = .ok more ∧
        r'.Tracks room files input (s.runLines none number texts).1 (failures + more) (lines + texts.length)) ∨
      r'.Overflows room := by
  induction texts generalizing r s failures lines number with
  | nil => exact .inl ⟨0, rfl, h⟩
  | cons text texts ih =>
    have hline := h.runLine file number false ⟨text, none, number⟩
    unfold Runner.runLines
    dsimp only at hline ⊢
    generalize (r.runLine text file number false).1 = r' at hline ⊢
    rcases hline with ⟨ok, hok, htracks⟩ | hover
    · rw [htracks.escaped?_eq, if_neg (by decide)]
      rcases s.runLines_cons none number text texts with ⟨ok', hok', hsession, hfailures⟩ | ⟨e, he, -⟩
      · obtain rfl := Except.ok.inj (hok.symm.trans hok')
        refine (ih htracks (number + 1)).imp_left ?_
        rintro ⟨more, hmore, hrest⟩
        refine ⟨(if ok then 0 else 1) + more, by rw [hfailures, hmore]; rfl, ?_⟩
        rw [hsession, ← Nat.add_assoc, List.length_cons, Nat.add_comm texts.length, ← Nat.add_assoc]
        exact hrest
      · cases hok.symm.trans he
    · right
      rw [hover.1]
      exact hover

/-- A runner tracks a session on which acts were performed, with the lines and the failures that these added, or the
host has failed the runner. -/
def TracksActs (room : Bool) (files : Files) (input : List (List Char)) (s : Session) (failures lines : Nat)
    (acts : List Session.Act) (r : Runner) : Prop :=
  (∃ more, s.failures acts = .ok more ∧ r.Tracks room files input (s.performAll acts) (failures + more)
    (lines + (acts.flatMap Session.Act.lines).length)) ∨ r.Overflows room

theorem Tracks.acts_nil (h : r.Tracks room files input s failures lines) :
    r.TracksActs room files input s failures lines [] := .inl ⟨0, rfl, h⟩

theorem TracksActs.prepend {acts acts' : List Session.Act} {more : Nat} (hmore : s.failures acts = .ok more)
    (h : r.TracksActs room files input (s.performAll acts) (failures + more)
      (lines + (acts.flatMap Session.Act.lines).length) acts') :
    r.TracksActs room files input s failures lines (acts ++ acts') := by
  refine h.imp_left ?_
  rintro ⟨more', hmore', htracks⟩
  refine ⟨more + more', Session.failures_append hmore hmore', ?_⟩
  rw [List.flatMap_append, List.length_append, ← Nat.add_assoc, ← Nat.add_assoc]
  unfold Session.performAll at htracks ⊢
  rwa [List.foldl_append]

theorem Tracks.runCode (h : r.Tracks room files input s failures lines) (file : String) (number : Int) (showTop : Bool)
    (text : List Char) :
    (r.runLine text file number showTop).1.TracksActs room files input s failures lines
      [.runLine ⟨text, none, 1⟩] := by
  refine (h.runLine file number showTop ⟨text, none, 1⟩).imp_left ?_
  rintro ⟨ok, hok, htracks⟩
  refine ⟨if ok then 0 else 1, Session.failures_singleton ?_, htracks⟩
  rw [Session.failuresOf, hok]
  rfl

theorem Tracks.loadFile (h : r.Tracks room files input s failures lines) (path : List Char) :
    (r.loadFile path).TracksActs room files input s failures lines (fileActs files path) := by
  unfold Runner.loadFile fileActs
  rw [h.files_eq]
  cases (files (Path.normalize path)).read with
  | error reason => exact Tracks.acts_nil (h.kept rfl)
  | ok source =>
    have hset : (r.setSource (String.ofList path) (linesOf source)).Tracks room files input s failures lines :=
      h.kept rfl
    have hlength : ([Session.Act.load source none].flatMap Session.Act.lines).length = (linesOf source).length := by
      simp [Session.Act.lines]
    unfold TracksActs
    rw [hlength]
    refine (hset.runLines (String.ofList path) 1 (linesOf source)).imp_left ?_
    rintro ⟨more, hmore, htracks⟩
    exact ⟨more, Session.failures_singleton hmore, htracks⟩

/-! ### The interactive loop -/

private theorem Tracks.remember (h : r.Tracks room files input s failures lines) (line : List Char) :
    (r.remember line).Tracks room files input s failures lines := by
  unfold Runner.remember
  split <;> exact h.kept rfl

/-- What a runner does with a line of the loop that asks for something, and whether the loop goes on. -/
inductive Answers (r : Runner) (line : List Char) : LoopLine → Runner × Bool → Prop where
  | quit : Answers r line .quit (r, false)
  | load (path : List Char) : Answers r line (.load path) (r.loadFile path, true)
  /-- Only what the session shows may change. -/
  | idle (debug : Bool) (chunks : List Chunk) :
      Answers r line .idle (({ r with session := { r.session with debug } }).write chunks, true)
  | code (chunks : List Chunk) :
      Answers r line .code
        (((r.remember line).runLine line loopName (r.remember line).history.length false).1.write chunks, true)

private theorem command_quit {line : List Char} (hl : line = "quit".toList ∨ line = "exit".toList) :
    r.command line = (r, false) := by
  rcases hl with rfl | rfl <;> rfl

/-- The name of a command that starts with a dot starts with it. -/
private theorem commandName_ne {line : List Char} (hl : line.head? = some '.') (name : String)
    (hn : name.toList.head? ≠ some '.') : String.ofList (line.takeWhile (· ≠ ' ')) ≠ name := by
  rintro rfl
  obtain ⟨rest, rfl⟩ : ∃ rest, line = '.' :: rest := by
    cases line with
    | nil => cases hl
    | cons c rest => exact ⟨rest, by simpa using hl⟩
  exact hn (by simp)

/-- A command that starts with a dot ends the loop, loads a file or concerns only what is shown. -/
private theorem answers_command {line : List Char} (hl : (strip line).head? = some '.') :
    Answers r line (LoopLine.of line) (r.command (strip line)) := by
  have hne : ∀ word : List Char, word.head? ≠ some '.' → strip line ≠ word := fun word hw e => hw (e ▸ hl)
  have hquit : (strip line = "quit".toList || strip line = "exit".toList) = false :=
    Bool.or_eq_false_iff.2 ⟨decide_eq_false (hne _ (by decide)), decide_eq_false (hne _ (by decide))⟩
  have hname := commandName_ne hl
  unfold Runner.command LoopLine.of
  simp only [hquit, Bool.false_eq_true, ↓reduceIte, hl]
  generalize String.ofList ((strip line).takeWhile (· ≠ ' ')) = name at hname ⊢
  -- the name is that of the command to quit, of the one to load, or another
  split
  · exact .quit
  · split
    · exact .idle r.session.debug _
    · exact .load _
  · rename_i hquit' hload
    split
    · exact absurd rfl hquit'
    · exact absurd rfl (hname "quit" (by decide))
    · exact absurd rfl (hname "exit" (by decide))
    · exact .idle (!r.session.debug) _
    · exact absurd rfl hload
    all_goals exact .idle r.session.debug _

private theorem answer_of_isCommand {line : List Char} (hne : strip line ≠ []) (hc : isCommand (strip line) = true) :
    r.answer line = r.command (strip line) := by
  unfold Runner.answer
  simp [hne, hc]

/-- A runner does what a line of the loop asks for. -/
theorem answers (r : Runner) (line : List Char) : Answers r line (LoopLine.of line) (r.answer line) := by
  by_cases hquit : strip line = "quit".toList ∨ strip line = "exit".toList
  · have hof : LoopLine.of line = .quit := by
      unfold LoopLine.of
      rcases hquit with hquit | hquit <;> simp [hquit]
    have hcommand : strip line ≠ [] ∧ isCommand (strip line) = true := by
      rcases hquit with hquit | hquit <;> rw [hquit] <;> decide
    rw [answer_of_isCommand hcommand.1 hcommand.2, command_quit hquit, hof]
    exact .quit
  · by_cases hdot : (strip line).head? = some '.'
    · have hne : strip line ≠ [] := fun e => by simp [e] at hdot
      rw [answer_of_isCommand hne (by simp [isCommand, hdot])]
      exact answers_command hdot
    · rw [not_or] at hquit
      have hcommand : isCommand (strip line) = false := by
        unfold isCommand
        rw [decide_eq_false hdot, decide_eq_false hquit.1, decide_eq_false hquit.2]
        rfl
      have hof : LoopLine.of line = if (strip line).isEmpty then .idle else .code := by
        unfold LoopLine.of
        dsimp only
        rw [decide_eq_false hquit.1, decide_eq_false hquit.2, if_neg (by decide), if_neg hdot]
      rw [hof]
      unfold Runner.answer
      dsimp only
      split
      · exact .idle r.session.debug []
      · have hcode := @Answers.code r line
        simp only [hcommand, Bool.false_eq_true, ↓reduceIte]
        generalize (r.remember line).runLine line loopName (r.remember line).history.length false = result at hcode ⊢
        obtain ⟨r', ok⟩ := result
        dsimp only at hcode ⊢
        split
        · exact hcode _
        · exact hcode []

/-- A line of the loop does to the session what it asks for, and only a line that says so ends the loop. -/
theorem Tracks.answer (h : r.Tracks room files input s failures lines) (line : List Char) :
    (r.answer line).1.TracksActs room files input s failures lines ((LoopLine.of line).acts files line) ∧
      ((r.answer line).2 = false ↔ LoopLine.of line = .quit) := by
  have hanswers := r.answers line
  generalize LoopLine.of line = asked, r.answer line = result at hanswers ⊢
  cases hanswers with
  | quit => exact ⟨h.acts_nil, by simp⟩
  | load path => exact ⟨h.loadFile path, by simp⟩
  | idle debug chunks =>
    have halike : ({ r.session with debug } : Session).Alike s :=
      ⟨h.alike.stack_eq, h.alike.words_eq, h.alike.strict_eq, h.alike.maxDepth_eq, h.alike.covers⟩
    exact ⟨Tracks.acts_nil ⟨halike, h.isSound, h.hasRoom_eq, h.failed, h.executed, h.verbosity_eq, h.files_eq,
      h.input_eq, h.escaped?_eq⟩, by simp⟩
  | code chunks =>
    have hline := (h.remember line).runCode loopName (r.remember line).history.length false line
    refine ⟨hline.imp_left ?_, by simp⟩
    rintro ⟨more, hmore, htracks⟩
    exact ⟨more, hmore, htracks.kept rfl⟩

/-- A loop does to the session what its lines ask for, and leaves the lines after it. -/
theorem Tracks.answerAll (h : r.Tracks room files input s failures lines) (texts : List (List Char)) :
    (r.answerAll texts).TracksActs room files (loopActs files texts).2 s failures lines (loopActs files texts).1 := by
  -- what is left of the input is that of the loop
  have hleft : ∀ {r : Runner} {s failures lines}, r.Tracks room files input s failures lines → ∀ texts,
      ({ r with input := texts } : Runner).Tracks room files texts s failures lines :=
    fun h _ => ⟨h.alike, h.isSound, h.hasRoom_eq, h.failed, h.executed, h.verbosity_eq, h.files_eq, rfl, h.escaped?_eq⟩
  induction texts generalizing r s failures lines with
  | nil => exact Tracks.acts_nil ((hleft h []).kept rfl)
  | cons line texts ih =>
    have hprompt : (r.write [prompt]).Tracks room files input s failures lines := h.kept rfl
    obtain ⟨hline, hends⟩ := hprompt.answer line
    unfold Runner.answerAll
    generalize (r.write [prompt]).answer line = result at hline hends ⊢
    obtain ⟨r', goesOn⟩ := result
    cases goesOn with
    | false =>
      have hquit := hends.1 rfl
      rw [hquit] at hline
      rw [loopActs, hquit]
      refine hline.imp_left ?_
      rintro ⟨more, hmore, htracks⟩
      exact ⟨more, hmore, hleft htracks texts⟩
    | true =>
      have hgoes : LoopLine.of line ≠ .quit := fun e => Bool.noConfusion (hends.2 e)
      rw [loopActs_of_ne_quit hgoes]
      rcases hline with ⟨more, hmore, htracks⟩ | hover
      · have hnone : r'.escaped? = none := htracks.escaped?_eq
        simp only [hnone, Option.isNone_none, Bool.and_self, ↓reduceIte]
        exact (ih htracks).prepend hmore
      · have hsome : r'.escaped? = some (.failed .overflowed) := hover.1
        simp only [hsome, Option.isNone_some, Bool.and_false, Bool.false_eq_true, ↓reduceIte]
        exact .inr ⟨rfl, hover.2⟩

theorem Tracks.loop (h : r.Tracks room files input s failures lines) :
    r.loop.TracksActs room files (loopActs files input).2 s failures lines (loopActs files input).1 := by
  obtain rfl := h.input_eq
  apply Tracks.answerAll
  exact h.kept rfl

/-! ### Actions -/

/-- An action does to the session what it asks for, and leaves the lines of standard input after it to the others. -/
theorem Tracks.perform (h : r.Tracks room files input s failures lines) (number : Nat) (action : Action) :
    ∃ acts rest, (r.perform number action).TracksActs room files rest s failures lines acts ∧
      ∀ actions, actsOf files (action :: actions) input = acts ++ actsOf files actions rest := by
  cases action with
  | file path => exact ⟨_, input, h.loadFile path, fun _ => rfl⟩
  | code text =>
    have hset : (r.setSource (codeName number) [text]).Tracks room files input s failures lines := h.kept rfl
    exact ⟨_, input, hset.runCode _ 1 true text, fun _ => rfl⟩
  | loop => exact ⟨_, _, h.loop, fun _ => rfl⟩

/-- Actions do to the session what they ask for. -/
theorem Tracks.act (h : r.Tracks room files input s failures lines) (number : Nat) (actions : List Action) :
    ∃ rest, (Runner.act number actions r).TracksActs room files rest s failures lines
      (actsOf files actions input) := by
  induction actions generalizing r input s failures lines number with
  | nil => exact ⟨input, h.acts_nil⟩
  | cons action actions ih =>
    obtain ⟨acts, left, hfirst, hacts⟩ := h.perform number action
    rw [hacts]
    unfold Runner.act
    rcases hfirst with ⟨more, hmore, htracks⟩ | hover
    · obtain ⟨rest, hrest⟩ := ih htracks (nextNumber number action)
      dsimp only
      rw [htracks.escaped?_eq]
      exact ⟨rest, hrest.prepend hmore⟩
    · dsimp only
      rw [hover.1]
      exact ⟨left, .inr hover⟩

/-- A thousand frames: the word overflows, the code after it is not run, and to ignore failures does not help. -/
example :
    let options : Options := { ignore := true }
    let actions : List Action := [": f 1 do f ; f", "1"].map fun code => .code code.toList
    let r := Runner.act 1 actions (Runner.ofOptions options (fun _ => .missing) [] { frames? := some 1000 })
    r.escaped? = some (.failed .overflowed) ∧ r.session.stack = [] ∧ exitStatus options r = 1 := by
  decide +kernel

end Runner

end Shell

end Catena
