import Mathlib.Data.List.Basic
import Mathlib.Data.List.Induction
import Catena.Proofs.Safety

/-!
# The dictionary and the history of a session

Whatever is done with a session, its dictionary is made of the definitions in the lines that were fed to it since the
last reset, as far as they could be read (`Session.words_history`).  Evaluation runs with the dictionary but never
changes it, so that values, settings and failures leave no trace there.

The dictionary that definitions make has a closed form (`Words.collected`); one act inserts the definitions of the lines
that it feeds (`Session.words_perform`), and the rest is induction on the history.  Which lines these are depends on
what the acts come to only in that an error that escapes leaves the rest of a file unread.  A host without a bound lets
nothing escape, so that all lines are fed (`Session.fedSinceReset_eq`).
-/

namespace Catena

/-! ### Dictionaries from definitions -/

namespace Words

/-- The names in a dictionary, in the order in which they were first defined. -/
def names (w : Words) : List String := w.entries.map Prod.fst

/-- The dictionary that definitions make, given from the first to the last: a name has the place of its first
definition and the body of its last. -/
def collected (definitions : List (String × Program)) : Words :=
  ⟨(definitions.map Prod.fst).eraseDups.filterMap fun name => (definitions.reverse.lookup name).map (name, ·)⟩

private theorem map_fst_define (name : String) (body : Program) (es : List (String × Program)) :
    (define name body es).map Prod.fst =
      if name ∈ es.map Prod.fst then es.map Prod.fst else es.map Prod.fst ++ [name] := by
  induction es with
  | nil => rfl
  | cons e es ih =>
    rw [define]
    by_cases he : e.1 = name
    · simp [he]
    · have he' : name ≠ e.1 := Ne.symm he
      rw [if_neg he, List.map_cons, ih]
      by_cases hes : name ∈ es.map Prod.fst
      · rw [if_pos hes, List.map_cons, if_pos (List.mem_cons_of_mem e.1 hes)]
      · rw [if_neg hes, List.map_cons, if_neg (List.not_mem_cons_of_ne_of_not_mem he' hes), List.cons_append]

/-- A name that is new comes last, and one that is not stays where it is. -/
theorem names_insert (w : Words) (name : String) (body : Program) :
    (w.insert name body).names = if name ∈ w.names then w.names else w.names ++ [name] :=
  map_fst_define name body w.entries

theorem ofList_append_singleton (definitions : List (String × Program)) (e : String × Program) :
    ofList (definitions ++ [e]) = (ofList definitions).insert e.1 e.2 := by
  simp [ofList, insertAll]

theorem names_ofList (definitions : List (String × Program)) :
    (ofList definitions).names = (definitions.map Prod.fst).eraseDups := by
  induction definitions using List.reverseRecOn with
  | nil => rfl
  | append_singleton definitions e ih =>
    rw [ofList_append_singleton, names_insert, ih, List.map_append, List.eraseDups_append]
    by_cases he : e.1 ∈ definitions.map Prod.fst
    · rw [if_pos (List.mem_eraseDups.2 he)]
      simp [List.cons_removeAll, he]
    · rw [if_neg (mt List.mem_eraseDups.1 he)]
      simp [List.cons_removeAll, List.eraseDups_cons, he]

theorem nodup_names_ofList (definitions : List (String × Program)) : (ofList definitions).names.Nodup := by
  induction definitions using List.reverseRecOn with
  | nil => exact List.nodup_nil
  | append_singleton definitions e ih =>
    rw [ofList_append_singleton, names_insert]
    split
    · exact ih
    · rename_i he
      exact List.nodup_append.2 ⟨ih, by simp, fun a ha b hb => by rintro rfl; simp_all⟩

theorem body?_ofList (definitions : List (String × Program)) (name : String) :
    (ofList definitions).body? name = definitions.reverse.lookup name := by
  induction definitions using List.reverseRecOn with
  | nil => rfl
  | append_singleton definitions e ih =>
    rw [ofList_append_singleton, List.reverse_append, List.reverse_singleton, List.singleton_append, List.lookup_cons]
    by_cases he : name = e.1
    · rw [he, body?_insert_self, beq_self_eq_true]
    · rw [body?_insert_of_ne _ he, ih, beq_false_of_ne he]

/-- A dictionary in which no name stands twice is known by its names and what it gives for them. -/
theorem entries_eq {w : Words} (h : w.names.Nodup) :
    w.entries = w.names.filterMap fun name => (w.body? name).map (name, ·) := by
  obtain ⟨es⟩ := w
  simp only [names, body?] at h ⊢
  induction es with
  | nil => rfl
  | cons e es ih =>
    obtain ⟨first, body⟩ := e
    rw [List.map_cons, List.nodup_cons] at h
    have htail : ∀ name ∈ es.map Prod.fst,
        (((first, body) :: es).lookup name).map (name, ·) = (es.lookup name).map (name, ·) := by
      intro name hname
      have hne : name ≠ first := fun he => h.1 (he ▸ hname)
      rw [List.lookup_cons, beq_false_of_ne hne]
    rw [List.map_cons, List.filterMap_cons, List.lookup_cons_self, List.filterMap_congr htail, ← ih h.2]
    rfl

theorem ofList_eq_collected (definitions : List (String × Program)) : ofList definitions = collected definitions := by
  have hentries := entries_eq (nodup_names_ofList definitions)
  simp only [names_ofList, body?_ofList] at hentries
  exact congrArg Words.mk hentries

theorem insertAll_append (w : Words) (xs ys : List (String × Program)) :
    w.insertAll (xs ++ ys) = (w.insertAll xs).insertAll ys :=
  List.foldl_append

end Words

/-! ### Histories -/

/-- What can be done with a session. -/
inductive Session.Act where
  | execute (line : Line) (verbosity : Nat) (tally : Tally)
  | runLine (line : Line)
  | load (source : List Char) (file : Option String)
  | push (values : List Plain)
  | reset
  | dump
  | setDebug (debug : Bool)
  | setStrict (strict : Bool)
  | setMaxDepth (maxDepth : Int)

namespace Session

def perform (s : Session) : Act → Session
  | .execute line verbosity tally => (s.execute line verbosity tally).session
  | .runLine line => (s.runLine line).1
  | .load source file => (s.load source file).1
  | .push values => (s.push values).1
  | .reset => s.reset
  | .dump => s
  | .setDebug debug => { s with debug }
  | .setStrict strict => { s with strict }
  | .setMaxDepth maxDepth => { s with maxDepth }

def performAll (s : Session) (acts : List Act) : Session := acts.foldl perform s

def Act.isReset : Act → Bool
  | reset => true
  | _ => false

/-- The lines that an act has for a session, in order. -/
def Act.lines : Act → List Line
  | execute line _ _ | runLine line => [line]
  | load source file => ((Text.linesOf source).zipIdx 1).map fun (text, number) => ⟨text, file, number⟩
  | _ => []

/-- The lines for a session since it was reset last. -/
def linesSinceReset (acts : List Act) : List Line :=
  (acts.reverse.takeWhile fun a => !a.isReset).reverse.flatMap Act.lines

/-- The lines of a file that are fed to a session: an error that escapes ends it. -/
def fileFed (s : Session) (file : Option String) : (number : Nat) → List (List Char) → List Line
  | _, [] => []
  | n, text :: texts =>
    ⟨text, file, n⟩ :: match s.runLine ⟨text, file, n⟩ with
      | (_, _, .error _) => []
      | (s, _, .ok _) => s.fileFed file (n + 1) texts

/-- The lines of an act that are fed to a session. -/
def fed (s : Session) : Act → List Line
  | .execute line _ _ | .runLine line => [line]
  | .load source file => s.fileFed file 1 (Text.linesOf source)
  | _ => []

/-- The lines that were fed to a session since it was reset last. -/
def fedSinceReset (s : Session) (acts : List Act) : List Line :=
  (acts.foldl (fun (s, lines) a => (s.perform a, if a.isReset then [] else lines ++ s.fed a)) (s, [])).2

end Session

/-- The definitions of a line, from left to right.  A line that cannot be read has none. -/
def Line.definitions (line : Line) : List (String × Program) :=
  match Program.parse line.text line.file line.number with
  | .ok program => definitionsOf program
  | .error _ => []

namespace Session

variable (s : Session)

/-- Whatever comes of its evaluation, a line adds its definitions to the dictionary, and nothing else. -/
theorem words_execute (line : Line) (verbosity : Nat) (tally : Tally) :
    (s.execute line verbosity tally).session.words = s.words.insertAll line.definitions := by
  unfold Session.execute Line.definitions
  cases Program.parse line.text line.file line.number with
  | error e => rfl
  | ok program => rfl

theorem words_runLines (file : Option String) (n : Nat) (texts : List (List Char)) :
    (s.runLines file n texts).1.words = s.words.insertAll ((s.fileFed file n texts).flatMap Line.definitions) := by
  induction texts generalizing s n with
  | nil => rfl
  | cons text texts ih =>
    rw [fileFed, List.flatMap_cons, Words.insertAll_append, ← s.words_execute _ 0 .off, ← runLine_fst]
    rcases s.runLines_cons file n text texts with ⟨_, hok, hsession, -⟩ | ⟨_, herror, hsession, -⟩
    · rw [hsession, ih]
      generalize s.runLine ⟨text, file, n⟩ = line at hok ⊢
      obtain ⟨s', output, result⟩ := line
      subst hok
      rfl
    · rw [hsession]
      generalize s.runLine ⟨text, file, n⟩ = line at herror ⊢
      obtain ⟨s', output, result⟩ := line
      subst herror
      rfl

theorem words_push (values : List Plain) : (s.push values).1.words = s.words := by
  induction values generalizing s with
  | nil => rfl
  | cons p ps ih =>
    unfold Session.push
    split
    · exact ih _
    · rfl

/-- An act that is no reset inserts the definitions of the lines that it feeds. -/
theorem words_perform {a : Act} (h : a.isReset = false) :
    (s.perform a).words = s.words.insertAll ((s.fed a).flatMap Line.definitions) := by
  cases a with
  | execute line verbosity tally =>
    rw [fed, List.flatMap_singleton]
    exact s.words_execute line verbosity tally
  | runLine line =>
    rw [fed, List.flatMap_singleton]
    exact s.words_execute line 0 .off
  | load source file => exact s.words_runLines file 1 (Text.linesOf source)
  | push values => exact s.words_push values
  | reset => cases h
  | dump => rfl
  | setDebug debug => rfl
  | setStrict strict => rfl
  | setMaxDepth maxDepth => rfl

theorem performAll_concat (acts : List Act) (a : Act) : s.performAll (acts ++ [a]) = (s.performAll acts).perform a := by
  unfold performAll
  rw [List.foldl_append]
  rfl

private theorem foldl_fst (lines : List Line) (acts : List Act) :
    (acts.foldl (fun (s, lines) a => (s.perform a, if a.isReset then [] else lines ++ s.fed a)) (s, lines)).1 =
      s.performAll acts := by
  induction acts generalizing s lines with
  | nil => rfl
  | cons a acts ih => exact ih (s.perform a) _

theorem fedSinceReset_concat (acts : List Act) (a : Act) :
    s.fedSinceReset (acts ++ [a]) = if a.isReset then [] else s.fedSinceReset acts ++ (s.performAll acts).fed a := by
  have hsession := s.foldl_fst [] acts
  unfold fedSinceReset
  rw [List.foldl_append, ← hsession]
  rfl

theorem linesSinceReset_concat (acts : List Act) (a : Act) :
    linesSinceReset (acts ++ [a]) = if a.isReset then [] else linesSinceReset acts ++ a.lines := by
  unfold linesSinceReset
  rw [List.reverse_append, List.reverse_singleton, List.singleton_append, List.takeWhile_cons]
  cases a.isReset with
  | true => rfl
  | false =>
    rw [Bool.not_false, if_pos rfl, List.reverse_cons, List.flatMap_append, List.flatMap_singleton]
    rfl

variable {s}

theorem words_performAll (h : s.words = {}) (acts : List Act) :
    (s.performAll acts).words = .ofList ((s.fedSinceReset acts).flatMap Line.definitions) := by
  -- the last act is performed on what the acts before it lead to
  induction acts using List.reverseRecOn with
  | nil => exact h
  | append_singleton acts a ih =>
    rw [performAll_concat, fedSinceReset_concat]
    cases ha : a.isReset with
    | true =>
      cases a with
      | reset => rfl
      | _ => cases ha
    | false =>
      rw [words_perform _ ha, ih, if_neg (by decide), List.flatMap_append]
      exact (Words.insertAll_append ..).symm

/-! ### Hosts without a bound -/

/-- A host without a bound has room for everything. -/
theorem hasRoom_of_unbounded (h : s.host.frames? = none) (verbosity : Nat) : s.hasRoom verbosity = true := by
  simp [hasRoom, Settings.hasRoomToLimit, Settings.hasRoom, h]

theorem host_execute (line : Line) (verbosity : Nat) (tally : Tally) :
    (s.execute line verbosity tally).session.host = s.host := by
  unfold Session.execute
  cases Program.parse line.text line.file line.number with
  | error e => rfl
  | ok program => rfl

theorem hasRoom_execute (line : Line) (verbosity : Nat) (tally : Tally) (verbosity' : Nat) :
    (s.execute line verbosity tally).session.hasRoom verbosity' = s.hasRoom verbosity' := by
  unfold Session.execute
  cases Program.parse line.text line.file line.number with
  | error e => rfl
  | ok program => rfl

theorem host_runLines (file : Option String) (n : Nat) (texts : List (List Char)) :
    (s.runLines file n texts).1.host = s.host := by
  induction texts generalizing s n with
  | nil => rfl
  | cons text texts ih =>
    have hline : (s.runLine ⟨text, file, n⟩).1.host = s.host := host_execute ..
    rcases s.runLines_cons file n text texts with ⟨_, -, hsession, -⟩ | ⟨_, -, hsession, -⟩
    · rw [hsession, ih, hline]
    · rw [hsession, hline]

theorem host_push (values : List Plain) : (s.push values).1.host = s.host := by
  induction values generalizing s with
  | nil => rfl
  | cons p ps ih =>
    unfold Session.push
    split
    · exact ih
    · rfl

theorem host_perform (a : Act) : (s.perform a).host = s.host := by
  cases a with
  | execute line verbosity tally => exact host_execute line verbosity tally
  | runLine line => exact host_execute line 0 .off
  | load source file => exact host_runLines file 1 _
  | push values => exact host_push values
  | _ => rfl

theorem IsSound.perform (hs : s.IsSound) (a : Act) : (s.perform a).IsSound := by
  cases a with
  | execute line verbosity tally => exact (hs.execute line verbosity tally).1
  | runLine line => exact hs.runLine line
  | load source file => exact hs.runLines file 1 _
  | push values => exact hs.push values
  | reset => exact Words.forall_empty
  | dump => exact hs
  | setDebug debug => exact hs
  | setStrict strict => exact hs
  | setMaxDepth maxDepth => exact hs

theorem IsSound.performAll (hs : s.IsSound) (acts : List Act) :
    (s.performAll acts).IsSound ∧ (s.performAll acts).host = s.host := by
  induction acts using List.reverseRecOn with
  | nil => exact ⟨hs, rfl⟩
  | append_singleton acts a ih =>
    rw [performAll_concat]
    exact ⟨ih.1.perform a, (host_perform a).trans ih.2⟩

/-- Nothing escapes a sound session whose host has no bound, so that all lines of a file are fed. -/
theorem IsSound.fileFed_eq (hs : s.IsSound) (hhost : s.host.frames? = none) (file : Option String) (n : Nat)
    (texts : List (List Char)) :
    s.fileFed file n texts = (texts.zipIdx n).map fun (text, k) => (⟨text, file, k⟩ : Line) := by
  induction texts generalizing s n with
  | nil => rfl
  | cons text texts ih =>
    have hsound := hs.runLine ⟨text, file, n⟩
    have hline : (s.runLine ⟨text, file, n⟩).1.host.frames? = none := by
      rw [runLine_fst, host_execute, hhost]
    rw [fileFed, List.zipIdx_cons, List.map_cons]
    rcases s.runLine_cases ⟨text, file, n⟩ with ⟨hok, -⟩ | ⟨e, he, hescapes, -⟩
    · rw [← ih hsound hline (n + 1)]
      generalize s.runLine ⟨text, file, n⟩ = line at hok ⊢
      obtain ⟨s', output, result⟩ := line
      subst hok
      rfl
    · have hfull := (hs.eq_of_escapes he hescapes).2
      rw [hasRoom_of_unbounded hhost] at hfull
      cases hfull

theorem IsSound.fed_eq (hs : s.IsSound) (hhost : s.host.frames? = none) (a : Act) : s.fed a = a.lines := by
  cases a with
  | load source file => exact hs.fileFed_eq hhost file 1 _
  | _ => rfl

theorem IsSound.fedSinceReset_eq (hs : s.IsSound) (hhost : s.host.frames? = none) (acts : List Act) :
    s.fedSinceReset acts = linesSinceReset acts := by
  induction acts using List.reverseRecOn with
  | nil => rfl
  | append_singleton acts a ih =>
    obtain ⟨hsound, hsame⟩ := hs.performAll acts
    rw [fedSinceReset_concat, linesSinceReset_concat, ih, hsound.fed_eq (hsame ▸ hhost)]

/-! ### The dictionary -/

/-- A line that cannot be read leaves the session as it was and writes nothing to it; to run it adds an error report. -/
theorem execute_of_unread {line : Line} {e : ReadError} (h : Program.parse line.text line.file line.number = .error e)
    (verbosity : Nat) (tally : Tally) :
    s.execute line verbosity tally = { session := s, tally, error? := some (.unread e) } := by
  unfold Session.execute
  rw [h]

theorem filter_dumpIfDebugging : s.dumpIfDebugging.filter (·.channel = .out) = s.dumpIfDebugging := by
  unfold dumpIfDebugging
  split <;> rfl

theorem filter_report (e : LineError) : e.report.filter (·.channel = .out) = [] := by
  unfold LineError.report
  split <;> rfl

theorem runLine_of_unread {line : Line} {e : ReadError} (h : Program.parse line.text line.file line.number = .error e) :
    (s.runLine line).1 = s ∧ (s.runLine line).2.1.filter (·.channel = .out) = s.dumpIfDebugging := by
  unfold Session.runLine
  rw [execute_of_unread h]
  refine ⟨rfl, ?_⟩
  show (([] ++ (LineError.unread e).report) ++ s.dumpIfDebugging).filter (·.channel = Channel.out) = s.dumpIfDebugging
  rw [List.nil_append, List.filter_append, filter_report, List.nil_append, filter_dumpIfDebugging]

/-- The dictionary of a session is a function of the lines that were fed to it.  A session that starts without words,
whatever its stack, its settings and its host are, has after any acts the dictionary that is collected from the
definitions of the lines since the last reset; if the host has no bound, these are all lines of the acts.  In any
session, a line that cannot be read changes nothing and prints nothing but what a debugging session shows after each
line, and a line that can be read adds all of its definitions, even if it fails. -/
theorem words_history (stack : Stack) (debug strict : Bool) (maxDepth : Int) (host : Host) (acts : List Act) :
    let start : Session := { stack, debug, strict, maxDepth, host }
    (start.performAll acts).words = .collected ((start.fedSinceReset acts).flatMap Line.definitions) ∧
      (host.frames? = none → start.fedSinceReset acts = linesSinceReset acts) ∧
      (∀ (s : Session) (line : Line) (e : ReadError), Program.parse line.text line.file line.number = .error e →
        (∀ verbosity tally, (s.execute line verbosity tally).session = s ∧
          (s.execute line verbosity tally).output = []) ∧
        (s.runLine line).1 = s ∧ (s.runLine line).2.1.filter (·.channel = .out) = s.dumpIfDebugging) ∧
      (∀ (s : Session) (line : Line) (p : Program), Program.parse line.text line.file line.number = .ok p →
        (∀ verbosity tally, (s.execute line verbosity tally).session.words = s.words.insertAll (definitionsOf p)) ∧
        (s.runLine line).1.words = s.words.insertAll (definitionsOf p)) := by
  intro start
  have hstart : start.IsSound := Words.forall_empty
  refine ⟨?_, fun hhost => hstart.fedSinceReset_eq hhost acts, ?_, ?_⟩
  · rw [words_performAll rfl, Words.ofList_eq_collected]
  · intro s line e h
    refine ⟨fun verbosity tally => ?_, runLine_of_unread h⟩
    rw [execute_of_unread h]
    exact ⟨rfl, rfl⟩
  · intro s line p h
    have hdefinitions : line.definitions = definitionsOf p := by
      unfold Line.definitions
      rw [h]
    rw [← hdefinitions]
    exact ⟨s.words_execute line, s.words_execute line 0 .off⟩

end Session

end Catena
