import Catena.Proofs.Pointing
import Catena.Proofs.Reporting

/-!
# The line that a report marks

A refusal is numbered by line feeds: by those before it in inline code, and by the lines of code so far in an
interactive loop.  The excerpt in its report is made of lines that end at any line break.  The two come to the same
line just if no line up to the one in question has another break in it (`Spot.marks_iff`).

* A source is refused at a character of one of its lines (`ParseError.exists_line`).
* The lines of code of an interactive loop are its source, up to the line that is fed (`Event.FollowsUp`), which every
  part of a job keeps up (`Runner.Recalls`) unless a file takes the place of the loop's source.
-/

namespace Catena

open Catena.Text

/-! ### Marked lines -/

/-- An excerpt of the lines marks one as the line in question that stands behind `before` and reads `line`. -/
def Spot.Marks (spot : Spot) (lines : List (List Char)) (before line : List Char) : Prop :=
  ∃ (above : List (List Char)) (shown : List Char) (below : List (List Char)),
    lines = above ++ shown :: below ∧ (shown, above.length) ∈ spot.shown lines ∧
    (above.length + 1 : Int) = spot.shownLine ∧ above.flatten = before ∧ withoutFeed shown = line

/-- At most one line is marked. -/
theorem Spot.Marks.unique {spot : Spot} {lines : List (List Char)} {before before' line line' : List Char}
    (h : spot.Marks lines before line) (h' : spot.Marks lines before' line') : before = before' ∧ line = line' := by
  obtain ⟨above, shown, below, rfl, -, hnumber, rfl, rfl⟩ := h
  obtain ⟨above', shown', below', hlines, -, hnumber', rfl, rfl⟩ := h'
  obtain ⟨rfl, hshown⟩ := List.append_inj hlines (by omega)
  obtain ⟨rfl, -⟩ := List.cons.inj hshown
  exact ⟨rfl, rfl⟩

/-- The full lines that a text is cut into up to the line feed behind each of the given lines. -/
def brokenLines (above : List (List Char)) : List (List Char) := above.flatMap fun l => fullLinesOf (l ++ ['\n'])

theorem fullLinesOf_flatMap_append (above : List (List Char)) (rest : List Char) :
    fullLinesOf (above.flatMap (· ++ ['\n']) ++ rest) = brokenLines above ++ fullLinesOf rest := by
  induction above with
  | nil => rfl
  | cons l above ih =>
    have hsource : (l :: above).flatMap (· ++ ['\n']) ++ rest = l ++ '\n' :: (above.flatMap (· ++ ['\n']) ++ rest) := by
      simp
    rw [hsource, fullLinesOf_append_feed, ih, ← List.append_assoc]
    rfl

theorem flatten_brokenLines (above : List (List Char)) : (brokenLines above).flatten = above.flatMap (· ++ ['\n']) := by
  have hlines := flatten_fullLinesOf (above.flatMap (· ++ ['\n']) ++ [])
  rw [fullLinesOf_flatMap_append, List.append_nil] at hlines
  simpa [fullLinesOf, breakLines] using hlines

theorem length_brokenLines_cons (l : List Char) (above : List (List Char)) :
    (brokenLines (l :: above)).length = (linesOf (l ++ ['\n'])).length + (brokenLines above).length := by
  rw [← length_fullLinesOf, ← List.length_append]
  rfl

theorem length_linesOf_pos (l : List Char) : 0 < (linesOf (l ++ ['\n'])).length := by
  rw [← length_fullLinesOf]
  exact List.length_pos_iff.2 (fullLinesOf_ne_nil (by simp))

theorem length_le_length_brokenLines (above : List (List Char)) : above.length ≤ (brokenLines above).length := by
  induction above with
  | nil => exact Nat.zero_le _
  | cons l above ih =>
    have hpos := length_linesOf_pos l
    rw [length_brokenLines_cons, List.length_cons]
    omega

theorem length_brokenLines_eq_iff {above : List (List Char)} :
    (brokenLines above).length = above.length ↔ ∀ l ∈ above, IsOneLine (l ++ ['\n']) := by
  induction above with
  | nil => simp [brokenLines]
  | cons l above ih =>
    have hpos := length_linesOf_pos l
    have hle := length_le_length_brokenLines above
    rw [length_brokenLines_cons, List.length_cons, List.forall_mem_cons, ← ih, IsOneLine]
    omega

/-- The first line of a text, up to the end of the line that is given, is that line just if it is one. -/
theorem exists_first_append {line tail : List Char} (hline : line ≠ []) (hfeed : '\n' ∉ line) (htail : EndsLine tail) :
    ∃ first ls, fullLinesOf (line ++ tail) = first :: ls ∧ (withoutFeed first = line ↔ IsOneLine line) := by
  cases tail with
  | nil =>
    obtain ⟨first, ls, hlines⟩ := List.exists_cons_of_ne_nil (fullLinesOf_ne_nil hline)
    have hfirst : '\n' ∉ first := by
      intro hmem
      refine hfeed ?_
      rw [← flatten_fullLinesOf line, hlines]
      exact List.mem_append_left _ hmem
    have hbare : withoutFeed first = first := if_neg fun h => hfirst (List.mem_of_getLast? h)
    refine ⟨first, ls, by rwa [List.append_nil], ?_⟩
    rw [hbare]
    exact head_eq_iff_isOneLine hlines
  | cons c tail =>
    obtain rfl := htail c rfl
    obtain ⟨first, ls, ls', hwith, hwithout⟩ := exists_first_append_feed hline hfeed tail
    exact ⟨first, ls, hwith, head_eq_iff_isOneLine hwithout⟩

/-- An excerpt marks the line of a number in a source just if line breaks do not divide that line or one above it. -/
theorem Spot.marks_iff {spot : Spot} {above below : List (List Char)} {line : List Char}
    (hline : line ≠ []) (hfeed : '\n' ∉ line) (hspot : spot.shownLine = 1 + above.length) :
    spot.Marks (fullLinesOf (['\n'].intercalate (above ++ line :: below))) (above.flatMap (· ++ ['\n'])) line ↔
      (∀ l ∈ above, IsOneLine (l ++ ['\n'])) ∧ IsOneLine line := by
  obtain ⟨tail, htail, hends⟩ := exists_intercalate_cons line below
  obtain ⟨first, ls, hlines, hfirst⟩ := exists_first_append hline hfeed hends
  have hcut : fullLinesOf (['\n'].intercalate (above ++ line :: below)) = brokenLines above ++ first :: ls := by
    rw [intercalate_append_cons, htail, fullLinesOf_flatMap_append, hlines]
  rw [← length_brokenLines_eq_iff, ← hfirst]
  constructor
  · rintro ⟨above', shown, below', hlines', -, hnumber, hflatten, hshown⟩
    have hne : ∀ l ∈ brokenLines above ++ first :: ls, l ≠ [] := fun l hl =>
      (ne_nil_and_not_mem_of_mem_fullLinesOf (hcut ▸ hl)).1
    rw [hcut] at hlines'
    obtain rfl := eq_of_flatten_eq hlines' hne ((flatten_brokenLines above).trans hflatten.symm)
    obtain ⟨rfl, -⟩ := List.cons.inj (List.append_cancel_left hlines')
    exact ⟨by omega, hshown⟩
  · rintro ⟨hlength, hshown⟩
    refine ⟨brokenLines above, first, ls, hcut, ?_, by omega, flatten_brokenLines above, hshown⟩
    rw [mem_shown_iff, hcut]
    exact ⟨by simp, by omega, by omega⟩

/-! ### Lines that are refused -/

/-- A source is refused at a character of one of its lines. -/
theorem ParseError.exists_line {source : List Char} {file : Option String} {first : Int} {e : ParseError}
    (h : Program.parse source file first = .error (.refused e)) :
    ∃ (above : List (List Char)) (left right : List Char) (below : List (List Char)),
      source.splitOn '\n' = above ++ (left ++ right) :: below ∧ right ≠ [] ∧
      e.start = ⟨first + above.length, 1 + left.length⟩ := by
  have hchar : ∃ i c, IsPlace source first e.start i ∧ source[i]? = some c ∧ c ≠ '\n' := by
    rcases Program.parse_refusal h with ⟨hunclosed, i, c, hplace, hc, htoken⟩ | ⟨q, before, hq, hstart, -⟩
    · refine ⟨i, c, hplace, hc, ?_⟩
      rintro rfl
      cases hcause : e.cause <;> rw [hcause] at htoken hunclosed <;> cases htoken <;> cases hunclosed
    · obtain ⟨c, u, hraw⟩ := hq.spells.exists_cons
      obtain ⟨hblank, -⟩ := hq.spells.startsLexeme [] c (by simp [hraw])
      refine ⟨before.length, c, hstart ▸ hq.isPlace, ?_, ?_⟩
      · have hat := hq.getElem?_eq (k := 0) (by simp [hraw])
        rwa [Nat.add_zero, hraw] at hat
      · rintro rfl
        exact absurd hblank (by decide)
  obtain ⟨i, c, hplace, hc, hfeed⟩ := hchar
  obtain ⟨above, left, right, below, tail, hlines, hline, hcolumn, hdrop, hends⟩ := hplace.exists_right
  refine ⟨above, left, right, below, hlines, ?_, ?_⟩
  · rintro rfl
    refine hfeed (hends c ?_)
    rw [← List.nil_append tail, ← hdrop, List.head?_drop, hc]
  · rw [← hline, ← hcolumn]

/-- What the report of a refusal is about. -/
def ParseError.spot (e : ParseError) (file : String) : Spot :=
  ⟨some file, some e.start.line, some e.start.column, some e.cause.token⟩

namespace Shell

/-- A report of a refusal of the line is written, with the excerpt in it. -/
def Feeding.IsShown (c : Feeding) (e : ParseError) (written : List Chunk) : Prop :=
  ∃ chunk ∈ written, (e.spot c.file).excerpt (c.runner.excerptLines c.file) <:+: chunk.text

/-- In that report the line is marked that stands behind `before` and reads `line`. -/
def Feeding.Marks (c : Feeding) (e : ParseError) (before line : List Char) : Prop :=
  (e.spot c.file).Marks (c.runner.excerptLines c.file) before line

/-- Why the line is refused, if it is. -/
def Feeding.refusal? (c : Feeding) : Option ParseError :=
  match c.executed.error? with
  | some (.unread (.refused e)) => some e
  | _ => none

theorem Feeding.error?_of_refusal? {c : Feeding} {e : ParseError} (h : c.refusal? = some e) :
    c.executed.error? = some (.unread (.refused e)) := by
  unfold refusal? at h
  split at h
  · rename_i herror
    rw [herror, Option.some.inj h]
  · cases h

theorem Feeding.parse_of_refusal? {c : Feeding} {e : ParseError} (h : c.refusal? = some e) :
    Program.parse c.text (some c.file) c.number = .error (.refused e) := by
  have herror := error?_of_refusal? h
  unfold executed Session.execute at herror
  dsimp only at herror
  split at herror
  · rename_i hp
    cases herror
    exact hp
  · dsimp only at herror
    split at herror <;> cases herror

theorem Feeding.isShown_of_subset {c : Feeding} {e : ParseError} {written : List Chunk}
    (h : c.runner.reportError c.file (.unread (.refused e)) ⊆ written) : c.IsShown e written := by
  refine ⟨_, h (List.mem_singleton_self _), ?_⟩
  have hcontext : ∀ excerpt message : List Char, excerpt <:+: '\n' :: (excerpt ++ '\n' :: message ++ ['\n']) := by
    intro excerpt message
    rw [List.append_assoc]
    exact (List.prefix_append ..).isInfix.trans (List.suffix_cons ..).isInfix
  exact (hcontext _ _).trans (List.infix_append ..)

/-- A line stands last in its source, behind lines that are counted in its number.  If it is refused, it is so at a
character of a line between line feeds, and that line is marked just if line breaks do not divide it or one above it. -/
theorem Feeding.marks_iff {c : Feeding} {e : ParseError} {history : List (List Char)}
    (hlines : c.runner.sources.lines c.file = history ++ [c.text]) (hnumber : c.number = history.length + 1)
    (he : c.refusal? = some e) :
    ∃ (above : List (List Char)) (left right : List Char) (below : List (List Char)),
      c.text.splitOn '\n' = above ++ (left ++ right) :: below ∧
      e.start = ⟨history.length + 1 + above.length, 1 + left.length⟩ ∧
      (c.Marks e ((history ++ above).flatMap (· ++ ['\n'])) (left ++ right) ↔
        (∀ l ∈ history ++ above, IsOneLine (l ++ ['\n'])) ∧ IsOneLine (left ++ right)) := by
  obtain ⟨above, left, right, below, htext, hright, hstart⟩ := ParseError.exists_line (c.parse_of_refusal? he)
  rw [hnumber] at hstart
  refine ⟨above, left, right, below, htext, hstart, ?_⟩
  have hne : left ++ right ≠ [] := fun h => hright (List.append_eq_nil_iff.1 h).2
  have hmem : left ++ right ∈ c.text.splitOn '\n' := by
    rw [htext]
    exact List.mem_append_right _ (List.mem_cons_self ..)
  have hsource : joinLines (c.runner.sources.lines c.file) =
      ['\n'].intercalate ((history ++ above) ++ (left ++ right) :: below) := by
    have hjoined : ['\n'].intercalate (c.text.splitOn '\n') = c.text := List.intercalate_splitOn '\n'
    rw [htext, intercalate_append_cons] at hjoined
    rw [joinLines_eq_intercalate, hlines, intercalate_append_cons, intercalate_append_cons, List.flatMap_append,
      List.append_assoc, hjoined, List.intercalate_singleton]
  have hshown : (e.spot c.file).shownLine = 1 + (history ++ above).length := by
    have hline : e.start.line = 1 + (history ++ above).length := by
      simp only [hstart, List.length_append]
      omega
    rw [Spot.shownLine_eq _ rfl (by omega), hline]
  have htextual : joinLines (c.runner.sources.lines c.file) ≠ [] := by
    obtain ⟨tail, htail, -⟩ := exists_intercalate_cons (left ++ right) below
    rw [hsource, intercalate_append_cons, htail]
    simp [hright]
  unfold Marks
  rw [Runner.excerptLines_eq htextual, hsource]
  exact Spot.marks_iff hne (feed_not_mem_of_mem_splitOn hmem) hshown

/-! ### What a loop remembers -/

/-- The line of the interactive loop that is fed in an event. -/
def Event.loopText? : Event → Option (List Char)
  | loaded _ => none
  | fed c => if c.file = loopName then some c.text else none

/-- The lines of code of the interactive loop in a log, the first one first. -/
def loopTexts (log : List Event) : List (List Char) := log.filterMap Event.loopText?

/-- A line of the loop is fed as the last of the loop's source, behind the lines of code so far, and with its number
among them. -/
def Event.FollowsUp (history : List (List Char)) : Event → Prop
  | loaded _ => True
  | fed c => c.file = loopName → '\n' ∉ c.text ∧ c.runner.sources.lines loopName = history ++ [c.text] ∧
      c.number = history.length + 1

/-- Each line of the loop in a log follows up on the lines of code so far and those before it in the log. -/
def Recalled : (history : List (List Char)) → List Event → Prop
  | _, [] => True
  | history, event :: log => event.FollowsUp history ∧ Recalled (history ++ loopTexts [event]) log

theorem recalled_append {history : List (List Char)} {log log' : List Event} :
    Recalled history (log ++ log') ↔ Recalled history log ∧ Recalled (history ++ loopTexts log) log' := by
  induction log generalizing history with
  | nil => simp [Recalled, loopTexts]
  | cons event log ih =>
    have htexts : loopTexts (event :: log) = loopTexts [event] ++ loopTexts log := by
      rw [loopTexts, ← List.singleton_append, List.filterMap_append]
      rfl
    rw [List.cons_append, Recalled, Recalled, ih, htexts, List.append_assoc, and_assoc]

namespace Runner

/-- The source of the loop is the lines of code so far, and no line still to come has a line feed. -/
structure Remembers (r : Runner) (history : List (List Char)) : Prop where
  history?_eq : r.history? = none
  lines_eq : r.sources.lines loopName = history
  feedless : ∀ line ∈ r.input, '\n' ∉ line

/-- What a part of a job does from one runner to another: it adds the lines of the loop in its log to those that are
remembered, each as it is fed. -/
def Recalls (r : Runner) (log : List Event) (r' : Runner) : Prop :=
  ∀ history, SparesLoop log → r.Remembers history → r'.Remembers (history ++ loopTexts log) ∧ Recalled history log

variable {r r' r'' : Runner}

theorem Recalls.append {log log' : List Event} (h : r.Recalls log r') (h' : r'.Recalls log' r'') :
    r.Recalls (log ++ log') r'' := by
  intro history hspares hr
  obtain ⟨hlog, hlog'⟩ := sparesLoop_append.1 hspares
  obtain ⟨hr', hrecalled⟩ := h history hlog hr
  obtain ⟨hr'', hrecalled'⟩ := h' _ hlog' hr'
  refine ⟨?_, recalled_append.2 ⟨hrecalled, hrecalled'⟩⟩
  rw [loopTexts, List.filterMap_append, ← List.append_assoc]
  exact hr''

/-- Nothing happens that the loop remembers. -/
theorem Recalls.quiet (h : ∀ history, r.Remembers history → r'.Remembers history) : r.Recalls [] r' := by
  intro history _ hr
  refine ⟨?_, trivial⟩
  rw [loopTexts, List.filterMap_nil, List.append_nil]
  exact h history hr

theorem Remembers.write {history : List (List Char)} (h : r.Remembers history) (chunks : List Chunk) :
    (r.write chunks).Remembers history := ⟨h.history?_eq, h.lines_eq, h.feedless⟩

theorem Remembers.setSource {history : List (List Char)} (h : r.Remembers history) {name : String}
    (hname : name ≠ loopName) (lines : List (List Char)) : (r.setSource name lines).Remembers history := by
  refine ⟨?_, ?_, h.feedless⟩
  · unfold Runner.setSource
    rw [if_neg hname]
    exact h.history?_eq
  · exact (Sources.lines_set_of_ne hname r.sources lines).trans h.lines_eq

theorem Remembers.runLine {history : List (List Char)} (h : r.Remembers history) (text : List Char) (file : String)
    (number : Int) (showTop : Bool) : (r.runLine text file number showTop).1.Remembers history := by
  obtain ⟨-, -, -, hinput, hsources, hhistory, -⟩ := r.runLine_cases text file number showTop
  refine ⟨hhistory.trans h.history?_eq, ?_, ?_⟩
  · rw [hsources, h.lines_eq]
  · rw [hinput]
    exact h.feedless

/-- A line of a file or of inline code is none of the loop's. -/
theorem recalls_runLine (r : Runner) {file : String} (hfile : file ≠ loopName) (text : List Char) (number : Int)
    (showTop : Bool) : r.Recalls [.fed ⟨r, text, file, number⟩] (r.runLine text file number showTop).1 := by
  intro history _ hr
  have htexts : loopTexts [.fed ⟨r, text, file, number⟩] = [] := by
    simp [loopTexts, Event.loopText?, hfile]
  refine ⟨?_, fun h => absurd h hfile, trivial⟩
  rw [htexts, List.append_nil]
  exact hr.runLine text file number showTop

theorem recalls_runLines {file : String} (hfile : file ≠ loopName) (texts : List (List Char)) (r : Runner)
    (number : Nat) : r.Recalls (linesLog file number texts r) (runLines file number texts r) := by
  induction texts generalizing r number with
  | nil => exact .quiet fun _ hr => hr
  | cons text texts ih =>
    have hfirst := r.recalls_runLine hfile text number false
    unfold linesLog runLines
    dsimp only
    split
    · exact hfirst
    · exact hfirst.append (ih _ (number + 1))

theorem recalls_loadFile (r : Runner) (path : List Char) : r.Recalls (r.fileLog path) (r.loadFile path) := by
  unfold loadFile fileLog
  cases (r.files (Path.normalize path)).read with
  | error reason => exact .quiet fun _ hr => hr.write _
  | ok source =>
    intro history hspares hr
    have hname : String.ofList path ≠ loopName := hspares path (List.mem_cons_self ..)
    have hlines := (recalls_runLines hname (linesOf source) (r.setSource (String.ofList path) (linesOf source)) 1)
    obtain ⟨hr', hrecalled⟩ := hlines history (fun p hp => hspares p (List.mem_cons_of_mem _ hp)) (hr.setSource hname _)
    refine ⟨hr', trivial, ?_⟩
    show Recalled (history ++ []) _
    rw [List.append_nil]
    exact hrecalled

theorem recalls_runCode (r : Runner) {name : String} (hname : name ≠ loopName) (code : List Char) :
    r.Recalls (r.codeLog code name) (r.runCode code name) := by
  have hset : r.Recalls [] (r.setSource name [code]) := .quiet fun _ hr => hr.setSource hname [code]
  exact hset.append (recalls_runLine _ hname code 1 true)

/-- A line of code in the loop becomes the last of its source and is fed with its number. -/
theorem recalls_answer (r : Runner) {line : List Char} (hline : '\n' ∉ line) :
    r.Recalls (r.answerLog line) (r.answer line).1 := by
  have hanswers := r.answers line
  unfold answerLog
  generalize LoopLine.of line = asked, r.answer line = result at hanswers ⊢
  cases hanswers with
  | quit => exact .quiet fun _ hr => hr
  | load path => exact r.recalls_loadFile path
  | idle debug chunks => exact .quiet fun _ hr => ⟨hr.history?_eq, hr.lines_eq, hr.feedless⟩
  | code chunks =>
    intro history _ hr
    have hlines : (r.remember line).sources.lines loopName = history ++ [line] := by
      simp only [remember, hr.history?_eq, Sources.lines_set, hr.lines_eq]
    have hremembers : (r.remember line).Remembers (history ++ [line]) := by
      refine ⟨?_, hlines, ?_⟩
      · simp [remember, hr.history?_eq]
      · simpa [remember, hr.history?_eq] using hr.feedless
    have hhistory : (r.remember line).history = history ++ [line] := by
      rw [← hlines, Runner.history, hremembers.history?_eq]
      rfl
    refine ⟨(hremembers.runLine line loopName _ false).write chunks, fun _ => ⟨hline, hlines, ?_⟩, trivial⟩
    rw [hhistory, List.length_append]
    rfl

theorem recalls_answerAll (r : Runner) {lines : List (List Char)} (hlines : ∀ line ∈ lines, '\n' ∉ line) :
    r.Recalls (r.answersLog lines) (r.answerAll lines) := by
  induction lines generalizing r with
  | nil => exact .quiet fun _ hr => ⟨hr.history?_eq, hr.lines_eq, nofun⟩
  | cons line lines ih =>
    obtain ⟨hline, hlines⟩ := List.forall_mem_cons.1 hlines
    have hprompt : r.Recalls [] (r.write [prompt]) := .quiet fun _ hr => hr.write [prompt]
    have hfirst := hprompt.append ((r.write [prompt]).recalls_answer hline)
    unfold answersLog answerAll
    dsimp only
    generalize (r.write [prompt]).answer line = result at hfirst ⊢
    obtain ⟨r', goesOn⟩ := result
    dsimp only at hfirst ⊢
    split
    · exact hfirst.append (ih r' hlines)
    · exact hfirst.append (.quiet fun _ hr => ⟨hr.history?_eq, hr.lines_eq, hlines⟩)

theorem recalls_loop (r : Runner) : r.Recalls r.loopLog r.loop := by
  intro history hspares hr
  have hgreeted : r.greeted.Remembers history := by
    have hsources : r.greeted.sources = r.sources.set loopName (r.sources.lines loopName) := rfl
    refine ⟨rfl, ?_, hr.feedless⟩
    rw [hsources, Sources.lines_set, hr.lines_eq]
  rw [loop_eq]
  exact r.greeted.recalls_answerAll hr.feedless history hspares hgreeted

theorem recalls_perform (r : Runner) (number : Nat) (action : Action) :
    r.Recalls (r.performLog number action) (r.perform number action) := by
  cases action with
  | file path => exact r.recalls_loadFile path
  | code text => exact r.recalls_runCode (codeName_ne_loopName number) text
  | loop => exact r.recalls_loop

theorem recalls_act (r : Runner) (number : Nat) (actions : List Action) :
    r.Recalls (actLog number actions r) (act number actions r) := by
  induction actions generalizing r number with
  | nil => exact .quiet fun _ hr => hr
  | cons action actions ih =>
    have hfirst := r.recalls_perform number action
    unfold actLog act
    dsimp only
    split
    · rw [List.append_nil]
      exact hfirst
    · exact hfirst.append (ih _ (nextNumber number action))

end Runner

/-! ### Reports of refusals -/

/-- In whatever job, a line of the loop follows up on those before it in the log. -/
theorem followsUp_of_actLog {options : Options} {files : Files} {input : List (List Char)} {host : Host}
    {actions : List Action}
    (hinput : ∀ line ∈ input, '\n' ∉ line) {before after : List Event} {event : Event}
    (hlog : (Runner.ofOptions options files input host).actLog 1 actions = before ++ event :: after)
    (hspares : SparesLoop (before ++ event :: after)) : event.FollowsUp (loopTexts before) := by
  have hstart : (Runner.ofOptions options files input host).Remembers [] := ⟨rfl, rfl, hinput⟩
  obtain ⟨-, hrecalled⟩ := (Runner.ofOptions options files input host).recalls_act 1 actions [] (hlog ▸ hspares) hstart
  rw [hlog, recalled_append, List.nil_append] at hrecalled
  exact hrecalled.2.1

/-- What the report of a refusal marks, in an interactive loop and for inline code.  A line of the loop is refused under
its number among the lines of code so far, unless a file takes the place of the loop's source, and inline code under the
number of the line, between line feeds, at a character of which it is refused.  The report marks that line just if it is
one line for every kind of line break, and so is each line above it with its line feed. -/
theorem refusal_marks_iff (options : Options) (files : Files) (input : List (List Char)) (host : Host)
    (actions : List Action) (hinput : ∀ line ∈ input, '\n' ∉ line) (r : Runner) (code : List Char) (name : String) :
    let start := Runner.ofOptions options files input host
    let log := start.actLog 1 actions
    let inline : Feeding := ⟨r.setSource name [code], code, name, 1⟩
    (SparesLoop log → ∀ (before : List Event) (c : Feeding) (after : List Event),
      log = before ++ .fed c :: after → c.file = loopName → ∀ e, c.refusal? = some e →
        let history := loopTexts before
        c.IsShown e (start.act 1 actions).written ∧ e.start.line = (history.length + 1 : Int) ∧
        (c.Marks e (history.flatMap (· ++ ['\n'])) c.text ↔
          (∀ l ∈ history, IsOneLine (l ++ ['\n'])) ∧ IsOneLine c.text)) ∧
    ∀ e, inline.refusal? = some e →
      inline.IsShown e (r.runCode code name).written ∧
      ∃ (above : List (List Char)) (left right : List Char) (below : List (List Char)),
        code.splitOn '\n' = above ++ (left ++ right) :: below ∧
        e.start = ⟨1 + above.length, 1 + left.length⟩ ∧
        (inline.Marks e (above.flatMap (· ++ ['\n'])) (left ++ right) ↔
          (∀ l ∈ above, IsOneLine (l ++ ['\n'])) ∧ IsOneLine (left ++ right)) := by
  intro start log inline
  refine ⟨fun hspares before c after hlog hfile e he => ?_, fun e he => ?_⟩
  · have hmem : .fed c ∈ log := by
      rw [hlog]
      exact List.mem_append_right _ (List.mem_cons_self ..)
    have hlogs : start.Logs start.hasRoom _ _ := start.logs_act 1 actions
    have hreported := hlogs.reported c hmem _ (c.error?_of_refusal? he)
    obtain ⟨hfeed, hlines, hnumber⟩ := followsUp_of_actLog hinput hlog (hlog ▸ hspares) hfile
    rw [← hfile] at hlines
    obtain ⟨above, left, right, below, htext, hstart, hmarks⟩ := c.marks_iff hlines hnumber he
    -- the line of the loop is the only one between line feeds
    rw [List.splitOn_eq_singleton hfeed] at htext
    cases above with
    | cons l above => simp at htext
    | nil =>
      obtain ⟨hline, -⟩ := List.cons.inj htext
      rw [← hline, List.append_nil] at hmarks
      refine ⟨Feeding.isShown_of_subset hreported, ?_, hmarks⟩
      rw [hstart]
      exact Int.add_zero _
  · have hlines : inline.runner.sources.lines inline.file = [] ++ [inline.text] := r.lines_setSource name [code]
    have hnumber : inline.number = ([] : List (List Char)).length + 1 := rfl
    have hreported := (inline.runner.written_runLine code name 1 true).2 _ (inline.error?_of_refusal? he)
    obtain ⟨above, left, right, below, htext, hstart, hmarks⟩ := inline.marks_iff hlines hnumber he
    refine ⟨Feeding.isShown_of_subset hreported, above, left, right, below, htext, ?_, hmarks⟩
    simpa using hstart

/-- The line that is fed last in a log. -/
private def lastFed? (log : List Event) : Option Feeding :=
  match log.getLast? with
  | some (.fed c) => some c
  | _ => none

private theorem exists_of_lastFed? {log : List Event} {text : List Char} {file : String} {e : ParseError}
    (h : (lastFed? log).map (fun c => (c.text, c.file, c.refusal?)) = some (text, file, some e)) :
    ∃ c, lastFed? log = some c ∧ log = log.dropLast ++ [.fed c] ∧ c.text = text ∧ c.file = file ∧
      c.refusal? = some e := by
  obtain ⟨c, hc, hfields⟩ := Option.map_eq_some_iff.1 h
  simp only [Prod.mk.injEq] at hfields
  obtain ⟨htext, hfile, he⟩ := hfields
  refine ⟨c, hc, ?_, htext, hfile, he⟩
  unfold lastFed? at hc
  split at hc
  · rename_i hlast
    obtain rfl := Option.some.inj hc
    obtain ⟨before, rfl⟩ := List.getLast?_eq_some_iff.1 hlast
    rw [List.dropLast_concat]
  · cases hc

/-- A carriage return before the line feed is no break of its own, in a loop as in inline code. -/
theorem refusal_marks_iff_behind_return :
    let start := Runner.ofOptions {} (fun _ => .missing) ["1\r".toList, "[".toList]
    let log := start.actLog 1 [.loop]
    let inline : Feeding := ⟨start.setSource "code" ["1\r\n[".toList], "1\r\n[".toList, "code", 1⟩
    let e : ParseError := ⟨.unclosedArray, some "code", ⟨2, 1⟩⟩
    SparesLoop log ∧
    (∃ (before : List Event) (c : Feeding) (e : ParseError), log = before ++ [.fed c] ∧
      c.text = "[".toList ∧ c.file = loopName ∧ c.refusal? = some e ∧
      e.start.line = 2 ∧ c.Marks e "1\r\n".toList "[".toList) ∧
    inline.refusal? = some e ∧ inline.Marks e "1\r\n".toList "[".toList := by
  intro start log inline e
  have hspares : SparesLoop log := by
    have hpaths : log.filterMap Event.path? = [] := by decide +kernel
    unfold SparesLoop
    rw [hpaths]
    exact fun _ h => absurd h List.not_mem_nil
  have he : inline.refusal? = some e := by decide +kernel
  obtain ⟨hloop, hinline⟩ := refusal_marks_iff {} (fun _ => .missing) ["1\r".toList, "[".toList] {} [.loop] (by decide)
    start "1\r\n[".toList "code"
  refine ⟨hspares, ?_, he, ?_⟩
  · have hlast : (lastFed? log).map (fun c => (c.text, c.file, c.refusal?)) =
        some ("[".toList, loopName, some ⟨.unclosedArray, some loopName, ⟨2, 1⟩⟩) := by decide +kernel
    have hhistory : loopTexts log.dropLast = ["1\r".toList] := by decide +kernel
    obtain ⟨c, -, hlog, htext, hfile, he⟩ := exists_of_lastFed? hlast
    obtain ⟨-, hline, hmarks⟩ := hloop hspares log.dropLast c [] hlog hfile _ he
    rw [hhistory, htext] at hmarks
    exact ⟨log.dropLast, c, _, hlog, htext, hfile, he, rfl, hmarks.2 (by decide)⟩
  · obtain ⟨-, above, left, right, below, hcode, hstart, hmarks⟩ := hinline e he
    have hsplit : "1\r\n[".toList.splitOn '\n' = ["1\r".toList, "[".toList] := by decide +kernel
    have habove : above.length = 1 := by
      have hline : (2 : Int) = 1 + above.length := congrArg Position.line hstart
      omega
    obtain ⟨l, rfl⟩ := List.length_eq_one_iff.1 habove
    rw [hsplit] at hcode
    obtain ⟨rfl, hrest⟩ := List.cons.inj hcode
    obtain ⟨hline, -⟩ := List.cons.inj hrest
    rw [← hline] at hmarks
    exact hmarks.2 (by decide)

/-- The second of these lines is marked, which is not the last one. -/
private theorem marks_behind_formFeed {spot : Spot} (hspot : spot.shownLine = 2) :
    let lines := ["1\x0c".toList, "2\n".toList, "[".toList]
    spot.Marks lines "1\x0c".toList "2".toList ∧ ∀ above, ¬ spot.Marks lines above "[".toList := by
  intro lines
  have hmarks : spot.Marks lines "1\x0c".toList "2".toList := by
    refine ⟨["1\x0c".toList], "2\n".toList, ["[".toList], rfl, ?_, hspot.symm, rfl, by decide⟩
    rw [Spot.mem_shown_iff, hspot]
    decide
  exact ⟨hmarks, fun above h => absurd (hmarks.unique h).2 (by decide)⟩

/-- A form feed is a line break for the excerpt alone, so that the report of the second line marks what stands behind
the form feed in the first. -/
theorem refused_beside_line :
    let start := Runner.ofOptions {} (fun _ => .missing) ["1\x0c2".toList, "[".toList]
    let log := start.actLog 1 [.loop]
    let inline : Feeding := ⟨start.setSource "code" ["1\x0c2\n[".toList], "1\x0c2\n[".toList, "code", 1⟩
    let e : ParseError := ⟨.unclosedArray, some "code", ⟨2, 1⟩⟩
    (∃ (before : List Event) (c : Feeding) (e : ParseError), log = before ++ [.fed c] ∧
      c.text = "[".toList ∧ c.file = loopName ∧ c.refusal? = some e ∧
      c.Marks e "1\x0c".toList "2".toList ∧ ∀ above, ¬ c.Marks e above "[".toList) ∧
    inline.refusal? = some e ∧ "1\x0c2\n[".toList.splitOn '\n' = ["1\x0c2".toList, "[".toList] ∧
      inline.Marks e "1\x0c".toList "2".toList ∧ ∀ above, ¬ inline.Marks e above "[".toList := by
  intro start log inline e
  constructor
  · have hlast : (lastFed? log).map (fun c => (c.text, c.file, c.refusal?)) =
        some ("[".toList, loopName, some ⟨.unclosedArray, some loopName, ⟨2, 1⟩⟩) := by decide +kernel
    have hexcerpt : (lastFed? log).map (fun c => c.runner.excerptLines c.file) =
        some ["1\x0c".toList, "2\n".toList, "[".toList] := by decide +kernel
    obtain ⟨c, hc, hlog, htext, hfile, he⟩ := exists_of_lastFed? hlast
    rw [hc] at hexcerpt
    have hlines : c.runner.excerptLines c.file = ["1\x0c".toList, "2\n".toList, "[".toList] :=
      Option.some.inj hexcerpt
    refine ⟨log.dropLast, c, _, hlog, htext, hfile, he, ?_⟩
    unfold Feeding.Marks
    rw [hlines]
    exact marks_behind_formFeed rfl
  · have hexcerpt : inline.runner.excerptLines inline.file = ["1\x0c".toList, "2\n".toList, "[".toList] := by
      decide +kernel
    refine ⟨by decide +kernel, by decide +kernel, ?_⟩
    unfold Feeding.Marks
    rw [hexcerpt]
    exact marks_behind_formFeed rfl

end Shell

end Catena
