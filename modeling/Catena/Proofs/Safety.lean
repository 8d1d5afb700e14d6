import Catena.Proofs.Reading
import Catena.Proofs.Termination
import Catena.Session

/-!
# What a line can fail with

All bodies in the dictionary of a session come from sources that were read: they jump ahead, and each of their tokens
has a text (`Session.IsSound`).  Every line, push and reset keeps it so.  On such a dictionary a line is refused by the
reader or fails with a fault of the language, or else the host has no room for its calls; and nothing else can go wrong
(`Session.Reachable.error?_execute`).

The host gives out only where calls down to the limit on the depth do not all fit (`Session.hasRoom`).  Nothing ties the
limit to the host: with room for a thousand frames the default limit is one that repetitions do not get to.
-/

namespace Catena

/-! ### Programs that are read -/

theorem Program.textless?_eq_none_iff {p : Program} : Program.textless? p = none ↔ ∀ t ∈ p, t.textless? = none := by
  constructor
  · intro h
    induction p with
    | nil => simp
    | cons t ts ih =>
      rw [Program.textless?, Option.or_eq_none_iff] at h
      intro u hu
      rcases List.mem_cons.1 hu with rfl | hu
      · exact h.1
      · exact ih h.2 u hu
  · intro h
    cases hp : Program.textless? p with
    | none => rfl
    | some name =>
      obtain ⟨t, ht, hn⟩ := Program.exists_of_textless? hp
      rw [h t ht] at hn
      cases hn

private theorem Token.textless?_withTarget (t : Token) (j : Nat) : (t.withTarget j).textless? = t.textless? := by
  cases t with
  | builtin ref target origin => cases ref <;> rfl
  | _ => rfl

theorem Program.textless?_pair {ts : Program} (h : ∀ t ∈ ts, t.textless? = none) :
    Program.textless? (Program.pair ts) = none := by
  rw [Program.textless?_eq_none_iff]
  intro t ht
  obtain ⟨u, hu, e⟩ := Program.exists_of_mem_pair Token.textless?_withTarget ht
  rw [← e, h u hu]

theorem Token.IsPlain.textless?_eq_none {t : Token} (h : t.IsPlain) : t.textless? = none := by cases h <;> rfl

/-- A program that evaluation gets through without failing to show it: it jumps ahead, and its tokens have a text. -/
def Program.IsSound (p : Program) : Prop := p.JumpsAhead ∧ Program.textless? p = none

theorem Token.IsRead.isSound_body {name : String} {body : Program} {origin : Origin}
    (h : (Token.definition name body origin).IsRead) : body.IsSound := by
  cases h with
  | plain h => cases h
  | @definition _ ts _ hs hb hname hts =>
    exact ⟨Program.pair_jumpsAhead fun t ht => (hts t ht).1.isFresh,
      Program.textless?_pair fun t ht => (hts t ht).1.textless?_eq_none⟩

theorem Token.IsRead.textless?_eq_none {t : Token} (h : t.IsRead) : t.textless? = none := by
  cases t with
  | definition name body origin => exact h.isSound_body.2
  | _ =>
    cases h with
    | plain h => exact h.textless?_eq_none

theorem Program.isSound_pair {ts : Program} (h : ∀ t ∈ ts, t.IsRead) : (Program.pair ts).IsSound :=
  ⟨Program.pair_jumpsAhead fun t ht => (h t ht).isFresh, Program.textless?_pair fun t ht => (h t ht).textless?_eq_none⟩

/-- The definition that a token is. -/
private def Token.definition? : Token → Option (String × Program)
  | .definition name body _ => some (name, body)
  | _ => none

private theorem definitionsOf_eq (p : Program) : definitionsOf p = (p.map Token.definition?).filterMap id := by
  unfold definitionsOf
  rw [List.filterMap_map]
  rfl

theorem mem_of_mem_definitionsOf {p : Program} {e : String × Program} (he : e ∈ definitionsOf p) :
    ∃ origin, Token.definition e.1 e.2 origin ∈ p := by
  unfold definitionsOf at he
  obtain ⟨t, ht, hdef⟩ := List.mem_filterMap.1 he
  cases t with
  | definition name body origin =>
    cases hdef
    exact ⟨origin, ht⟩
  | _ => cases hdef

/-- The definitions of a source are those of its definition tokens. -/
theorem exists_of_mem_definitionsOf {ts : Program} {e : String × Program} (he : e ∈ definitionsOf (Program.pair ts)) :
    ∃ origin, Token.definition e.1 e.2 origin ∈ ts := by
  have hwith : ∀ (t : Token) j, (t.withTarget j).definition? = t.definition? := by
    intro t j
    cases t <;> rfl
  rw [definitionsOf_eq, Program.map_pair hwith, ← definitionsOf_eq] at he
  exact mem_of_mem_definitionsOf he

section

variable {P : Token → Prop} (hwith : ∀ t j, P (t.withTarget j) ↔ P t) {file : Option String} {line : Int}
  (hread : ∀ {depth : Nat} {q : Piece} {t : Token}, Spells q.shape q.raw → line ≤ q.start.line →
    readToken depth (q.toLexeme file) = .ok t → P t)

include hwith in
theorem Program.forall_pair {ts : Program} (h : ∀ t ∈ ts, P t) : ∀ t ∈ Program.pair ts, P t := by
  intro t ht
  obtain ⟨u, hu, e⟩ := Program.exists_of_mem_pair (fun t j => propext (hwith t j)) ht
  exact e ▸ h u hu

include hwith hread in
/-- The body of a definition starts on the line of the definition. -/
private theorem forall_body {depth : Nat} {q : Piece} (hspells : Spells q.shape q.raw) (hq : line ≤ q.start.line)
    {name : String} {body : Program} {o : Origin}
    (h : readToken depth (q.toLexeme file) = .ok (.definition name body o)) : ∀ t ∈ body, P t := by
  have hd : q.shape = .definition := by
    refine Decidable.byContradiction fun hd => ?_
    cases (readToken_isPlain hspells hd h).1
  obtain ⟨header, pieces, ts, hscan, -, -, heq, hts⟩ := readToken_definition_cases hd h
  obtain ⟨-, rfl, -⟩ := Token.definition.inj heq
  refine Program.forall_pair hwith fun t ht => ?_
  rcases hts with ⟨-, rfl⟩ | ⟨d, -, hts⟩
  · cases ht
  · obtain ⟨l, hl, ht⟩ := exists_of_mem_mapM hts ht
    obtain ⟨q', hmem, rfl⟩ := List.mem_map.1 hl
    have hmem' := List.mem_cons_of_mem header hmem
    have hle := (line_le_of_scan _ _ _).1 _ hscan q' hmem'
    exact hread (spells_of_mem_scan hscan hmem').1 (Int.le_trans hq hle) ht

include hwith hread in
/-- What holds of every token that is read from a lexeme holds of the tokens of a source, also of those in the bodies of
its definitions. -/
theorem Program.forall_of_parse {source : List Char} {p : Program} (h : Program.parse source file line = .ok p) :
    (∀ t ∈ p, P t) ∧ ∀ e ∈ definitionsOf p, ∀ t ∈ e.2, P t := by
  unfold Program.parse at h
  split at h
  · cases h
  · rename_i lexemes hl
    obtain ⟨pieces, hscan, rfl⟩ := lex_eq_ok hl
    obtain ⟨ts, hts, rfl⟩ := map_eq_ok h
    -- each token has its lexeme, on the first line or below it
    have hpiece : ∀ t ∈ ts, ∃ (depth : Nat) (q : Piece), Spells q.shape q.raw ∧ line ≤ q.start.line ∧
        readToken depth (q.toLexeme file) = .ok t := by
      intro t ht
      obtain ⟨l, hmem, hread⟩ := exists_of_mem_mapM hts ht
      obtain ⟨q, hq, rfl⟩ := List.mem_map.1 hmem
      exact ⟨_, q, (spells_of_mem_scan hscan hq).1, (line_le_of_scan _ _ _).1 _ hscan q hq, hread⟩
    refine ⟨Program.forall_pair hwith fun t ht => ?_, fun e he => ?_⟩
    · obtain ⟨depth, q, hs, hq, ht⟩ := hpiece t ht
      exact hread hs hq ht
    · obtain ⟨origin, ht⟩ := exists_of_mem_definitionsOf he
      obtain ⟨depth, q, hs, hq, ht⟩ := hpiece _ ht
      exact forall_body hwith hread hs hq ht

end

theorem exists_isRead_of_mem_definitionsOf {ts : Program} (h : ∀ t ∈ ts, t.IsRead) {e : String × Program}
    (he : e ∈ definitionsOf (Program.pair ts)) : ∃ origin, (Token.definition e.1 e.2 origin).IsRead := by
  obtain ⟨origin, ht⟩ := exists_of_mem_definitionsOf he
  exact ⟨origin, h _ ht⟩

/-- The definitions of a source that is read have sound bodies. -/
theorem isSound_of_mem_definitionsOf {ts : Program} (h : ∀ t ∈ ts, t.IsRead) {e : String × Program}
    (he : e ∈ definitionsOf (Program.pair ts)) : e.2.IsSound := by
  obtain ⟨origin, hread⟩ := exists_isRead_of_mem_definitionsOf h he
  exact hread.isSound_body

/-- A program that is read from a source is sound, and so are the bodies of its definitions. -/
theorem Program.isSound_of_parse {source : List Char} {file : Option String} {line : Int} {p : Program}
    (h : Program.parse source file line = .ok p) : p.IsSound ∧ ∀ e ∈ definitionsOf p, e.2.IsSound := by
  obtain ⟨ts, rfl, hts⟩ := Program.parse_eq_ok h
  exact ⟨Program.isSound_pair hts, fun e he => isSound_of_mem_definitionsOf hts he⟩

theorem Program.IsSound.unspelled?_eq_none {p : Program} (hp : p.IsSound) {t : Token} (ht : t ∈ p) :
    t.unspelled? = none := by
  have htext := Program.textless?_eq_none_iff.1 hp.2 t ht
  cases t with
  | definition => rfl
  | _ => simpa [Token.textless?] using htext

/-- The fault that a run ends with, and what it is blamed on. -/
def Run.blamed? : Run Failure → Option (Fault × Blame)
  | .halted (.fault cause blame) _ => some (cause, blame)
  | _ => none

theorem Run.eq_halted_of_blamed? {r : Run Failure} {cause : Fault} {blame : Blame}
    (h : r.blamed? = some (cause, blame)) : ∃ m, r = .halted (.fault cause blame) m := by
  cases r with
  | done m => cases h
  | halted why m =>
    cases why with
    | fault cause' blame' =>
      cases h
      exact ⟨m, rfl⟩
    | _ => cases h

theorem Program.IsSound.isKnown {p : Program} (hp : p.IsSound) {t : Token} (ht : t ∈ p) : t.isKnown := by
  have htext := hp.unspelled?_eq_none ht
  cases t with
  | builtin ref target origin =>
    cases ref with
    | known b => rfl
    | named name => cases htext
  | _ => rfl

/-- A run of sound programs can only fail with a fault, or for want of room in the host. -/
theorem interpret_eq_halted {s : Settings} (hs : s.words.Forall Program.IsSound) {p : Program} (hp : p.IsSound)
    {m m' : Machine} {why : Failure} (h : interpret s p m = .halted why m') :
    (∃ cause blame, why = .fault cause blame) ∨ why = .overflowed ∧ s.hasRoomToLimit = false := by
  have hparts : ∀ q, (q = p ∨ ∃ name, s.words.body? name = some q) → q.IsSound := by
    rintro q (rfl | ⟨name, hb⟩)
    · exact hp
    · exact hs.body? hb
  rcases interpret_halted (fun name body hb => (hs.body? hb).1) hp.1 h with
    hfault | ⟨q, hq, t, ht, name, hn, -⟩ | ⟨hwhy, hroom⟩
  · exact .inl hfault
  · rw [Program.textless?_eq_none_iff.1 (hparts q hq).2 t ht] at hn
    cases hn
  · exact .inr ⟨hwhy, hroom fun q hq t ht => (hparts q hq).isKnown ht⟩

/-! ### Sessions -/

/-- A line says whether it succeeded, unless its error escapes. -/
theorem Executed.result_cases (e : Executed) :
    (e.result = .ok e.error?.isNone ∧ ∀ error, e.error? = some error → error.escapes = false) ∨
    ∃ error, e.error? = some error ∧ error.escapes = true ∧ e.result = .error error := by
  unfold Executed.result
  cases e.error? with
  | none => exact .inl ⟨rfl, fun _ h => nomatch h⟩
  | some error =>
    cases hescapes : error.escapes with
    | false =>
      refine .inl ⟨by simp [hescapes], ?_⟩
      rintro _ ⟨⟩
      exact hescapes
    | true => exact .inr ⟨error, rfl, hescapes, by simp [hescapes]⟩

namespace Session

/-- Every body in the dictionary is sound. -/
def IsSound (s : Session) : Prop := s.words.Forall Program.IsSound

/-- Whether the host of a session has room for all calls down to the limit on the depth, at the given verbosity. -/
def hasRoom (s : Session) (verbosity : Nat) : Bool :=
  Settings.hasRoomToLimit { maxDepth := s.maxDepth, verbosity, host := s.host }

/-- What feeding a line to a sound session leads to: a sound session, and an error only of the language or of a host
that is short of room. -/
theorem IsSound.execute {s : Session} (hs : s.IsSound) (line : Line) (verbosity : Nat) (tally : Tally) :
    (s.execute line verbosity tally).session.IsSound ∧
    ∀ e, (s.execute line verbosity tally).error? = some e →
      (∃ refusal, e = .unread (.refused refusal)) ∨ (∃ cause blame, e = .failed (.fault cause blame)) ∨
        e = .failed .overflowed ∧ s.hasRoom verbosity = false := by
  unfold Session.execute
  cases hp : Program.parse line.text line.file line.number with
  | error e =>
    refine ⟨hs, ?_⟩
    intro e' he
    cases he
    have href := Program.parse_refused hp
    cases e with
    | refused refusal => exact .inl ⟨refusal, rfl⟩
    | originLacks field => exact href.elim
  | ok p =>
    obtain ⟨ts, rfl, hts⟩ := Program.parse_eq_ok hp
    have hwords : (s.words.insertAll (definitionsOf (Program.pair ts))).Forall Program.IsSound :=
      Words.Forall.insertAll hs fun e he => isSound_of_mem_definitionsOf hts he
    refine ⟨hwords, ?_⟩
    dsimp only
    intro e he
    split at he
    · cases he
    · rename_i why m hrun
      cases he
      rcases interpret_eq_halted hwords (Program.isSound_pair hts) hrun with ⟨cause, blame, rfl⟩ | ⟨rfl, hroom⟩
      · exact .inr (.inl ⟨cause, blame, rfl⟩)
      · exact .inr (.inr ⟨rfl, hroom⟩)

/-- An error that escapes a sound session is that of a host that is short of room. -/
theorem IsSound.eq_of_escapes {s : Session} (hs : s.IsSound) {line : Line} {verbosity : Nat} {tally : Tally}
    {e : LineError} (he : (s.execute line verbosity tally).error? = some e) (hescapes : e.escapes = true) :
    e = .failed .overflowed ∧ s.hasRoom verbosity = false := by
  rcases (hs.execute line verbosity tally).2 e he with ⟨refusal, rfl⟩ | ⟨cause, blame, rfl⟩ | hover
  · cases hescapes
  · cases hescapes
  · exact hover

/-- What running a line comes to: it says whether the line succeeded, or the error of the line escapes. -/
theorem runLine_cases (s : Session) (line : Line) :
    ((s.runLine line).2.2 = .ok (s.execute line 0 .off).error?.isNone ∧
      ∀ e, (s.execute line 0 .off).error? = some e → e.escapes = false) ∨
    ∃ e, (s.execute line 0 .off).error? = some e ∧ e.escapes = true ∧ (s.runLine line).2.2 = .error e :=
  (s.execute line 0 .off).result_cases

theorem runLine_fst (s : Session) (line : Line) : (s.runLine line).1 = (s.execute line 0 .off).session := rfl

/-- Lines are run up to the first from which an error escapes. -/
theorem runLines_cons (s : Session) (file : Option String) (n : Nat) (text : List Char) (texts : List (List Char)) :
    (∃ succeeded, (s.runLine ⟨text, file, n⟩).2.2 = .ok succeeded ∧
      (s.runLines file n (text :: texts)).1 = ((s.runLine ⟨text, file, n⟩).1.runLines file (n + 1) texts).1 ∧
      (s.runLines file n (text :: texts)).2.2 =
        ((s.runLine ⟨text, file, n⟩).1.runLines file (n + 1) texts).2.2.map ((if succeeded then 0 else 1) + ·)) ∨
    ∃ e, (s.runLine ⟨text, file, n⟩).2.2 = .error e ∧
      (s.runLines file n (text :: texts)).1 = (s.runLine ⟨text, file, n⟩).1 ∧
      (s.runLines file n (text :: texts)).2.2 = .error e := by
  rw [runLines]
  generalize s.runLine ⟨text, file, n⟩ = line
  obtain ⟨s', output, result⟩ := line
  cases result with
  | error e => exact .inr ⟨e, rfl, rfl, rfl⟩
  | ok succeeded => exact .inl ⟨succeeded, rfl, rfl, rfl⟩

theorem IsSound.runLine {s : Session} (hs : s.IsSound) (line : Line) : (s.runLine line).1.IsSound :=
  (hs.execute line 0 .off).1

theorem IsSound.runLines {s : Session} (hs : s.IsSound) (file : Option String) (n : Nat) (texts : List (List Char)) :
    (s.runLines file n texts).1.IsSound := by
  induction texts generalizing s n with
  | nil => exact hs
  | cons text texts ih =>
    have hline := hs.runLine ⟨text, file, n⟩
    rcases s.runLines_cons file n text texts with ⟨_, -, hsession, -⟩ | ⟨_, -, hsession, -⟩
    · exact hsession ▸ ih hline (n + 1)
    · exact hsession ▸ hline

theorem IsSound.push {s : Session} (hs : s.IsSound) (values : List Plain) : (s.push values).1.IsSound := by
  induction values generalizing s with
  | nil => exact hs
  | cons p ps ih =>
    unfold Session.push
    split
    · exact ih hs
    · exact hs

/-- The sessions that come of lines, pushes and resets. -/
inductive Reachable : Session → Prop where
  | start (debug strict : Bool) (maxDepth : Int) (host : Host) : Reachable { debug, strict, maxDepth, host }
  | execute {s : Session} (h : Reachable s) (line : Line) (verbosity : Nat) (tally : Tally) :
      Reachable (s.execute line verbosity tally).session
  | runLine {s : Session} (h : Reachable s) (line : Line) : Reachable (s.runLine line).1
  | load {s : Session} (h : Reachable s) (source : List Char) (file : Option String) : Reachable (s.load source file).1
  | push {s : Session} (h : Reachable s) (values : List Plain) : Reachable (s.push values).1
  | reset {s : Session} (h : Reachable s) : Reachable s.reset

theorem Reachable.isSound {s : Session} (h : s.Reachable) : s.IsSound := by
  induction h with
  | start => exact Words.forall_empty
  | execute _ line verbosity tally ih => exact (ih.execute line verbosity tally).1
  | runLine _ line ih => exact ih.runLine line
  | load _ source file ih => exact ih.runLines file 1 _
  | push _ values ih => exact ih.push values
  | reset => exact Words.forall_empty

/-- A thousand frames do not get a word that repeats itself down to the default limit. -/
example :
    (Session.execute { host := { frames? := some 1000 } } ⟨": f 1 do f ; f".toList, none, 1⟩ 0 .off).error? =
      some (.failed .overflowed) := by decide +kernel

end Session

end Catena
