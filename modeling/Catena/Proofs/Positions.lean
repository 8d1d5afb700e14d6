import Catena.Proofs.Places
import Catena.Proofs.Reading

/-!
# Where the tokens of a program stand

Every token that is read from a source points at itself, also in the body of a definition, which is scanned apart from
the source that it is cut from.  Three steps lead there: lexemes stand in the source in a row (`Row`), a token stands
where its lexeme does, and a definition has its body between its colon and its semicolon (`Program.Placed`).  A refusal
for a lexeme that does not end points at the character that opens it.
-/

namespace Catena

open Catena.Text

/-- A lexeme stands in a source right behind `before`, and its position says so. -/
structure Piece.StandsBehind (source : List Char) (first : Int) (before : List Char) (q : Piece) : Prop where
  spells : Spells q.shape q.raw
  start_eq : q.start = Position.after ⟨first, 1⟩ before
  stands : before ++ q.raw <+: source

/-- Lexemes that stand one behind the other, from the index `lo` of a source up to `hi`. -/
inductive Row (source : List Char) (first : Int) : (lo hi : Nat) → List Piece → Prop where
  | nil {lo hi : Nat} (h : lo ≤ hi) : Row source first lo hi []
  | cons {lo hi : Nat} {before : List Char} {q : Piece} {pieces : List Piece} (hlo : lo ≤ before.length)
      (hq : q.StandsBehind source first before) (h : Row source first (before.length + q.raw.length) hi pieces) :
      Row source first lo hi (q :: pieces)

/-- Whether a token is a definition. -/
def Token.isDefinition : Token → Bool
  | .definition .. => true
  | _ => false

/-- The tokens of a program stand one behind the other, from the index `lo` of a source up to `hi`, where their origins
say, and those of a body stand between the colon and the semicolon of their definition. -/
inductive Program.Placed (source : List Char) (first : Int) : (lo hi : Nat) → Program → Prop where
  | nil {lo hi : Nat} (h : lo ≤ hi) : Placed source first lo hi []
  | plain {lo i j hi : Nat} {t : Token} {ts : Program} (hlo : lo ≤ i) (hij : i < j)
      (ho : t.origin.Spans source first i j) (ht : t.isDefinition = false) (hts : Placed source first j hi ts) :
      Placed source first lo hi (t :: ts)
  | definition {lo i j hi : Nat} {name : String} {body ts : Program} {o : Origin} (hlo : lo ≤ i)
      (ho : o.Spans source first i (j + 1)) (hopen : source[i]? = some ':') (hclose : source[j]? = some ';')
      (hbody : Placed source first (i + 1) j body) (hts : Placed source first (j + 1) hi ts) :
      Placed source first lo hi (.definition name body o :: ts)

/-- A refusal points at the character that it names. -/
def ParseError.PointsAtToken (source : List Char) (first : Int) (e : ParseError) : Prop :=
  ∃ i c, IsPlace source first e.start i ∧ source[i]? = some c ∧ e.cause.token = [c]

section

variable {source : List Char} {first : Int}

/-! ### Rows of lexemes -/

namespace Piece.StandsBehind

variable {before : List Char} {q : Piece}

theorem isPlace (h : q.StandsBehind source first before) : IsPlace source first q.start before.length := by
  obtain ⟨rest, rfl⟩ := h.stands
  rw [h.start_eq, List.append_assoc]
  exact isPlace_after before (q.raw ++ rest) first

/-- The origin of a lexeme names the stretch in which it stands. -/
theorem spans (h : q.StandsBehind source first before) (file : Option String) :
    (q.toLexeme file).origin.Spans source first before.length (before.length + q.raw.length) := by
  have hplace := h.isPlace
  obtain ⟨rest, rfl⟩ := h.stands
  refine ⟨q.start, q.raw, ?_, ?_, ?_, hplace, ?_, rfl⟩
  · rw [q.origin_toLexeme]
  · rw [q.origin_toLexeme]
  · rw [q.origin_toLexeme]
  · rw [List.append_assoc, List.drop_left]
    exact List.prefix_append _ _

/-- What stands in a lexeme stands in the source. -/
theorem getElem?_eq (h : q.StandsBehind source first before) {k : Nat} (hk : k < q.raw.length) :
    source[before.length + k]? = q.raw[k]? := by
  obtain ⟨rest, rfl⟩ := h.stands
  rw [List.append_assoc, List.getElem?_append_right (by omega), Nat.add_sub_cancel_left,
    List.getElem?_append_left hk]

end Piece.StandsBehind

theorem Row.mono {lo lo' hi : Nat} {pieces : List Piece} (h : Row source first lo hi pieces) (hlo : lo' ≤ lo) :
    Row source first lo' hi pieces := by
  cases h with
  | nil h => exact .nil (by omega)
  | cons hlo' hq h => exact .cons (by omega) hq h

theorem Row.standsBehind {lo hi : Nat} {pieces : List Piece} (h : Row source first lo hi pieces) {q : Piece}
    (hq : q ∈ pieces) : ∃ before, q.StandsBehind source first before := by
  induction h with
  | nil => cases hq
  | @cons lo hi before q' pieces hlo hq' h ih =>
    rcases List.mem_cons.1 hq with rfl | hq
    · exact ⟨before, hq'⟩
    · exact ih hq

/-- The lexemes of a layout stand in the source that the layout is part of. -/
private theorem Laid.row {segments : List Segment} {rest cs : List Char} (h : Laid segments rest cs)
    {before : List Char} (hs : before ++ cs <+: source) :
    Row source first before.length (before.length + cs.length)
      (piecesOf (Position.after ⟨first, 1⟩ before) segments) := by
  induction h generalizing before with
  | nil => exact .nil (by omega)
  | @cons gap text rest cs shape segments hg ht he h ih =>
    have hs' : before ++ gap ++ text ++ cs <+: source := by simpa using hs
    have hq : Piece.StandsBehind source first (before ++ gap)
        ⟨shape, text, (Position.after ⟨first, 1⟩ before).after gap⟩ :=
      ⟨ht, (Position.after_append ..).symm, (List.prefix_append _ cs).trans hs'⟩
    have hrow := ih hs'
    have hend : (before ++ gap ++ text).length + cs.length = before.length + (gap ++ (text ++ cs)).length := by
      simp only [List.length_append]
      omega
    rw [hend, List.append_assoc, Position.after_append] at hrow
    refine .cons (by simp) hq ?_
    rw [← List.length_append, List.append_assoc]
    exact hrow

/-- The lexemes that are found in a part of a source, counting on from the text before it, stand in that part. -/
theorem row_of_scan {before cs : List Char} (hs : before ++ cs <+: source) {pieces : List Piece}
    (h : scan (Position.after ⟨first, 1⟩ before) 0 cs = .ok pieces) :
    Row source first before.length (before.length + cs.length) pieces := by
  obtain ⟨segments, last, hl, rfl⟩ := scan_eq_ok_iff.1 h
  exact hl.1.row hs

/-- A lexeme that does not end is reported at the character that opens it. -/
theorem pointsAtToken_of_scan {before cs : List Char} (hs : before ++ cs <+: source) {u : Unclosed}
    (h : scan (Position.after ⟨first, 1⟩ before) 0 cs = .error u) (file : Option String) :
    ParseError.PointsAtToken source first ⟨.ofOpening u.opening, file, u.start⟩ := by
  obtain ⟨segments, gap, r, hl, -, hu, hstart⟩ := scan_eq_error_iff.1 h
  obtain ⟨rest, rfl⟩ := hs
  have htoken : ∀ c ∈ ['"', '[', ':'], (ParseCause.ofOpening c).token = [c] := forall_opening (by decide)
  have hsource : before ++ cs ++ rest =
      before ++ (segments.flatMap Segment.full ++ gap) ++ u.opening :: (r ++ rest) := by
    rw [hl.source_eq]
    simp
  rw [← Position.after_append] at hstart
  rw [hsource]
  refine ⟨_, u.opening, hstart ▸ isPlace_after _ _ first, ?_, htoken u.opening hu.1⟩
  rw [List.getElem?_append_right (Nat.le_refl _), Nat.sub_self]
  rfl

/-! ### Placed programs -/

namespace Program.Placed

variable {lo mid hi : Nat} {p ts : Program} {t : Token}

theorem le (h : Placed source first lo hi p) : lo ≤ hi := by
  induction h with
  | nil h => exact h
  | plain hlo hij ho ht hts ih => omega
  | definition hlo ho hopen hclose hbody hts ihbody ih => omega

theorem mono (h : Placed source first lo hi p) {lo' : Nat} (hlo : lo' ≤ lo) : Placed source first lo' hi p := by
  cases h with
  | nil h => exact .nil (by omega)
  | plain hlo' hij ho ht hts => exact .plain (by omega) hij ho ht hts
  | definition hlo' ho hopen hclose hbody hts => exact .definition (by omega) ho hopen hclose hbody hts

theorem cons (h : Placed source first lo mid [t]) (hts : Placed source first mid hi ts) :
    Placed source first lo hi (t :: ts) := by
  cases h with
  | plain hlo hij ho ht hnil => exact .plain hlo hij ho ht (hts.mono hnil.le)
  | definition hlo ho hopen hclose hbody hnil => exact .definition hlo ho hopen hclose hbody (hts.mono hnil.le)

private theorem origin_withTarget (t : Token) (j : Nat) : (t.withTarget j).origin = t.origin := by
  cases t <;> rfl

private theorem isDefinition_withTarget (t : Token) (j : Nat) : (t.withTarget j).isDefinition = t.isDefinition := by
  cases t <;> rfl

/-- Pairing moves no token. -/
theorem pairFrom (h : Placed source first lo hi p) (k : Nat) : Placed source first lo hi (pairFrom k p).1 := by
  induction h generalizing k with
  | nil h => exact .nil h
  | @plain lo i j hi t ts hlo hij ho ht hts ih =>
    rcases pairFrom_cons_cases k t ts with ⟨-, e⟩ | ⟨l, markers, -, -, e⟩ | ⟨-, -, e⟩
    · rw [e]
      exact .plain hlo hij ho ht (ih (k + 1))
    · rw [e]
      exact .plain hlo hij ((origin_withTarget t l).symm ▸ ho) ((isDefinition_withTarget t l).trans ht) (ih (k + 1))
    · rw [e]
      exact .plain hlo hij ho ht (ih (k + 1))
  | @definition lo i j hi name body ts o hlo ho hopen hclose hbody hts ihbody ih =>
    rcases pairFrom_cons_cases k (.definition name body o) ts with ⟨-, e⟩ | ⟨l, markers, -, -, e⟩ | ⟨-, -, e⟩
    all_goals
      rw [e]
      exact .definition hlo ho hopen hclose hbody (ih (k + 1))

end Program.Placed

theorem Token.IsPlain.isDefinition_eq_false {t : Token} (h : t.IsPlain) : t.isDefinition = false := by
  cases h <;> rfl

/-- Tokens that are read from a row of lexemes, each where its lexeme stands, are placed. -/
private theorem Row.placed {file : Option String} {read : Lexeme → Except ReadError Token} {lo hi : Nat}
    {pieces : List Piece} (h : Row source first lo hi pieces) {ts : Program}
    (hts : (pieces.map (Piece.toLexeme file)).mapM read = .ok ts)
    (hread : ∀ {q : Piece} {before : List Char} {t : Token}, q.StandsBehind source first before →
      read (q.toLexeme file) = .ok t →
      Program.Placed source first before.length (before.length + q.raw.length) [t]) :
    Program.Placed source first lo hi ts := by
  induction h generalizing ts with
  | nil h =>
    cases hts
    exact .nil h
  | cons hlo hq h ih =>
    obtain ⟨t, ts, ht, hrest, rfl⟩ := mapM_cons_eq_ok hts
    exact ((hread hq ht).cons (ih hrest)).mono hlo

/-- Right behind the colon of a definition. -/
private theorem Piece.StandsBehind.next {before : List Char} {q : Piece} (hq : q.StandsBehind source first before)
    (hd : q.shape = .definition) :
    (⟨q.start.line, q.start.column + 1⟩ : Position) = Position.after ⟨first, 1⟩ (before ++ [':']) ∧
      before ++ [':'] ++ inner q.raw <+: source := by
  have hspells := hq.spells
  rw [hd] at hspells
  obtain ⟨hraw, -⟩ := hspells.inner_definition
  constructor
  · rw [Position.after_append, ← hq.start_eq]
    rfl
  · have hstands := hq.stands
    rw [hraw] at hstands
    exact (List.prefix_append _ [';']).trans (by simpa using hstands)

/-- A token stands where its lexeme does. -/
theorem placed_readToken {depth : Nat} {file : Option String} {q : Piece} {before : List Char} {t : Token}
    (hq : q.StandsBehind source first before) (h : readToken depth (q.toLexeme file) = .ok t) :
    Program.Placed source first before.length (before.length + q.raw.length) [t] := by
  -- the depth goes down from a definition to its body
  induction depth using Nat.strongRecOn generalizing q before t with
  | ind depth ih =>
    have hspans := hq.spans file
    rw [← readToken_origin h] at hspans
    by_cases hd : q.shape = .definition
    · obtain ⟨hstart, hstands⟩ := hq.next hd
      obtain ⟨header, pieces, ts, hscan, -, -, rfl, hts⟩ := readToken_definition_cases hd h
      have hspells := hq.spells
      rw [hd] at hspells
      obtain ⟨hraw, -⟩ := hspells.inner_definition
      have hlength : q.raw.length = (inner q.raw).length + 2 := by
        rw [hraw, inner_delimited]
        simp
      -- the body stands behind the name
      rw [hstart] at hscan
      have hrow := row_of_scan hstands hscan
      have hplaced : Program.Placed source first (before.length + 1) (before.length + 1 + (inner q.raw).length) ts := by
        rw [List.length_append, List.length_singleton] at hrow
        cases hrow with
        | cons hlo hheader hrow =>
          rcases hts with ⟨-, rfl⟩ | ⟨d, rfl, hts⟩
          · exact .nil (by omega)
          · exact (hrow.mono (by omega)).placed hts fun hq h => ih d (by omega) hq h
      have hopen : source[before.length]? = some ':' := by
        have h0 := hq.getElem?_eq (k := 0) (by omega)
        rwa [hraw] at h0
      have hclose : source[before.length + 1 + (inner q.raw).length]? = some ';' := by
        have h1 := hq.getElem?_eq (k := 1 + (inner q.raw).length) (by omega)
        rw [hraw, inner_delimited] at h1
        rw [Nat.add_assoc, h1, Nat.add_comm 1, List.getElem?_cons_succ]
        simp
      have hend : before.length + q.raw.length = before.length + 1 + (inner q.raw).length + 1 := by omega
      rw [hend] at hspans ⊢
      exact .definition (Nat.le_refl _) hspans hopen hclose (hplaced.pairFrom 0) (.nil (Nat.le_refl _))
    · obtain ⟨c, u, hraw⟩ := hq.spells.exists_cons
      have hpos : before.length < before.length + q.raw.length := by
        rw [hraw, List.length_cons]
        omega
      exact .plain (Nat.le_refl _) hpos hspans (readToken_isPlain hq.spells hd h).1.isDefinition_eq_false
        (.nil (Nat.le_refl _))

/-! ### Refusals -/

/-- The causes for which a lexeme is refused where it starts: a number for itself, an array for an item, a definition
for want of a name, and a lexeme in the place of a name for the text that it counts for. -/
inductive Piece.IsRefused (q : Piece) : ParseCause → Prop where
  | number (hs : q.shape = .number) : IsRefused q (.malformedNumber q.raw)
  | item {text : List Char} (hs : q.shape = .array) (ht : text ∈ fields (strip (inner q.raw))) :
      IsRefused q (.malformedNumber text)
  | nameless (hs : q.shape = .definition) : IsRefused q .namelessDefinition
  | name (hs : q.shape ≠ .definition) (file : Option String) : IsRefused q (.invalidName (q.toLexeme file).text)

theorem ParseCause.isUnclosed_ofOpening (c : Char) : (ofOpening c).isUnclosed := by
  unfold ofOpening
  split
  · rfl
  · split <;> rfl

theorem Piece.IsRefused.isUnclosed_eq_false {q : Piece} {cause : ParseCause} (h : q.IsRefused cause) :
    cause.isUnclosed = false := by
  cases h <;> rfl

/-- A lexeme is refused for one that does not end within it, at the character that opens that, or else where a lexeme
stands in the source, which is the same one or within it. -/
theorem readToken_refusal {depth : Nat} {file : Option String} {q : Piece} {before : List Char} {e : ParseError}
    (hq : q.StandsBehind source first before) (h : readToken depth (q.toLexeme file) = .error (.refused e)) :
    e.cause.isUnclosed ∧ e.PointsAtToken source first ∨
      ∃ q' before', Piece.StandsBehind source first before' q' ∧ e.start = q'.start ∧ q'.IsRefused e.cause := by
  induction depth using Nat.strongRecOn generalizing q before with
  | ind depth ih =>
    obtain ⟨shape, raw, start⟩ := q
    unfold readToken at h
    cases shape with
    | number =>
      cases readNumber_eq_error (q := ⟨.number, raw, start⟩) (map_eq_error h)
      exact .inr ⟨_, before, hq, rfl, .number rfl⟩
    | string => cases h
    | array =>
      obtain ⟨text, ht, h⟩ := exists_of_mapM_eq_error (map_eq_error h)
      cases readNumber_eq_error (q := ⟨.array, raw, start⟩) h
      exact .inr ⟨_, before, hq, rfl, .item rfl ht⟩
    | symbol =>
      cases hb : Builtin.ofSpelling? (String.ofList raw) with
      | none =>
        simp only [Piece.toLexeme, Kind.ofSymbol, hb] at h
        cases h
      | some b =>
        simp only [Piece.toLexeme, Kind.ofSymbol, hb] at h
        cases h
    | definition =>
      obtain ⟨hstart, hstands⟩ := hq.next rfl
      have hspells : Spells .definition raw := hq.spells
      dsimp only [Piece.toLexeme] at h
      split at h
      · rename_i hsplit
        cases h
        rcases splitDefinition_eq_error (q := ⟨.definition, raw, start⟩) hsplit with
          ⟨u, hscan, he⟩ | he | ⟨header, pieces, hscan, he⟩
        · cases he
          rw [hstart] at hscan
          exact .inl ⟨ParseCause.isUnclosed_ofOpening u.opening, pointsAtToken_of_scan hstands hscan file⟩
        · cases he
          exact .inr ⟨_, before, hq, rfl, .nameless rfl⟩
        · cases he
          have hmem : header ∈ header :: pieces := List.mem_cons_self ..
          obtain ⟨hheader, hsub⟩ := spells_of_mem_scan hscan hmem
          have hshape : header.shape ≠ .definition :=
            shape_ne_definition hheader fun hc => hspells.inner_definition.2 (hsub hc)
          rw [hstart] at hscan
          obtain ⟨before', hstands'⟩ := (row_of_scan hstands hscan).standsBehind hmem
          exact .inr ⟨header, before', hstands', rfl, .name hshape file⟩
      · cases h
      · rename_i name body depth hsplit
        obtain ⟨header, pieces, hscan, -, -, -, rfl⟩ := splitDefinition_eq_ok (q := ⟨.definition, raw, start⟩) hsplit
        rw [hstart] at hscan
        obtain ⟨l, hl, hread⟩ := exists_of_mapM_eq_error (map_eq_error h)
        obtain ⟨q', hq', rfl⟩ := List.mem_map.1 hl
        obtain ⟨before', hstands'⟩ := (row_of_scan hstands hscan).standsBehind (List.mem_cons_of_mem header hq')
        exact ih depth (by omega) hstands' hread

end

/-! ### Programs -/

namespace Program

/-- The program itself, and the body of every definition in a program that it holds. -/
inductive Holds (p : Program) : Program → Prop where
  | self : Holds p p
  | body {q b : Program} {name : String} {o : Origin} (h : Holds p q) (hd : Token.definition name b o ∈ q) : Holds p b

variable {source : List Char} {first : Int} {lo hi : Nat} {p q : Program}

theorem placed_of_parse {file : Option String} {line : Int} (h : parse source file line = .ok p) :
    p.Placed source line 0 source.length := by
  unfold parse at h
  split at h
  · cases h
  · rename_i lexemes hl
    obtain ⟨pieces, hscan, rfl⟩ := lex_eq_ok hl
    obtain ⟨ts, hts, rfl⟩ := map_eq_ok h
    have hwhole : [] ++ source <+: source := List.prefix_rfl
    have hrow := row_of_scan hwhole hscan
    rw [List.length_nil, Nat.zero_add] at hrow
    exact (hrow.placed hts fun hq h => placed_readToken hq h).pairFrom 0

/-- A source is refused at the character that opens a lexeme without an end, or else where a lexeme stands in it. -/
theorem parse_refusal {file : Option String} {line : Int} {e : ParseError}
    (h : parse source file line = .error (.refused e)) :
    e.cause.isUnclosed ∧ e.PointsAtToken source line ∨
      ∃ q before, Piece.StandsBehind source line before q ∧ e.start = q.start ∧ q.IsRefused e.cause := by
  have hwhole : [] ++ source <+: source := List.prefix_rfl
  unfold parse at h
  split at h
  · rename_i u hl
    cases h
    exact .inl ⟨ParseCause.isUnclosed_ofOpening u.opening, pointsAtToken_of_scan hwhole (map_eq_error hl) file⟩
  · rename_i lexemes hl
    obtain ⟨pieces, hscan, rfl⟩ := lex_eq_ok hl
    obtain ⟨l, hmem, hread⟩ := exists_of_mapM_eq_error (map_eq_error h)
    obtain ⟨q, hq, rfl⟩ := List.mem_map.1 hmem
    obtain ⟨before, hstands⟩ := (row_of_scan hwhole hscan).standsBehind hq
    exact readToken_refusal hstands hread

private theorem unclosed_of_parse {file : Option String} {line : Int} {e : ParseError}
    (h : parse source file line = .error (.refused e)) (he : e.cause.isUnclosed) : e.PointsAtToken source line := by
  rcases parse_refusal h with ⟨-, hpoints⟩ | ⟨q, before, -, -, hq⟩
  · exact hpoints
  · rw [hq.isUnclosed_eq_false] at he
    cases he

namespace Placed

theorem exists_body (h : p.Placed source first lo hi) {name : String} {body : Program} {o : Origin}
    (hd : Token.definition name body o ∈ p) :
    ∃ i j, o.Spans source first i (j + 1) ∧ source[i]? = some ':' ∧ source[j]? = some ';' ∧
      body.Placed source first (i + 1) j := by
  induction h with
  | nil => cases hd
  | plain hlo hij ho ht hts ih =>
    rcases List.mem_cons.1 hd with rfl | hd
    · cases ht
    · exact ih hd
  | @definition lo i j hi name' body' ts o' hlo ho hopen hclose hbody hts ihbody ih =>
    rcases List.mem_cons.1 hd with hd | hd
    · cases hd
      exact ⟨i, j, ho, hopen, hclose, hbody⟩
    · exact ih hd

theorem exists_of_holds (h : p.Placed source first lo hi) (hq : p.Holds q) : ∃ lo hi, q.Placed source first lo hi := by
  induction hq with
  | self => exact ⟨lo, hi, h⟩
  | body _ hd ih =>
    obtain ⟨lo, hi, hq⟩ := ih
    obtain ⟨i, j, -, -, -, hb⟩ := hq.exists_body hd
    exact ⟨i + 1, j, hb⟩

/-- Every token has its stretch of the source, within the stretch of the program. -/
theorem exists_spans (h : p.Placed source first lo hi) {t : Token} (ht : t ∈ p) :
    ∃ i j, lo ≤ i ∧ i < j ∧ j ≤ hi ∧ t.origin.Spans source first i j := by
  induction h with
  | nil => cases ht
  | @plain lo i j hi t' ts hlo hij ho _ hts ih =>
    rcases List.mem_cons.1 ht with rfl | ht
    · exact ⟨i, j, hlo, hij, hts.le, ho⟩
    · obtain ⟨i', j', hi', hij', hj', ho'⟩ := ih ht
      exact ⟨i', j', by omega, hij', hj', ho'⟩
  | @definition lo i j hi name body ts o hlo ho _ _ hbody hts _ ih =>
    have hle := hbody.le
    rcases List.mem_cons.1 ht with rfl | ht
    · exact ⟨i, j + 1, hlo, by omega, hts.le, ho⟩
    · obtain ⟨i', j', hi', hij', hj', ho'⟩ := ih ht
      exact ⟨i', j', by omega, hij', hj', ho'⟩

private theorem le_of_mem {i j : Nat} {o : Origin} (ho : o.Spans source first i j) (h : p.Placed source first j hi)
    {u : Token} (hu : u ∈ p) {i₁ j₁ i₂ j₂ : Nat} (h₁ : o.Spans source first i₁ j₁)
    (h₂ : u.origin.Spans source first i₂ j₂) : j₁ ≤ i₂ := by
  obtain ⟨i', j', hle, -, -, ho'⟩ := h.exists_spans hu
  obtain ⟨-, rfl⟩ := ho.unique h₁
  obtain ⟨rfl, -⟩ := ho'.unique h₂
  exact hle

/-- No token starts before those that come before it have ended. -/
theorem pairwise (h : p.Placed source first lo hi) :
    p.Pairwise fun t u =>
      ∀ i j i' j', t.origin.Spans source first i j → u.origin.Spans source first i' j' → j ≤ i' := by
  induction h with
  | nil => exact .nil
  | plain _ _ ho _ hts ih => exact .cons (fun u hu _ _ _ _ h₁ h₂ => le_of_mem ho hts hu h₁ h₂) ih
  | definition _ ho _ _ _ hts _ ih => exact .cons (fun u hu _ _ _ _ h₁ h₂ => le_of_mem ho hts hu h₁ h₂) ih

end Placed

/-- Positions are absolute.  In a program that is read, and in the body of every definition in it, each token names the
stretch of the source in which it stands, the tokens of a list stand one behind the other, and those of a body stand
between the colon and the semicolon of their definition.  A source that is refused for a lexeme without an end is
refused at the character that opens it. -/
theorem parse_positions (source : List Char) (file : Option String) (line : Int) :
    (∀ p, parse source file line = .ok p → ∀ q, p.Holds q →
      (∀ t ∈ q, ∃ i j, i < j ∧ t.origin.Spans source line i j) ∧
      (q.Pairwise fun t u => ∀ i j i' j', t.origin.Spans source line i j → u.origin.Spans source line i' j' → j ≤ i') ∧
      (∀ name body o, Token.definition name body o ∈ q → ∀ i j, o.Spans source line i j →
        source[i]? = some ':' ∧ source[j - 1]? = some ';' ∧
        ∀ t ∈ body, ∀ i' j', t.origin.Spans source line i' j' → i < i' ∧ j' < j)) ∧
    (∀ e, parse source file line = .error (.refused e) → e.cause.title = "ArrUnmatchedDelimiter" →
      e.PointsAtToken source line) := by
  constructor
  · intro p h q hq
    obtain ⟨lo, hi, hplaced⟩ := (placed_of_parse h).exists_of_holds hq
    refine ⟨fun t ht => ?_, hplaced.pairwise, fun name body o hd i j ho => ?_⟩
    · obtain ⟨i, j, -, hij, -, ho⟩ := hplaced.exists_spans ht
      exact ⟨i, j, hij, ho⟩
    · obtain ⟨i₀, j₀, ho₀, hopen, hclose, hbody⟩ := hplaced.exists_body hd
      obtain ⟨rfl, rfl⟩ := ho₀.unique ho
      refine ⟨hopen, hclose, fun t ht i' j' ho' => ?_⟩
      obtain ⟨i₁, j₁, hlo, -, hhi, ho₁⟩ := hbody.exists_spans ht
      obtain ⟨rfl, rfl⟩ := ho₁.unique ho'
      omega
  · intro e h htitle
    have hcause : e.cause.isUnclosed := by
      unfold ParseCause.title at htitle
      split at htitle
      · assumption
      · exact absurd htitle (by decide)
    exact unclosed_of_parse h hcause

end Program

end Catena
