import Catena.Proofs.Scanning

/-!
# The grammar of a source

A source is a row of segments, each of them a gap of blanks and comments and then a lexeme, with a last gap at its end.
`Laid` says so of the segments, and `IsLayout` of the whole.

* From every text segments can be taken until it is over or a lexeme starts that does not end
  (`exists_layout_or_unclosed`).
* A text has one layout at most (`IsLayout.unique`).
* The scanner follows the segments (`Laid.scan_eq`), so that it succeeds just on the texts that have a layout
  (`scan_eq_ok_iff`) and on all others finds the lexeme that does not end (`scan_eq_error_iff`).
-/

namespace Catena

open Catena.Text

/-! ### Gaps -/

/-- The text starts with a line feed, unless it is over. -/
def EndsLine (t : List Char) : Prop := ∀ c, t.head? = some c → c = '\n'

/-- Blanks and comments, in a source that goes on with `rest` after them.  A comment runs up to the next line feed or
to the end of the source. -/
inductive IsSpacing : List Char → (rest : List Char) → Prop where
  | nil {rest : List Char} : IsSpacing [] rest
  | blank {c : Char} {g rest : List Char} (hc : isBlank c) (hg : IsSpacing g rest) : IsSpacing (c :: g) rest
  | comment {u g rest : List Char} (hu : '\n' ∉ u) (he : EndsLine (g ++ rest)) (hg : IsSpacing g rest) :
      IsSpacing ('#' :: (u ++ g)) rest

/-- A lexeme starts here, or the text is over. -/
def StartsLexeme (t : List Char) : Prop := ∀ c, t.head? = some c → isBlank c = false ∧ c ≠ '#'

theorem Spells.startsLexeme {shape : Shape} {text : List Char} (h : Spells shape text) (rest : List Char) :
    StartsLexeme (text ++ rest) := by
  obtain ⟨c, u, rfl⟩ := h.exists_cons
  intro d hd
  obtain rfl : c = d := by simpa using hd
  exact h.head

private theorem takeWhile_of_endsLine {u t : List Char} (hu : '\n' ∉ u) (ht : EndsLine t) :
    (u ++ t).takeWhile (· ≠ '\n') = u := by
  have hnil : t.takeWhile (· ≠ '\n') = [] := by
    cases t with
    | nil => rfl
    | cons c t => simp [ht c rfl]
  have hall : ∀ c ∈ u, decide (c ≠ '\n') = true := by
    intro c hc
    have hne : c ≠ '\n' := fun e => hu (e ▸ hc)
    simpa using hne
  rw [List.takeWhile_append_of_pos hall, hnil, List.append_nil]

/-- A comment is the whole rest of its line. -/
private theorem comment_unique {u u' t t' : List Char} (hu : '\n' ∉ u) (hu' : '\n' ∉ u') (ht : EndsLine t)
    (ht' : EndsLine t') (h : u ++ t = u' ++ t') : u = u' ∧ t = t' := by
  have huu : u = u' := by rw [← takeWhile_of_endsLine hu ht, h, takeWhile_of_endsLine hu' ht']
  subst huu
  exact ⟨rfl, List.append_cancel_left h⟩

private theorem IsSpacing.eq_nil {g rest : List Char} (h : IsSpacing g rest) (hs : StartsLexeme (g ++ rest)) :
    g = [] := by
  cases h with
  | nil => rfl
  | @blank c g rest hc =>
    have hb := (hs c rfl).1
    rw [hc] at hb
    cases hb
  | comment => exact absurd rfl (hs '#' rfl).2

/-- A gap takes all blanks and comments before a lexeme. -/
theorem IsSpacing.unique {g g' t t' : List Char} (h : IsSpacing g t) (h' : IsSpacing g' t') (ht : StartsLexeme t)
    (ht' : StartsLexeme t') (e : g ++ t = g' ++ t') : g = g' ∧ t = t' := by
  induction h generalizing g' with
  | @nil t =>
    obtain rfl : t = g' ++ t' := e
    obtain rfl := h'.eq_nil ht
    exact ⟨rfl, rfl⟩
  | @blank c g t hc hg ih =>
    cases h' with
    | nil =>
      have hnil := (IsSpacing.blank hc hg).eq_nil (e ▸ ht')
      cases hnil
    | blank _ hg' =>
      rw [List.cons_append, List.cons_append, List.cons.injEq] at e
      obtain ⟨rfl, e⟩ := e
      obtain ⟨rfl, rfl⟩ := ih hg' ht e
      exact ⟨rfl, rfl⟩
    | comment =>
      obtain ⟨rfl, -⟩ := List.cons.inj e
      exact absurd hc (by decide)
  | @comment u g t hu he hg ih =>
    cases h' with
    | nil =>
      have hnil := (IsSpacing.comment hu he hg).eq_nil (e ▸ ht')
      cases hnil
    | blank hc =>
      obtain ⟨rfl, -⟩ := List.cons.inj e
      exact absurd hc (by decide)
    | @comment u' g' _ hu' he' hg' =>
      rw [List.cons_append, List.cons_append, List.cons.injEq, List.append_assoc, List.append_assoc] at e
      obtain ⟨rfl, erest⟩ := comment_unique hu hu' he he' e.2
      obtain ⟨rfl, rfl⟩ := ih hg' ht erest
      exact ⟨rfl, rfl⟩

/-- The scanner passes over a gap. -/
theorem IsSpacing.scan_eq {g rest : List Char} (h : IsSpacing g rest) (p : Position) :
    scan p 0 (g ++ rest) = scan (p.after g) 0 rest := by
  induction h generalizing p with
  | nil => rfl
  | @blank c g rest hc hg ih =>
    rw [List.cons_append, scan_cons_of_isBlank hc, ih]
    rfl
  | @comment u g rest hu he hg ih =>
    have hb : isBlank '#' = false := by decide
    rw [List.cons_append, List.append_assoc, scan]
    simp only [hb, Bool.false_eq_true, ↓reduceIte, takeWhile_of_endsLine hu he, scan_append, ih]
    rw [← Position.after_append]
    rfl

/-- Every text is a gap and then over, or a gap and then a lexeme. -/
theorem exists_spacing (source : List Char) :
    ∃ g t, source = g ++ t ∧ IsSpacing g t ∧ StartsLexeme t := by
  -- a comment is passed over as a whole, so that the text may get shorter by more than one character
  induction hn : source.length using Nat.strongRecOn generalizing source with
  | ind n ih =>
    cases source with
    | nil => exact ⟨[], [], rfl, .nil, by simp [StartsLexeme]⟩
    | cons c r =>
      rw [List.length_cons] at hn
      by_cases hb : isBlank c
      · obtain ⟨g, t, rfl, hg, ht⟩ := ih r.length (by omega) r rfl
        exact ⟨c :: g, t, rfl, .blank hb hg, ht⟩
      · by_cases hc : c = '#'
        · subst hc
          have hlen := (List.dropWhile_suffix (· ≠ '\n') (l := r)).length_le
          obtain ⟨g, t, e, hg, ht⟩ := ih (r.dropWhile (· ≠ '\n')).length (by omega) _ rfl
          have hu : '\n' ∉ r.takeWhile (· ≠ '\n') := by
            intro h
            simpa using List.all_eq_true.1 List.all_takeWhile '\n' h
          have he : EndsLine (r.dropWhile (· ≠ '\n')) := by
            intro d hd
            have h := List.head?_dropWhile_not (· ≠ '\n') r
            rw [hd] at h
            simpa using h
          refine ⟨'#' :: (r.takeWhile (· ≠ '\n') ++ g), t, ?_, .comment hu (e ▸ he) hg, ht⟩
          rw [List.cons_append, List.append_assoc, ← e, List.takeWhile_append_dropWhile]
        · refine ⟨[], c :: r, rfl, .nil, ?_⟩
          intro d hd
          obtain rfl : c = d := by simpa using hd
          exact ⟨by simpa using hb, hc⟩

/-! ### Layouts -/

/-- A lexeme with the gap before it. -/
structure Segment where
  gap : List Char
  shape : Shape
  text : List Char

/-- All the characters of a segment. -/
def Segment.full (s : Segment) : List Char := s.gap ++ s.text

/-- A source starts with the segments and goes on with `rest`.  A lexeme that is a run is all of it. -/
inductive Laid : List Segment → (rest source : List Char) → Prop where
  | nil {source : List Char} : Laid [] source source
  | cons {gap text rest source : List Char} {shape : Shape} {segments : List Segment}
      (hg : IsSpacing gap (text ++ source)) (ht : Spells shape text) (he : shape.isRun → IsGap source)
      (h : Laid segments rest source) : Laid (⟨gap, shape, text⟩ :: segments) rest (gap ++ (text ++ source))

/-- A source is the segments and a last gap. -/
def IsLayout (segments : List Segment) (last source : List Char) : Prop :=
  Laid segments last source ∧ IsSpacing last []

/-- At a character that opens a string, an array or a definition no lexeme is found: it does not end. -/
def IsUnclosed (c : Char) (r : List Char) : Prop :=
  c ∈ ['"', '[', ':'] ∧ ∀ shape text, Spells shape text → ¬ text <+: c :: r

/-- No character of a source is lost. -/
theorem Laid.source_eq {segments : List Segment} {rest source : List Char} (h : Laid segments rest source) :
    source = segments.flatMap Segment.full ++ rest := by
  induction h with
  | nil => rfl
  | cons _ _ _ _ ih =>
    rw [List.flatMap_cons, Segment.full, List.append_assoc, List.append_assoc, ← ih]

theorem forall_opening {P : Char → Prop} (h : P '"' ∧ P '[' ∧ P ':') : ∀ c ∈ ['"', '[', ':'], P c := by
  simpa using h

private theorem startsLexeme_nil : StartsLexeme [] := by simp [StartsLexeme]

private theorem Spells.not_isRun {shape : Shape} {c : Char} {u : List Char} (h : Spells shape (c :: u))
    (hc : c ∈ ['"', '[', ':']) : shape.isRun = false := by
  cases h with
  | string | array | definition => rfl
  | number hs hd =>
    have hopening : ∀ c ∈ ['"', '[', ':'], isDigit c = false := forall_opening (by decide)
    rw [hopening c hc] at hd
    cases hd
  | symbol hs hd ho => exact absurd (List.mem_cons_of_mem '#' hc) ho

theorem isUnclosed_of_lexemeAt? {c : Char} {r : List Char} (h : lexemeAt? c r = none) : IsUnclosed c r := by
  have hc : c ∈ ['"', '[', ':'] := by
    refine Decidable.byContradiction fun hc => ?_
    simp only [List.mem_cons, List.not_mem_nil, or_false, not_or] at hc
    simp [lexemeAt?, hc] at h
  refine ⟨hc, fun shape text ht hpre => ?_⟩
  obtain ⟨d, u, rfl⟩ := ht.exists_cons
  obtain ⟨rfl, rest, rfl⟩ := List.cons_prefix_cons.1 hpre
  rw [ht.lexemeAt?_eq (by simp [ht.not_isRun hc])] at h
  cases h

theorem IsUnclosed.lexemeAt?_eq {c : Char} {r : List Char} (h : IsUnclosed c r) : lexemeAt? c r = none := by
  obtain ⟨hc, hno⟩ := h
  have hopening : ∀ c ∈ ['"', '[', ':'], isBlank c = false ∧ c ≠ '#' := forall_opening (by decide)
  cases hl : lexemeAt? c r with
  | none => rfl
  | some found =>
    obtain ⟨shape, text⟩ := found
    obtain ⟨ht, rest, e, -⟩ := spells_of_lexemeAt? (hopening c hc).1 (hopening c hc).2 hl
    exact absurd ⟨rest, e.symm⟩ (hno shape text ht)

theorem IsUnclosed.startsLexeme {c : Char} {r : List Char} (h : IsUnclosed c r) : StartsLexeme (c :: r) := by
  have hopening : ∀ c ∈ ['"', '[', ':'], isBlank c = false ∧ c ≠ '#' := forall_opening (by decide)
  intro d hd
  obtain rfl : c = d := by simpa using hd
  exact hopening c h.1

/-- Segments can be taken from a text until it is over or a lexeme starts that does not end. -/
theorem exists_layout_or_unclosed (source : List Char) :
    (∃ segments last, IsLayout segments last source) ∨
    ∃ segments gap c r, Laid segments (gap ++ c :: r) source ∧ IsSpacing gap (c :: r) ∧ IsUnclosed c r := by
  induction hn : source.length using Nat.strongRecOn generalizing source with
  | ind n ih =>
    obtain ⟨g, t, rfl, hg, ht⟩ := exists_spacing source
    cases t with
    | nil => exact .inl ⟨[], g ++ [], .nil, by simpa using hg⟩
    | cons c r =>
      obtain ⟨hb, hc⟩ := ht c rfl
      cases hl : lexemeAt? c r with
      | none => exact .inr ⟨[], g, c, r, .nil, hg, isUnclosed_of_lexemeAt? hl⟩
      | some found =>
        obtain ⟨shape, text⟩ := found
        obtain ⟨hspells, rest, e, he⟩ := spells_of_lexemeAt? hb hc hl
        obtain ⟨d, u, rfl⟩ := hspells.exists_cons
        rw [e] at hg hn ⊢
        simp only [List.length_append, List.length_cons] at hn
        rcases ih rest.length (by omega) rest rfl with ⟨segments, last, h, hlast⟩ | ⟨segments, gap, c, r, h, hgap, hu⟩
        · exact .inl ⟨_, last, .cons hg hspells he h, hlast⟩
        · exact .inr ⟨_, gap, c, r, .cons hg hspells he h, hgap, hu⟩

private theorem Spells.unique {shape shape' : Shape} {text text' rest rest' : List Char} (h : Spells shape text)
    (h' : Spells shape' text') (he : shape.isRun → IsGap rest) (he' : shape'.isRun → IsGap rest')
    (e : text ++ rest = text' ++ rest') : shape = shape' ∧ text = text' ∧ rest = rest' := by
  obtain ⟨c, u, rfl⟩ := h.exists_cons
  obtain ⟨c', u', rfl⟩ := h'.exists_cons
  rw [List.cons_append, List.cons_append, List.cons.injEq] at e
  obtain ⟨rfl, e⟩ := e
  -- the scanner finds one lexeme only
  have hfound := h.lexemeAt?_eq he
  rw [e, h'.lexemeAt?_eq he'] at hfound
  obtain ⟨rfl, rfl⟩ : shape' = shape ∧ u' = u := by simpa using hfound
  exact ⟨rfl, rfl, List.append_cancel_left e⟩

private theorem IsLayout.eq_nil {segments : List Segment} {last source : List Char} (hs : IsSpacing source [])
    (h : IsLayout segments last source) : segments = [] ∧ last = source := by
  obtain ⟨h, -⟩ := h
  cases h with
  | nil => exact ⟨rfl, rfl⟩
  | @cons gap text _ source _ _ hg ht =>
    -- a lexeme would stand in a gap
    obtain ⟨-, e⟩ := hs.unique hg startsLexeme_nil (ht.startsLexeme source) (List.append_nil _)
    obtain ⟨c, u, rfl⟩ := ht.exists_cons
    cases e

/-- A source has one layout at most. -/
theorem IsLayout.unique {segments segments' : List Segment} {last last' source : List Char}
    (h : IsLayout segments last source) (h' : IsLayout segments' last' source) :
    segments = segments' ∧ last = last' := by
  obtain ⟨h, hlast⟩ := h
  induction h generalizing segments' with
  | nil =>
    obtain ⟨rfl, rfl⟩ := h'.eq_nil hlast
    exact ⟨rfl, rfl⟩
  | @cons gap text last source shape segments hg ht he h ih =>
    obtain ⟨h', hlast'⟩ := h'
    generalize hsource : gap ++ (text ++ source) = whole at h'
    cases h' with
    | nil =>
      subst hsource
      obtain ⟨e, -⟩ := IsLayout.eq_nil hlast' ⟨.cons hg ht he h, hlast⟩
      cases e
    | @cons gap' text' _ source' shape' segments' hg' ht' he' h' =>
      obtain ⟨rfl, e⟩ := hg.unique hg' (ht.startsLexeme source) (ht'.startsLexeme source') hsource
      obtain ⟨rfl, rfl, rfl⟩ := ht.unique ht' he he' e
      obtain ⟨rfl, rfl⟩ := ih ⟨h', hlast'⟩ hlast
      exact ⟨rfl, rfl⟩

/-! ### The scanner on a layout -/

/-- The lexemes of segments that stand one behind the other from a position on. -/
def piecesOf (p : Position) : List Segment → List Piece
  | [] => []
  | s :: segments => ⟨s.shape, s.text, p.after s.gap⟩ :: piecesOf (p.after s.full) segments

/-- The scanner takes the lexemes of segments and goes on after them. -/
theorem Laid.scan_eq {segments : List Segment} {rest source : List Char} (h : Laid segments rest source)
    (p : Position) :
    scan p 0 source =
      (scan (p.after (segments.flatMap Segment.full)) 0 rest).map (piecesOf p segments ++ ·) := by
  induction h generalizing p with
  | nil =>
    show scan p 0 _ = (scan p 0 _).map ([] ++ ·)
    cases scan p 0 _ <;> rfl
  | @cons gap text rest source shape segments hg ht he h ih =>
    rw [hg.scan_eq, ht.scan_eq he, ih, ← Position.after_append, ← Position.after_append, List.flatMap_cons]
    show _ = (scan (p.after (gap ++ text ++ _)) 0 rest).map _
    cases scan (p.after (gap ++ text ++ segments.flatMap Segment.full)) 0 rest <;> rfl

private theorem IsLayout.scan_eq {segments : List Segment} {last source : List Char} (h : IsLayout segments last source)
    (p : Position) : scan p 0 source = .ok (piecesOf p segments) := by
  have hlast := h.2.scan_eq (p.after (segments.flatMap Segment.full))
  rw [List.append_nil] at hlast
  rw [h.1.scan_eq, hlast]
  simp [scan, Except.map]

private theorem scan_eq_error {segments : List Segment} {gap r source : List Char} {c : Char}
    (h : Laid segments (gap ++ c :: r) source) (hg : IsSpacing gap (c :: r)) (hu : IsUnclosed c r) (p : Position) :
    scan p 0 source = .error ⟨c, p.after (segments.flatMap Segment.full ++ gap)⟩ := by
  obtain ⟨hb, hc⟩ := hu.startsLexeme c rfl
  rw [h.scan_eq, hg.scan_eq, ← Position.after_append, scan]
  simp [hb, hc, hu.lexemeAt?_eq, Except.map]

/-- The scanner succeeds just on the texts that have a layout, and gives its lexemes. -/
theorem scan_eq_ok_iff {p : Position} {source : List Char} {pieces : List Piece} :
    scan p 0 source = .ok pieces ↔ ∃ segments last, IsLayout segments last source ∧ pieces = piecesOf p segments := by
  constructor
  · intro h
    rcases exists_layout_or_unclosed source with ⟨segments, last, hl⟩ | ⟨segments, gap, c, r, hl, hg, hu⟩
    · rw [hl.scan_eq] at h
      exact ⟨segments, last, hl, (Except.ok.inj h).symm⟩
    · rw [scan_eq_error hl hg hu] at h
      cases h
  · rintro ⟨segments, last, hl, rfl⟩
    exact hl.scan_eq p

/-- On any other text the scanner stops where the first lexeme starts that does not end. -/
theorem scan_eq_error_iff {p : Position} {source : List Char} {u : Unclosed} :
    scan p 0 source = .error u ↔ ∃ segments gap r, Laid segments (gap ++ u.opening :: r) source ∧
      IsSpacing gap (u.opening :: r) ∧ IsUnclosed u.opening r ∧
      u.start = p.after (segments.flatMap Segment.full ++ gap) := by
  constructor
  · intro h
    rcases exists_layout_or_unclosed source with ⟨segments, last, hl⟩ | ⟨segments, gap, c, r, hl, hg, hu⟩
    · rw [hl.scan_eq] at h
      cases h
    · rw [scan_eq_error hl hg hu] at h
      cases h
      exact ⟨segments, gap, r, hl, hg, hu, rfl⟩
  · rintro ⟨segments, gap, r, hl, hg, hu, hstart⟩
    rw [scan_eq_error hl hg hu, ← hstart]

private theorem Laid.spells_of_mem {segments : List Segment} {rest source : List Char} (h : Laid segments rest source)
    {p : Position} {q : Piece} (hq : q ∈ piecesOf p segments) : Spells q.shape q.raw ∧ q.raw ⊆ source := by
  induction h generalizing p with
  | nil => cases hq
  | cons hg ht he h ih =>
    rcases List.mem_cons.1 hq with rfl | hq
    · exact ⟨ht, by simp⟩
    · obtain ⟨hs, hsub⟩ := ih hq
      exact ⟨hs, fun c hc => by simp [hsub hc]⟩

/-- Every lexeme that is found is spelled by the grammar, in characters of the source. -/
theorem spells_of_mem_scan {p : Position} {source : List Char} {pieces : List Piece}
    (h : scan p 0 source = .ok pieces) {q : Piece} (hq : q ∈ pieces) : Spells q.shape q.raw ∧ q.raw ⊆ source := by
  obtain ⟨segments, last, hl, rfl⟩ := scan_eq_ok_iff.1 h
  exact hl.1.spells_of_mem hq

end Catena
