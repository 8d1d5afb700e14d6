import Catena.Proofs.Reading

/-!
# What the lexer makes of a source

The lexer accepts just the sources that have a layout and gives one lexeme for each of its segments, with the text and
the kind that go with its shape (`Denotes`); any other source is refused for the first lexeme that does not end
(`lex_grammar`).
-/

namespace Catena

open Catena.Text

/-- What stands between the quotes of a string, and the text that it stands for. -/
inductive Quotes : List Char → List Char → Prop where
  | nil : Quotes [] []
  | escaped {c : Char} {u v : List Char} (hc : c ≠ '\n') (h : Quotes u v) : Quotes ('\\' :: c :: u) (c :: v)
  | plain {c : Char} {u v : List Char} (hq : c ≠ '"') (hb : c ≠ '\\') (h : Quotes u v) : Quotes (c :: u) (c :: v)

/-- The text that counts and the kind of a lexeme, by its shape and its text in the source. -/
inductive Denotes : Shape → (raw text : List Char) → Kind → Prop where
  | string {u v text : List Char} (hu : Quotes u v) (ht : Trims v text) :
      Denotes .string ('"' :: (u ++ ['"'])) text .string
  | array {u text : List Char} (ht : Trims u text) : Denotes .array ('[' :: (u ++ [']'])) text .array
  | definition {u : List Char} : Denotes .definition (':' :: (u ++ [';'])) u .definition
  | number {raw : List Char} : Denotes .number raw raw .number
  | word {raw : List Char} (h : ∀ b : Builtin, String.ofList raw ∉ b.spellings) : Denotes .symbol raw raw .word
  | builtin {raw : List Char} {b : Builtin} (h : String.ofList raw ∈ b.spellings) :
      Denotes .symbol raw raw (.builtin (.known b))

/-- Segments that stand one behind the other from a position on give the lexemes. -/
inductive Lexed (file : Option String) : Position → List Segment → List Lexeme → Prop where
  | nil {p : Position} : Lexed file p [] []
  | cons {p : Position} {s : Segment} {segments : List Segment} {l : Lexeme} {ls : List Lexeme}
      (hd : Denotes s.shape s.text l.text l.kind)
      (ho : l.origin = ⟨some file, some (p.after s.gap).line, some (p.after s.gap).column, some (String.ofList s.text)⟩)
      (h : Lexed file (p.after s.full) segments ls) : Lexed file p (s :: segments) (l :: ls)

/-! ### Spellings -/

theorem Builtin.mem_all (b : Builtin) : b ∈ Builtin.all := by
  cases b with
  | operator op => cases op <;> decide
  | _ => decide

/-- No two builtins share a spelling. -/
theorem Builtin.ofSpelling?_eq_some_iff {s : String} {b : Builtin} :
    Builtin.ofSpelling? s = some b ↔ s ∈ b.spellings := by
  constructor
  · intro h
    simpa using List.find?_some h
  · have hall : ∀ b ∈ Builtin.all, ∀ s ∈ b.spellings, Builtin.ofSpelling? s = some b := by decide
    exact hall b b.mem_all s

theorem Builtin.ofSpelling?_eq_none_iff {s : String} :
    Builtin.ofSpelling? s = none ↔ ∀ b : Builtin, s ∉ b.spellings := by
  simp [Option.eq_none_iff_forall_ne_some, Builtin.ofSpelling?_eq_some_iff]

/-! ### Lexemes of a shape -/

private theorem quotes_iff {u v : List Char} (hu : IsQuoted u) : Quotes u v ↔ v = unescape u := by
  constructor
  · intro h
    clear hu
    induction h with
    | nil => rfl
    | escaped hc h ih => rw [unescape, ih]
    | plain hq hb h ih =>
      rw [unescape, ih]
      intro c r e
      exact absurd e hb
  · rintro rfl
    induction hu with
    | nil => exact .nil
    | escaped hc _ ih => exact .escaped hc ih
    | @plain c u hq hb _ ih =>
      have he : unescape (c :: u) = c :: unescape u := by
        rw [unescape]
        intro d r e
        exact absurd e hb
      rw [he]
      exact .plain hq hb ih

/-- The text and the kind that a lexeme is given are those that go with its shape. -/
theorem Spells.denotes_iff {q : Piece} (hq : Spells q.shape q.raw) (file : Option String) {text : List Char}
    {kind : Kind} :
    Denotes q.shape q.raw text kind ↔ text = (q.toLexeme file).text ∧ kind = (q.toLexeme file).kind := by
  obtain ⟨shape, raw, start⟩ := q
  cases hq with
  | @string u hu =>
    simp only [Piece.toLexeme, inner_delimited]
    constructor
    · intro h
      generalize hr : '"' :: (u ++ ['"']) = raw at h
      cases h with
      | @string u' v _ hu' ht =>
        obtain rfl : u = u' := by simpa using hr
        rw [quotes_iff hu] at hu'
        subst hu'
        exact ⟨(strip_eq_iff.2 ht).symm, rfl⟩
    · rintro ⟨rfl, rfl⟩
      exact .string ((quotes_iff hu).2 rfl) (strip_eq_iff.1 rfl)
  | @array u hu =>
    simp only [Piece.toLexeme, inner_delimited]
    constructor
    · intro h
      generalize hr : '[' :: (u ++ [']']) = raw at h
      cases h with
      | @array u' _ ht =>
        obtain rfl : u = u' := by simpa using hr
        exact ⟨(strip_eq_iff.2 ht).symm, rfl⟩
    · rintro ⟨rfl, rfl⟩
      exact .array (strip_eq_iff.1 rfl)
  | @definition u hu =>
    simp only [Piece.toLexeme, inner_delimited]
    constructor
    · intro h
      generalize hr : ':' :: (u ++ [';']) = raw at h
      cases h with
      | definition => exact ⟨by simpa using hr.symm, rfl⟩
    · rintro ⟨rfl, rfl⟩
      exact .definition
  | number =>
    constructor
    · intro h
      cases h
      exact ⟨rfl, rfl⟩
    · rintro ⟨rfl, rfl⟩
      exact .number
  | @symbol c u hs hd ho =>
    simp only [Piece.toLexeme, Kind.ofSymbol]
    constructor
    · intro h
      cases h with
      | word h => rw [Builtin.ofSpelling?_eq_none_iff.2 h]; exact ⟨rfl, rfl⟩
      | builtin h => rw [Builtin.ofSpelling?_eq_some_iff.2 h]; exact ⟨rfl, rfl⟩
    · rintro ⟨rfl, rfl⟩
      cases hb : Builtin.ofSpelling? (String.ofList (c :: u)) with
      | none => exact .word (Builtin.ofSpelling?_eq_none_iff.1 hb)
      | some b => exact .builtin (Builtin.ofSpelling?_eq_some_iff.1 hb)

/-- A piece of a file is turned into the lexeme that goes with its shape, from where it stands. -/
theorem Spells.eq_toLexeme_iff {q : Piece} (hq : Spells q.shape q.raw) (file : Option String) {l : Lexeme} :
    l = q.toLexeme file ↔ Denotes q.shape q.raw l.text l.kind ∧
      l.origin = ⟨some file, some q.start.line, some q.start.column, some (String.ofList q.raw)⟩ := by
  rw [hq.denotes_iff file, ← q.origin_toLexeme file]
  generalize q.toLexeme file = found
  obtain ⟨text, kind, origin⟩ := l
  obtain ⟨text', kind', origin'⟩ := found
  rw [Lexeme.mk.injEq, and_assoc]

/-- The lexemes of laid out segments are what the scanner's pieces are turned into. -/
private theorem Laid.lexed_iff {segments : List Segment} {rest source : List Char} (h : Laid segments rest source)
    (file : Option String) (p : Position) {ls : List Lexeme} :
    Lexed file p segments ls ↔ ls = (piecesOf p segments).map (Piece.toLexeme file) := by
  induction h generalizing p ls with
  | nil =>
    constructor
    · rintro ⟨⟩
      rfl
    · rintro rfl
      exact .nil
  | @cons gap text rest source shape segments hg ht he h ih =>
    have hq : Spells (Piece.mk shape text (p.after gap)).shape (Piece.mk shape text (p.after gap)).raw := ht
    rw [piecesOf, List.map_cons]
    constructor
    · intro hl
      cases hl with
      | cons hd ho hls => rw [← (ih _).1 hls, (hq.eq_toLexeme_iff file).2 ⟨hd, ho⟩]
    · rintro rfl
      obtain ⟨hd, ho⟩ := (hq.eq_toLexeme_iff file).1 rfl
      exact .cons hd ho ((ih _).2 rfl)

/-! ### The lexer -/

private theorem lex_eq_ok_iff {file : Option String} {p : Position} {source : List Char} {ls : List Lexeme} :
    lex file p source = .ok ls ↔ ∃ segments last, IsLayout segments last source ∧ Lexed file p segments ls := by
  constructor
  · intro h
    obtain ⟨pieces, hs, rfl⟩ := lex_eq_ok h
    obtain ⟨segments, last, hl, rfl⟩ := scan_eq_ok_iff.1 hs
    exact ⟨segments, last, hl, (hl.1.lexed_iff file p).2 rfl⟩
  · rintro ⟨segments, last, hl, hls⟩
    rw [hl.1.lexed_iff] at hls
    rw [lex, scan_eq_ok_iff.2 ⟨segments, last, hl, rfl⟩, hls]
    rfl

private theorem lex_eq_error_iff {file : Option String} {p : Position} {source : List Char} {u : Unclosed} :
    lex file p source = .error u ↔ scan p 0 source = .error u := by
  unfold lex
  constructor
  · exact map_eq_error
  · intro h
    rw [h]
    rfl

/-- The error for a lexeme that does not end names its opening character and its place. -/
theorem IsUnclosed.toError {u : Unclosed} {r : List Char} (h : IsUnclosed u.opening r) (file : Option String) :
    ∃ e, u.toError file = .refused e ∧ e.cause.title = "ArrUnmatchedDelimiter" ∧ e.cause.token = [u.opening] ∧
      e.file = file ∧ e.start = u.start := by
  have hcause : ∀ c ∈ ['"', '[', ':'], (ParseCause.ofOpening c).title = "ArrUnmatchedDelimiter" ∧
      (ParseCause.ofOpening c).token = [c] := forall_opening (by decide)
  obtain ⟨htitle, htoken⟩ := hcause u.opening h.1
  exact ⟨_, rfl, htitle, htoken, rfl, rfl⟩

/-- The lexer accepts just the sources that have a layout, which is then the only one, and gives a lexeme for each
segment.  Any other source is refused for an opening quote, bracket or colon: with the segments before it all laid out,
it is the first start of a lexeme at which none is to be found. -/
theorem lex_grammar (file : Option String) (start : Position) (source : List Char) :
    (∀ ls, lex file start source = .ok ls ↔
      ∃ segments last, IsLayout segments last source ∧ Lexed file start segments ls) ∧
    (∀ segments last segments' last', IsLayout segments last source → IsLayout segments' last' source →
      segments = segments' ∧ last = last') ∧
    (∀ u, lex file start source = .error u ↔
      ∃ segments gap r, Laid segments (gap ++ u.opening :: r) source ∧ IsSpacing gap (u.opening :: r) ∧
        IsUnclosed u.opening r ∧ u.start = start.after (segments.flatMap Segment.full ++ gap)) ∧
    (∀ u, lex file start source = .error u →
      ∃ e, u.toError file = .refused e ∧ e.cause.title = "ArrUnmatchedDelimiter" ∧ e.cause.token = [u.opening] ∧
        e.file = file ∧ e.start = u.start) := by
  refine ⟨fun ls => lex_eq_ok_iff, fun _ _ _ _ h h' => h.unique h', fun u => ?_, fun u h => ?_⟩
  · rw [lex_eq_error_iff, scan_eq_error_iff]
  · obtain ⟨-, -, r, -, -, hu, -⟩ := scan_eq_error_iff.1 (lex_eq_error_iff.1 h)
    exact hu.toError file

end Catena
