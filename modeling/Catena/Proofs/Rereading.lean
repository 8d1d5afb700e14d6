import Catena.Proofs.Number.Rereading
import Catena.Proofs.Quoting
import Mathlib.Data.List.Forall2

/-!
# Tokens read back

The text of a token that was read from a source is a lexeme of the grammar, and reading that lexeme gives a token with
the same text.  It is the same token, origins apart, unless it is a number whose text is none (`Token.IsFaithful`): the
sign of zero is not written, and a single number below zero or not finite is read as a word.
-/

namespace Catena

open Catena.Text

/-! ### What is compared -/

mutual

/-- A token without its origin. -/
def Token.bare : Token → Token
  | .word name _ => .word name {}
  | .data value _ => .data value {}
  | .builtin ref target _ => .builtin ref target {}
  | .definition name body _ => .definition name (Program.bare body) {}
  | .other text => .other text

/-- A program without the origins of its tokens. -/
def Program.bare : List Token → List Token
  | [] => []
  | t :: ts => t.bare :: Program.bare ts

end

mutual

/-- The numeric literals in a token, those in the body of a definition included. -/
def Token.literals : Token → List (List Float)
  | .data (.numeric xs) _ => [xs]
  | .definition _ body _ => Program.literals body
  | _ => []

/-- The numeric literals anywhere in a program. -/
def Program.literals : List Token → List (List Float)
  | [] => []
  | t :: ts => t.literals ++ Program.literals ts

end

/-- A literal has a text that stands for it: it has no negative zero, and if it is a single number, then a finite one
that is not below zero. -/
def IsFaithful (xs : List Float) : Prop := -0.0 ∉ xs ∧ ∀ x, xs = [x] → ¬ x < 0 ∧ x.isFinite

/-- Every literal in a token has a text that stands for it. -/
def Token.IsFaithful (t : Token) : Prop := ∀ xs ∈ t.literals, Catena.IsFaithful xs

/-- A token that another one is read back as: it has the same text, and it is the same, origins apart, just if every
literal has a text that stands for it. -/
structure Rereads (t u : Token) : Prop where
  render_eq : u.render = t.render
  isFresh : u.isFresh
  bare_iff : u.bare = t.bare ↔ t.IsFaithful

/-- The text of a token is a lexeme, and wherever definitions may nest to the given depth, it is read back. -/
def Token.IsReadable (least : Nat) (t : Token) : Prop :=
  ∃ shape, Spells shape t.render ∧ ∀ depth, least ≤ depth → ∀ (file : Option String) (start : Position),
    ∃ u, readToken depth (Piece.toLexeme file ⟨shape, t.render, start⟩) = .ok u ∧ Rereads t u

/-! ### Reading a lexeme -/

/-- Where a lexeme with the given text comes from. -/
private def originAt (file : Option String) (raw : List Char) (start : Position) : Origin :=
  ⟨some file, some start.line, some start.column, some (String.ofList raw)⟩

section

variable (depth : Nat) (file : Option String) (raw : List Char) (start : Position)

private theorem readToken_word (hb : Builtin.ofSpelling? (String.ofList raw) = none) :
    readToken depth (Piece.toLexeme file ⟨.symbol, raw, start⟩) =
      .ok (.word (String.ofList raw) (originAt file raw start)) := by
  unfold readToken
  simp [Piece.toLexeme, Kind.ofSymbol, hb, originAt]

private theorem readToken_builtin {b : Builtin} (hb : Builtin.ofSpelling? (String.ofList raw) = some b) :
    readToken depth (Piece.toLexeme file ⟨.symbol, raw, start⟩) =
      .ok (.builtin (.known b) none (originAt file raw start)) := by
  unfold readToken
  simp [Piece.toLexeme, Kind.ofSymbol, hb, originAt]

private theorem readToken_number {x : Float} (hx : Number.ofText? raw = some x) :
    readToken depth (Piece.toLexeme file ⟨.number, raw, start⟩) =
      .ok (.data (.scalar x) (originAt file raw start)) := by
  unfold readToken
  simp [Piece.toLexeme, readNumber, hx, originAt, Except.map]

private theorem mapM_readNumber (origin : Origin) (xs : List Float) :
    (xs.map Number.render).mapM (readNumber origin) = .ok (xs.map Number.unsignZero) := by
  induction xs with
  | nil => rfl
  | cons x xs ih =>
    have hx : readNumber origin (Number.render x) = .ok (Number.unsignZero x) := by
      simp [readNumber, Number.ofText?_render]
    rw [List.map_cons, List.mapM_cons, hx, ih]
    rfl

private theorem readToken_array {xs : List Float} (hxs : fields (strip (inner raw)) = xs.map Number.render) :
    readToken depth (Piece.toLexeme file ⟨.array, raw, start⟩) =
      .ok (.data (.numeric (xs.map Number.unsignZero)) (originAt file raw start)) := by
  unfold readToken
  simp only [Piece.toLexeme, hxs, mapM_readNumber]
  rfl

end

/-! ### Strings -/

private theorem isReadable_character {cs : List Char} (hs : strip cs = cs) (origin : Origin) :
    (Token.data (.character cs) origin).IsReadable 0 := by
  have hrender : (Token.data (.character cs) origin).render = (Value.character cs).render := rfl
  refine ⟨.string, ?_, fun depth _ file start => ⟨_, readToken_string depth file _ start, ?_⟩⟩
  · rw [hrender]
    exact Value.spells_render_character cs
  · rw [hrender, Value.unescape_inner_render_character, hs]
    refine ⟨rfl, rfl, ?_⟩
    simp [Token.bare, Token.IsFaithful, Token.literals]

/-! ### Symbols -/

private theorem isReadable_word {name : String} (hs : Spells .symbol name.toList)
    (hb : Builtin.ofSpelling? name = none) (origin : Origin) : (Token.word name origin).IsReadable 0 := by
  have hb' : Builtin.ofSpelling? (String.ofList name.toList) = none := by rwa [String.ofList_toList]
  have hrender : (Token.word name origin).render = name.toList := rfl
  refine ⟨.symbol, hs, fun depth _ file start => ⟨_, readToken_word depth file _ start hb', ?_⟩⟩
  rw [hrender, String.ofList_toList]
  refine ⟨rfl, rfl, ?_⟩
  simp [Token.bare, Token.IsFaithful, Token.literals]

private theorem isReadable_builtin {b : Builtin} {text : String} {origin : Origin}
    (ht : origin.text = some text) (hs : Spells .symbol text.toList) (hb : Builtin.ofSpelling? text = some b) :
    (Token.builtin (.known b) none origin).IsReadable 0 := by
  have hrender : (Token.builtin (.known b) none origin).render = text.toList := by
    simp [Token.render, Token.spelling, ht]
  have hb' : Builtin.ofSpelling? (String.ofList text.toList) = some b := by rwa [String.ofList_toList]
  refine ⟨.symbol, by rwa [hrender], fun depth _ file start =>
    ⟨.builtin (.known b) none (originAt file text.toList start), ?_, ?_⟩⟩
  · rw [hrender]
    exact readToken_builtin depth file _ start hb'
  · refine ⟨?_, rfl, ?_⟩
    · rw [hrender]
      simp [Token.render, Token.spelling, originAt]
    · simp [Token.bare, Token.IsFaithful, Token.literals]

/-! ### Numbers -/

/-- No builtin is spelled like a number that is read as a word. -/
private theorem ofSpelling?_eq_none {cs : List Char}
    (h : cs ∈ ["nan".toList, "inf".toList, "-inf".toList] ∨ ∃ c r, cs = '-' :: c :: r ∧ isDigit c) :
    Builtin.ofSpelling? (String.ofList cs) = none := by
  have hall : ∀ b ∈ Builtin.all, ∀ s ∈ b.spellings, s ∉ ["nan", "inf", "-inf"] ∧
      (s.toList.take 1 = ['-'] → (s.toList.drop 1).all (!isDigit ·)) := by decide
  unfold Builtin.ofSpelling?
  rw [List.find?_eq_none]
  intro b hb hs
  obtain ⟨hnames, hsign⟩ := hall b hb _ (by simpa using hs)
  rcases h with h | ⟨c, r, rfl, hc⟩
  · have hmem := List.mem_map_of_mem (f := String.ofList) h
    simp only [List.map_cons, String.ofList_toList, List.map_nil] at hmem
    exact hnames hmem
  · have hdigits := hsign (by simp)
    simp [hc] at hdigits

private theorem spells_symbol {cs : List Char} (hcs : IsSolid cs)
    (h : cs ∈ ["nan".toList, "inf".toList, "-inf".toList] ∨ ∃ c r, cs = '-' :: c :: r ∧ isDigit c) :
    Spells .symbol cs := by
  obtain ⟨c, r, rfl, hc⟩ : ∃ c r, cs = c :: r ∧ c ∈ ['n', 'i', '-'] := by
    rcases h with h | ⟨c, r, rfl, -⟩
    · obtain ⟨c, r, rfl⟩ := List.exists_cons_of_ne_nil hcs.1
      refine ⟨c, r, rfl, ?_⟩
      simp only [List.mem_cons, List.not_mem_nil, or_false] at h
      rcases h with h | h | h <;> (cases h; decide)
    · exact ⟨'-', c :: r, rfl, by decide⟩
  have hstart : ∀ c ∈ ['n', 'i', '-'], isDigit c = false ∧ c ∉ ['#', '"', '[', ':'] :=
    List.forall_iff_forall_mem.1 (by decide)
  exact .symbol hcs (hstart c hc).1 (hstart c hc).2

private theorem value_render_numeric {xs : List Float} (h : ∀ x, xs ≠ [x]) :
    (Value.numeric xs).render = '[' :: (joinSpaced (xs.map Number.render) ++ [']']) := by
  cases xs with
  | nil => rfl
  | cons x xs =>
    cases xs with
    | nil => exact absurd rfl (h x)
    | cons y ys => rfl

private theorem map_unsignZero_eq_iff (xs : List Float) : xs.map Number.unsignZero = xs ↔ -0.0 ∉ xs := by
  induction xs with
  | nil => simp
  | cons x xs ih =>
    rw [List.map_cons, List.cons.injEq, ih, Number.unsignZero_eq_self_iff, List.mem_cons, not_or]
    exact and_congr_left' ne_comm

private theorem isFaithful_data_iff (xs : List Float) (origin : Origin) :
    (Token.data (.numeric xs) origin).IsFaithful ↔ Catena.IsFaithful xs := by
  simp [Token.IsFaithful, Token.literals]

/-- A single number that is finite and not below zero is read as a number. -/
private theorem isReadable_scalar {x : Float} (hx : x.isFinite) (hneg : ¬ x < 0) (origin : Origin) :
    (Token.data (.numeric [x]) origin).IsReadable 0 := by
  obtain ⟨c, r, hr, hc⟩ := Number.render_eq_cons_digit hx hneg
  have hrender : (Token.data (.numeric [x]) origin).render = Number.render x := rfl
  refine ⟨.number, ?_, fun depth _ file start => ⟨_, readToken_number depth file _ start (Number.ofText?_render x), ?_⟩⟩
  · have hsolid := Number.isSolid_render x
    rw [hrender]
    rw [hr] at hsolid ⊢
    exact .number hsolid hc
  · refine ⟨Number.render_unsignZero x, rfl, ?_⟩
    have hself := map_unsignZero_eq_iff [x]
    rw [isFaithful_data_iff]
    simp only [Token.bare, Value.scalar, Token.data.injEq, Value.numeric.injEq, and_true, Catena.IsFaithful]
    constructor
    · intro h
      refine ⟨hself.1 h, ?_⟩
      rintro _ ⟨rfl, -⟩
      exact ⟨hneg, hx⟩
    · intro h
      exact hself.2 h.1

/-- Any other single number is read as a word. -/
private theorem isReadable_unfaithful {x : Float} (hx : x < 0 ∨ x.isFinite = false) (origin : Origin) :
    (Token.data (.numeric [x]) origin).IsReadable 0 := by
  have hstart := Number.render_eq_cons_sign hx
  have hrender : (Token.data (.numeric [x]) origin).render = Number.render x := rfl
  refine ⟨.symbol, spells_symbol (Number.isSolid_render x) hstart, fun depth _ file start =>
    ⟨_, readToken_word depth file _ start (ofSpelling?_eq_none hstart), ?_⟩⟩
  refine ⟨String.toList_ofList, rfl, ?_⟩
  rw [isFaithful_data_iff]
  constructor
  · intro h
    simp [Token.bare] at h
  · rintro ⟨-, h⟩
    obtain ⟨hneg, hfin⟩ := h x rfl
    rcases hx with hx | hx
    · exact absurd hx hneg
    · rw [hfin] at hx
      cases hx

private theorem isReadable_array {xs : List Float} (hxs : ∀ x, xs ≠ [x]) (origin : Origin) :
    (Token.data (.numeric xs) origin).IsReadable 0 := by
  have hrender : (Token.data (.numeric xs) origin).render = '[' :: (joinSpaced (xs.map Number.render) ++ [']']) :=
    value_render_numeric hxs
  have hsolid : ∀ t ∈ xs.map Number.render, IsSolid t := by
    intro t ht
    obtain ⟨x, -, rfl⟩ := List.mem_map.1 ht
    exact Number.isSolid_render x
  have hclose : ']' ∉ joinSpaced (xs.map Number.render) := by
    intro h
    rcases mem_joinSpaced h with h | ⟨t, ht, h⟩
    · exact absurd h (by decide)
    · obtain ⟨x, -, rfl⟩ := List.mem_map.1 ht
      exact absurd (Number.mem_letters_of_mem_render h) (by decide)
  have hlength : ∀ x, xs.map Number.unsignZero ≠ [x] := by
    intro x h
    obtain ⟨y, rfl⟩ := List.length_eq_one_iff.1 (show xs.length = 1 by simpa using congrArg List.length h)
    exact hxs y rfl
  have hfields : fields (strip (inner (Token.data (.numeric xs) origin).render)) = xs.map Number.render := by
    rw [hrender, inner_delimited, strip_joinSpaced hsolid, fields_joinSpaced hsolid]
  refine ⟨.array, by rw [hrender]; exact .array hclose, fun depth _ file start =>
    ⟨_, readToken_array depth file _ start hfields, ?_, rfl, ?_⟩⟩
  · show (Value.numeric (xs.map Number.unsignZero)).render = (Value.numeric xs).render
    rw [value_render_numeric hlength, value_render_numeric hxs, List.map_map]
    simp only [Function.comp_def, Number.render_unsignZero]
  · rw [isFaithful_data_iff]
    simp only [Token.bare, Token.data.injEq, Value.numeric.injEq, and_true, map_unsignZero_eq_iff, Catena.IsFaithful]
    constructor
    · intro h
      exact ⟨h, fun x hx => absurd hx (hxs x)⟩
    · intro h
      exact h.1

/-! ### Plain tokens -/

/-- A token that is read from a lexeme other than a definition is read back. -/
theorem Token.IsPlain.isReadable {t : Token} (h : t.IsPlain) : t.IsReadable 0 := by
  cases h with
  | word hs hb => exact isReadable_word hs hb _
  | character hs => exact isReadable_character hs _
  | builtin ht hs hb => exact isReadable_builtin ht hs hb
  | numeric xs origin =>
    by_cases hxs : ∃ x, xs = [x]
    · obtain ⟨x, rfl⟩ := hxs
      by_cases hx : x < 0 ∨ x.isFinite = false
      · exact isReadable_unfaithful hx origin
      · rw [not_or] at hx
        exact isReadable_scalar (by simpa using hx.2) hx.1 origin
    · exact isReadable_array (fun x hx => hxs ⟨x, hx⟩) origin

/-- The text of a plain token has no semicolon unless the source of the token does. -/
theorem Token.IsPlain.not_mem_render {t : Token} (h : t.IsPlain) (hl : ';' ∉ t.letters) : ';' ∉ t.render := by
  cases h with
  | word hs hb => exact hl
  | builtin ht hs hb => exact hl
  | @character cs origin hs =>
    have hcs : ';' ∉ cs := hl
    show ';' ∉ '"' :: (cs.flatMap escapeQuoted ++ ['"'])
    simp only [List.mem_cons, List.mem_append, List.mem_flatMap, List.not_mem_nil, or_false, not_or, not_exists,
      not_and]
    refine ⟨by decide, fun c hc hmem => ?_, by decide⟩
    unfold escapeQuoted at hmem
    split at hmem
    · obtain rfl : ';' = c := by simpa using hmem
      exact hcs hc
    · obtain rfl : ';' = c := by simpa using hmem
      exact hcs hc
  | numeric xs origin =>
    intro h
    have hrender : ∀ x : Float, ';' ∉ Number.render x := fun x hx =>
      absurd (Number.mem_letters_of_mem_render hx) (by decide)
    by_cases hxs : ∃ x, xs = [x]
    · obtain ⟨x, rfl⟩ := hxs
      exact hrender x h
    · have h : ';' ∈ (Value.numeric xs).render := h
      rw [value_render_numeric fun x hx => hxs ⟨x, hx⟩] at h
      rcases List.mem_cons.1 h with h | h
      · exact absurd h (by decide)
      · rcases List.mem_append.1 h with h | h
        · rcases mem_joinSpaced h with h | ⟨t, ht, h⟩
          · exact absurd h (by decide)
          · obtain ⟨x, -, rfl⟩ := List.mem_map.1 ht
            exact hrender x h
        · exact absurd (List.mem_singleton.1 h) (by decide)

end Catena
