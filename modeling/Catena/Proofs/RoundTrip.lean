import Catena.Proofs.Rereading

/-!
# Programs read back

Writing out the program of a source and reading it again gives a program with the same text.  The two programs are the
same, origins apart, just if every numeric literal has a text that stands for it, in bodies of definitions too
(`Program.parse_render`).  Texts of tokens are lexemes, so that a program is read back token by token; the text of a
definition has only one semicolon in it, the one at its end.
-/

namespace Catena

open Catena.Text

/-! ### Programs token by token -/

namespace Program

theorem renderEach_eq_map (p : Program) : renderEach p = p.map Token.render := by
  induction p with
  | nil => rfl
  | cons t ts ih => rw [renderEach, ih, List.map_cons]

theorem bare_eq_map (p : Program) : bare p = p.map Token.bare := by
  induction p with
  | nil => rfl
  | cons t ts ih => rw [bare, ih, List.map_cons]

theorem literals_eq_flatMap (p : Program) : literals p = p.flatMap Token.literals := by
  induction p with
  | nil => rfl
  | cons t ts ih => rw [literals, ih, List.flatMap_cons]

theorem forall_mem_literals {p : Program} {P : List Float → Prop} :
    (∀ xs ∈ literals p, P xs) ↔ ∀ t ∈ p, ∀ xs ∈ t.literals, P xs := by
  rw [literals_eq_flatMap]
  simp only [List.mem_flatMap, forall_exists_index, and_imp]
  constructor
  · intro h t ht xs hxs
    exact h xs t ht hxs
  · intro h xs t ht hxs
    exact h t ht xs hxs

/-- Targets are not shown. -/
theorem renderEach_pair (ts : Program) : renderEach (pair ts) = renderEach ts := by
  have hwith : ∀ (t : Token) j, (t.withTarget j).render = t.render := by
    intro t j
    cases t <;> rfl
  rw [renderEach_eq_map, renderEach_eq_map, map_pair hwith]

theorem literals_pair (ts : Program) : literals (pair ts) = literals ts := by
  have hwith : ∀ (t : Token) j, (t.withTarget j).literals = t.literals := by
    intro t j
    cases t <;> rfl
  rw [literals_eq_flatMap, literals_eq_flatMap, List.flatMap_def, List.flatMap_def, map_pair hwith]

theorem bare_pair (ts : Program) : bare (pair ts) = pair (bare ts) := by
  rw [bare_eq_map, bare_eq_map, pair_map]
  · intro t
    cases t with
    | builtin ref target origin => rw [Token.bare, Token.isForward_builtin, Token.isForward_builtin]
    | _ => rfl
  · intro t
    cases t with
    | builtin ref target origin => rw [Token.bare, Token.isConditional_builtin, Token.isConditional_builtin]
    | _ => rfl
  · intro t j
    cases t <;> rfl

end Program

theorem Token.isFresh_bare {t : Token} (h : t.isFresh) : t.bare.isFresh := by
  cases t with
  | builtin ref target origin =>
    cases ref with
    | known b =>
      cases target with
      | none => rfl
      | some j => simp [Token.isFresh] at h
    | named name => simp [Token.isFresh] at h
  | other text => simp [Token.isFresh] at h
  | _ => rfl

section

variable {ts us : Program}

private theorem renderEach_of_rereads (h : List.Forall₂ Rereads ts us) :
    Program.renderEach us = Program.renderEach ts := by
  induction h with
  | nil => rfl
  | cons hr _ ih => rw [Program.renderEach, Program.renderEach, hr.render_eq, ih]

private theorem isFresh_of_rereads (h : List.Forall₂ Rereads ts us) : ∀ u ∈ us, u.isFresh := by
  induction h with
  | nil => simp
  | cons hr _ ih =>
    intro u hu
    rcases List.mem_cons.1 hu with rfl | hu
    · exact hr.isFresh
    · exact ih u hu

private theorem bare_iff_of_rereads (h : List.Forall₂ Rereads ts us) :
    Program.bare us = Program.bare ts ↔ ∀ t ∈ ts, t.IsFaithful := by
  induction h with
  | nil => simp
  | cons hr _ ih => rw [Program.bare, Program.bare, List.cons.injEq, hr.bare_iff, ih, List.forall_mem_cons]

/-- Pairing keeps what is the same apart from what is not. -/
private theorem bare_pair_iff_of_rereads (hts : ∀ t ∈ ts, t.isFresh) (h : List.Forall₂ Rereads ts us) :
    Program.bare (Program.pair us) = Program.bare (Program.pair ts) ↔ ∀ t ∈ ts, t.IsFaithful := by
  have hfresh : ∀ {p : Program}, (∀ t ∈ p, t.isFresh) → ∀ t ∈ Program.bare p, t.isFresh := by
    intro p hp t ht
    rw [Program.bare_eq_map] at ht
    obtain ⟨u, hu, rfl⟩ := List.mem_map.1 ht
    exact Token.isFresh_bare (hp u hu)
  rw [← bare_iff_of_rereads h, Program.bare_pair, Program.bare_pair]
  constructor
  · exact Program.eq_of_pair_eq (hfresh (isFresh_of_rereads h)) (hfresh hts)
  · intro e
    rw [e]

end

/-- The texts of tokens that can be read back are lexemes, and reading these in turn gives tokens that they are read
back as. -/
private theorem exists_items {least : Nat} {ts : Program} (h : ∀ t ∈ ts, t.IsReadable least) :
    ∃ items : List (Shape × List Char), items.map (·.2) = Program.renderEach ts ∧ (∀ i ∈ items, Spells i.1 i.2) ∧
      ∀ (file : Option String) (depthOf : Lexeme → Nat), (∀ l, least ≤ depthOf l) → ∀ pieces : List Piece,
        pieces.map (fun q => (q.shape, q.raw)) = items →
        ∃ us, (pieces.map (Piece.toLexeme file)).mapM (fun l => readToken (depthOf l) l) = .ok us ∧
          List.Forall₂ Rereads ts us := by
  induction ts with
  | nil =>
    refine ⟨[], rfl, by simp, fun file depthOf _ pieces hp => ?_⟩
    obtain rfl : pieces = [] := by simpa using hp
    exact ⟨[], rfl, .nil⟩
  | cons t ts ih =>
    obtain ⟨shape, hspells, hread⟩ := h t (by simp)
    obtain ⟨items, htexts, hitems, hrest⟩ := ih fun u hu => h u (by simp [hu])
    refine ⟨(shape, t.render) :: items, by rw [List.map_cons, htexts, Program.renderEach], ?_, ?_⟩
    · intro i hi
      rcases List.mem_cons.1 hi with rfl | hi
      · exact hspells
      · exact hitems i hi
    · intro file depthOf hdepth pieces hp
      obtain ⟨q, pieces, rfl, hq, hpieces⟩ := List.map_eq_cons_iff.1 hp
      obtain ⟨qshape, raw, start⟩ := q
      obtain ⟨rfl, rfl⟩ : qshape = shape ∧ raw = t.render := by simpa using hq
      obtain ⟨u, hu, hr⟩ := hread _ (hdepth (Piece.toLexeme file ⟨qshape, t.render, start⟩)) file start
      obtain ⟨us, hus, hrs⟩ := hrest file depthOf hdepth pieces hpieces
      refine ⟨u :: us, ?_, .cons hr hrs⟩
      rw [List.map_cons, List.mapM_cons, hu, hus]
      rfl

/-! ### Definitions -/

/-- What stands between the colon and the semicolon of a definition. -/
private def definitionText (name : List Char) (texts : List (List Char)) : List Char :=
  ' ' :: (name ++ ' ' :: (joinSpaced texts ++ [' ']))

private theorem render_definition (name : String) (ts : Program) (origin : Origin) :
    (Token.definition name (Program.pair ts) origin).render =
      ':' :: (definitionText name.toList (Program.renderEach ts) ++ [';']) := by
  rw [Token.render, Program.renderEach_pair]
  simp [definitionText]

private theorem not_mem_definitionText {name : List Char} {texts : List (List Char)} (hname : ';' ∉ name)
    (htexts : ∀ t ∈ texts, ';' ∉ t) : ';' ∉ definitionText name texts := by
  have hjoin : ';' ∉ joinSpaced texts := by
    intro h
    rcases mem_joinSpaced h with h | ⟨t, ht, h⟩
    · exact absurd h (by decide)
    · exact htexts t ht h
  simp [definitionText, hname, hjoin]

/-- The name and the tokens of the body stand side by side, with blanks around them. -/
private theorem definitionText_eq (name : List Char) (texts : List (List Char)) :
    ∃ bs, (∀ c ∈ bs, isBlank c) ∧ definitionText name texts = ' ' :: (joinSpaced (name :: texts) ++ bs) := by
  cases texts with
  | nil => exact ⟨[' ', ' '], List.forall_iff_forall_mem.1 (by decide), rfl⟩
  | cons t ts =>
    exact ⟨[' '], List.forall_iff_forall_mem.1 (by decide), by simp [definitionText, joinSpaced_cons_cons]⟩

/-- Splitting the text of a definition gives its name and the lexemes of its body. -/
private theorem splitDefinition_definitionText {name : List Char} (hs : Spells .symbol name)
    (hb : Builtin.ofSpelling? (String.ofList name) = none) {items : List (Shape × List Char)}
    (hitems : ∀ i ∈ items, Spells i.1 i.2) (file : Option String) (q : Piece) :
    ∃ pieces : List Piece, pieces.map (fun q => (q.shape, q.raw)) = items ∧
      splitDefinition (q.toLexeme file).origin (definitionText name (items.map (·.2))) =
        .ok (name, pieces.map (Piece.toLexeme file)) := by
  obtain ⟨bs, hbs, htext⟩ := definitionText_eq name (items.map (·.2))
  have hspells : ∀ i ∈ (Shape.symbol, name) :: items, Spells i.1 i.2 := by
    intro i hi
    rcases List.mem_cons.1 hi with rfl | hi
    · exact hs
    · exact hitems i hi
  obtain ⟨all, hscan, hall⟩ := scan_joinSpaced hspells hbs (Position.next ⟨q.start.line, q.start.column + 1⟩ ' ')
  obtain ⟨first, pieces, rfl, hfirst, hpieces⟩ := List.map_eq_cons_iff.1 hall
  obtain ⟨shape, raw, start⟩ := first
  obtain ⟨rfl, rfl⟩ : shape = .symbol ∧ raw = name := by simpa using hfirst
  have hlex : lex file ⟨q.start.line, q.start.column + 1⟩ (definitionText raw (items.map (·.2))) =
      .ok ((⟨.symbol, raw, start⟩ :: pieces).map (Piece.toLexeme file)) := by
    unfold lex
    rw [htext, scan_cons_of_isBlank (by decide), ← List.map_cons (f := (·.2)) (a := (Shape.symbol, raw)), hscan]
    rfl
  refine ⟨pieces, hpieces, ?_⟩
  unfold splitDefinition
  rw [q.place_toLexeme]
  simp [hlex, Piece.toLexeme, Kind.ofSymbol, hb]

private theorem readToken_definition {depth : Nat} {l : Lexeme} {name : List Char} {body : List Lexeme} {us : Program}
    (hk : l.kind = .definition) (hsplit : splitDefinition l.origin l.text = .ok (name, body))
    (hus : body.mapM (readToken depth) = .ok us) :
    readToken (depth + 1) l = .ok (.definition (String.ofList name) (Program.pair us) l.origin) := by
  unfold readToken
  simp only [hk, hsplit, hus]
  rfl

private theorem isFaithful_definition_iff (name : String) (ts : Program) (origin : Origin) :
    (Token.definition name (Program.pair ts) origin).IsFaithful ↔ ∀ t ∈ ts, t.IsFaithful := by
  unfold Token.IsFaithful
  rw [Token.literals, Program.literals_pair, Program.forall_mem_literals]

private theorem isReadable_definition {name : String} {ts : Program} (hs : Spells .symbol name.toList)
    (hb : Builtin.ofSpelling? name = none) (hname : ';' ∉ name.toList)
    (hts : ∀ t ∈ ts, t.IsPlain ∧ ';' ∉ t.letters) (origin : Origin) :
    (Token.definition name (Program.pair ts) origin).IsReadable 1 := by
  have hrender := render_definition name ts origin
  have hsemi : ';' ∉ definitionText name.toList (Program.renderEach ts) := by
    refine not_mem_definitionText hname fun text htext => ?_
    rw [Program.renderEach_eq_map] at htext
    obtain ⟨t, ht, rfl⟩ := List.mem_map.1 htext
    exact (hts t ht).1.not_mem_render (hts t ht).2
  obtain ⟨items, htexts, hitems, hread⟩ := exists_items fun t ht => (hts t ht).1.isReadable
  refine ⟨.definition, by rw [hrender]; exact .definition hsemi, fun depth hdepth file start => ?_⟩
  obtain ⟨depth, rfl⟩ : ∃ n, depth = n + 1 := ⟨depth - 1, by omega⟩
  -- the body holds no definition, so that any depth is enough for its tokens
  have hb' : Builtin.ofSpelling? (String.ofList name.toList) = none := by rwa [String.ofList_toList]
  obtain ⟨pieces, hpieces, hsplit⟩ := splitDefinition_definitionText hs hb' hitems file
    ⟨.definition, (Token.definition name (Program.pair ts) origin).render, start⟩
  obtain ⟨us, hus, hrs⟩ := hread file (fun _ => depth) (by simp) pieces hpieces
  refine ⟨.definition name (Program.pair us)
    (Piece.toLexeme file ⟨.definition, (Token.definition name (Program.pair ts) origin).render, start⟩).origin, ?_, ?_⟩
  · have htext : (Piece.toLexeme file
        ⟨.definition, (Token.definition name (Program.pair ts) origin).render, start⟩).text =
        definitionText name.toList (Program.renderEach ts) := by
      rw [hrender]
      exact inner_delimited _ _ _
    rw [htexts, ← htext] at hsplit
    rw [readToken_definition rfl hsplit hus, String.ofList_toList]
  · refine ⟨?_, rfl, ?_⟩
    · rw [render_definition, render_definition, renderEach_of_rereads hrs]
    · rw [isFaithful_definition_iff, ← bare_pair_iff_of_rereads (fun t ht => (hts t ht).1.isFresh) hrs]
      simp [Token.bare]

theorem Token.IsRead.isReadable {t : Token} (h : t.IsRead) : t.IsReadable 1 := by
  cases h with
  | plain h =>
    obtain ⟨shape, hspells, hread⟩ := h.isReadable
    exact ⟨shape, hspells, fun depth _ => hread depth (Nat.zero_le depth)⟩
  | definition hs hb hname hts => exact isReadable_definition hs hb hname hts _

/-! ### Programs -/

namespace Program

/-- The text of a program that was read from a source is read again, wherever it stands, as a program with the same
text.  The two are the same, origins apart, just if no numeric literal anywhere has a negative zero in it and none that
is a single number is below zero, infinite or undefined. -/
theorem parse_render {source : List Char} {file : Option String} {line : Int} {p : Program}
    (h : parse source file line = .ok p) (file' : Option String) (line' : Int) :
    ∃ p', parse (render p) file' line' = .ok p' ∧ render p' = render p ∧
      (bare p' = bare p ↔ ∀ xs ∈ literals p, -0.0 ∉ xs ∧ ∀ x, xs = [x] → ¬ x < 0 ∧ x.isFinite) := by
  obtain ⟨ts, rfl, hts⟩ := parse_eq_ok h
  obtain ⟨items, htexts, hitems, hread⟩ := exists_items fun t ht => (hts t ht).isReadable
  have hnil : ∀ c ∈ ([] : List Char), isBlank c := by simp
  obtain ⟨pieces, hscan, hpieces⟩ := scan_joinSpaced hitems hnil ⟨line', 1⟩
  obtain ⟨us, hus, hrs⟩ := hread file' (fun l => l.text.length + 1) (by simp) pieces hpieces
  have hrender : render (pair ts) = joinSpaced (items.map (·.2)) := by
    rw [render, renderEach_pair, htexts]
  have hlex : lex file' ⟨line', 1⟩ (render (pair ts)) = .ok (pieces.map (Piece.toLexeme file')) := by
    unfold lex
    rw [hrender, ← List.append_nil (joinSpaced _), hscan]
    rfl
  refine ⟨pair us, ?_, ?_, ?_⟩
  · unfold parse ofLexemes
    rw [hlex]
    simp only [hus]
    rfl
  · unfold render
    rw [renderEach_pair, renderEach_pair, renderEach_of_rereads hrs]
  · rw [bare_pair_iff_of_rereads (fun t ht => (hts t ht).isFresh) hrs, literals_pair, forall_mem_literals]
    rfl

/-- A negative zero in a definition, a string with a quote in it, a negative number and conditionals that nest. -/
theorem parse_render_definition :
    let source := ": half [.5 -0.0] ; 1 if \"a \\\" b \" 2 ? half then [-3e0] -> # the end".toList
    ∃ p, parse source none 1 = .ok p ∧
      render p = ": half [0.5 0] ; 1 if \"a \\\" b\" 2 ? half then -3 ->".toList ∧
      ∃ p', parse (render p) none 1 = .ok p' ∧ render p' = render p ∧
        (bare p' = bare p ↔ ∀ xs ∈ literals p, -0.0 ∉ xs ∧ ∀ x, xs = [x] → ¬ x < 0 ∧ x.isFinite) := by
  intro source
  have htext : (parse source none 1).toOption.map render =
      some ": half [0.5 0] ; 1 if \"a \\\" b\" 2 ? half then -3 ->".toList := by decide +kernel
  cases hp : parse source none 1 with
  | error e =>
    rw [hp] at htext
    cases htext
  | ok p =>
    rw [hp] at htext
    exact ⟨p, rfl, Option.some.inj htext, parse_render hp none 1⟩

end Program

end Catena
