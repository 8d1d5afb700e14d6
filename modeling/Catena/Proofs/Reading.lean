import Catena.Proofs.Grammar
import Catena.Proofs.Pairing
import Catena.Render

/-!
# Programs as they are read

What the reader makes of a source: a pairing of tokens each of which is read from one lexeme (`Token.IsRead`), or a
refusal of the source.  A definition ends at the first semicolon, so there is none in its name or its body, and no
definition stands in another.
-/

namespace Catena

open Catena.Text

/-- The characters that a token has from its source, other than those of numbers. -/
def Token.letters : Token → List Char
  | .word name _ => name.toList
  | .data (.character cs) _ => cs
  | .builtin ref _ origin => (Token.spelling ref origin).toList
  | _ => []

/-- A token that is read from a lexeme other than a definition. -/
inductive Token.IsPlain : Token → Prop where
  | word {name : String} {origin : Origin} (hs : Spells .symbol name.toList) (hb : Builtin.ofSpelling? name = none) :
      IsPlain (.word name origin)
  | character {cs : List Char} {origin : Origin} (hs : strip cs = cs) : IsPlain (.data (.character cs) origin)
  | numeric (xs : List Float) (origin : Origin) : IsPlain (.data (.numeric xs) origin)
  | builtin {b : Builtin} {text : String} {origin : Origin} (ht : origin.text = some text)
      (hs : Spells .symbol text.toList) (hb : Builtin.ofSpelling? text = some b) :
      IsPlain (.builtin (.known b) none origin)

/-- A token that is read from a lexeme. -/
inductive Token.IsRead : Token → Prop where
  | plain {t : Token} (h : t.IsPlain) : IsRead t
  | definition {name : String} {ts : Program} {origin : Origin} (hs : Spells .symbol name.toList)
      (hb : Builtin.ofSpelling? name = none) (hname : ';' ∉ name.toList)
      (hts : ∀ t ∈ ts, t.IsPlain ∧ ';' ∉ t.letters) : IsRead (.definition name (Program.pair ts) origin)

theorem Token.IsPlain.isFresh {t : Token} (h : t.IsPlain) : t.isFresh := by cases h <;> rfl

theorem Token.IsRead.isFresh {t : Token} (h : t.IsRead) : t.isFresh := by
  cases h with
  | plain h => exact h.isFresh
  | definition => rfl

/-! ### Reading in turn -/

theorem mapM_cons_eq_ok {α β ε : Type} {f : α → Except ε β} {a : α} {l : List α} {bs : List β}
    (h : (a :: l).mapM f = .ok bs) : ∃ b bs', f a = .ok b ∧ l.mapM f = .ok bs' ∧ bs = b :: bs' := by
  rw [List.mapM_cons] at h
  cases ha : f a with
  | error e => simp [ha, bind, Except.bind] at h
  | ok b =>
    cases hl : l.mapM f with
    | error e => simp [ha, hl, bind, Except.bind] at h
    | ok bs' =>
      obtain rfl : b :: bs' = bs := by simpa [ha, hl, bind, Except.bind, pure, Except.pure] using h
      exact ⟨b, bs', rfl, rfl, rfl⟩

theorem exists_of_mem_mapM {α β ε : Type} {f : α → Except ε β} {l : List α} {bs : List β}
    (h : l.mapM f = .ok bs) {b : β} (hb : b ∈ bs) : ∃ a ∈ l, f a = .ok b := by
  induction l generalizing bs with
  | nil =>
    cases h
    cases hb
  | cons a l ih =>
    obtain ⟨b', bs', ha, hl, rfl⟩ := mapM_cons_eq_ok h
    rcases List.mem_cons.1 hb with rfl | hb
    · exact ⟨a, by simp, ha⟩
    · obtain ⟨a', ha', e⟩ := ih hl hb
      exact ⟨a', by simp [ha'], e⟩

theorem exists_of_mapM_eq_error {α β ε : Type} {f : α → Except ε β} {l : List α} {e : ε}
    (h : l.mapM f = .error e) : ∃ a ∈ l, f a = .error e := by
  induction l with
  | nil => cases h
  | cons a l ih =>
    rw [List.mapM_cons] at h
    cases ha : f a with
    | error e' =>
      obtain rfl : e' = e := by simpa [ha, bind, Except.bind] using h
      exact ⟨a, by simp, ha⟩
    | ok b =>
      cases hl : l.mapM f with
      | error e' =>
        obtain rfl : e' = e := by simpa [ha, hl, bind, Except.bind] using h
        obtain ⟨a', ha', e''⟩ := ih hl
        exact ⟨a', by simp [ha'], e''⟩
      | ok bs => simp [ha, hl, bind, Except.bind, pure, Except.pure] at h

theorem map_eq_ok {α β ε : Type} {f : α → β} {x : Except ε α} {b : β} (h : x.map f = .ok b) :
    ∃ a, x = .ok a ∧ f a = b := by
  cases x with
  | error e => cases h
  | ok a => exact ⟨a, rfl, by simpa [Except.map] using h⟩

theorem map_eq_error {α β ε : Type} {f : α → β} {x : Except ε α} {e : ε} (h : x.map f = .error e) :
    x = .error e := by
  cases x with
  | error e' => simpa [Except.map] using h
  | ok a => cases h

/-! ### Lexemes of a file -/

/-- Lexemes stand on the line on which a text starts or below it, and so does one that does not end. -/
theorem line_le_of_scan (p : Position) (taken : Nat) (cs : List Char) :
    (∀ pieces, scan p taken cs = .ok pieces → ∀ q ∈ pieces, p.line ≤ q.start.line) ∧
      ∀ u, scan p taken cs = .error u → p.line ≤ u.start.line := by
  induction cs generalizing p taken with
  | nil => simp [scan]
  | cons c r ih =>
    have hle : p.line ≤ (p.next c).line := by
      unfold Position.next
      split <;> dsimp only <;> omega
    -- what is found further on stands no higher than the next character
    have hnext : ∀ n, (∀ pieces, scan (p.next c) n r = .ok pieces → ∀ q ∈ pieces, p.line ≤ q.start.line) ∧
        ∀ u, scan (p.next c) n r = .error u → p.line ≤ u.start.line := by
      intro n
      obtain ⟨hok, herror⟩ := ih (p.next c) n
      exact ⟨fun pieces h q hq => Int.le_trans hle (hok pieces h q hq), fun u h => Int.le_trans hle (herror u h)⟩
    cases taken with
    | succ n => exact hnext n
    | zero =>
      unfold scan
      split
      · exact hnext 0
      · split
        · exact hnext _
        · split
          · constructor
            · intro pieces h
              cases h
            · intro u h
              cases h
              exact Int.le_refl _
          · refine ⟨fun pieces h q hq => ?_, fun u h => (hnext _).2 u (map_eq_error h)⟩
            obtain ⟨rest, hrest, rfl⟩ := map_eq_ok h
            rcases List.mem_cons.1 hq with rfl | hq
            · exact Int.le_refl _
            · exact (hnext _).1 rest hrest q hq

/-- A refusal of the source on the given line or below it, not an origin that lacks a field. -/
def ReadError.RefusesFrom (line : Int) : ReadError → Prop
  | .refused e => line ≤ e.start.line
  | .originLacks _ => False

theorem ReadError.RefusesFrom.mono {line line' : Int} {e : ReadError} (h : e.RefusesFrom line) (hl : line' ≤ line) :
    e.RefusesFrom line' := by
  cases e with
  | refused refusal => exact Int.le_trans hl h
  | originLacks field => exact h.elim

namespace Piece

theorem place_toLexeme (file : Option String) (q : Piece) : (q.toLexeme file).origin.place = .ok (file, q.start) := by
  obtain ⟨shape, raw, start⟩ := q
  cases shape <;> rfl

theorem origin_toLexeme (file : Option String) (q : Piece) :
    (q.toLexeme file).origin =
      ⟨some file, some q.start.line, some q.start.column, some (String.ofList q.raw)⟩ := by
  obtain ⟨shape, raw, start⟩ := q
  cases shape <;> rfl

theorem refuse_toLexeme (file : Option String) (q : Piece) (cause : ParseCause) :
    (q.toLexeme file).origin.refuse cause = .refused ⟨cause, file, q.start⟩ := by
  unfold Origin.refuse
  rw [place_toLexeme]

/-- Only a symbol that spells no builtin is read as a word. -/
theorem eq_symbol_of_kind_toLexeme {file : Option String} {q : Piece} (h : (q.toLexeme file).kind = .word) :
    q.shape = .symbol ∧ (q.toLexeme file).text = q.raw ∧ Builtin.ofSpelling? (String.ofList q.raw) = none := by
  obtain ⟨shape, raw, start⟩ := q
  cases shape with
  | symbol =>
    refine ⟨rfl, rfl, ?_⟩
    cases hb : Builtin.ofSpelling? (String.ofList raw) with
    | none => rfl
    | some b => simp [toLexeme, Kind.ofSymbol, hb] at h
  | _ => simp [toLexeme] at h

end Piece

/-- The lexemes of a text are those that the scanner finds. -/
theorem lex_eq_ok {file : Option String} {p : Position} {cs : List Char} {ls : List Lexeme}
    (h : lex file p cs = .ok ls) :
    ∃ pieces : List Piece, scan p 0 cs = .ok pieces ∧ ls = pieces.map (Piece.toLexeme file) := by
  obtain ⟨pieces, hs, rfl⟩ := map_eq_ok h
  exact ⟨pieces, hs, rfl⟩

theorem readNumber_eq_error {file : Option String} {q : Piece} {text : List Char} {e : ReadError}
    (h : readNumber (q.toLexeme file).origin text = .error e) :
    e = .refused ⟨.malformedNumber text, file, q.start⟩ := by
  unfold readNumber at h
  split at h
  · cases h
  · cases h
    exact q.refuse_toLexeme file _

/-! ### Definitions -/

/-- A definition is refused for a lexeme of its text that does not end, for having no name, or for its first lexeme. -/
theorem splitDefinition_eq_error {file : Option String} {q : Piece} {text : List Char} {e : ReadError}
    (h : splitDefinition (q.toLexeme file).origin text = .error e) :
    (∃ u, scan ⟨q.start.line, q.start.column + 1⟩ 0 text = .error u ∧
      e = .refused ⟨.ofOpening u.opening, file, u.start⟩) ∨
    e = .refused ⟨.namelessDefinition, file, q.start⟩ ∨
    ∃ header pieces, scan ⟨q.start.line, q.start.column + 1⟩ 0 text = .ok (header :: pieces) ∧
      e = .refused ⟨.invalidName (header.toLexeme file).text, file, header.start⟩ := by
  unfold splitDefinition at h
  rw [q.place_toLexeme] at h
  dsimp only at h
  split at h
  · rename_i u hl
    cases h
    exact .inl ⟨u, map_eq_error hl, rfl⟩
  · cases h
    exact .inr (.inl rfl)
  · rename_i name body hl
    obtain ⟨pieces, hscan, hls⟩ := lex_eq_ok hl
    obtain ⟨header, pieces, rfl, rfl, -⟩ := List.map_eq_cons_iff.1 hls.symm
    split at h
    · cases h
    · cases h
      exact .inr (.inr ⟨header, pieces, hscan, header.refuse_toLexeme file _⟩)

private theorem splitDefinition_refused {file : Option String} {q : Piece} {text : List Char} {e : ReadError}
    (h : splitDefinition (q.toLexeme file).origin text = .error e) : e.RefusesFrom q.start.line := by
  have hlines := line_le_of_scan ⟨q.start.line, q.start.column + 1⟩ 0 text
  rcases splitDefinition_eq_error h with ⟨u, hscan, rfl⟩ | rfl | ⟨header, pieces, hscan, rfl⟩
  · exact hlines.2 u hscan
  · exact Int.le_refl _
  · exact hlines.1 _ hscan header (List.mem_cons_self ..)

/-- A definition splits into a symbol that spells no builtin and the lexemes of the rest of its text.  They are found
from right behind its colon on. -/
theorem splitDefinition_eq_ok {file : Option String} {q : Piece} {text name : List Char} {body : List Lexeme}
    (h : splitDefinition (q.toLexeme file).origin text = .ok (name, body)) :
    ∃ (header : Piece) (pieces : List Piece),
      scan ⟨q.start.line, q.start.column + 1⟩ 0 text = .ok (header :: pieces) ∧
      header.shape = .symbol ∧ header.raw = name ∧ Builtin.ofSpelling? (String.ofList name) = none ∧
      body = pieces.map (Piece.toLexeme file) := by
  unfold splitDefinition at h
  rw [q.place_toLexeme] at h
  dsimp only at h
  split at h
  · cases h
  · cases h
  · rename_i first rest hl
    obtain ⟨pieces, hscan, hls⟩ := lex_eq_ok hl
    obtain ⟨q', pieces', rfl⟩ : ∃ q' pieces', pieces = q' :: pieces' := by
      cases pieces with
      | nil => cases hls
      | cons q' pieces' => exact ⟨q', pieces', rfl⟩
    obtain ⟨rfl, rfl⟩ : first = q'.toLexeme file ∧ rest = pieces'.map (Piece.toLexeme file) := by simpa using hls
    split at h
    · rename_i hk
      obtain ⟨rfl, rfl⟩ : (q'.toLexeme file).text = name ∧ pieces'.map (Piece.toLexeme file) = body := by simpa using h
      obtain ⟨hshape, htext, hb⟩ := Piece.eq_symbol_of_kind_toLexeme hk
      exact ⟨q', pieces', hscan, hshape, htext.symm, by rwa [htext], rfl⟩
    · cases h

/-! ### Tokens -/

theorem inner_delimited (opening closing : Char) (u : List Char) : inner (opening :: (u ++ [closing])) = u := by
  simp [inner]

private theorem mem_of_mem_inner {raw : List Char} {c : Char} (h : c ∈ inner raw) : c ∈ raw :=
  List.mem_of_mem_drop (List.dropLast_subset _ h)

private theorem mem_of_mem_unescape {cs : List Char} {c : Char} (h : c ∈ unescape cs) : c ∈ cs := by
  fun_induction unescape cs with
  | case1 d r ih =>
    rcases List.mem_cons.1 h with rfl | h
    · simp
    · simp [ih h]
  | case2 d r _ ih =>
    rcases List.mem_cons.1 h with rfl | h
    · simp
    · simp [ih h]
  | case3 => cases h

/-- What a lexeme other than a definition is read as. -/
theorem readToken_isPlain {depth : Nat} {file : Option String} {q : Piece} (hq : Spells q.shape q.raw)
    (hd : q.shape ≠ .definition) {t : Token} (h : readToken depth (q.toLexeme file) = .ok t) :
    t.IsPlain ∧ t.letters ⊆ q.raw := by
  obtain ⟨shape, raw, start⟩ := q
  unfold readToken at h
  cases shape with
  | definition => exact absurd rfl hd
  | number =>
    obtain ⟨x, -, rfl⟩ := map_eq_ok h
    exact ⟨.numeric [x] _, by simp [Token.letters, Value.scalar]⟩
  | array =>
    obtain ⟨xs, -, rfl⟩ := map_eq_ok h
    exact ⟨.numeric xs _, by simp [Token.letters]⟩
  | string =>
    cases h
    refine ⟨.character (strip_strip _), fun c hc => ?_⟩
    exact mem_of_mem_inner (mem_of_mem_unescape (mem_of_mem_strip hc))
  | symbol =>
    simp only [Piece.toLexeme, Kind.ofSymbol] at h
    cases hb : Builtin.ofSpelling? (String.ofList raw) with
    | none =>
      simp only [hb] at h
      cases h
      exact ⟨.word (by simpa using hq) hb, by simp [Token.letters]⟩
    | some b =>
      simp only [hb] at h
      cases h
      exact ⟨.builtin rfl (by simpa using hq) hb, by simp [Token.letters, Token.spelling]⟩

theorem shape_ne_definition {q : Piece} (hq : Spells q.shape q.raw) (h : ';' ∉ q.raw) :
    q.shape ≠ .definition := by
  intro hd
  obtain ⟨shape, raw, start⟩ := q
  subst hd
  cases hq with
  | definition hu => exact h (by simp)

/-- A token is from where its lexeme is from. -/
theorem readToken_origin {depth : Nat} {l : Lexeme} {t : Token} (h : readToken depth l = .ok t) :
    t.origin = l.origin := by
  unfold readToken at h
  split at h
  · obtain ⟨x, -, rfl⟩ := map_eq_ok h
    rfl
  · cases h
    rfl
  · obtain ⟨xs, -, rfl⟩ := map_eq_ok h
    rfl
  · cases h
    rfl
  · cases h
    rfl
  · split at h
    · cases h
    · cases h
      rfl
    · obtain ⟨ts, -, rfl⟩ := map_eq_ok h
      rfl

/-- What a definition is read as: its text is scanned, the first lexeme is its name, and the others are read as its
body, unless definitions may not nest. -/
theorem readToken_definition_cases {depth : Nat} {file : Option String} {q : Piece} (hd : q.shape = .definition)
    {t : Token} (h : readToken depth (q.toLexeme file) = .ok t) :
    ∃ (header : Piece) (pieces : List Piece) (ts : Program),
      scan ⟨q.start.line, q.start.column + 1⟩ 0 (inner q.raw) = .ok (header :: pieces) ∧
      header.shape = .symbol ∧ Builtin.ofSpelling? (String.ofList header.raw) = none ∧
      t = .definition (String.ofList header.raw) (Program.pair ts) (q.toLexeme file).origin ∧
      (depth = 0 ∧ ts = [] ∨
        ∃ d, depth = d + 1 ∧ (pieces.map (Piece.toLexeme file)).mapM (readToken d) = .ok ts) := by
  have hkind : (q.toLexeme file).kind = .definition := by simp [Piece.toLexeme, hd]
  have htext : (q.toLexeme file).text = inner q.raw := by simp [Piece.toLexeme, hd]
  unfold readToken at h
  rw [hkind] at h
  dsimp only at h
  rw [htext] at h
  cases hsplit : splitDefinition (q.toLexeme file).origin (inner q.raw) with
  | error e => simp [hsplit] at h
  | ok split =>
    obtain ⟨name, body⟩ := split
    obtain ⟨header, pieces, hscan, hshape, rfl, hb, rfl⟩ := splitDefinition_eq_ok hsplit
    simp only [hsplit] at h
    cases depth with
    | zero =>
      cases h
      exact ⟨header, pieces, [], hscan, hshape, hb, rfl, .inl ⟨rfl, rfl⟩⟩
    | succ d =>
      obtain ⟨ts, hts, rfl⟩ := map_eq_ok h
      exact ⟨header, pieces, ts, hscan, hshape, hb, rfl, .inr ⟨d, rfl, hts⟩⟩

theorem Spells.inner_definition {raw : List Char} (h : Spells .definition raw) :
    raw = ':' :: (inner raw ++ [';']) ∧ ';' ∉ inner raw := by
  cases h with
  | definition hu => rw [inner_delimited]; exact ⟨rfl, hu⟩

/-- What a lexeme is read as, if its definitions may nest. -/
theorem readToken_isRead {depth : Nat} {file : Option String} {q : Piece} (hq : Spells q.shape q.raw) {t : Token}
    (h : readToken (depth + 1) (q.toLexeme file) = .ok t) : t.IsRead := by
  by_cases hd : q.shape = .definition
  · rw [hd] at hq
    obtain ⟨-, hsemi⟩ := hq.inner_definition
    obtain ⟨header, pieces, ts, hscan, hshape, hb, rfl, ⟨hdepth, -⟩ | ⟨d, -, hts⟩⟩ := readToken_definition_cases hd h
    · cases hdepth
    · obtain ⟨hs, hname⟩ := spells_of_mem_scan hscan (List.mem_cons_self ..)
      rw [hshape] at hs
      refine .definition (by simpa using hs) hb (by simpa using fun hm => hsemi (hname hm)) fun t ht => ?_
      obtain ⟨l, hl, hread⟩ := exists_of_mem_mapM hts ht
      obtain ⟨q', hq', rfl⟩ := List.mem_map.1 hl
      obtain ⟨hs', hsub⟩ := spells_of_mem_scan hscan (List.mem_cons_of_mem header hq')
      have hraw : ';' ∉ q'.raw := fun hm => hsemi (hsub hm)
      obtain ⟨hplain, hletters⟩ := readToken_isPlain hs' (shape_ne_definition hs' hraw) hread
      exact ⟨hplain, fun hm => hraw (hletters hm)⟩
  · exact .plain (readToken_isPlain hq hd h).1

theorem readToken_refused {depth : Nat} {file : Option String} {q : Piece} {e : ReadError}
    (h : readToken depth (q.toLexeme file) = .error e) : e.RefusesFrom q.start.line := by
  induction depth using Nat.strongRecOn generalizing q e with
  | ind depth ih =>
    unfold readToken at h
    split at h
    · rw [readNumber_eq_error (map_eq_error h)]
      exact Int.le_refl _
    · cases h
    · obtain ⟨text, -, h⟩ := exists_of_mapM_eq_error (map_eq_error h)
      rw [readNumber_eq_error h]
      exact Int.le_refl _
    · cases h
    · cases h
    · split at h
      · rename_i hsplit
        cases h
        exact splitDefinition_refused hsplit
      · cases h
      · rename_i name body depth hsplit
        obtain ⟨header, pieces, hscan, -, -, -, rfl⟩ := splitDefinition_eq_ok hsplit
        obtain ⟨l, hl, hread⟩ := exists_of_mapM_eq_error (map_eq_error h)
        obtain ⟨q', hq', rfl⟩ := List.mem_map.1 hl
        have hline := (line_le_of_scan _ _ _).1 _ hscan q' (List.mem_cons_of_mem header hq')
        exact (ih depth (by omega) hread).mono hline

/-! ### Programs -/

namespace Program

/-- A source is read as a pairing of tokens that are read from lexemes. -/
theorem parse_eq_ok {source : List Char} {file : Option String} {line : Int} {p : Program}
    (h : parse source file line = .ok p) : ∃ ts, p = pair ts ∧ ∀ t ∈ ts, t.IsRead := by
  unfold parse at h
  split at h
  · cases h
  · rename_i lexemes hl
    obtain ⟨pieces, hscan, rfl⟩ := lex_eq_ok hl
    obtain ⟨ts, hts, rfl⟩ := map_eq_ok h
    refine ⟨ts, rfl, fun t ht => ?_⟩
    obtain ⟨l, hl, hread⟩ := exists_of_mem_mapM hts ht
    obtain ⟨q, hq, rfl⟩ := List.mem_map.1 hl
    exact readToken_isRead (spells_of_mem_scan hscan hq).1 hread

/-- A source that is not read is refused, on the line on which it starts or below it. -/
theorem parse_refused {source : List Char} {file : Option String} {line : Int} {e : ReadError}
    (h : parse source file line = .error e) : e.RefusesFrom line := by
  have hlines := line_le_of_scan ⟨line, 1⟩ 0 source
  unfold parse at h
  split at h
  · rename_i u hl
    cases h
    exact hlines.2 u (map_eq_error hl)
  · rename_i lexemes hl
    obtain ⟨pieces, hscan, rfl⟩ := lex_eq_ok hl
    obtain ⟨l, hl, hread⟩ := exists_of_mapM_eq_error (map_eq_error h)
    obtain ⟨q, hq, rfl⟩ := List.mem_map.1 hl
    exact (readToken_refused hread).mono (hlines.1 pieces hscan q hq)

end Program

end Catena
