import Catena.Proofs.Reading

/-!
# Sources below one another

A source that is accepted can be followed by another on the next line: it is read as before, and the other one as it is
on its own, further down (`lex_append_newline`).

* A line feed ends whatever has no end of its own, a comment, a number or a symbol, so that the segments of a source
  stay what they are (`Laid.append_newline`).
* It also starts the columns over.  Then only the line that a text starts on tells where it stands, and a text that
  starts some lines further down has its lexemes, or the one that does not end, that much further down (`scan_down`).
-/

namespace Catena

open Catena.Text

/-! ### A line feed behind a source -/

section

variable {t : List Char} (r : List Char)

theorem EndsLine.append_newline (h : EndsLine t) : EndsLine (t ++ '\n' :: r) := by
  cases t with
  | nil =>
    intro c hc
    exact (Option.some.inj hc).symm
  | cons d t => exact h

theorem IsGap.append_newline (h : IsGap t) : IsGap (t ++ '\n' :: r) := by
  cases t with
  | nil =>
    intro c hc
    obtain rfl : '\n' = c := Option.some.inj hc
    decide
  | cons d t => exact h

theorem IsSpacing.append_newline {g rest : List Char} (h : IsSpacing g rest) : IsSpacing g (rest ++ '\n' :: r) := by
  induction h with
  | nil => exact .nil
  | blank hc _ ih => exact .blank hc ih
  | comment hu he _ ih =>
    refine .comment hu ?_ ih
    rw [← List.append_assoc]
    exact he.append_newline r

theorem Laid.append_newline {segments : List Segment} {rest source : List Char} (h : Laid segments rest source) :
    Laid segments (rest ++ '\n' :: r) (source ++ '\n' :: r) := by
  induction h with
  | nil => exact .nil
  | cons hg ht he _ ih =>
    rw [List.append_assoc, List.append_assoc]
    refine .cons ?_ ht (fun hrun => (he hrun).append_newline r) ih
    rw [← List.append_assoc]
    exact hg.append_newline r

end

namespace Position

/-- Line feeds alone count lines. -/
theorem line_after (p : Position) (cs : List Char) : (p.after cs).line = p.line + cs.count '\n' := by
  induction cs generalizing p with
  | nil => simp [after]
  | cons c cs ih =>
    have hstep : p.after (c :: cs) = (p.next c).after cs := rfl
    rw [hstep, ih, next, List.count_cons]
    by_cases hc : c = '\n'
    · simp [hc]
      omega
    · simp [hc]

theorem next_newline (p : Position) : p.next '\n' = ⟨p.line + 1, 1⟩ := rfl

/-- The place some lines further down. -/
def down (k : Int) (p : Position) : Position := ⟨p.line + k, p.column⟩

theorem next_down (k : Int) (p : Position) (c : Char) : (p.down k).next c = (p.next c).down k := by
  unfold next
  split
  · simp only [down, Position.mk.injEq, and_true]
    omega
  · rfl

end Position

/-- Behind a source and a line feed the scanner goes on as at the start of a line. -/
theorem scan_append_newline {p : Position} {source : List Char} {pieces : List Piece}
    (h : scan p 0 source = .ok pieces) (r : List Char) :
    scan p 0 (source ++ '\n' :: r) = (scan ⟨p.line + source.count '\n' + 1, 1⟩ 0 r).map (pieces ++ ·) := by
  obtain ⟨segments, last, ⟨hlaid, hlast⟩, rfl⟩ := scan_eq_ok_iff.1 h
  have hgap : IsSpacing last ('\n' :: r) := hlast.append_newline r
  rw [(hlaid.append_newline r).scan_eq, hgap.scan_eq, ← Position.after_append, ← hlaid.source_eq,
    scan_cons_of_isBlank (by decide), Position.next_newline, Position.line_after]

/-! ### Further down -/

def Piece.down (k : Int) (q : Piece) : Piece := { q with start := q.start.down k }

def Unclosed.down (k : Int) (u : Unclosed) : Unclosed := { u with start := u.start.down k }

def Origin.down (k : Int) (o : Origin) : Origin := { o with line := o.line.map (· + k) }

def Lexeme.down (k : Int) (l : Lexeme) : Lexeme := { l with origin := l.origin.down k }

theorem Piece.toLexeme_down (k : Int) (file : Option String) (q : Piece) :
    (q.down k).toLexeme file = (q.toLexeme file).down k := by
  obtain ⟨shape, raw, start⟩ := q
  cases shape <;> rfl

/-- What a scan that starts further down finds, or does not find the end of, is further down. -/
theorem scan_down (k : Int) (p : Position) (taken : Nat) (cs : List Char) :
    scan (p.down k) taken cs = ((scan p taken cs).map (List.map (Piece.down k))).mapError (Unclosed.down k) := by
  induction cs generalizing p taken with
  | nil => cases taken <;> rfl
  | cons c r ih =>
    cases taken with
    | succ n => rw [scan, scan, Position.next_down, ih]
    | zero =>
      rw [scan, scan]
      split
      · rw [Position.next_down, ih]
      · split
        · rw [Position.next_down, ih]
        · cases lexemeAt? c r with
          | none => rfl
          | some found =>
            obtain ⟨shape, raw⟩ := found
            simp only [Position.next_down, ih]
            cases scan (p.next c) (raw.length - 1) r <;> rfl

theorem lex_down (k : Int) (file : Option String) (p : Position) (source : List Char) :
    lex file (p.down k) source =
      ((lex file p source).map (List.map (Lexeme.down k))).mapError (Unclosed.down k) := by
  rw [lex, lex, scan_down]
  cases scan p 0 source with
  | error u => rfl
  | ok pieces =>
    have hmap : (pieces.map (Piece.down k)).map (Piece.toLexeme file) =
        (pieces.map (Piece.toLexeme file)).map (Lexeme.down k) := by
      rw [List.map_map, List.map_map]
      exact List.map_congr_left fun q _ => q.toLexeme_down k file
    exact congrArg Except.ok hmap

/-- A source that is accepted, a line feed and any other source: the lexer gives the lexemes of the first, and then does
as on the second by itself when that starts at the beginning of the line that is next.  So the lexemes of the second
follow, as many lines further down as the first takes up, and if the second is refused, the whole is, for the same
lexeme, that many lines further down. -/
theorem lex_append_newline {file : Option String} {start : Position} {source : List Char} {ls : List Lexeme}
    (h : lex file start source = .ok ls) (other : List Char) :
    lex file start (source ++ '\n' :: other) =
        (lex file ⟨start.line + source.count '\n' + 1, 1⟩ other).map (ls ++ ·) ∧
      (∀ ls', lex file ⟨1, 1⟩ other = .ok ls' → lex file start (source ++ '\n' :: other) =
        .ok (ls ++ ls'.map (Lexeme.down (start.line + source.count '\n')))) ∧
      ∀ u, lex file ⟨1, 1⟩ other = .error u → lex file start (source ++ '\n' :: other) =
        .error (u.down (start.line + source.count '\n')) := by
  have hjoin : lex file start (source ++ '\n' :: other) =
      (lex file ⟨start.line + source.count '\n' + 1, 1⟩ other).map (ls ++ ·) := by
    obtain ⟨pieces, hscan, rfl⟩ := lex_eq_ok h
    rw [lex, lex, scan_append_newline hscan]
    cases scan ⟨start.line + source.count '\n' + 1, 1⟩ 0 other with
    | error u => rfl
    | ok found => exact congrArg Except.ok (List.map_append ..)
  have hdown : (⟨start.line + source.count '\n' + 1, 1⟩ : Position) =
      Position.down (start.line + source.count '\n') ⟨1, 1⟩ := by
    simp only [Position.down, Position.mk.injEq, and_true]
    omega
  refine ⟨hjoin, fun ls' h' => ?_, fun u hu => ?_⟩
  · rw [hjoin, hdown, lex_down, h']
    rfl
  · rw [hjoin, hdown, lex_down, hu]
    rfl

/-- Below a string over two lines, a number and a comment, `2` is read as a number on the third line, and a quote is
refused there. -/
theorem lex_append_newline_string_comment :
    let source := ['"', 'a', '\n', '"', ' ', '1', ' ', '#', '[']
    let ls : List Lexeme := [⟨['a'], .string, ⟨some none, some 1, some 1, some "\"a\n\""⟩⟩,
      ⟨['1'], .number, ⟨some none, some 2, some 3, some "1"⟩⟩]
    lex none ⟨1, 1⟩ (source ++ '\n' :: [' ', '2']) =
        .ok (ls ++ [⟨['2'], .number, ⟨some none, some 3, some 2, some "2"⟩⟩]) ∧
      lex none ⟨1, 1⟩ (source ++ '\n' :: ['+', ' ', '"']) = .error ⟨'"', ⟨3, 3⟩⟩ := by
  intro source ls
  have h : lex none ⟨1, 1⟩ source = .ok ls := by rfl
  have hnumber : lex none ⟨1, 1⟩ [' ', '2'] = .ok [⟨['2'], .number, ⟨some none, some 1, some 2, some "2"⟩⟩] := by rfl
  have hquote : lex none ⟨1, 1⟩ ['+', ' ', '"'] = .error ⟨'"', ⟨1, 3⟩⟩ := by rfl
  exact ⟨(lex_append_newline h _).2.1 _ hnumber, (lex_append_newline h _).2.2 _ hquote⟩

end Catena
