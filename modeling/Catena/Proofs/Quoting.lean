import Catena.Proofs.Reading
import Catena.Render

/-!
# Quoted characters

An array of characters shows in quotes, with every quote and every backslash behind a backslash.  Whatever the
characters are, that is a string of the grammar (`Value.spells_render_character`): no backslash is left that could
escape a line feed or the closing quote.  Reading the string drops just the backslashes that were put in
(`unescape_escape`), and the blanks at both ends after that, so that the text reads back as the characters without these
(`parse_render_character`).
-/

namespace Catena

open Catena.Text

private theorem escapeQuoted_of_special {c : Char} (h : c = '"' ∨ c = '\\') : escapeQuoted c = ['\\', c] := by
  simp [escapeQuoted, h]

private theorem escapeQuoted_of_plain {c : Char} (h : ¬ (c = '"' ∨ c = '\\')) : escapeQuoted c = [c] := by
  simp [escapeQuoted, h]

theorem isQuoted_escape (cs : List Char) : IsQuoted (cs.flatMap escapeQuoted) := by
  induction cs with
  | nil => exact .nil
  | cons c cs ih =>
    rw [List.flatMap_cons]
    by_cases h : c = '"' ∨ c = '\\'
    · rw [escapeQuoted_of_special h]
      refine .escaped ?_ ih
      rintro rfl
      exact absurd h (by decide)
    · rw [escapeQuoted_of_plain h]
      rw [not_or] at h
      exact .plain h.1 h.2 ih

theorem unescape_escape (cs : List Char) : unescape (cs.flatMap escapeQuoted) = cs := by
  induction cs with
  | nil => rfl
  | cons c cs ih =>
    rw [List.flatMap_cons]
    by_cases h : c = '"' ∨ c = '\\'
    · rw [escapeQuoted_of_special h]
      exact congrArg (c :: ·) ih
    · rw [escapeQuoted_of_plain h]
      rw [not_or] at h
      rw [List.singleton_append, unescape, ih]
      intro d r e _
      exact h.2 e

theorem Value.render_character (cs : List Char) :
    (Value.character cs).render = '"' :: (cs.flatMap escapeQuoted ++ ['"']) := rfl

/-- The text of characters is a string, whatever the characters are. -/
theorem Value.spells_render_character (cs : List Char) : Spells .string (Value.character cs).render := by
  rw [render_character]
  exact .string (isQuoted_escape cs)

theorem Value.unescape_inner_render_character (cs : List Char) :
    unescape (inner (Value.character cs).render) = cs := by
  rw [render_character, inner_delimited, unescape_escape]

theorem readToken_string (depth : Nat) (file : Option String) (raw : List Char) (start : Position) :
    readToken depth (Piece.toLexeme file ⟨.string, raw, start⟩) =
      .ok (.data (.character (strip (unescape (inner raw))))
        ⟨some file, some start.line, some start.column, some (String.ofList raw)⟩) := by
  unfold readToken
  rfl

/-- A source that is one string is a program of one token. -/
private theorem parse_string {raw : List Char} (h : Spells .string raw) (file : Option String) (line : Int) :
    Program.parse raw file line = .ok [.data (.character (strip (unescape (inner raw))))
      ⟨some file, some line, some 1, some (String.ofList raw)⟩] := by
  have hscan : scan ⟨line, 1⟩ 0 raw = .ok [⟨.string, raw, ⟨line, 1⟩⟩] := by
    have hrest : Shape.string.isRun → IsGap [] := by simp [Shape.isRun]
    have hpiece := h.scan_eq hrest ⟨line, 1⟩
    rw [List.append_nil] at hpiece
    rw [hpiece]
    rfl
  have hlex : lex file ⟨line, 1⟩ raw = .ok [Piece.toLexeme file ⟨.string, raw, ⟨line, 1⟩⟩] := by
    rw [lex, hscan]
    rfl
  rw [Program.parse, hlex]
  simp only [Program.ofLexemes, List.mapM_cons, List.mapM_nil, readToken_string]
  rfl

/-- Quoting is undone by reading.  Characters of any kind show as a source that is a program of one token and defines
nothing: the token pushes the characters without the blanks at both ends.  So characters that differ in more than these
blanks show differently. -/
theorem parse_render_character (cs : List Char) :
    (∀ (file : Option String) (line : Int), ∃ program,
      Program.parse (Value.character cs).render file line = .ok program ∧ definitionsOf program = [] ∧
      program = [.data (.character (strip cs))
        ⟨some file, some line, some 1, some (String.ofList (Value.character cs).render)⟩]) ∧
    ∀ ds, strip cs ≠ strip ds → (Value.character cs).render ≠ (Value.character ds).render := by
  constructor
  · intro file line
    have hparse := parse_string (Value.spells_render_character cs) file line
    rw [Value.unescape_inner_render_character] at hparse
    exact ⟨_, hparse, rfl, rfl⟩
  · intro ds hne e
    have hcs := Value.unescape_inner_render_character cs
    rw [e, Value.unescape_inner_render_character] at hcs
    exact hne (by rw [hcs])

end Catena
