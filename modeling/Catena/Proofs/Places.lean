import Catena.Source.Lexeme

/-!
# Places in a source

Lines are cut at line feeds only.  `IsPlace` says which index of a source a line and a column stand for, and the
positions that the scanner counts are such places (`isPlace_after`).  An origin names the stretch of a source that
starts at its place and reads its text (`Origin.Spans`).
-/

namespace Catena

/-- The line and the column of a position are those behind the first `i` characters of a source, which are the lines
`above` with their line feeds and the beginning `left` of the next line.  The first line has the number `first`, and
columns are counted from one. -/
def IsPlace (source : List Char) (first : Int) (p : Position) (i : Nat) : Prop :=
  ∃ above left right below, source.splitOn '\n' = above ++ (left ++ right) :: below ∧
    p.line = first + above.length ∧ p.column = 1 + left.length ∧
    i = (above.flatMap (· ++ ['\n'])).length + left.length

/-- A line and a column stand for one index at most. -/
theorem IsPlace.unique {source : List Char} {first : Int} {p : Position} {i i' : Nat} (h : IsPlace source first p i)
    (h' : IsPlace source first p i') : i = i' := by
  obtain ⟨above, left, right, below, hlines, hline, hcolumn, rfl⟩ := h
  obtain ⟨above', left', right', below', hlines', hline', hcolumn', rfl⟩ := h'
  rw [hlines] at hlines'
  have habove : above.length = above'.length := by omega
  have hleft : left.length = left'.length := by omega
  obtain ⟨rfl, -⟩ := List.append_inj hlines' habove
  rw [hleft]

/-- Cutting a text in two cuts one of its lines in two, and counting over the first part ends in that line. -/
private theorem exists_lines (before rest : List Char) (p : Position) :
    ∃ above left right below, (before ++ rest).splitOn '\n' = above ++ (left ++ right) :: below ∧
      p.after before = ⟨p.line + above.length, (if above = [] then p.column else 1) + left.length⟩ ∧
      before.length = (above.flatMap (· ++ ['\n'])).length + left.length := by
  induction before generalizing p with
  | nil =>
    obtain ⟨right, below, hlines⟩ := List.exists_cons_of_ne_nil (List.splitOn_ne_nil '\n' rest)
    exact ⟨[], [], right, below, hlines, by simp [Position.after], rfl⟩
  | cons c before ih =>
    obtain ⟨above, left, right, below, hlines, hafter, hlength⟩ := ih (p.next c)
    have hstep : p.after (c :: before) = (p.next c).after before := rfl
    rw [List.cons_append, List.splitOn_cons_eq_if_modifyHead, hlines, hstep, hafter]
    by_cases hc : c = '\n'
    · -- one more line stands above
      refine ⟨[] :: above, left, right, below, by simp [hc], ?_, ?_⟩
      · simp only [Position.next, hc, ↓reduceIte, List.length_cons, Position.mk.injEq, reduceCtorEq]
        refine ⟨by omega, ?_⟩
        split <;> rfl
      · simp only [List.length_cons, List.flatMap_cons, List.nil_append, List.length_append, List.length_nil]
        omega
    · cases above with
      | nil =>
        refine ⟨[], c :: left, right, below, by simp [hc], ?_, ?_⟩
        · simp [Position.next, hc]
          omega
        · simp at hlength
          simp [hlength]
      | cons line above =>
        refine ⟨(c :: line) :: above, left, right, below, by simp [hc], by simp [Position.next, hc], ?_⟩
        simp only [List.length_cons, List.flatMap_cons, List.length_append] at hlength ⊢
        omega

/-- The position after the beginning of a source, counted from its first line on, is the place behind it. -/
theorem isPlace_after (before rest : List Char) (first : Int) :
    IsPlace (before ++ rest) first (Position.after ⟨first, 1⟩ before) before.length := by
  obtain ⟨above, left, right, below, hlines, hafter, hlength⟩ := exists_lines before rest ⟨first, 1⟩
  rw [hafter]
  refine ⟨above, left, right, below, hlines, rfl, ?_, hlength⟩
  split <;> rfl

/-- The origin names the stretch of a source from the index `i` up to the index `j`: `i` is where its line and column
are, and what stands there is its text. -/
def Origin.Spans (source : List Char) (first : Int) (o : Origin) (i j : Nat) : Prop :=
  ∃ p text, o.line = some p.line ∧ o.column = some p.column ∧ o.text = some (String.ofList text) ∧
    IsPlace source first p i ∧ text <+: source.drop i ∧ j = i + text.length

theorem Origin.Spans.unique {source : List Char} {first : Int} {o : Origin} {i j i' j' : Nat}
    (h : o.Spans source first i j) (h' : o.Spans source first i' j') : i = i' ∧ j = j' := by
  obtain ⟨⟨line, column⟩, text, hl, hc, ht, hp, -, rfl⟩ := h
  obtain ⟨⟨line', column'⟩, text', hl', hc', ht', hp', -, rfl⟩ := h'
  rw [hl, Option.some.injEq] at hl'
  rw [hc, Option.some.injEq] at hc'
  rw [ht, Option.some.injEq, String.ofList_inj] at ht'
  dsimp only at hl' hc'
  subst hl' hc' ht'
  obtain rfl := hp.unique hp'
  exact ⟨rfl, rfl⟩

end Catena
