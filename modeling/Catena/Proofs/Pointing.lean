import Catena.Excerpt
import Catena.Proofs.Positions

/-!
# What a refusal points at

The report of a refusal marks as many characters as its token has, from its line and column on.  That is the token just
if the source goes on with it there (`ParseError.Points`).

Most refusals point at their token: a character that opens a lexeme without an end, a malformed number that stands by
itself, the colon of a definition without a name, and a number or a builtin in the place of a name.  The others name a
text that is taken out of a literal, an item of an array or what a string or an array in the place of a name stands for,
but the place is where the whole literal starts (`ParseCause.IsWithin`).  Only these can point beside their token
(`parse_points_iff`).
-/

namespace Catena

open Catena.Text

/-- At the line and column of a refusal the source goes on with the token that it names. -/
def ParseError.Points (source : List Char) (first : Int) (e : ParseError) : Prop :=
  ∃ i, IsPlace source first e.start i ∧ e.cause.token <+: source.drop i

/-- The text that a cause names is taken out of a literal: it is an item of an array, or what a string or an array
stands for. -/
inductive ParseCause.IsWithin : ParseCause → (raw : List Char) → Prop where
  | item {raw text : List Char} (hraw : Spells .array raw) (ht : text ∈ fields (strip (inner raw))) :
      IsWithin (.malformedNumber text) raw
  | string {raw : List Char} (hraw : Spells .string raw) : IsWithin (.invalidName (strip (unescape (inner raw)))) raw
  | array {raw : List Char} (hraw : Spells .array raw) : IsWithin (.invalidName (strip (inner raw))) raw

/-- A refusal names a text that is taken out of a literal, and its place is the start of that literal, which does not
start with the text. -/
def ParseError.IsAside (source : List Char) (first : Int) (e : ParseError) : Prop :=
  ∃ i raw, IsPlace source first e.start i ∧ raw <+: source.drop i ∧ e.cause.IsWithin raw ∧ ¬ e.cause.token <+: raw

/-- In the line that a refusal names, an excerpt marks its token and nothing else. -/
def ParseError.IsMarked (source : List Char) (first : Int) (e : ParseError) : Prop :=
  ∃ above left right below, source.splitOn '\n' = above ++ (left ++ (e.cause.token ++ right)) :: below ∧
    e.start.line = first + above.length ∧
    ∀ file, Spot.mark ⟨file, some e.start.line, some e.start.column, some e.cause.token⟩
        (left ++ (e.cause.token ++ right)) =
      left ++ Colour.code "48;5;30" ++ Colour.paint "1;97" e.cause.token ++ right

/-! ### Texts out of a literal -/

theorem length_strip_le (cs : List Char) : (strip cs).length ≤ cs.length := by
  obtain ⟨a, b, hcs, -⟩ := strip_eq_iff.1 (rfl : strip cs = strip cs)
  have hlength := congrArg List.length hcs
  simp only [List.length_append] at hlength
  omega

theorem length_unescape_le (cs : List Char) : (unescape cs).length ≤ cs.length := by
  fun_induction unescape cs with
  | case1 c r ih =>
    simp only [List.length_cons]
    omega
  | case2 c r h ih =>
    simp only [List.length_cons]
    omega
  | case3 => exact Nat.le_refl 0

theorem length_le_of_mem_fields {cs w : List Char} (h : w ∈ fields cs) : w.length ≤ cs.length := by
  fun_induction fields cs generalizing w with
  | case1 => cases h
  | case2 c hc => cases h
  | case3 c hc =>
    obtain rfl := List.mem_singleton.1 h
    exact Nat.le_refl 1
  | case4 c d r hc ih => exact Nat.le_succ_of_le (ih h)
  | case5 c d r hc hd ih =>
    rcases List.mem_cons.1 h with rfl | h
    · simp
    · exact Nat.le_succ_of_le (ih h)
  | case6 c d r hc hd v vs hv ih =>
    rcases List.mem_cons.1 h with rfl | h
    · exact Nat.succ_le_succ (ih (hv ▸ List.mem_cons_self ..))
    · exact Nat.le_succ_of_le (ih (hv ▸ List.mem_cons_of_mem v h))
  | case7 c d r hc hd hv ih =>
    obtain rfl := List.mem_singleton.1 h
    simp

theorem length_inner_le (raw : List Char) : (inner raw).length ≤ raw.length := by
  simp only [inner, List.length_dropLast, List.length_drop]
  omega

/-- A text that is taken out of a literal is not longer than the literal. -/
theorem ParseCause.IsWithin.length_token_le {cause : ParseCause} {raw : List Char} (h : cause.IsWithin raw) :
    cause.token.length ≤ raw.length := by
  have hinner := length_inner_le raw
  cases h with
  | item hraw ht =>
    have hitem := length_le_of_mem_fields ht
    have hstrip := length_strip_le (inner raw)
    simp only [token]
    omega
  | string hraw =>
    have hstrip := length_strip_le (unescape (inner raw))
    have hunescape := length_unescape_le (inner raw)
    simp only [token]
    omega
  | array hraw =>
    have hstrip := length_strip_le (inner raw)
    simp only [token]
    omega

/-- A lexeme that is refused starts with the text that is named, or the text is taken out of it. -/
theorem Piece.IsRefused.prefix_or_isWithin {q : Piece} {cause : ParseCause} (hq : Spells q.shape q.raw)
    (h : q.IsRefused cause) : cause.token <+: q.raw ∨ cause.IsWithin q.raw := by
  obtain ⟨shape, raw, start⟩ := q
  cases h with
  | number hs => exact .inl List.prefix_rfl
  | item hs ht =>
    obtain rfl : shape = .array := hs
    exact .inr (.item hq ht)
  | nameless hs =>
    obtain rfl : shape = .definition := hs
    obtain ⟨hraw, -⟩ := Spells.inner_definition hq
    left
    rw [hraw]
    exact List.prefix_append [':'] _
  | name hs file =>
    cases shape with
    | string => exact .inr (.string hq)
    | array => exact .inr (.array hq)
    | definition => exact absurd rfl hs
    | number => exact .inl List.prefix_rfl
    | symbol => exact .inl List.prefix_rfl

namespace ParseError

variable {source : List Char} {first : Int} {e : ParseError}

theorem PointsAtToken.points (h : e.PointsAtToken source first) : e.Points source first := by
  obtain ⟨i, c, hplace, hc, htoken⟩ := h
  obtain ⟨hi, rfl⟩ := List.getElem?_eq_some_iff.1 hc
  refine ⟨i, hplace, ?_⟩
  rw [htoken, List.drop_eq_getElem_cons hi]
  exact List.prefix_append [source[i]] _

/-- A source is refused at the token, or for a text out of a literal that starts there. -/
theorem points_or_isAside {file : Option String} (h : Program.parse source file first = .error (.refused e)) :
    e.Points source first ∨ e.IsAside source first := by
  rcases Program.parse_refusal h with ⟨-, hpoints⟩ | ⟨q, before, hq, hstart, hrefused⟩
  · exact .inl hpoints.points
  · obtain ⟨rest, rfl⟩ := hq.stands
    have hplace : IsPlace (before ++ q.raw ++ rest) first e.start before.length := hstart ▸ hq.isPlace
    have hraw : q.raw <+: (before ++ q.raw ++ rest).drop before.length := by
      rw [List.append_assoc, List.drop_left]
      exact List.prefix_append _ _
    by_cases htoken : e.cause.token <+: q.raw
    · exact .inl ⟨_, hplace, htoken.trans hraw⟩
    · have hwithin := (hrefused.prefix_or_isWithin hq.spells).resolve_left htoken
      exact .inr ⟨_, q.raw, hplace, hraw, hwithin, htoken⟩

theorem IsAside.not_points (h : e.IsAside source first) : ¬ e.Points source first := by
  rintro ⟨i, hplace, hpoints⟩
  obtain ⟨i', raw, hplace', hraw, hwithin, htoken⟩ := h
  obtain rfl := hplace.unique hplace'
  exact htoken (List.prefix_of_prefix_length_le hpoints hraw hwithin.length_token_le)

end ParseError

/-! ### Excerpts -/

theorem intercalate_append_cons (above below : List (List Char)) (line : List Char) :
    ['\n'].intercalate (above ++ line :: below) =
      above.flatMap (· ++ ['\n']) ++ ['\n'].intercalate (line :: below) := by
  induction above with
  | nil => rfl
  | cons l above ih =>
    obtain ⟨l', rest, hrest⟩ := List.exists_cons_of_ne_nil (show above ++ line :: below ≠ [] by simp)
    rw [List.cons_append, hrest, List.intercalate_cons_cons, ← hrest, ih, List.flatMap_cons]
    simp only [List.append_assoc]

/-- A line goes on up to a line feed or the end of the text. -/
theorem exists_intercalate_cons (line : List Char) (below : List (List Char)) :
    ∃ tail, ['\n'].intercalate (line :: below) = line ++ tail ∧ EndsLine tail := by
  cases below with
  | nil => exact ⟨[], by simp, by simp [EndsLine]⟩
  | cons l below =>
    refine ⟨'\n' :: ['\n'].intercalate (l :: below), ?_, ?_⟩
    · rw [List.intercalate_cons_cons, List.append_assoc]
      rfl
    · intro c hc
      exact (Option.some.inj hc).symm

/-- From a place on, a source goes on with the rest of the line. -/
theorem IsPlace.exists_right {source : List Char} {first : Int} {p : Position} {i : Nat}
    (h : IsPlace source first p i) :
    ∃ above left right below tail, source.splitOn '\n' = above ++ (left ++ right) :: below ∧
      p.line = first + above.length ∧ p.column = 1 + left.length ∧ source.drop i = right ++ tail ∧ EndsLine tail := by
  obtain ⟨above, left, right, below, hlines, hline, hcolumn, rfl⟩ := h
  obtain ⟨tail, htail, hends⟩ := exists_intercalate_cons (left ++ right) below
  refine ⟨above, left, right, below, tail, hlines, hline, hcolumn, ?_, hends⟩
  have hsource : ['\n'].intercalate (source.splitOn '\n') = source := List.intercalate_splitOn '\n'
  rw [hlines, intercalate_append_cons, htail, List.append_assoc, ← List.append_assoc] at hsource
  rw [← hsource, ← List.length_append, List.drop_left]

/-- What a text without line feeds starts lies within the line. -/
theorem EndsLine.prefix_of_prefix_append {t right tail : List Char} (h : EndsLine tail) (ht : '\n' ∉ t)
    (hpre : t <+: right ++ tail) : t <+: right := by
  rcases List.prefix_or_prefix_of_prefix hpre (List.prefix_append right tail) with hright | ⟨u, rfl⟩
  · exact hright
  · cases u with
    | nil => simp
    | cons c u =>
      -- the text would go on behind the end of the line
      obtain ⟨v, hv⟩ := (List.prefix_append_right_inj right).1 hpre
      obtain rfl : c = '\n' := h c (by rw [← hv]; rfl)
      exact absurd (by simp) ht

theorem Spot.mark_append {spot : Spot} {column : Int} {left token right : List Char} (hspot : spot.column = some column)
    (hcolumn : column = 1 + left.length) (htoken : spot.token = some token) (hne : token ≠ []) :
    spot.mark (left ++ (token ++ right)) =
      left ++ Colour.code "48;5;30" ++ Colour.paint "1;97" token ++ right := by
  have hpos : 0 < token.length := List.length_pos_iff.2 hne
  have hbefore : column.toNat - 1 = left.length := by omega
  have hwidth : max 1 token.length = token.length := by omega
  have hwithin : 0 < column ∧ column ≤ (left ++ (token ++ right)).length := by
    simp only [List.length_append]
    omega
  have hright : (left ++ (token ++ right)).drop (left.length + token.length) = right := by
    rw [← List.append_assoc, ← List.length_append, List.drop_left]
  simp only [Spot.mark, hspot, htoken, hwithin, decide_true, Bool.and_self, ↓reduceIte, hbefore, Option.getD_some,
    hwidth, List.take_left, List.drop_left, hright]

/-- A token of one line that a refusal points at is what an excerpt marks. -/
theorem ParseError.Points.isMarked {source : List Char} {first : Int} {e : ParseError} (h : e.Points source first)
    (hne : e.cause.token ≠ []) (hline : '\n' ∉ e.cause.token) : e.IsMarked source first := by
  obtain ⟨i, hplace, hpre⟩ := h
  obtain ⟨above, left, right, below, tail, hlines, habove, hcolumn, hdrop, hends⟩ := hplace.exists_right
  rw [hdrop] at hpre
  obtain ⟨right, rfl⟩ := hends.prefix_of_prefix_append hline hpre
  refine ⟨above, left, right, below, hlines, habove, fun file => ?_⟩
  exact Spot.mark_append rfl hcolumn rfl hne

/-- A refusal points at its token, unless it names a text out of a literal that does not start with it: then the place
is where the literal starts.  A token of one line that is pointed at is what an excerpt marks. -/
theorem parse_points_iff {source : List Char} {file : Option String} {line : Int} {e : ParseError}
    (h : Program.parse source file line = .error (.refused e)) :
    (e.Points source line ↔ ¬ e.IsAside source line) ∧
      (e.Points source line → e.cause.token ≠ [] → '\n' ∉ e.cause.token → e.IsMarked source line) := by
  refine ⟨⟨fun hpoints haside => haside.not_points hpoints, fun haside => ?_⟩, fun hpoints => hpoints.isMarked⟩
  exact (ParseError.points_or_isAside h).resolve_right haside

/-- In `: w [2] 1x ;` the number is refused, and marked, where it stands. -/
theorem parse_points_iff_in_body :
    let source := [':', ' ', 'w', ' ', '[', '2', ']', ' ', '1', 'x', ' ', ';']
    let e : ParseError := ⟨.malformedNumber ['1', 'x'], none, ⟨1, 9⟩⟩
    Program.parse source none 1 = .error (.refused e) ∧ e.Points source 1 ∧ e.IsMarked source 1 := by
  intro source e
  have h : Program.parse source none 1 = .error (.refused e) := by rfl
  have hplace : IsPlace source 1 e.start 8 :=
    isPlace_after [':', ' ', 'w', ' ', '[', '2', ']', ' '] ['1', 'x', ' ', ';'] 1
  have haside : ¬ e.IsAside source 1 := by
    rintro ⟨i, raw, hplace', hraw, hwithin, -⟩
    obtain rfl := hplace.unique hplace'
    cases hwithin with
    | item hspells =>
      -- no array starts with a digit
      cases hspells with
      | array => exact absurd (List.cons_prefix_cons.1 hraw).1 (by decide)
  have hpoints : e.Points source 1 := (parse_points_iff h).1.2 haside
  exact ⟨h, hpoints, (parse_points_iff h).2 hpoints (by decide) (by decide)⟩

/-- In `[1 x]` the malformed `x` is refused where the array starts, and in `: "a" 1 ;` the name `a` where the string
does. -/
theorem refused_beside_token :
    (∃ e, Program.parse ['[', '1', ' ', 'x', ']'] none 1 = .error (.refused e) ∧
      ¬ e.Points ['[', '1', ' ', 'x', ']'] 1) ∧
    ∃ e, Program.parse [':', ' ', '"', 'a', '"', ' ', '1', ' ', ';'] none 1 = .error (.refused e) ∧
      ¬ e.Points [':', ' ', '"', 'a', '"', ' ', '1', ' ', ';'] 1 := by
  constructor
  · refine ⟨⟨.malformedNumber ['x'], none, ⟨1, 1⟩⟩, by rfl, ?_⟩
    rintro ⟨i, hplace, hpre⟩
    obtain rfl := hplace.unique (isPlace_after [] ['[', '1', ' ', 'x', ']'] 1)
    exact absurd hpre (by decide)
  · refine ⟨⟨.invalidName ['a'], none, ⟨1, 3⟩⟩, by rfl, ?_⟩
    rintro ⟨i, hplace, hpre⟩
    obtain rfl := hplace.unique (isPlace_after [':', ' '] ['"', 'a', '"', ' ', '1', ' ', ';'] 1)
    exact absurd hpre (by decide)

end Catena
