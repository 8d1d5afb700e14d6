import Catena.Excerpt
import Catena.Proofs.Colouring
import Catena.Proofs.Lines
import Catena.Proofs.Number.Digits

/-!
# Excerpts

An excerpt shows the lines around the one in question as they are.  `Spot.window` are the numbers of these lines and
`Spot.lineAt` is what a line reads, and an excerpt is made of these lines (`Spot.excerpt_eq_window`).  Without their
colours they come out as they stand in the source, the line in question too, since the marks in it divide it into three
parts that make it up (`Spot.exists_marked`).  Both together are `Spot.excerpt_shows_source`.
-/

namespace Catena

open Catena.Text

/-- A source that has a text is cut into lines without a look at any files. -/
theorem sourceLines_eq {source : List Char} (h : source ≠ []) (files : Files) (file : Option String) :
    sourceLines files file source = .ok (fullLinesOf source) := by
  unfold sourceLines
  split
  · contradiction
  · rfl

namespace Spot

/-- The lines that an excerpt shows, with their indices. -/
def shown (spot : Spot) (lines : List (List Char)) : List (List Char × Nat) :=
  ((lines.take (spot.shownLine + 2).toNat).zipIdx).drop (spot.shownLine - 3).toNat

/-- The excerpt that shows the given lines, each behind the number that goes with its index. -/
def page (spot : Spot) (shown : List (List Char × Nat)) : List Char :=
  let texts := shown.map fun (l, i) => spot.numbered i (l.reverse.dropWhile (· = '\n')).reverse
  '\n' :: joinLines (spot.heading :: texts) ++ ['\n']

theorem excerpt_eq (spot : Spot) (lines : List (List Char)) : spot.excerpt lines = spot.page (spot.shown lines) := rfl

theorem shownLine_eq (spot : Spot) {line : Int} (h : spot.line = some line) (hline : 1 ≤ line) :
    spot.shownLine = line := by
  unfold shownLine
  rw [h]
  split
  · rename_i hzero
    cases hzero
    omega
  · rename_i hnone
    cases hnone
  · rename_i hsome
    exact (Option.some.inj hsome).symm

/-- An excerpt shows the lines that there are, from two before the one in question to two after it. -/
theorem mem_shown_iff {spot : Spot} {lines : List (List Char)} {l : List Char} {i : Nat} :
    (l, i) ∈ spot.shown lines ↔ lines[i]? = some l ∧ spot.shownLine - 3 ≤ i ∧ i < spot.shownLine + 2 := by
  generalize hfirst : (spot.shownLine - 3).toNat = first
  generalize hlast : (spot.shownLine + 2).toNat = last
  unfold shown
  rw [hfirst, hlast, List.mem_iff_getElem?]
  simp only [List.getElem?_drop, List.getElem?_zipIdx, List.getElem?_take]
  constructor
  · rintro ⟨k, hk⟩
    split at hk
    · obtain ⟨l', hl', e⟩ := Option.map_eq_some_iff.1 hk
      cases e
      exact ⟨by simpa using hl', by omega, by omega⟩
    · cases hk
  · rintro ⟨hl, hfrom, hto⟩
    refine ⟨i - first, ?_⟩
    have hi : first + (i - first) = i := by omega
    rw [hi, if_pos (by omega), hl]
    simp

/-! ### The lines of an excerpt -/

/-- The numbers of the lines that an excerpt at a line shows, out of so many lines. -/
def window (line count : Nat) : List Nat :=
  List.range' (max 1 (line - 2)) (min count (line + 2) + 1 - max 1 (line - 2))

/-- What the line of a number reads in a source. -/
def lineAt (source : List Char) (number : Nat) : List Char := withoutFeed ((fullLinesOf source).getD (number - 1) [])

variable {spot : Spot} {line : Nat}

theorem shown_eq {lines : List (List Char)} (hspot : spot.line = some (line : Int)) (hfirst : 1 ≤ line)
    (hlast : line ≤ lines.length) :
    spot.shown lines = (window line lines.length).map fun i => (lines.getD (i - 1) [], i - 1) := by
  have hshown : spot.shownLine = line := spot.shownLine_eq hspot (by omega)
  have hto : (spot.shownLine + 2).toNat = line + 2 := by omega
  have hfrom : (spot.shownLine - 3).toNat = line - 3 := by omega
  unfold shown window
  rw [hto, hfrom]
  refine List.ext_getElem (by simp; omega) fun k hk hk' => ?_
  simp only [List.length_map, List.length_range'] at hk'
  have hindex : max 1 (line - 2) + k - 1 = line - 3 + k := by omega
  have hbound : line - 3 + k < lines.length := by omega
  simp [hindex, hbound]

/-- An excerpt of a source is made of the lines of its window, each behind its own number. -/
theorem excerpt_eq_window {source : List Char} (hspot : spot.line = some (line : Int)) (hfirst : 1 ≤ line)
    (hlast : line ≤ (linesOf source).length) :
    spot.excerpt (fullLinesOf source) =
      '\n' :: joinLines (spot.heading ::
        (window line (linesOf source).length).map fun i => spot.numbered (i - 1) (lineAt source i)) ++ ['\n'] := by
  rw [← length_fullLinesOf] at hlast ⊢
  rw [excerpt_eq, shown_eq hspot hfirst hlast, page, List.map_map]
  congr 4
  refine List.map_congr_left fun i hi => ?_
  have hbound : i - 1 < (fullLinesOf source).length := by
    rw [window, List.mem_range'_1] at hi
    omega
  have hmem : (fullLinesOf source).getD (i - 1) [] ∈ fullLinesOf source := by
    rw [List.getD_eq_getElem?_getD, List.getElem?_eq_getElem hbound]
    exact List.getElem_mem hbound
  simp only [Function.comp_apply, lineAt, dropFeeds_eq_withoutFeed hmem]

theorem intText_natCast (n : Nat) : Number.intText n = Nat.toDigits 10 n := by
  rw [Number.intText, if_neg (by omega), Int.natAbs_natCast]

/-- The line number and the bar before a line. -/
def margin (number : Nat) : List Char := padLeft 5 (Nat.toDigits 10 number) ++ " |".toList

theorem numbered_eq {number : Nat} (h : 1 ≤ number) (hspot : spot.shownLine = line) (content : List Char) :
    spot.numbered (number - 1) content =
      if number = line then Colour.paint "97" (margin number) ++ ' ' :: spot.mark content
      else Colour.paint "90" (margin number) ++ ' ' :: content := by
  have hindex : ((number - 1 : Nat) : Int) + 1 = number := by omega
  unfold numbered margin
  dsimp only
  rw [hindex, intText_natCast, hspot]
  simp only [Nat.cast_inj]

/-! ### Colours -/

section

open Colour

theorem esc_not_mem_toDigits (n : Nat) : esc ∉ Nat.toDigits 10 n := by
  intro h
  exact absurd (Number.isDigits_toDigits n esc h) (by decide)

theorem esc_not_mem_margin (number : Nat) : esc ∉ margin number := by
  unfold margin padLeft
  simp only [List.mem_append, List.mem_replicate, not_or, not_and]
  exact ⟨⟨fun _ => by decide, esc_not_mem_toDigits number⟩, by decide⟩

/-- The heading of an excerpt without its colours. -/
def title (spot : Spot) (line : Nat) : List Char :=
  "  File \"".toList ++ (spot.file.getD "None").toList ++ "\", line ".toList ++ Nat.toDigits 10 line

theorem strips_heading (hfile : esc ∉ (spot.file.getD "None").toList) (hshown : spot.shownLine = line) :
    Strips spot.heading (spot.title line) := by
  unfold heading title
  rw [hshown, intText_natCast]
  refine strips_paint (by decide) (strips_of_not_mem ?_)
  simp only [List.mem_append, not_or]
  exact ⟨⟨⟨by decide, hfile⟩, by decide⟩, esc_not_mem_toDigits line⟩

/-- A column within a line divides it into what stands before the mark, under it and behind it. -/
theorem exists_marked {column : Int} {content : List Char} (hspot : spot.column = some column) (hfirst : 1 ≤ column)
    (hlast : column ≤ content.length) :
    ∃ left marked right, content = left ++ marked ++ right ∧ (left.length + 1 : Int) = column ∧
      marked.length = min (max 1 (spot.token.getD []).length) (content.length - left.length) ∧
      spot.mark content = left ++ code "48;5;30" ++ paint "1;97" marked ++ right := by
  have hwithin : 0 < column ∧ column ≤ content.length := ⟨by omega, hlast⟩
  generalize hwidth : max 1 (spot.token.getD []).length = width
  refine ⟨content.take (column.toNat - 1), (content.drop (column.toNat - 1)).take width,
    content.drop (column.toNat - 1 + width), ?_, ?_, ?_, ?_⟩
  · rw [List.append_assoc, ← List.drop_drop, List.take_append_drop, List.take_append_drop]
  · simp only [List.length_take]
    omega
  · simp only [List.length_take, List.length_drop]
    omega
  · simp only [mark, hspot, hwithin, decide_true, Bool.and_self, ↓reduceIte, hwidth]

theorem strips_mark {content : List Char} (h : esc ∉ content) : Strips (spot.mark content) content := by
  cases hcolumn : spot.column with
  | none => simpa [mark, hcolumn] using strips_of_not_mem h
  | some column =>
    by_cases hwithin : 1 ≤ column ∧ column ≤ content.length
    · obtain ⟨left, marked, right, rfl, -, -, hmark⟩ := exists_marked hcolumn hwithin.1 hwithin.2
      simp only [List.mem_append, not_or] at h
      have hcode : Strips (code "48;5;30") [] := strips_code (by decide)
      have hmarked : Strips (paint "1;97" marked) marked := strips_paint (by decide) (strips_of_not_mem h.1.2)
      have hparts := (((strips_of_not_mem h.1.1).append hcode).append hmarked).append (strips_of_not_mem h.2)
      rw [List.append_nil] at hparts
      rwa [hmark]
    · have hout : ¬ (0 < column ∧ column ≤ content.length) := fun h => hwithin ⟨by omega, h.2⟩
      have hmark : spot.mark content = content := by
        simp only [mark, hcolumn, Bool.and_eq_true, decide_eq_true_eq, if_neg hout]
      rw [hmark]
      exact strips_of_not_mem h

theorem strips_numbered {number : Nat} (hnumber : 1 ≤ number) (hshown : spot.shownLine = line) {content : List Char}
    (h : esc ∉ content) : Strips (spot.numbered (number - 1) content) (margin number ++ ' ' :: content) := by
  have hmargin : Strips (margin number) (margin number) := strips_of_not_mem (esc_not_mem_margin number)
  rw [numbered_eq hnumber hshown]
  split
  · exact (strips_paint (by decide) hmargin).append (.cons (by decide) (strips_mark h))
  · exact (strips_paint (by decide) hmargin).append (.cons (by decide) (strips_of_not_mem h))

theorem mem_of_mem_lineAt {source : List Char} {number : Nat} {c : Char} (h : c ∈ lineAt source number) :
    c ∈ source := by
  unfold lineAt at h
  have hfull : c ∈ (fullLinesOf source).getD (number - 1) [] := by
    unfold withoutFeed at h
    split at h
    · exact List.mem_of_mem_dropLast h
    · exact h
  rw [List.getD_eq_getElem?_getD] at hfull
  cases hl : (fullLinesOf source)[number - 1]? with
  | none =>
    rw [hl] at hfull
    cases hfull
  | some l =>
    rw [hl] at hfull
    rw [← flatten_fullLinesOf source]
    exact List.mem_flatten.2 ⟨l, List.mem_of_getElem? hl, hfull⟩

/-- An excerpt neither loses nor changes anything.  A source is cut into lines without a look at any files.  Without
its colours the excerpt at a line is the heading and the lines from two before to two after it, as far as there are any,
each behind its own number and otherwise as it stands in the source.  If the column lies within the line, then the
characters from there on are marked, as many as the token has but one at least and not beyond the end of the line, and
nothing else. -/
theorem excerpt_shows_source (files : Files) (spot : Spot) (source : List Char) (line : Nat) (hsource : source ≠ [])
    (hplain : esc ∉ source) (hfile : esc ∉ (spot.file.getD "None").toList) (hspot : spot.line = some (line : Int))
    (hfirst : 1 ≤ line) (hlast : line ≤ (linesOf source).length) :
    let numbers := window line (linesOf source).length
    sourceLines files spot.file source = .ok (fullLinesOf source) ∧
    Colour.strip (spot.excerpt (fullLinesOf source)) =
      '\n' :: joinLines (spot.title line :: numbers.map fun i => margin i ++ ' ' :: lineAt source i) ++ ['\n'] ∧
    ∀ column : Int, spot.column = some column → 1 ≤ column → column ≤ (lineAt source line).length →
      ∃ left marked right, lineAt source line = left ++ marked ++ right ∧ (left.length + 1 : Int) = column ∧
        marked.length = min (max 1 (spot.token.getD []).length) ((lineAt source line).length - left.length) ∧
        spot.excerpt (fullLinesOf source) =
          '\n' :: joinLines (spot.heading :: numbers.map fun i =>
            if i = line then
              paint "97" (margin i) ++ ' ' :: (left ++ code "48;5;30" ++ paint "1;97" marked ++ right)
            else paint "90" (margin i) ++ ' ' :: lineAt source i) ++ ['\n'] := by
  intro numbers
  have hshown : spot.shownLine = line := spot.shownLine_eq hspot (by omega)
  have hexcerpt := excerpt_eq_window hspot hfirst hlast
  have hnumbers : ∀ i ∈ numbers, 1 ≤ i := fun i hi => by
    have hi := (List.mem_range'_1.1 hi).1
    omega
  refine ⟨sourceLines_eq hsource files spot.file, ?_, fun column hcolumn hone hlength => ?_⟩
  · have hlines : List.Forall₂ Strips (numbers.map fun i => spot.numbered (i - 1) (lineAt source i))
        (numbers.map fun i => margin i ++ ' ' :: lineAt source i) := by
      rw [List.forall₂_map_left_iff, List.forall₂_map_right_iff, List.forall₂_same]
      exact fun i hi => strips_numbered (hnumbers i hi) hshown fun h => hplain (mem_of_mem_lineAt h)
    have hpage := strips_joinLines (.cons (strips_heading hfile hshown) hlines)
    have hend : Strips ['\n'] ['\n'] := strips_of_not_mem (by decide)
    have hframed := (hpage.cons (show '\n' ≠ esc by decide)).append hend
    rw [hexcerpt]
    exact hframed.strip_eq
  · obtain ⟨left, marked, right, hparts, hleft, hmarked, hmark⟩ := exists_marked hcolumn hone hlength
    refine ⟨left, marked, right, hparts, hleft, hmarked, ?_⟩
    rw [hexcerpt]
    congr 4
    refine List.map_congr_left fun i hi => ?_
    rw [numbered_eq (hnumbers i hi) hshown]
    split
    · rename_i hi
      rw [hi, hmark]
    · rfl

/-- The fifth of six lines, which end in several ways, with a token that reaches beyond the end of its line. -/
theorem excerpt_shows_source_at_break :
    let source := "w\nx\na\r\n\nbc\x0cd".toList
    let spot : Spot := ⟨some "f", some 5, some 2, some "cde".toList⟩
    esc ∉ source ∧ (linesOf source).length = 6 ∧
    Colour.strip (spot.excerpt (fullLinesOf source)) =
      "\n  File \"f\", line 5\n    3 | a\r\n    4 | \n    5 | bc\x0c\n    6 | d\n".toList ∧
    ∃ left marked right, "bc\x0c".toList = left ++ marked ++ right ∧ (left.length + 1 : Int) = 2 ∧
      marked.length = 2 ∧
      spot.excerpt (fullLinesOf source) =
        '\n' :: joinLines (spot.heading :: [3, 4, 5, 6].map fun i =>
          if i = 5 then paint "97" (margin i) ++ ' ' :: (left ++ code "48;5;30" ++ paint "1;97" marked ++ right)
          else paint "90" (margin i) ++ ' ' :: lineAt source i) ++ ['\n'] := by
  intro source spot
  have hplain : esc ∉ source := by decide +kernel
  have hcount : (linesOf source).length = 6 := by decide +kernel
  have hline : lineAt source 5 = "bc\x0c".toList := by decide +kernel
  obtain ⟨-, hstrip, hmarked⟩ := excerpt_shows_source (fun _ => .missing) spot source 5 (by decide +kernel) hplain
    (by decide +kernel) rfl (by decide) (by omega)
  refine ⟨hplain, hcount, hstrip.trans (by decide +kernel), ?_⟩
  obtain ⟨left, marked, right, hparts, hleft, hlength, hexcerpt⟩ := hmarked 2 rfl (by decide) (by rw [hline]; decide)
  have hnumbers : window 5 (linesOf source).length = [3, 4, 5, 6] := by decide +kernel
  rw [hnumbers] at hexcerpt
  rw [hline] at hparts hlength
  refine ⟨left, marked, right, hparts, hleft, hlength.trans ?_, hexcerpt⟩
  have hone : left.length = 1 := by omega
  rw [hone]
  decide

end

end Spot

end Catena
