import Catena.Text.Line
import Mathlib.Data.List.DropRight

/-!
# Two kinds of lines

A text has lines between its line feeds, by which a source is numbered, and lines that end at any line break, of which
an excerpt is made.  The second cut is finer: `fullLinesOf` cuts each line of the first kind by itself
(`fullLinesOf_append_feed`), and how many lines it makes of one is a matter of that line alone (`IsOneLine`).
-/

namespace Catena.Text

/-- A line without the line feed that ends it. -/
def withoutFeed (line : List Char) : List Char := if line.getLast? = some '\n' then line.dropLast else line

/-- A text is one line, whatever ends it. -/
def IsOneLine (text : List Char) : Prop := (linesOf text).length = 1

instance (text : List Char) : Decidable (IsOneLine text) := inferInstanceAs (Decidable (_ = _))

theorem length_fullLinesOf (cs : List Char) : (fullLinesOf cs).length = (linesOf cs).length := by
  simp [fullLinesOf, linesOf]

/-! ### Full lines -/

/-- A full line is not empty, and a line feed can only be its last character. -/
theorem ne_nil_and_not_mem_of_mem_fullLinesOf {cs l : List Char} (h : l ∈ fullLinesOf cs) :
    l ≠ [] ∧ '\n' ∉ l.dropLast := by
  unfold fullLinesOf at h
  fun_induction breakLines cs generalizing l with
  | case1 => cases h
  | case2 r ih =>
    rcases List.mem_cons.1 h with rfl | h
    · decide
    · exact ih h
  | case3 c r _ hc ih =>
    rcases List.mem_cons.1 h with rfl | h
    · simp
    · exact ih h
  | case4 c r _ hc hr ih =>
    obtain rfl := List.mem_singleton.1 h
    simp
  | case5 c r _ hc line brk ls hr ih =>
    rw [hr] at ih
    rcases List.mem_cons.1 h with rfl | h
    · obtain ⟨hne, hnot⟩ := ih (List.mem_cons_self ..)
      have hfeed : '\n' ≠ c := by
        rintro rfl
        exact hc (by decide)
      refine ⟨by simp, ?_⟩
      show '\n' ∉ (c :: (line ++ brk)).dropLast
      rw [List.dropLast_cons_of_ne_nil hne]
      exact List.not_mem_cons_of_ne_of_not_mem hfeed hnot
    · exact ih (List.mem_cons_of_mem _ h)

/-- Of the line feeds at the end of a full line there is one at most. -/
theorem dropFeeds_eq_withoutFeed {cs l : List Char} (h : l ∈ fullLinesOf cs) :
    (l.reverse.dropWhile (· = '\n')).reverse = withoutFeed l := by
  obtain ⟨hne, hnot⟩ := ne_nil_and_not_mem_of_mem_fullLinesOf h
  show l.rdropWhile (· = '\n') = withoutFeed l
  obtain ⟨init, c, rfl⟩ : ∃ init c, l = init ++ [c] := ⟨_, _, (List.dropLast_append_getLast hne).symm⟩
  rw [List.dropLast_concat] at hnot
  unfold withoutFeed
  rw [List.getLast?_concat, List.dropLast_concat]
  by_cases hc : c = '\n'
  · rw [if_pos (congrArg some hc), List.rdropWhile_concat_pos _ _ _ (by simpa using hc), List.rdropWhile_eq_self_iff]
    intro hinit hlast
    rw [decide_eq_true_eq] at hlast
    exact hnot (hlast ▸ List.getLast_mem hinit)
  · rw [if_neg (fun h => hc (Option.some.inj h)), List.rdropWhile_concat_neg _ _ _ (by simpa using hc)]

/-- Two beginnings of the same full lines that make up the same text are the same. -/
theorem eq_of_flatten_eq {as bs cs ds : List (List Char)} (h : as ++ cs = bs ++ ds) (hne : ∀ l ∈ as ++ cs, l ≠ [])
    (hflatten : as.flatten = bs.flatten) : as = bs := by
  induction as generalizing bs with
  | nil =>
    cases bs with
    | nil => rfl
    | cons b bs =>
      have hb : b ≠ [] := hne b (h ▸ List.mem_cons_self ..)
      exact absurd (List.append_eq_nil_iff.1 hflatten.symm).1 hb
  | cons a as ih =>
    cases bs with
    | nil => exact absurd (List.append_eq_nil_iff.1 hflatten).1 (hne a (List.mem_cons_self ..))
    | cons b bs =>
      obtain ⟨rfl, htail⟩ := List.cons.inj h
      rw [List.flatten_cons, List.flatten_cons, List.append_cancel_left_eq] at hflatten
      rw [ih htail (fun l hl => hne l (List.mem_cons_of_mem a hl)) hflatten]

theorem fullLinesOf_ne_nil {cs : List Char} (h : cs ≠ []) : fullLinesOf cs ≠ [] := by
  intro hnil
  have hflatten := flatten_fullLinesOf cs
  rw [hnil] at hflatten
  exact h hflatten.symm

theorem isOneLine_iff {cs : List Char} : IsOneLine cs ↔ fullLinesOf cs = [cs] := by
  unfold IsOneLine
  rw [← length_fullLinesOf]
  constructor
  · intro h
    obtain ⟨l, hl⟩ := List.length_eq_one_iff.1 h
    have hflatten := flatten_fullLinesOf cs
    rw [hl, List.flatten_singleton] at hflatten
    rw [hl, hflatten]
  · intro h
    rw [h]
    rfl

/-- A text is one line just if it is its own first line. -/
theorem head_eq_iff_isOneLine {cs first : List Char} {rest : List (List Char)} (h : fullLinesOf cs = first :: rest) :
    first = cs ↔ IsOneLine cs := by
  rw [isOneLine_iff, h]
  have hflatten := flatten_fullLinesOf cs
  rw [h, List.flatten_cons] at hflatten
  constructor
  · rintro rfl
    have hrest : rest.flatten = [] := List.append_cancel_left (hflatten.trans (List.append_nil first).symm)
    have hnil : [] = rest := by
      have happend : [] ++ rest = rest ++ [] := (List.append_nil rest).symm
      refine eq_of_flatten_eq happend (fun l hl => ?_) hrest.symm
      exact (ne_nil_and_not_mem_of_mem_fullLinesOf (h ▸ List.mem_cons_of_mem first hl)).1
    rw [hnil]
  · intro heq
    exact (List.cons.inj heq).1

/-! ### Lines between line feeds -/

theorem joinLines_eq_intercalate (ls : List (List Char)) : joinLines ls = ['\n'].intercalate ls := by
  fun_induction joinLines ls with
  | case1 => rfl
  | case2 l => simp
  | case3 l ls hne ih =>
    obtain ⟨l', ls, rfl⟩ := List.exists_cons_of_ne_nil (fun h => hne h)
    rw [List.intercalate_cons_cons, ih, List.append_assoc]
    rfl

theorem feed_not_mem_of_mem_splitOn {cs l : List Char} (h : l ∈ cs.splitOn '\n') : '\n' ∉ l := by
  induction cs generalizing l with
  | nil =>
    obtain rfl := List.mem_singleton.1 h
    exact List.not_mem_nil
  | cons c cs ih =>
    obtain ⟨first, rest, hlines⟩ := List.exists_cons_of_ne_nil (List.splitOn_ne_nil '\n' cs)
    rw [hlines] at ih
    rw [List.splitOn_cons_eq_if_modifyHead, hlines] at h
    split at h
    · rcases List.mem_cons.1 h with rfl | h
      · exact List.not_mem_nil
      · exact ih h
    · rename_i hc
      rcases List.mem_cons.1 h with rfl | h
      · have hne : '\n' ≠ c := by
          rintro rfl
          exact hc (by simp)
        exact List.not_mem_cons_of_ne_of_not_mem hne (ih (List.mem_cons_self ..))
      · exact ih (List.mem_cons_of_mem first h)

/-- One more character at the start of the first line. -/
def lengthenFirst (c : Char) : List (List Char) → List (List Char)
  | [] => [[c]]
  | l :: ls => (c :: l) :: ls

theorem fullLinesOf_of_plain {c : Char} (h : ¬ isLineBreak c) (cs : List Char) :
    fullLinesOf (c :: cs) = lengthenFirst c (fullLinesOf cs) := by
  unfold fullLinesOf
  rw [breakLines.eq_3 _ _ (by rintro _ rfl; exact absurd (by decide) h), if_neg h]
  cases breakLines cs <;> rfl

theorem fullLinesOf_of_break {c : Char} (h : isLineBreak c) {cs : List Char}
    (hreturn : c = '\r' → cs.head? ≠ some '\n') : fullLinesOf (c :: cs) = [c] :: fullLinesOf cs := by
  unfold fullLinesOf
  rw [breakLines.eq_3 _ _ (by rintro r hc rfl; exact hreturn hc rfl), if_pos h]
  rfl

/-- A line feed ends a line of either kind. -/
theorem fullLinesOf_append_feed (cs rest : List Char) :
    fullLinesOf (cs ++ '\n' :: rest) = fullLinesOf (cs ++ ['\n']) ++ fullLinesOf rest := by
  -- a plain character lengthens the first line, which lies before the line feed
  have hplain : ∀ {c : Char} {cs : List Char}, ¬ isLineBreak c →
      fullLinesOf (cs ++ '\n' :: rest) = fullLinesOf (cs ++ ['\n']) ++ fullLinesOf rest →
      fullLinesOf (c :: cs ++ '\n' :: rest) = fullLinesOf (c :: cs ++ ['\n']) ++ fullLinesOf rest := by
    intro c cs hc ih
    have hne : fullLinesOf (cs ++ ['\n']) ≠ [] := fullLinesOf_ne_nil (by simp)
    obtain ⟨l, ls, hls⟩ := List.exists_cons_of_ne_nil hne
    rw [List.cons_append, List.cons_append, fullLinesOf_of_plain hc, fullLinesOf_of_plain hc, ih, hls]
    rfl
  fun_induction breakLines cs with
  | case1 => rfl
  | case2 r ih => exact congrArg (['\r', '\n'] :: ·) ih
  | case3 c r hcrlf hc ih =>
    by_cases hr : c = '\r' ∧ r = []
    · -- the line feed is part of the break
      obtain ⟨rfl, rfl⟩ := hr
      rfl
    · have hhead : ∀ tail, c = '\r' → (r ++ '\n' :: tail).head? ≠ some '\n' := by
        intro tail hreturn
        cases r with
        | nil => exact absurd ⟨hreturn, rfl⟩ hr
        | cons d r =>
          intro hd
          obtain rfl := Option.some.inj hd
          exact hcrlf r hreturn rfl
      rw [List.cons_append, List.cons_append, fullLinesOf_of_break hc (hhead rest), fullLinesOf_of_break hc (hhead []),
        ih]
      rfl
  | case4 c r _ hc _ ih => exact hplain hc ih
  | case5 c r _ hc _ _ _ _ ih => exact hplain hc ih

theorem withoutFeed_cons (c : Char) {l : List Char} (h : l ≠ []) : withoutFeed (c :: l) = c :: withoutFeed l := by
  unfold withoutFeed
  rw [List.getLast?_cons_of_ne_nil h, List.dropLast_cons_of_ne_nil h]
  split <;> rfl

/-- The first full line of a text is also the first of the text with a line feed behind it, apart from the line feed. -/
theorem exists_first_append_feed {cs : List Char} (hcs : cs ≠ []) (hfeed : '\n' ∉ cs) (rest : List Char) :
    ∃ first ls ls', fullLinesOf (cs ++ '\n' :: rest) = first :: ls ∧ fullLinesOf cs = withoutFeed first :: ls' := by
  induction cs with
  | nil => contradiction
  | cons c cs ih =>
    obtain ⟨hc, hcs⟩ := not_or.1 (mt List.mem_cons.2 hfeed)
    have hbare : withoutFeed [c] = [c] := if_neg fun h => hc (Option.some.inj h).symm
    by_cases hbreak : isLineBreak c
    · cases cs with
      | nil =>
        have hone : fullLinesOf [c] = [[c]] := fullLinesOf_of_break hbreak (by simp)
        by_cases hreturn : c = '\r'
        · subst hreturn
          exact ⟨['\r', '\n'], _, [], rfl, hone⟩
        · refine ⟨[c], _, [], fullLinesOf_of_break hbreak fun h => absurd h hreturn, ?_⟩
          rw [hbare, hone]
      | cons d cs =>
        have hd : '\n' ≠ d := fun h => hcs (h ▸ List.mem_cons_self ..)
        have hhead : ∀ tail, c = '\r' → (d :: tail).head? ≠ some '\n' := fun _ _ h => hd (Option.some.inj h).symm
        refine ⟨[c], _, fullLinesOf (d :: cs), fullLinesOf_of_break hbreak (hhead _), ?_⟩
        rw [hbare, fullLinesOf_of_break hbreak (hhead cs)]
    · cases cs with
      | nil =>
        refine ⟨[c, '\n'], fullLinesOf rest, [], ?_, fullLinesOf_of_plain hbreak []⟩
        exact fullLinesOf_of_plain hbreak _
      | cons d cs =>
        obtain ⟨first, ls, ls', hwith, hwithout⟩ := ih (by simp) hcs
        have hne : first ≠ [] := (ne_nil_and_not_mem_of_mem_fullLinesOf (hwith ▸ List.mem_cons_self ..)).1
        refine ⟨c :: first, ls, ls', ?_, ?_⟩
        · rw [List.cons_append, fullLinesOf_of_plain hbreak, hwith]
          rfl
        · rw [fullLinesOf_of_plain hbreak, hwithout, withoutFeed_cons c hne]
          rfl

end Catena.Text
