import Catena.Text.Blank

/-!
# Trimmed texts and their fields

Trimming takes the blanks at the ends of a text and nothing else (`strip_eq_iff`).  It leaves a text without blanks at
its ends alone, and what it leaves is such a text (`strip_strip`).  Texts without blanks that are set side by side with
a space between neighbours are the fields of the whole (`fields_joinSpaced`).
-/

namespace Catena.Text

/-- A text that is not empty and has no blanks. -/
def IsSolid (cs : List Char) : Prop := cs ≠ [] ∧ ∀ c ∈ cs, isBlank c = false

/-! ### Trimming -/

section

variable {p : Char → Bool}

theorem mem_of_mem_trimBoth {cs : List Char} {c : Char} (h : c ∈ trimBoth p cs) : c ∈ cs := by
  unfold trimBoth trimEnd at h
  rw [List.mem_reverse] at h
  have h1 := List.dropWhile_subset p h
  rw [List.mem_reverse] at h1
  exact List.dropWhile_subset p h1

private theorem dropWhile_of_head? {cs : List Char} (h : ∀ c, cs.head? = some c → p c = false) :
    cs.dropWhile p = cs := by
  cases cs with
  | nil => rfl
  | cons c r => simp [h c rfl]

private theorem head?_dropWhile {cs : List Char} {c : Char} (h : (cs.dropWhile p).head? = some c) : p c = false := by
  have h1 := List.head?_dropWhile_not p cs
  rw [h] at h1
  simpa using h1

/-- Trimming leaves a text alone that has none of the characters at its ends. -/
theorem trimBoth_eq_self {cs : List Char} (hhead : ∀ c, cs.head? = some c → p c = false)
    (hlast : ∀ c, cs.getLast? = some c → p c = false) : trimBoth p cs = cs := by
  have hrev : ∀ c, cs.reverse.head? = some c → p c = false := by
    intro c hc
    exact hlast c (by rwa [List.head?_reverse] at hc)
  unfold trimBoth trimEnd
  rw [dropWhile_of_head? hhead, dropWhile_of_head? hrev, List.reverse_reverse]

private theorem trimEnd_prefix (cs : List Char) : trimEnd p cs <+: cs := by
  have h := List.reverse_prefix.2 (List.dropWhile_suffix p (l := cs.reverse))
  rwa [List.reverse_reverse] at h

private theorem head?_trimBoth {cs : List Char} {c : Char} (h : (trimBoth p cs).head? = some c) : p c = false := by
  -- what is left of the end of a text starts as the text does
  obtain ⟨r, hr⟩ := trimEnd_prefix (p := p) (cs.dropWhile p)
  have hhead : (cs.dropWhile p).head? = some c := by
    rw [← hr, List.head?_append]
    simp only [trimBoth] at h
    simp [h]
  exact head?_dropWhile hhead

private theorem getLast?_trimBoth {cs : List Char} {c : Char} (h : (trimBoth p cs).getLast? = some c) :
    p c = false := by
  unfold trimBoth trimEnd at h
  rw [List.getLast?_reverse] at h
  exact head?_dropWhile h

theorem trimBoth_trimBoth (cs : List Char) : trimBoth p (trimBoth p cs) = trimBoth p cs :=
  trimBoth_eq_self (fun _ => head?_trimBoth) fun _ => getLast?_trimBoth

end

theorem strip_strip (cs : List Char) : strip (strip cs) = strip cs := trimBoth_trimBoth cs

theorem mem_of_mem_strip {cs : List Char} {c : Char} (h : c ∈ strip cs) : c ∈ cs := mem_of_mem_trimBoth h

/-- All of a text but the blanks around it. -/
def Trims (cs ds : List Char) : Prop :=
  ∃ a b, cs = a ++ ds ++ b ∧ (∀ c ∈ a, isBlank c) ∧ (∀ c ∈ b, isBlank c) ∧
    (∀ c, ds.head? = some c → isBlank c = false) ∧ ∀ c, ds.getLast? = some c → isBlank c = false

private theorem trims_strip (cs : List Char) : Trims cs (strip cs) := by
  refine ⟨cs.takeWhile isBlank, ((cs.dropWhile isBlank).reverse.takeWhile isBlank).reverse, ?_, ?_, ?_,
    fun _ => head?_trimBoth, fun _ => getLast?_trimBoth⟩
  · have hend : strip cs ++ ((cs.dropWhile isBlank).reverse.takeWhile isBlank).reverse = cs.dropWhile isBlank := by
      rw [strip, trimBoth, trimEnd, ← List.reverse_append, List.takeWhile_append_dropWhile, List.reverse_reverse]
    rw [List.append_assoc, hend, List.takeWhile_append_dropWhile]
  · intro c hc
    exact List.all_eq_true.1 List.all_takeWhile c hc
  · intro c hc
    exact List.all_eq_true.1 List.all_takeWhile c (List.mem_reverse.1 hc)

/-- Stripping is what it is meant to be. -/
theorem strip_eq_iff {cs ds : List Char} : strip cs = ds ↔ Trims cs ds := by
  constructor
  · rintro rfl
    exact trims_strip cs
  · rintro ⟨a, b, rfl, ha, hb, hhead, hlast⟩
    have hend : trimEnd isBlank (ds ++ b) = ds := by
      have hrev : ∀ c, ds.reverse.head? = some c → isBlank c = false := by
        intro c hc
        exact hlast c (by rwa [List.head?_reverse] at hc)
      unfold trimEnd
      rw [List.reverse_append, List.dropWhile_append_of_pos (by simpa using hb), dropWhile_of_head? hrev,
        List.reverse_reverse]
    have hstart : (a ++ (ds ++ b)).dropWhile isBlank = if ds = [] then [] else ds ++ b := by
      rw [List.dropWhile_append_of_pos ha]
      cases ds with
      | nil =>
        have hall : (b ++ []).dropWhile isBlank = [].dropWhile isBlank := List.dropWhile_append_of_pos hb
        simpa using hall
      | cons d ds => simp [hhead d rfl]
    rw [strip, trimBoth, List.append_assoc, hstart]
    split
    · simp [*, trimEnd]
    · exact hend

/-! ### Fields -/

theorem fields_cons_of_isBlank {c : Char} (hc : isBlank c) (r : List Char) : fields (c :: r) = fields r := by
  cases r with
  | nil => simp [fields, hc]
  | cons d r => simp [fields, hc]

/-- A text without blanks is the first field of a text that starts with it and goes on with a blank. -/
private theorem fields_append_cons {w : List Char} (hw : IsSolid w) {b : Char} (hb : isBlank b) (r : List Char) :
    fields (w ++ b :: r) = w :: fields r := by
  obtain ⟨hne, hsolid⟩ := hw
  induction w with
  | nil => exact absurd rfl hne
  | cons c w ih =>
    have hc : isBlank c = false := hsolid c (by simp)
    cases w with
    | nil => simp [fields, hc, hb, fields_cons_of_isBlank hb]
    | cons d w =>
      have hd : isBlank d = false := hsolid d (by simp)
      have ih' := ih (by simp) fun e he => hsolid e (List.mem_cons_of_mem c he)
      rw [List.cons_append] at ih'
      simp only [List.cons_append, fields, hc, hd, Bool.false_eq_true, ↓reduceIte, ih']

private theorem fields_of_isSolid {w : List Char} (hw : IsSolid w) : fields w = [w] := by
  obtain ⟨hne, hsolid⟩ := hw
  induction w with
  | nil => exact absurd rfl hne
  | cons c w ih =>
    have hc : isBlank c = false := hsolid c (by simp)
    cases w with
    | nil => simp [fields, hc]
    | cons d w =>
      have hd : isBlank d = false := hsolid d (by simp)
      have ih' := ih (by simp) fun e he => hsolid e (List.mem_cons_of_mem c he)
      simp only [fields, hc, hd, Bool.false_eq_true, ↓reduceIte, ih']

theorem joinSpaced_cons_cons (t u : List Char) (ts : List (List Char)) :
    joinSpaced (t :: u :: ts) = t ++ ' ' :: joinSpaced (u :: ts) := rfl

theorem fields_joinSpaced {ts : List (List Char)} (h : ∀ t ∈ ts, IsSolid t) : fields (joinSpaced ts) = ts := by
  induction ts with
  | nil => rfl
  | cons t ts ih =>
    have ih := ih fun u hu => h u (by simp [hu])
    cases ts with
    | nil => exact fields_of_isSolid (h t (by simp))
    | cons u ts => rw [joinSpaced_cons_cons, fields_append_cons (h t (by simp)) (by decide), ih]

/-- Whatever stands in texts side by side is a space or stands in one of them. -/
theorem mem_joinSpaced {ts : List (List Char)} {c : Char} (h : c ∈ joinSpaced ts) : c = ' ' ∨ ∃ t ∈ ts, c ∈ t := by
  induction ts with
  | nil => simp [joinSpaced] at h
  | cons t ts ih =>
    cases ts with
    | nil => exact .inr ⟨t, by simp, h⟩
    | cons u ts =>
      rw [joinSpaced_cons_cons, List.mem_append, List.mem_cons] at h
      rcases h with h | h | h
      · exact .inr ⟨t, by simp, h⟩
      · exact .inl h
      · rcases ih h with h | ⟨v, hv, hc⟩
        · exact .inl h
        · exact .inr ⟨v, by simp [List.mem_cons.1 hv], hc⟩

/-- Texts without blanks at their ends have none there when they stand side by side either. -/
theorem strip_joinSpaced {ts : List (List Char)} (h : ∀ t ∈ ts, IsSolid t) : strip (joinSpaced ts) = joinSpaced ts := by
  refine trimBoth_eq_self ?_ ?_
  · intro c hc
    cases ts with
    | nil => simp [joinSpaced] at hc
    | cons t ts =>
      obtain ⟨hne, hsolid⟩ := h t (by simp)
      obtain ⟨d, r, rfl⟩ := List.exists_cons_of_ne_nil hne
      have hd : (joinSpaced ((d :: r) :: ts)).head? = some d := by cases ts <;> rfl
      obtain rfl : d = c := by simpa [hd] using hc
      exact hsolid d (by simp)
  · intro c hc
    induction ts with
    | nil => simp [joinSpaced] at hc
    | cons t ts ih =>
      cases ts with
      | nil => exact (h t (by simp)).2 c (List.mem_of_getLast? hc)
      | cons u ts =>
        have hne : joinSpaced (u :: ts) ≠ [] := by
          obtain ⟨hu, -⟩ := h u (by simp)
          cases ts <;> simp [joinSpaced, hu]
        refine ih (fun v hv => h v (List.mem_cons_of_mem t hv)) ?_
        rw [joinSpaced_cons_cons, List.getLast?_append, List.getLast?_cons,
          List.getLast?_eq_some_getLast hne] at hc
        rw [List.getLast?_eq_some_getLast hne]
        simpa using hc

end Catena.Text
