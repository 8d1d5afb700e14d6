import Catena.Text.Colour
import Catena.Text.Line
import Mathlib.Data.List.Forall2

/-!
# Texts without their colours

A text that is put together from pieces loses its colour codes piece by piece: each piece comes out as its plain text
whatever follows it (`Strips`), and pieces are put together by `Strips.append` and `strips_joinLines`.  It does not hold
of a piece that ends within a colour code, which is why no plain piece may have an escape character.
-/

namespace Catena.Text.Colour

/-- Without its colour codes a text reads `plain`, and what follows it is not touched. -/
def Strips (text plain : List Char) : Prop := ∀ rest, strip (text ++ rest) = plain ++ strip rest

theorem Strips.strip_eq {text plain : List Char} (h : Strips text plain) : strip text = plain := by
  have hnil := h []
  rwa [List.append_nil, show strip [] = [] from rfl, List.append_nil] at hnil

theorem Strips.append {a b p q : List Char} (ha : Strips a p) (hb : Strips b q) : Strips (a ++ b) (p ++ q) := by
  intro rest
  rw [List.append_assoc, ha, hb, List.append_assoc]

theorem strips_of_not_mem {text : List Char} (h : esc ∉ text) : Strips text text := by
  intro rest
  induction text with
  | nil => rfl
  | cons c text ih =>
    obtain ⟨hc, htext⟩ := not_or.1 (mt List.mem_cons.2 h)
    have hstep : strip (c :: text ++ rest) = c :: strip (text ++ rest) := by
      simp [strip, stripAfter, Ne.symm hc]
    rw [hstep, ih htext, List.cons_append]

/-- A plain character at the front. -/
theorem Strips.cons {c : Char} (hc : c ≠ esc) {text plain : List Char} (h : Strips text plain) :
    Strips (c :: text) (c :: plain) :=
  (strips_of_not_mem (fun hmem => hc (List.mem_singleton.1 hmem).symm)).append h

/-! ### Colour codes -/

/-- The characters that are to be dropped are dropped. -/
theorem stripAfter_append (length : List Char → Nat) (dropped rest : List Char) :
    stripAfter length dropped.length (dropped ++ rest) = stripAfter length 0 rest := by
  induction dropped with
  | nil => rfl
  | cons c dropped ih => exact ih

theorem codeLength_append {parameters : List Char} (h : ∀ c ∈ parameters, isParameter c) (rest : List Char) :
    codeLength ('[' :: parameters ++ 'm' :: rest) = parameters.length + 2 := by
  have hm : ¬ isParameter 'm' := by decide
  have htake : (parameters ++ 'm' :: rest).takeWhile isParameter = parameters := by
    rw [List.takeWhile_append_of_pos h, List.takeWhile_cons_of_neg hm, List.append_nil]
  have hdrop : (parameters ++ 'm' :: rest).dropWhile isParameter = 'm' :: rest := by
    rw [List.dropWhile_append_of_pos h, List.dropWhile_cons_of_neg hm]
  simp [codeLength, htake, hdrop]

/-- Nothing is left of a colour code. -/
theorem strips_code {parameters : String} (h : parameters.toList.all isParameter) :
    Strips (code parameters) [] := by
  intro rest
  have hlength := codeLength_append (List.all_eq_true.1 h) rest
  have hcode : code parameters ++ rest = esc :: ('[' :: parameters.toList ++ 'm' :: rest) := by
    simp [code]
  have hdropped : '[' :: parameters.toList ++ 'm' :: rest = ('[' :: parameters.toList ++ ['m']) ++ rest := by
    simp
  have hcount : ('[' :: parameters.toList ++ ['m']).length = parameters.toList.length + 2 := by simp
  rw [hcode]
  show stripAfter codeLength 0 _ = stripAfter codeLength 0 rest
  rw [stripAfter, hlength, if_pos (by simp), hdropped, ← hcount]
  exact stripAfter_append ..

theorem strips_paint {parameters : String} (h : parameters.toList.all isParameter) {text plain : List Char}
    (htext : Strips text plain) : Strips (paint parameters text) plain := by
  have hreset : Strips reset [] := strips_code (by decide)
  have hpaint := ((strips_code h).append htext).append hreset
  rwa [List.nil_append, List.append_nil] at hpaint

/-! ### Lines -/

theorem strips_joinLines {texts plains : List (List Char)} (h : List.Forall₂ Strips texts plains) :
    Strips (joinLines texts) (joinLines plains) := by
  induction h with
  | nil => exact strips_of_not_mem List.not_mem_nil
  | cons hline hlines ih =>
    cases hlines with
    | nil => exact hline
    | cons _ _ => exact hline.append (.cons (by decide) ih)

end Catena.Text.Colour
