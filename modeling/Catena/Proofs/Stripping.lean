import Catena.Proofs.Colouring
import Catena.Shell.Command

/-!
# Coloured texts

A coloured text is plain text with colour codes in it (`Coloured`): the only escape characters are those with which the
codes begin.  Stripped of its codes it is the plain text before, between and behind them, whatever that looks like
(`Coloured.strips`), and there is nothing left to strip.  As no code begins in one coloured text and ends in the next,
such texts may be stripped one by one (`Coloured.flatMap_strip_text`), which is how everything is written in plain mode
(`strip_coloured`).
-/

namespace Catena.Text.Colour

/-- A colour code, whose parameters are ASCII digits and semicolons, and the plain text behind it. -/
structure Span where
  parameters : String
  plain : List Char
  all_parameters : parameters.toList.all fun c => c.isDigit || c = ';'
  not_mem_plain : esc ∉ plain

def Span.text (s : Span) : List Char := code s.parameters ++ s.plain

/-- A plain text, the front, and behind it any number of colour codes with plain texts. -/
structure Coloured where
  front : List Char
  spans : List Span
  not_mem_front : esc ∉ front

namespace Coloured

def text (c : Coloured) : List Char := c.front ++ c.spans.flatMap Span.text

/-- What there is apart from the colour codes. -/
def plain (c : Coloured) : List Char := c.front ++ c.spans.flatMap Span.plain

end Coloured

/-! ### Pieces -/

theorem not_mem_flatMap {α : Type} {f : α → List Char} (h : ∀ x, esc ∉ f x) (xs : List α) : esc ∉ xs.flatMap f := by
  intro hmem
  obtain ⟨x, -, hx⟩ := List.mem_flatMap.1 hmem
  exact h x hx

theorem Strips.flatMap {α : Type} {f g : α → List Char} (h : ∀ x, Strips (f x) (g x)) (xs : List α) :
    Strips (xs.flatMap f) (xs.flatMap g) := by
  induction xs with
  | nil => exact strips_of_not_mem List.not_mem_nil
  | cons x xs ih =>
    rw [List.flatMap_cons, List.flatMap_cons]
    exact (h x).append ih

theorem isParameter_eq : isParameter = fun c => c.isDigit || c = ';' := rfl

theorem Span.strips (s : Span) : Strips s.text s.plain := by
  have hparameters : s.parameters.toList.all isParameter := by
    rw [isParameter_eq]
    exact s.all_parameters
  exact (strips_code hparameters).append (strips_of_not_mem s.not_mem_plain)

/-! ### Texts -/

namespace Coloured

theorem not_mem_plain (c : Coloured) : esc ∉ c.plain :=
  List.not_mem_append c.not_mem_front (not_mem_flatMap Span.not_mem_plain c.spans)

theorem strips (c : Coloured) : Strips c.text c.plain :=
  (strips_of_not_mem c.not_mem_front).append (Strips.flatMap Span.strips c.spans)

/-- Pieces of text are stripped one by one as all of them are together. -/
theorem flatMap_strip_text (pieces : List Coloured) :
    (pieces.flatMap fun c => strip c.text) = strip (pieces.flatMap text) := by
  have hpieces : (fun c : Coloured => strip c.text) = plain := funext fun c => c.strips.strip_eq
  rw [hpieces, (Strips.flatMap strips pieces).strip_eq]

theorem flatMap_strip_chunks {chunks : List Chunk} {pieces : List Coloured}
    (h : chunks.map Chunk.text = pieces.map text) :
    (chunks.flatMap fun c => strip c.text) = strip (pieces.flatMap text) :=
  calc (chunks.flatMap fun c => strip c.text) = (chunks.map Chunk.text).flatMap strip := (List.flatMap_map ..).symm
    _ = (pieces.map text).flatMap strip := by rw [h]
    _ = pieces.flatMap fun c => strip c.text := List.flatMap_map ..
    _ = strip (pieces.flatMap text) := flatMap_strip_text pieces

end Coloured

/-- Exactly the colour codes are removed from a coloured text, and then there are none.  Pieces of text that are
stripped one by one come to the same as all of them stripped together, and this is what plain mode shows of them. -/
theorem strip_coloured :
    (∀ c : Coloured, strip c.text = c.plain ∧ strip c.plain = c.plain) ∧
    ∀ pieces : List Coloured,
      let whole := pieces.flatMap Coloured.text
      (pieces.flatMap fun c => strip c.text) = strip whole ∧
      strip whole = pieces.flatMap Coloured.plain ∧
      strip (strip whole) = strip whole ∧
      ∀ (status : Nat) (chunks : List Chunk), chunks.map Chunk.text = pieces.map Coloured.text →
        Shell.Outcome.ofChunks status true chunks = ⟨status, strip whole, []⟩ := by
  refine ⟨fun c => ⟨c.strips.strip_eq, (strips_of_not_mem c.not_mem_plain).strip_eq⟩, fun pieces => ?_⟩
  intro whole
  have hwhole : strip whole = pieces.flatMap Coloured.plain := (Strips.flatMap Coloured.strips pieces).strip_eq
  have hplain : esc ∉ pieces.flatMap Coloured.plain := not_mem_flatMap Coloured.not_mem_plain pieces
  refine ⟨Coloured.flatMap_strip_text pieces, hwhole, ?_, fun status chunks hchunks => ?_⟩
  · rw [hwhole, (strips_of_not_mem hplain).strip_eq]
  · rw [Shell.Outcome.ofChunks, if_pos rfl, Coloured.flatMap_strip_chunks hchunks]

/-- A code without parameters, another one directly behind it and a code at an end, among plain characters that could
stand within a code. -/
theorem strip_coloured_adjacent :
    let chunks : List Chunk := [⟨.out, "0;1m[\x1b[m\x1b[1;31m[3m;".toList⟩, ⟨.err, "7m\x1b[0m".toList⟩]
    let plain := "0;1m[[3m;7m".toList
    strip (chunks.flatMap Chunk.text) = plain ∧ strip (strip (chunks.flatMap Chunk.text)) = plain ∧
      Shell.Outcome.ofChunks 0 true chunks = ⟨0, plain, []⟩ := by
  intro chunks plain
  let first : Coloured :=
    ⟨"0;1m[".toList, [⟨"", [], rfl, by decide⟩, ⟨"1;31", "[3m;".toList, rfl, by decide +kernel⟩], by decide +kernel⟩
  let second : Coloured := ⟨"7m".toList, [⟨"0", [], rfl, by decide⟩], by decide +kernel⟩
  obtain ⟨-, hwhole, hagain, hshown⟩ := strip_coloured.2 [first, second]
  have hchunks : chunks.map Chunk.text = [first, second].map Coloured.text := by decide +kernel
  have htext : chunks.flatMap Chunk.text = [first, second].flatMap Coloured.text := by decide +kernel
  have hplain : [first, second].flatMap Coloured.plain = plain := by decide +kernel
  rw [htext]
  exact ⟨hwhole.trans hplain, hagain.trans (hwhole.trans hplain),
    (hshown 0 chunks hchunks).trans (by rw [hwhole, hplain])⟩

/-- Behind an escape character that begins no code, what is left without a code can be a new one, so that such a text is
not a coloured one. -/
example : strip "\x1b\x1b[m[m".toList = "\x1b[m".toList := by decide +kernel

end Catena.Text.Colour
