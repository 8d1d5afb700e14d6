import Catena.Proofs.Attribution

/-!
# The layout of a trace line

A trace line has two fields of one width.  A text that fits its field is there as a whole, with blanks before the stack
and behind the program; of a text that does not fit, two characters less than the width are left, next to an ellipsis
and a blank.  `ShowsEnd` and `ShowsBeginning` say so for a field at a time, and either way the field is exactly as wide
as it should be (`showsEnd_stackField`, `showsBeginning_programField`).  A width of three is the least for which there
is anything left of a text that is cut.

Every program that is made of tokens from sources has a text, so that its trace is written (`stateLine_layout`).
-/

namespace Catena

open Catena.Text

/-- A field of the given width shows a text at its right end, or the end of the text. -/
structure ShowsEnd (width : Nat) (text field : List Char) : Prop where
  length_eq : field.length = width
  whole (h : text.length ≤ width) : ∃ blanks, (∀ c ∈ blanks, c = ' ') ∧ field = blanks ++ text
  cut (h : width < text.length) : ∃ rest, rest <:+ text ∧ rest.length = width - 2 ∧ field = ['…', ' '] ++ rest

/-- A field of the given width shows a text at its left end, or the beginning of the text. -/
structure ShowsBeginning (width : Nat) (text field : List Char) : Prop where
  length_eq : field.length = width
  whole (h : text.length ≤ width) : ∃ blanks, (∀ c ∈ blanks, c = ' ') ∧ field = text ++ blanks
  cut (h : width < text.length) : ∃ rest, rest <+: text ∧ rest.length = width - 2 ∧ field = rest ++ [' ', '…']

/-! ### Fields -/

section Fields

variable {width : Nat} {text : List Char}

/-- The end of a text that is cut is a suffix of it, of two characters less than the width. -/
theorem exists_cutFront (hw : 3 ≤ width) (h : width < text.length) :
    ∃ rest, rest <:+ text ∧ rest.length = width - 2 ∧ cutFront width text = ['…', ' '] ++ rest := by
  refine ⟨text.drop (text.length - (width - 2)), List.drop_suffix _ _, ?_, ?_⟩
  · rw [List.length_drop]
    omega
  · unfold cutFront
    rw [if_neg (by omega)]
    rfl

theorem exists_cutBack (hw : 3 ≤ width) (h : width < text.length) :
    ∃ rest, rest <+: text ∧ rest.length = width - 2 ∧ cutBack width text = rest ++ [' ', '…'] := by
  refine ⟨text.take (width - 2), List.take_prefix _ _, ?_, ?_⟩
  · rw [List.length_take]
    omega
  · unfold cutBack
    rw [if_neg (by omega)]

private theorem showsEnd_whole (h : text.length ≤ width) : ShowsEnd width text (padLeft width text) where
  length_eq := length_padLeft h
  whole _ := ⟨_, fun _ hc => List.eq_of_mem_replicate hc, rfl⟩
  cut hcut := by omega

private theorem showsEnd_cut (hw : 3 ≤ width) (h : width < text.length) :
    ShowsEnd width text (padLeft width (cutFront width text)) := by
  obtain ⟨rest, hrest, hlength, hcut⟩ := exists_cutFront hw h
  have hfits : (cutFront width text).length = width := by
    rw [hcut, List.length_append, hlength, List.length_cons, List.length_singleton]
    omega
  have hpad : padLeft width (cutFront width text) = cutFront width text := by
    rw [padLeft, hfits, Nat.sub_self]
    rfl
  rw [hpad]
  exact ⟨hfits, fun hwhole => by omega, fun _ => ⟨rest, hrest, hlength, hcut⟩⟩

private theorem showsBeginning_whole (h : text.length ≤ width) : ShowsBeginning width text (padRight width text) where
  length_eq := length_padRight h
  whole _ := ⟨_, fun _ hc => List.eq_of_mem_replicate hc, rfl⟩
  cut hcut := by omega

private theorem showsBeginning_cut (hw : 3 ≤ width) (h : width < text.length) :
    ShowsBeginning width text (padRight width (cutBack width text)) := by
  obtain ⟨rest, hrest, hlength, hcut⟩ := exists_cutBack hw h
  have hfits : (cutBack width text).length = width := by
    rw [hcut, List.length_append, hlength, List.length_cons, List.length_singleton]
    omega
  have hpad : padRight width (cutBack width text) = cutBack width text := by
    rw [padRight, hfits, Nat.sub_self]
    exact List.append_nil _
  rw [hpad]
  exact ⟨hfits, fun hwhole => by omega, fun _ => ⟨rest, hrest, hlength, hcut⟩⟩

theorem showsEnd_stackField (hw : 3 ≤ width) (s : Stack) :
    ShowsEnd width (stackText s) (stackField (some width) s) := by
  by_cases h : width < (stackText s).length
  · simp only [stackField, if_pos h]
    exact showsEnd_cut hw h
  · simp only [stackField, if_neg h]
    exact showsEnd_whole (by omega)

theorem showsBeginning_programField (hw : 3 ≤ width) (program : Program) :
    ShowsBeginning width (programText program) (programField width program) := by
  by_cases h : width < (programText program).length
  · simp only [programField, if_pos h]
    exact showsBeginning_cut hw h
  · simp only [programField, if_neg h]
    exact showsBeginning_whole (by omega)

end Fields

/-! ### Lines -/

theorem Program.textless?_of_isParsed {program : Program} (h : ∀ t ∈ program, ∃ p : Program, p.IsParsed ∧ t ∈ p) :
    Program.textless? program = none := by
  refine Program.textless?_eq_none_iff.2 fun t ht => ?_
  obtain ⟨p, hp, htp⟩ := h t ht
  exact Program.textless?_eq_none_iff.1 hp.isRead.isSound.2 t htp

/-- The field of a stack, and a trace line of a stack and a program whose tokens come from sources, have a fixed layout
for every width from three on: the line is a field that shows the stack or the end of it, the divider, a field that
shows the program or the beginning of it, and a line feed.  Whenever such a program is traced, this is the line that is
written behind the head of the trace. -/
theorem stateLine_layout {width : Nat} (hw : 3 ≤ width) (s : Stack) {program : Program}
    (hp : ∀ t ∈ program, ∃ p : Program, p.IsParsed ∧ t ∈ p) :
    ShowsEnd width (stackText s) (stackField (some width) s) ∧
    (∃ left right, stateLine width program s = left ++ divider ++ right ++ ['\n'] ∧
      ShowsEnd width (stackText s) left ∧ ShowsBeginning width (programText program) right) ∧
    ∀ (m : Machine) (depth : Nat) (label : List Char), m.trace depth label program =
      .done ((m.emit (.traced (traceHead depth label))).emit (.traced (stateLine fieldWidth program m.stack))) := by
  have hstack := showsEnd_stackField hw s
  refine ⟨hstack, ⟨_, _, rfl, hstack, showsBeginning_programField hw program⟩, fun m depth label => ?_⟩
  rw [Machine.trace, Program.textless?_of_isParsed hp]

/-- The source `1 dup +` behind its first token, which just fits a field of five, beside a text and a number, of which
only three characters do. -/
theorem stateLine_layout_exact_fit :
    ∃ p, Program.parse "1 dup +".toList none 1 = .ok p ∧
      let s : Stack := [.scalar 3, .character "ab".toList]
      (∀ t ∈ p.drop 1, ∃ q : Program, q.IsParsed ∧ t ∈ q) ∧
      stackText s = "\"ab\" 3".toList ∧ programText (p.drop 1) = "dup +".toList ∧
      stateLine 5 (p.drop 1) s = "… \" 3".toList ++ divider ++ "dup +".toList ++ ['\n'] := by
  have htexts : (Program.parse "1 dup +".toList none 1).toOption.map (fun p => programText (p.drop 1)) =
      some "dup +".toList := by
    decide +kernel
  cases hp : Program.parse "1 dup +".toList none 1 with
  | error e =>
    rw [hp] at htexts
    cases htexts
  | ok p =>
    rw [hp] at htexts
    have hprogram : programText (p.drop 1) = "dup +".toList := Option.some.inj htexts
    refine ⟨p, rfl, ?_⟩
    intro s
    have hstack : stackText s = "\"ab\" 3".toList := by decide +kernel
    have hparsed : ∀ t ∈ p.drop 1, ∃ q : Program, q.IsParsed ∧ t ∈ q :=
      fun t ht => ⟨p, ⟨_, _, _, p, hp, .inl rfl⟩, List.mem_of_mem_drop ht⟩
    refine ⟨hparsed, hstack, hprogram, ?_⟩
    obtain ⟨-, ⟨left, right, hline, hleft, hright⟩, -⟩ := stateLine_layout (by decide : 3 ≤ 5) s hparsed
    rw [hstack] at hleft
    rw [hprogram] at hright
    obtain ⟨rest, hsuffix, hlength, rfl⟩ := hleft.cut (by decide)
    obtain ⟨blanks, -, rfl⟩ := hright.whole (by decide)
    -- the program fills its field, and the end of the stack can only be these characters
    have hblanks : blanks = [] := List.length_eq_zero_iff.1 (by simpa using hright.length_eq)
    have hrest : rest = "\" 3".toList := by
      rw [List.suffix_iff_eq_drop.1 hsuffix, hlength]
      rfl
    rw [hline, hblanks, hrest]
    rfl

end Catena
