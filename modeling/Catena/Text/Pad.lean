/-!
# Fields of a fixed width

Padding counts code points.  A text that is too long for its field is left as it is; the caller cuts it first.
-/

namespace Catena.Text

/-- The text at the right end of a field of the given width. -/
def padLeft (width : Nat) (text : List Char) : List Char :=
  List.replicate (width - text.length) ' ' ++ text

/-- The text at the left end of a field of the given width. -/
def padRight (width : Nat) (text : List Char) : List Char :=
  text ++ List.replicate (width - text.length) ' '

theorem length_padLeft {width : Nat} {text : List Char} (h : text.length ≤ width) :
    (padLeft width text).length = width := by
  simp only [padLeft, List.length_append, List.length_replicate]
  omega

theorem length_padRight {width : Nat} {text : List Char} (h : text.length ≤ width) :
    (padRight width text).length = width := by
  simp only [padRight, List.length_append, List.length_replicate]
  omega

/-- Decimal digits in groups of three, divided by commas from the right. -/
def grouped (n : Nat) : List Char :=
  let digits := Nat.toDigits 10 n
  (digits.zipIdx.flatMap fun (d, i) =>
    if i ≠ 0 && (digits.length - i) % 3 = 0 then [',', d] else [d])

end Catena.Text
