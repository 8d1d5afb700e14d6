import Catena.Builtin
import Catena.Token
import Catena.Text.Blank

/-!
# Lexemes

Source text is a sequence of lexemes with gaps of blanks and comments between them; a comment runs from `#` to the end
of its line.  Each lexeme has one of five shapes, told by its first character:

* a string, from a quote to the next quote that no backslash escapes; a backslash escapes any character but a line
  feed;
* an array, from `[` to the first `]`;
* a definition, from `:` to the first `;`;
* a number, an ASCII digit and everything up to the next blank;
* a symbol, anything else up to the next blank.

A string, array or definition that does not end is the only error.  `scan` walks the text once, keeping the position.
-/

namespace Catena

open Catena.Text

/-- A place in a source, counted from one.  Only line feeds start a new line. -/
structure Position where
  line : Int := 1
  column : Int := 1
deriving DecidableEq, Repr

namespace Position

def next (p : Position) (c : Char) : Position :=
  if c = '\n' then ⟨p.line + 1, 1⟩ else ⟨p.line, p.column + 1⟩

def after (p : Position) (cs : List Char) : Position := cs.foldl next p

theorem after_append (p : Position) (cs ds : List Char) : p.after (cs ++ ds) = (p.after cs).after ds := by
  simp [after]

end Position

inductive Shape where
  | string | array | definition | number | symbol
deriving DecidableEq, Repr

/-- A lexeme as it stands in the source, delimiters included. -/
structure Piece where
  shape : Shape
  raw : List Char
  start : Position
deriving DecidableEq, Repr

/-- The rest of a string after its opening quote, up to and with the closing one. -/
def stringRest? : List Char → Option (List Char)
  | [] => none
  | '\\' :: c :: r => if c = '\n' then none else (stringRest? r).map ('\\' :: c :: ·)
  | c :: r => if c = '"' then some ['"'] else if c = '\\' then none else (stringRest? r).map (c :: ·)

/-- The text up to and with the first closing character. -/
def upTo? (close : Char) : List Char → Option (List Char)
  | [] => none
  | c :: r => if c = close then some [c] else (upTo? close r).map (c :: ·)

/-- The non-blank characters at the start of a text. -/
def solid (cs : List Char) : List Char := cs.takeWhile fun c => !isBlank c

/-- Shape and text of the lexeme that starts with the character `c` and goes on in `r`, unless it does not end. -/
def lexemeAt? (c : Char) (r : List Char) : Option (Shape × List Char) :=
  if c = '"' then (stringRest? r).map fun t => (.string, c :: t)
  else if c = '[' then (upTo? ']' r).map fun t => (.array, c :: t)
  else if c = ':' then (upTo? ';' r).map fun t => (.definition, c :: t)
  else some (if isDigit c then .number else .symbol, c :: solid r)

/-- The opening character of a lexeme that does not end, and its place. -/
structure Unclosed where
  opening : Char
  start : Position
deriving DecidableEq, Repr

/-- The lexemes of a text at a place, after the given number of characters that are already taken. -/
def scan (p : Position) : (taken : Nat) → List Char → Except Unclosed (List Piece)
  | _, [] => .ok []
  | n + 1, c :: r => scan (p.next c) n r
  | 0, c :: r =>
    if isBlank c then scan (p.next c) 0 r
    else if c = '#' then scan (p.next c) (r.takeWhile (· ≠ '\n')).length r
    else match lexemeAt? c r with
      | none => .error ⟨c, p⟩
      | some (shape, raw) => (scan (p.next c) (raw.length - 1) r).map (⟨shape, raw, p⟩ :: ·)

inductive Kind where
  | number | string | array | definition | word
  | builtin (ref : Reference)
deriving DecidableEq, Repr

namespace Kind

def name : Kind → String
  | number => "number"
  | string => "string"
  | array => "array"
  | definition => "definition"
  | word => "word"
  | builtin ref => ref.name

/-- The kind of a name; any name that is no kind of its own is that of a builtin. -/
def ofName (name : String) : Kind :=
  match name with
  | "number" => number
  | "string" => string
  | "array" => array
  | "definition" => definition
  | "word" => word
  | _ => builtin (.ofName name)

/-- A symbol is a builtin if it is one of its spellings and a word otherwise. -/
def ofSymbol (text : List Char) : Kind :=
  match Builtin.ofSpelling? (String.ofList text) with
  | some b => builtin (.known b)
  | none => word

end Kind

/-- A classified lexeme: the text that counts, what it is read as, and where it came from. -/
structure Lexeme where
  text : List Char
  kind : Kind
  origin : Origin
deriving DecidableEq, Repr

/-- Drops each backslash that escapes the character after it. -/
def unescape : List Char → List Char
  | '\\' :: c :: r => c :: unescape r
  | c :: r => c :: unescape r
  | [] => []

/-- The text between the delimiters of a lexeme. -/
def inner (raw : List Char) : List Char := (raw.drop 1).dropLast

namespace Piece

/-- A piece of a file as a lexeme.  Blanks at the ends of a string or an array do not count. -/
def toLexeme (file : Option String) (piece : Piece) : Lexeme :=
  let origin : Origin :=
    ⟨some file, some piece.start.line, some piece.start.column, some (String.ofList piece.raw)⟩
  match piece.shape with
  | .string => ⟨strip (unescape (inner piece.raw)), .string, origin⟩
  | .array => ⟨strip (inner piece.raw), .array, origin⟩
  | .definition => ⟨inner piece.raw, .definition, origin⟩
  | .number => ⟨piece.raw, .number, origin⟩
  | .symbol => ⟨piece.raw, .ofSymbol piece.raw, origin⟩

end Piece

/-- The lexemes of a text that starts at the given place of a file. -/
def lex (file : Option String) (start : Position) (source : List Char) : Except Unclosed (List Lexeme) :=
  (scan start 0 source).map (List.map (Piece.toLexeme file))

end Catena
