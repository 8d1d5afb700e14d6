import Catena.Source.Lexeme

/-!
# Errors of reading a program

A source is refused because a lexeme does not end, a number is malformed, or a definition has no name or an invalid
one.  `ParseError.token` is the text to blame, at the error's line and column.
-/

namespace Catena

inductive ParseCause where
  | unclosedString
  | unclosedArray
  | unclosedDefinition
  | malformedNumber (text : List Char)
  | namelessDefinition
  | invalidName (text : List Char)
deriving DecidableEq, Repr

namespace ParseCause

/-- The cause that goes with the opening character of a lexeme that does not end. -/
def ofOpening (opening : Char) : ParseCause :=
  if opening = '"' then unclosedString else if opening = '[' then unclosedArray else unclosedDefinition

def isUnclosed : ParseCause → Bool
  | unclosedString | unclosedArray | unclosedDefinition => true
  | _ => false

def title (cause : ParseCause) : String :=
  if cause.isUnclosed then "ArrUnmatchedDelimiter" else "ArrParseError"

def token : ParseCause → List Char
  | unclosedString => ['"']
  | unclosedArray => ['[']
  | unclosedDefinition => [':']
  | malformedNumber text => text
  | namelessDefinition => [':']
  | invalidName text => text

def message : ParseCause → String
  | unclosedString => "String literal is missing its closing `\"`."
  | unclosedArray => "Array literal is missing its closing `]`."
  | unclosedDefinition => "Word definition is missing its closing `;`."
  | malformedNumber text => "Malformed number `" ++ String.ofList text ++ "`."
  | namelessDefinition => "Word definition needs a name."
  | invalidName text => "Cannot define `" ++ String.ofList text ++ "`, not a valid word name."

end ParseCause

structure ParseError where
  cause : ParseCause
  file : Option String
  start : Position
deriving DecidableEq, Repr

/-- Why lexemes make no program: the source is to be refused, or the origin of a lexeme made by hand lacks a field that
is needed to say where. -/
inductive ReadError where
  | refused (error : ParseError)
  | originLacks (field : String)
deriving DecidableEq, Repr

/-- The place that an origin gives, as long as it has all of it. -/
def Origin.place (o : Origin) : Except ReadError (Option String × Position) :=
  match o.file, o.line, o.column with
  | none, _, _ => .error (.originLacks "filename")
  | _, none, _ => .error (.originLacks "line")
  | _, _, none => .error (.originLacks "column")
  | some file, some line, some column => .ok (file, ⟨line, column⟩)

def Origin.refuse (o : Origin) (cause : ParseCause) : ReadError :=
  match o.place with
  | .ok (file, start) => .refused ⟨cause, file, start⟩
  | .error e => e

/-- A lexeme that does not end, as an error in a file. -/
def Unclosed.toError (u : Unclosed) (file : Option String) : ReadError :=
  .refused ⟨.ofOpening u.opening, file, u.start⟩

end Catena
