import Catena.Source.ParseError
import Catena.Number.Reader
import Catena.Words

/-!
# Programs from source text

`Program.ofLexemes` turns lexemes into tokens and pairs the conditionals of the list.  The text of a definition is a
source of its own: the first lexeme is the name of the word, and the others make its body.

Pairing is bracket matching: a conditional is ended by the nearest marker after it that ends none in between.  A
conditional that no marker ends keeps the target that it has.
-/

namespace Catena

open Catena.Text

namespace Token

def withTarget (target : Nat) : Token → Token
  | builtin ref _ origin => builtin ref (some target) origin
  | t => t

end Token

/-- Pairs the conditionals of a program that starts at the given index.  Beside the program stand the indices of the
markers that end no conditional in it, the first one first: they are there for conditionals before it. -/
def pairFrom : (index : Nat) → Program → Program × List Nat
  | _, [] => ([], [])
  | i, t :: ts =>
    match pairFrom (i + 1) ts with
    | (paired, markers) =>
      if t.isForward then (t :: paired, i :: markers)
      else if t.isConditional then
        match markers with
        | [] => (t :: paired, [])
        | j :: markers => (t.withTarget j :: paired, markers)
      else (t :: paired, markers)

namespace Program

/-- Gives each conditional that a marker ends the index of that marker. -/
def pair (program : Program) : Program := (pairFrom 0 program).1

end Program

/-- The number that a text stands for, or the error at the lexeme it is from. -/
def readNumber (origin : Origin) (text : List Char) : Except ReadError Float :=
  match Number.ofText? text with
  | some x => .ok x
  | none => .error (origin.refuse (.malformedNumber text))

/-- The name that a definition gives and the lexemes of its body.  They start right after the opening colon. -/
def splitDefinition (origin : Origin) (text : List Char) : Except ReadError (List Char × List Lexeme) :=
  match origin.place with
  | .error e => .error e
  | .ok (file, start) =>
    match lex file ⟨start.line, start.column + 1⟩ text with
    | .error u => .error (u.toError file)
    | .ok [] => .error (.refused ⟨.namelessDefinition, file, start⟩)
    | .ok (name :: body) =>
      if name.kind = .word then .ok (name.text, body) else .error (name.origin.refuse (.invalidName name.text))

/-- The token that a lexeme stands for.  A definition that stands in others to the given depth has no body. -/
def readToken (depth : Nat) (l : Lexeme) : Except ReadError Token :=
  match l.kind with
  | .number => (readNumber l.origin l.text).map fun x => .data (.scalar x) l.origin
  | .string => .ok (.data (.character l.text) l.origin)
  | .array => ((fields l.text).mapM (readNumber l.origin)).map fun xs => .data (.numeric xs) l.origin
  | .word => .ok (.word (String.ofList l.text) l.origin)
  | .builtin ref => .ok (.builtin ref none l.origin)
  | .definition =>
    match splitDefinition l.origin l.text, depth with
    | .error e, _ => .error e
    | .ok (name, _), 0 => .ok (.definition (String.ofList name) [] l.origin)
    | .ok (name, body), depth + 1 =>
      (body.mapM (readToken depth)).map fun ts => .definition (String.ofList name) (Program.pair ts) l.origin

namespace Program

/-- The program that a list of lexemes makes.  A definition that stands in the text of another is shorter than it, so
that no definition nests as deep as its text is long. -/
def ofLexemes (lexemes : List Lexeme) : Except ReadError Program :=
  (lexemes.mapM fun l => readToken (l.text.length + 1) l).map pair

/-- The program of a source text that starts on the given line of a file. -/
def parse (source : List Char) (file : Option String) (line : Int) : Except ReadError Program :=
  match lex file ⟨line, 1⟩ source with
  | .error u => .error (u.toError file)
  | .ok lexemes => ofLexemes lexemes

end Program

end Catena
