import Catena.Number.Notation
import Catena.Text.Blank
import Catena.Token

/-!
# Values and programs as text

A single number shows bare, other numeric arrays in brackets, and arrays of characters in quotes, with quotes and
backslashes escaped by a backslash.  Programs show as source text that reads back as the same program, up to literals
that have no such text (`-1` reads back as a word).
-/

namespace Catena

open Catena.Text

def escapeQuoted (c : Char) : List Char := if c = '"' || c = '\\' then ['\\', c] else [c]

namespace Value

/-- A value as it shows in a program. -/
def render : Value → List Char
  | character cs => '"' :: cs.flatMap escapeQuoted ++ ['"']
  | numeric [x] => Number.render x
  | numeric xs => '[' :: joinSpaced (xs.map Number.render) ++ [']']

/-- A value as it is printed: characters stand for themselves. -/
def display : Value → List Char
  | character cs => cs
  | v => v.render

end Value

mutual

def Token.render : Token → List Char
  | .word name _ => name.toList
  | .data value _ => value.render
  | .builtin ref _ origin => (Token.spelling ref origin).toList
  | .definition name body _ => ": ".toList ++ name.toList ++ ' ' :: joinSpaced (Program.renderEach body) ++ " ;".toList
  | .other text => text.toList

def Program.renderEach : List Token → List (List Char)
  | [] => []
  | t :: ts => t.render :: Program.renderEach ts

end

mutual

/-- The first builtin within a token that is referred to by a name of none, so that the token has no text. -/
def Token.textless? : Token → Option String
  | .definition _ body _ => Program.textless? body
  | t => t.unspelled?

/-- The first builtin of a program that is referred to by a name of none. -/
def Program.textless? : List Token → Option String
  | [] => none
  | t :: ts => t.textless?.or (Program.textless? ts)

end

def Program.render (program : Program) : List Char := joinSpaced (Program.renderEach program)

end Catena
