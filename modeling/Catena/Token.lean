import Catena.Builtin
import Catena.Value

/-!
# Tokens and programs

A program is a list of tokens.  A token pushes a value, calls a word, runs a builtin or defines a word; where it came
from is its origin, which error reports show.  A conditional may carry the index of the marker that ends it
(`Catena.Program.pair`).
-/

namespace Catena

/-- Where a token came from.  Tokens made from source text have every field; those made by hand may have any.
A file that is present but has no name is `some none`. -/
structure Origin where
  file : Option (Option String) := none
  line : Option Int := none
  column : Option Int := none
  text : Option String := none
deriving DecidableEq, Repr

/-- A token of a program.  Something that is none of the language's own tokens may stand in a program made by hand; it
shows as its text and does nothing. -/
inductive Token where
  | word (name : String) (origin : Origin)
  | data (value : Value) (origin : Origin)
  | builtin (ref : Reference) (target : Option Nat) (origin : Origin)
  | definition (name : String) (body : List Token) (origin : Origin)
  | other (text : String)

instance : Inhabited Token := ⟨.other ""⟩

abbrev Program := List Token

namespace Token

def origin : Token → Origin
  | word _ o | data _ o | builtin _ _ o | definition _ _ o => o
  | other _ => {}

def isConditional : Token → Bool
  | builtin (.known .conditional) _ _ => true
  | _ => false

def isForward : Token → Bool
  | builtin (.known .forward) _ _ => true
  | _ => false

def isRepetition : Token → Bool
  | builtin (.known .repetition) _ _ => true
  | _ => false

/-- A builtin's text in the source, or else the spelling that stands for it.  A reference by a name of no builtin has
none of its own (`unspelled?`). -/
def spelling (ref : Reference) (origin : Origin) : String :=
  origin.text.getD (match ref with | .known b => b.canonical | .named name => name)

/-- The short text of a token for messages. -/
def label : Token → String
  | word name _ | definition name _ _ => name
  | builtin ref _ o => spelling ref o
  | data _ o => o.text.getD "<data>"
  | other text => text

/-- The name of a token whose spelling is asked for but that refers to no builtin by name. -/
def unspelled? : Token → Option String
  | builtin (.named name) _ _ => some name
  | _ => none

end Token

end Catena
