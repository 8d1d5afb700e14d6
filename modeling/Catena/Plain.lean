import Catena.Number.Reader
import Catena.Text.Quoted
import Catena.Value

/-!
# Plain values

Values pass into and out of a session as plain ones: numbers, texts and lists.  `Plain.toValue` takes a plain value in
and `Value.toPlain` gives one out; a value given out and taken in again is the same.
-/

namespace Catena

/-- A value as the outside has it. -/
inductive Plain where
  | integer (n : Int)
  | number (x : Float)
  | flag (b : Bool)
  | text (cs : List Char)
  | list (items : List Plain)
  | array (v : Value)
  | nothing

instance : Inhabited Plain := ⟨.nothing⟩

inductive ConversionError where
  | tooLarge
  | malformed (text : List Char)
  | notIterable
  | notANumber (sort : String)
deriving DecidableEq, Repr

def ConversionError.message : ConversionError → String
  | tooLarge => "int too large to convert to float"
  | malformed text => "could not convert string to float: " ++ String.ofList (Text.quoted text)
  | notIterable => "'NoneType' object is not iterable"
  | notANumber sort => s!"float() argument must be a string or a real number, not '{sort}'"

/-- An integer as a number, if it is in range. -/
def numberOfInt (n : Int) : Except ConversionError Float :=
  match Number.ofInt? n with
  | some x => .ok x
  | none => .error .tooLarge

namespace Plain

/-- An item of a list as a number; a text may stand for one. -/
def toNumber : Plain → Except ConversionError Float
  | integer n => numberOfInt n
  | number x => .ok x
  | flag b => .ok (if b then 1 else 0)
  | text cs =>
    match Number.ofText? cs with
    | some x => .ok x
    | none => .error (.malformed cs)
  | list _ => .error (.notANumber "list")
  | array v => .error (.notANumber v.variant.title)
  | nothing => .error (.notANumber "NoneType")

def toValue : Plain → Except ConversionError Value
  | array v => .ok v
  | text cs => .ok (.character cs)
  | list items => (items.mapM toNumber).map .numeric
  | nothing => .error .notIterable
  | p => p.toNumber.map .scalar

end Plain

namespace Value

def toPlain : Value → Plain
  | character cs => .text cs
  | numeric [x] => .number x
  | numeric xs => .list (xs.map .number)

end Value

end Catena
