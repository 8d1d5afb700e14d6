import Catena.Builtin
import Catena.Value
import Catena.Number.Notation

/-!
# Faults of evaluation

Everything that can go wrong while a program runs, as causes.  `Fault.message` words them all and `Fault.category`
sorts them into the six kinds that are reported.
-/

namespace Catena

inductive Operand where
  | numeric
  | any
deriving DecidableEq, Repr

namespace Operand

def name : Operand → String
  | numeric => "numeric"
  | any => "array"

def admits : Operand → Variant → Bool
  | any, _ => true
  | numeric, .numeric => true
  | numeric, .character => false

end Operand

/-- What went wrong in a step of evaluation.  A `spelling` is the text of the builtin in question. -/
inductive Fault where
  | tooFewOperands (op : Operator) (needed available : Nat)
  | wrongOperand (op : Operator) (expected : Operand) (position : Nat) (found : Variant)
  | concatEmpty
  | concatMixed (left right : Variant)
  | countNotNumeric
  | countEmpty
  | noCondition (spelling : String)
  | noTarget (spelling : String)
  | noCount (spelling : String)
  | nothingToRepeat (spelling : String)
  | repeatsControl (spelling body : String)
  | undefinedWord (name : String)
  | unknownBuiltin (name : String)
  | tooDeep (name : String) (limit : Int)
deriving DecidableEq, Repr

inductive Category where
  | stack | type | value | control | name | recursion
deriving DecidableEq, Repr

def Category.title : Category → String
  | stack => "ArrStackError"
  | type => "ArrTypeError"
  | value => "ArrValueError"
  | control => "ArrControlError"
  | name => "ArrNameError"
  | recursion => "ArrRecursionError"

namespace Fault

def category : Fault → Category
  | tooFewOperands .. | noCondition _ | noCount _ => .stack
  | wrongOperand .. | concatMixed .. | countNotNumeric => .type
  | concatEmpty | countEmpty => .value
  | noTarget _ | nothingToRepeat _ | repeatsControl .. => .control
  | undefinedWord _ | unknownBuiltin _ => .name
  | tooDeep .. => .recursion

/-- The name that a fault is about, where that and not the token's own text is to blame. -/
def culprit? : Fault → Option String
  | undefinedWord name | unknownBuiltin name => some name
  | _ => none

def message : Fault → String
  | tooFewOperands op needed available =>
    s!"`{op.name}` needs at least {needed} item(s) on the stack, but {available} available."
  | wrongOperand op expected position found =>
    s!"`{op.name}` expects {expected.name} at position {position} from top, got {found.name}."
  | concatEmpty => "Cannot concatenate an empty array."
  | concatMixed left right => s!"Cannot concatenate {left.name} with {right.name}."
  | countNotNumeric => "`do` expects a numeric repeat count."
  | countEmpty => "`do` expects a non-empty repeat count."
  | noCondition spelling => s!"`{spelling}` needs a condition on the stack."
  | noTarget spelling => s!"`{spelling}` has no matching `then` to skip to."
  | noCount spelling => s!"`{spelling}` needs a repeat count on the stack."
  | nothingToRepeat spelling => s!"`{spelling}` needs a token after it to repeat."
  | repeatsControl spelling body => s!"`{spelling}` cannot repeat the control-flow builtin `{body}`."
  | undefinedWord name => s!"Word `{name}` is not defined."
  | unknownBuiltin name => s!"Builtin `{name}` not found in library."
  | tooDeep name limit =>
    s!"Word `{name}` exceeded the maximum call depth of {String.ofList (Number.intText limit)}."

end Fault

end Catena
