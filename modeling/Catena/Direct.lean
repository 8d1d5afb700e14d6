import Catena.Operator
import Catena.Plain

/-!
# Direct calls

An operator can also be called by its identifier on arrays of any variant, without the checks that a stack makes.
Numbers then combine as they do on a stack (`direct_numeric`).  A character combines with nothing, except that two of
them add up to the number that they spell; the first two items that do not combine decide how a call fails.
-/

namespace Catena

inductive Item where
  | number (x : Float)
  | letter (c : Char)
deriving DecidableEq

def Value.items : Value → List Item
  | numeric xs => xs.map .number
  | character cs => cs.map .letter

/-- Name of a single item of a variant. -/
def Variant.itemName : Variant → String
  | numeric => "float"
  | character => "str"

inductive ItemError where
  | unsupported (sign : String) (left right : Variant)
  | notJoined
  | notRepeated (times : Variant)
  | unordered
  | notReal
  | unread (error : ConversionError)
deriving DecidableEq, Repr

def ItemError.message : ItemError → String
  | unsupported sign left right =>
    s!"unsupported operand type(s) for {sign}: '{left.itemName}' and '{right.itemName}'"
  | notJoined => "can only concatenate str (not \"float\") to str"
  | notRepeated times => s!"can't multiply sequence by non-int of type '{times.itemName}'"
  | unordered => "'>' not supported between instances of 'str' and 'int'"
  | notReal => "must be real number, not str"
  | unread error => error.message

namespace Item

def variant : Item → Variant
  | number _ => .numeric
  | letter _ => .character

/-- Whether an item is positive, which only a number can be asked. -/
def positive : Item → Except ItemError Bool
  | number x => .ok (0 < x)
  | letter _ => .error .unordered

/-- The sum of two items: two characters join to a numeral. -/
def sum : Item → Item → Except ItemError Float
  | number x, number y => .ok (x + y)
  | letter c, letter d => (Plain.toNumber (.text [c, d])).mapError .unread
  | letter _, number _ => .error .notJoined
  | number _, letter _ => .error (.unsupported "+" .numeric .character)

/-- The product of two items.  A character would be repeated, but only an integer, which no item is, tells how often. -/
def product : Item → Item → Except ItemError Float
  | number x, number y => .ok (x * y)
  | letter _, letter _ => .error (.notRepeated .character)
  | _, _ => .error (.notRepeated .numeric)

/-- The quotient of two items.  Before a division by zero the dividend has to show that it is a number. -/
def quotient : Item → Item → Except ItemError Float
  | number x, number y => .ok (x / y)
  | letter _, number y => .error (if y == 0 then .notReal else .unsupported "/" .character .numeric)
  | left, letter _ => .error (.unsupported "/" left.variant .character)

end Item

namespace Operator

/-- What the item-wise operators do to a pair of items of any variant, the deeper one first.  The second item is
looked at only if the first does not settle the matter. -/
def combine : Operator → Item → Item → Except ItemError Float
  | minus, .number x, .number y => .ok (x - y)
  | minus, left, right => .error (.unsupported "-" left.variant right.variant)
  | multiply, left, right => left.product right
  | divide, left, right => left.quotient right
  | both, left, right => do if ← left.positive then truth <$> right.positive else return truth false
  | either, left, right => do if ← left.positive then return truth true else truth <$> right.positive
  | _, left, right => left.sum right

theorem combine_number (op : Operator) (x y : Float) : op.combine (.number x) (.number y) = .ok (op.onItems x y) := by
  have both_truth : ∀ a b : Bool,
      (if a = true then truth <$> (.ok b : Except ItemError Bool) else pure (truth false)) = .ok (truth (a && b)) := by
    intro a b; cases a <;> rfl
  have either_truth : ∀ a b : Bool,
      (if a = true then pure (truth true) else truth <$> (.ok b : Except ItemError Bool)) = .ok (truth (a || b)) := by
    intro a b; cases a <;> rfl
  cases op
  case both => exact both_truth (0 < x) (0 < y)
  case either => exact either_truth (0 < x) (0 < y)
  all_goals rfl

end Operator

inductive CallError where
  | unknown (identifier : String)
  | missing (identifier : String) (parameters : List String)
  | surplus (identifier : String) (takes given : Nat)
  | noFeature (variant : Variant) (feature : String)
  | noDeletion (variant : Variant)
  | items (error : ItemError)
  | fault (cause : Fault)
deriving DecidableEq, Repr

def CallError.message : CallError → String
  | unknown identifier => s!"module 'arrfl.operators' has no attribute '{identifier}'"
  | missing identifier parameters =>
    let plural := if parameters.length = 1 then "" else "s"
    let names := " and ".intercalate (parameters.map fun name => s!"'{name}'")
    s!"{identifier}() missing {parameters.length} required positional argument{plural}: {names}"
  | surplus identifier takes given =>
    let plural := if takes = 1 then "" else "s"
    s!"{identifier}() takes {takes} positional argument{plural} but {given} were given"
  | noFeature variant feature => s!"'{variant.title}' object has no attribute '{feature}'"
  | noDeletion variant => s!"'{variant.title}' object does not support item deletion"
  | items error => error.message
  | fault cause => cause.message

inductive Answer where
  | value (v : Value)
  | values (vs : List Value)
  | nothing
  | count (n : Int)
  | truth (b : Bool)
deriving DecidableEq

namespace Operator

/-- An operator on the whole stack called on an array: the array lacks what a stack has, which is noticed as soon as
there is something to do. -/
def onArray (op : Operator) (v : Value) : Except CallError Answer :=
  match op with
  | clear => .error (.noFeature v.variant "clear")
  | clearButOne => .error (.noDeletion v.variant)
  | _ => if v.length = 0 then .ok .nothing else .error (.noFeature v.variant "append")

/-- Calls an operator on arrays of any variant, the deeper one first. -/
def direct (op : Operator) (arguments : List Value) : Except CallError Answer :=
  match op.effect, arguments with
  | .wholeStack, v :: _ => op.onArray v
  | .operands [.numeric, .numeric] _, [left, right] =>
    match (alongside left.items right.items).mapM fun (x, y) => op.combine x y with
    | .ok numbers => .ok (.value (.numeric numbers))
    | .error error => .error (.items error)
  | .operands _ count, _ =>
    match op.results arguments.reverse, count with
    | .ok [v], .exactly 1 => .ok (.value v)
    | .ok _, .exactly 0 => .ok .nothing
    | .ok vs, _ => .ok (.values vs)
    | .error fault, _ => .error (.fault fault)
  | .wholeStack, [] => .ok .nothing

/-- On numbers a direct call does what the operator does on a stack. -/
theorem direct_numeric {op : Operator} {count : Results} (h : op.effect = .operands [.numeric, .numeric] count)
    (xs ys : List Float) :
    op.direct [.numeric xs, .numeric ys] = .ok (.value (.numeric (broadcast op.onItems xs ys))) := by
  have combined : (alongside (xs.map Item.number) (ys.map Item.number)).mapM (fun (x, y) => op.combine x y)
      = .ok (broadcast op.onItems xs ys) := by
    rw [alongside_map, List.mapM_map]
    simp only [Function.comp_def, combine_number]
    exact List.mapM_pure
  simp [direct, h, Value.items, combined]

end Operator

/-- What can be called directly: the operators, and how repetition and conditions read a value. -/
inductive Callee where
  | operator (op : Operator)
  | count
  | condition
deriving DecidableEq, Repr

namespace Callee

def identifier : Callee → String
  | operator op => String.ofList ("op_".toList ++ op.name.toList.map fun c => if c = '-' then '_' else c)
  | count => "as_count"
  | condition => "is_true"

/-- Names of the arguments, in order. -/
def parameters : Callee → List String
  | operator .pop => ["_"]
  | operator op =>
    match op.effect with
    | .operands [_, _] _ => ["b", "a"]
    | .operands _ _ => ["x"]
    | .wholeStack => ["s"]
  | count | condition => ["x"]

def all : List Callee := Operator.all.map operator ++ [count, condition]

def ofIdentifier? (identifier : String) : Option Callee := all.find? fun c => c.identifier == identifier

/-- Calls with as many arguments as there are parameters. -/
def run : Callee → List Value → Except CallError Answer
  | operator op, arguments => op.direct arguments
  | count, arguments =>
    match arguments.head?.map Value.count with
    | some (.ok n) => .ok (.count n)
    | some (.error fault) => .error (.fault fault)
    | none => .ok .nothing
  | condition, arguments => .ok (.truth (arguments.any Value.holds))

end Callee

def callDirectly (identifier : String) (arguments : List Value) : Except CallError Answer :=
  match Callee.ofIdentifier? identifier with
  | none => .error (.unknown identifier)
  | some callee =>
    let takes := callee.parameters.length
    if arguments.length < takes then .error (.missing identifier (callee.parameters.drop arguments.length))
    else if takes < arguments.length then .error (.surplus identifier takes arguments.length)
    else callee.run arguments

end Catena
