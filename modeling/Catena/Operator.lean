import Catena.Fault

/-!
# Operators

Every operator has an effect: either the operands that it takes from the stack, checked before anything is popped,
and how many results it leaves, or the whole stack.  `Operator.results` computes the results from the operands alone
and `Operator.apply` does the checks and the bookkeeping.  A failing check leaves the stack as it was; `concat`, which
can still fail afterwards, has then taken its operands.
-/

namespace Catena

inductive Results where
  | exactly (count : Nat)
  | onePerItem
deriving DecidableEq, Repr

/-- What an operator does to a stack: the operands that it takes, top first, and the results that it leaves, or
anything at all. -/
inductive Effect where
  | operands (inputs : List Operand) (results : Results)
  | wholeStack
deriving DecidableEq, Repr

/-- The first `n` items of the list `xs` followed by as many copies of `full` as it takes. -/
def cycleFrom {α : Type} (full : List α) : Nat → List α → List α
  | 0, _ => []
  | n + 1, x :: xs => x :: cycleFrom full n xs
  | n + 1, [] =>
    match full with
    | [] => []
    | x :: xs => x :: cycleFrom full n xs

theorem length_cycleFrom {α : Type} {full : List α} (h : full ≠ []) (n : Nat) (xs : List α) :
    (cycleFrom full n xs).length = n := by
  induction n generalizing xs with
  | zero => rfl
  | succ n ih =>
    cases xs with
    | cons x xs => simp [cycleFrom, ih]
    | nil =>
      cases full with
      | nil => exact absurd rfl h
      | cons x xs => simp [cycleFrom, ih]

theorem cycleFrom_map {α β : Type} (f : α → β) (full : List α) (n : Nat) (xs : List α) :
    cycleFrom (full.map f) n (xs.map f) = (cycleFrom full n xs).map f := by
  induction n generalizing xs with
  | zero => rfl
  | succ n ih =>
    cases xs with
    | cons x xs => simp [cycleFrom, ih]
    | nil =>
      cases full with
      | nil => rfl
      | cons x xs => simpa [cycleFrom] using ih xs

/-- The items of two arrays side by side; the shorter one starts over until the longer one ends.  An empty array has
nothing beside it. -/
def alongside {α : Type} (left right : List α) : List (α × α) :=
  if left.isEmpty || right.isEmpty then []
  else
    let n := max left.length right.length
    (cycleFrom left n left).zip (cycleFrom right n right)

theorem alongside_map {α β : Type} (f : α → β) (left right : List α) :
    alongside (left.map f) (right.map f) = (alongside left right).map fun (x, y) => (f x, f y) := by
  simp only [alongside, List.isEmpty_map, List.length_map, cycleFrom_map, List.zip_map]
  split <;> rfl

def broadcast (f : Float → Float → Float) (left right : List Float) : List Float :=
  (alongside left right).map fun (x, y) => f x y

def truth (b : Bool) : Float := if b then 1 else 0

namespace Operator

def effect : Operator → Effect
  | plus | minus | multiply | divide | both | either => .operands [.numeric, .numeric] (.exactly 1)
  | equal | concat => .operands [.any, .any] (.exactly 1)
  | transmute => .operands [.any] .onePerItem
  | duplicate => .operands [.any] (.exactly 2)
  | swap => .operands [.any, .any] (.exactly 2)
  | pop => .operands [.any] (.exactly 0)
  | len | rotate | clear | clearButOne => .wholeStack

/-- What the item-wise operators do to a pair of items, the deeper one first. -/
def onItems : Operator → Float → Float → Float
  | minus, x, y => x - y
  | multiply, x, y => x * y
  | divide, x, y => x / y
  | both, x, y => truth (0 < x && 0 < y)
  | either, x, y => truth (0 < x || 0 < y)
  | _, x, y => x + y

/-- The concatenation of two arrays, neither of them empty, of one variant. -/
def concatenate (left right : Value) : Except Fault Value :=
  if left.length = 0 || right.length = 0 then .error .concatEmpty
  else match left, right with
    | .numeric xs, .numeric ys => .ok (.numeric (xs ++ ys))
    | .character cs, .character ds => .ok (.character (cs ++ ds))
    | _, _ => .error (.concatMixed left.variant right.variant)

/-- The results of an operator on its operands, which come top first, in the order in which they are pushed. -/
def results (op : Operator) : List Value → Except Fault (List Value)
  | [top, below] =>
    match op with
    | equal => .ok [.scalar (truth (below.same top))]
    | concat => (concatenate below top).map ([·])
    | swap => .ok [top, below]
    | _ => .ok [.numeric (broadcast op.onItems below.numbers top.numbers)]
  | [top] =>
    match op with
    | transmute => .ok top.split
    | duplicate => .ok [top, top]
    | _ => .ok []
  | _ => .ok []

def onStack : Operator → Stack → Stack
  | len, v :: s => .scalar (Float.ofNat v.length) :: v :: s
  | rotate, v :: s => (v :: s).getLast (List.cons_ne_nil v s) :: (v :: s).dropLast
  | clear, _ => []
  | clearButOne, s => s.take 1
  | _, s => s

/-- The first operand, from the top, of a variant that does not fit. -/
def misfit? (op : Operator) : (position : Nat) → List Operand → Stack → Option Fault
  | position, expected :: inputs, v :: s =>
    if expected.admits v.variant then misfit? op (position + 1) inputs s
    else some (.wrongOperand op expected position v.variant)
  | _, _, _ => none

/-- Why an operator with the given inputs cannot take its operands from a stack. -/
def refusal? (op : Operator) (inputs : List Operand) (s : Stack) : Option Fault :=
  if (s.take inputs.length).length < inputs.length then some (.tooFewOperands op inputs.length s.length)
  else misfit? op 1 inputs s

/-- Runs an operator on a stack.  A fault comes with the stack that it leaves. -/
def apply (op : Operator) (s : Stack) : Except (Fault × Stack) Stack :=
  match op.effect with
  | .wholeStack => .ok (op.onStack s)
  | .operands inputs _ =>
    match refusal? op inputs s with
    | some fault => .error (fault, s)
    | none =>
      match op.results (s.take inputs.length) with
      | .ok values => .ok (values.reverse ++ s.drop inputs.length)
      | .error fault => .error (fault, s.drop inputs.length)

/-- Looks an operator up by a spelling or by its name. -/
def find (text : String) : Except Fault Operator :=
  match Builtin.find? text with
  | some (.operator op) => .ok op
  | _ => .error (.unknownBuiltin text)

end Operator

/-- The repeat count that a value stands for: its first number, cut off towards zero. -/
def Value.count : Value → Except Fault Int
  | .numeric (x :: _) => .ok (Number.truncate x)
  | .numeric [] => .error .countEmpty
  | .character _ => .error .countNotNumeric

end Catena
