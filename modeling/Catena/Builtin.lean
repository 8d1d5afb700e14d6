/-!
# Builtins

A builtin is an operator on the stack or one of the four builtins that also need the program or the output.  Each has
a name, the spellings that stand for it in source text, one of which is shown back to the user, and a summary.
A `Reference` is a builtin as a token refers to it: parsing makes known ones only, a token made by hand may carry any
name, which then stands for a builtin if it is one of its spellings.
-/

namespace Catena

/-- The builtins that act on the stack alone. -/
inductive Operator where
  | plus | minus | multiply | divide
  | equal | both | either
  | concat | len | transmute
  | duplicate | swap | rotate | clear | clearButOne | pop
deriving DecidableEq, Repr

inductive Builtin where
  | print
  | conditional
  | forward
  | repetition
  | operator (op : Operator)
deriving DecidableEq, Repr

namespace Operator

/-- Name of an operator, as it stands in messages. -/
def name : Operator → String
  | plus => "plus" | minus => "minus" | multiply => "multiply" | divide => "divide"
  | equal => "equal" | both => "and" | either => "or"
  | concat => "concat" | len => "len" | transmute => "transmute"
  | duplicate => "duplicate" | swap => "swap" | rotate => "rotate"
  | clear => "clear" | clearButOne => "clear-but-one" | pop => "pop"

def spellings : Operator → List String
  | plus => ["+"] | minus => ["-"] | multiply => ["*"] | divide => ["/"]
  | equal => ["=", "eql"] | both => ["^", "and"] | either => ["v", "or"]
  | concat => [",", "cat"] | len => ["len"] | transmute => ["trm"]
  | duplicate => ["dup", "<>"] | swap => ["swp", "><"] | rotate => ["rot"]
  | clear => ["clr"] | clearButOne => ["clr1"] | pop => ["pop", "<<"]

/-- The spelling that is shown back to the user. -/
def canonical : Operator → String
  | plus => "+" | minus => "-" | multiply => "*" | divide => "/"
  | equal => "eql" | both => "and" | either => "or"
  | concat => "cat" | len => "len" | transmute => "trm"
  | duplicate => "dup" | swap => "swp" | rotate => "rot"
  | clear => "clr" | clearButOne => "clr1" | pop => "pop"

def summary : Operator → String
  | plus => "Value-wise addition between the top two stack elements."
  | minus => "Value-wise subtraction between the top two stack elements."
  | multiply => "Value-wise multiplication between the top two stack elements."
  | divide => "Value-wise division between the top two stack elements."
  | equal => "Test deep equality between the top two stack elements, pushing 1 or 0."
  | both => "Value-wise logical and, where positive numbers are true."
  | either => "Value-wise logical or, where positive numbers are true."
  | concat => "Concatenate the top stack element to the one below it."
  | len => "Push the length of the top stack element, leaving it in place."
  | transmute => "Transmute the top stack element into individual elements."
  | duplicate => "Duplicate the top stack element."
  | swap => "Swap the top two stack elements."
  | rotate => "Move the bottom stack element to the top."
  | clear => "Clear the stack."
  | clearButOne => "Clear all but the top stack element."
  | pop => "Pop the top stack element."

/-- All operators, in the order in which the help lists them. -/
def all : List Operator :=
  [plus, minus, multiply, divide, equal, both, either, concat, len, transmute, duplicate, swap, rotate, clear,
   clearButOne, pop]

end Operator

namespace Builtin

/-- Name of a builtin, as it stands for one in a token. -/
def name : Builtin → String
  | print => "print"
  | conditional => "if"
  | forward => "forward"
  | repetition => "do"
  | operator op => op.name

def spellings : Builtin → List String
  | print => ["_"]
  | conditional => ["?", "if"]
  | forward => ["->", "then"]
  | repetition => ["do"]
  | operator op => op.spellings

def canonical : Builtin → String
  | print => "_"
  | conditional => "if"
  | forward => "then"
  | repetition => "do"
  | operator op => op.canonical

def summary : Builtin → String
  | print => "Print the top stack value, leaving it in place."
  | conditional =>
    "Pop a condition; unless one of its values is positive, continue after the matching `then`."
  | forward => "Marker to identify the end of a conditional branch."
  | repetition =>
    "Repeat the following token n times, where n is popped from the stack.  Only that single token"
  | operator op => op.summary

/-- All builtins, in the order in which the help lists them. -/
def all : List Builtin := [print, conditional, forward, repetition] ++ Operator.all.map operator

def ofName? (name : String) : Option Builtin := all.find? fun b => b.name == name

def ofSpelling? (spelling : String) : Option Builtin := all.find? fun b => b.spellings.contains spelling

/-- Looks a builtin up by a spelling or by its name. -/
def find? (text : String) : Option Builtin := (ofSpelling? text).or (ofName? text)

/-- The name within an identifier: behind a mark of three characters, with dashes for underscores. -/
def nameOfIdentifier (identifier : List Char) : List Char :=
  (identifier.drop 3).map fun c => if c = '_' then '-' else c

end Builtin

inductive Reference where
  | known (builtin : Builtin)
  | named (name : String)
deriving DecidableEq, Repr

namespace Reference

/-- The reference by a name, which is known if a builtin has that name. -/
def ofName (name : String) : Reference :=
  match Builtin.ofName? name with
  | some b => known b
  | none => named name

def name : Reference → String
  | known b => b.name
  | named name => name

def resolve? : Reference → Option Builtin
  | known b => some b
  | named name => Builtin.find? name

end Reference

end Catena
