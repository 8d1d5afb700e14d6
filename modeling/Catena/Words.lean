import Catena.Token

/-!
# The dictionary of words

A dictionary maps names to bodies and remembers the order in which the names first came: defining a word anew
replaces its body and leaves it in its place.
-/

namespace Catena

/-- Words with their bodies, in the order in which they were first defined. -/
structure Words where
  entries : List (String × Program) := []

namespace Words

def empty : Words := {}

def define (name : String) (body : Program) : List (String × Program) → List (String × Program)
  | [] => [(name, body)]
  | e :: es => if e.1 = name then (name, body) :: es else e :: define name body es

def insert (w : Words) (name : String) (body : Program) : Words := ⟨define name body w.entries⟩

def body? (w : Words) (name : String) : Option Program := w.entries.lookup name

theorem body?_insert_self (w : Words) (name : String) (body : Program) :
    (w.insert name body).body? name = some body := by
  obtain ⟨es⟩ := w
  simp only [insert, body?]
  induction es with
  | nil => simp [define]
  | cons e es ih =>
    obtain ⟨key, found⟩ := e
    simp only [define]
    split
    · simp
    · rename_i h
      rw [List.lookup_cons, beq_eq_false_iff_ne.2 (Ne.symm h), ih]

theorem body?_insert_of_ne (w : Words) {name other : String} (h : other ≠ name) (body : Program) :
    (w.insert name body).body? other = w.body? other := by
  obtain ⟨es⟩ := w
  simp only [insert, body?]
  induction es with
  | nil => rw [define, List.lookup_cons, beq_eq_false_iff_ne.2 h]
  | cons e es ih =>
    obtain ⟨key, found⟩ := e
    simp only [define]
    split
    · rename_i he
      rw [List.lookup_cons, List.lookup_cons, he, beq_eq_false_iff_ne.2 h]
    · rw [List.lookup_cons, List.lookup_cons, ih]

/-- Adds entries from the first to the last. -/
def insertAll (w : Words) (entries : List (String × Program)) : Words :=
  entries.foldl (fun w e => w.insert e.1 e.2) w

def ofList (entries : List (String × Program)) : Words := empty.insertAll entries

end Words

/-- The definitions at the top level of a program, from left to right. -/
def definitionsOf (program : Program) : List (String × Program) :=
  program.filterMap fun
    | .definition name body _ => some (name, body)
    | _ => none

end Catena
