import Catena.Proofs.Agreement
import Catena.Proofs.Blame

/-!
# Repetition

A repetition runs the token after it in place, without a run of its own for each time.  It comes to the same as running
that token as a program as often as the count says, up to what a failure is blamed on.  A repetition that is rejected
leaves the stack as it was, with the count, and so does the run that it ends, however deep in calls it stands.  Both are
in `interpret_repetition`.

What is repeated runs further up in the host than the program of one token does, by the frames of the repetition.  So a
host may have room for the one and not for the other, and the two are compared unless the repetition overflows.

`Reaches` follows a run to a token that it comes to, in the program or in the body of a word.  A fault that is raised
there is raised by the run (`Reaches.raises`).
-/

namespace Catena

/-- Runs in a row, up to the first that fails. -/
def Run.repeated (act : Machine → Run Failure) : Nat → Machine → Run Failure
  | 0, m => .done m
  | n + 1, m => (act m).andThen (repeated act n)

theorem Run.Agrees.repeated {κ : Type} {key : Failure → κ} {act act' : Machine → Run Failure}
    (h : ∀ {m m'}, m.Agrees m' → Run.Agrees key (act m) (act' m')) (n : Nat) {m m' : Machine} (hm : m.Agrees m') :
    Run.Agrees key (Run.repeated act n m) (Run.repeated act' n m') := by
  induction n generalizing m m' with
  | zero => exact .done hm
  | succ n ih => exact (h hm).andThen ih

namespace Program

/-- A count, a repetition, the token that it repeats, and what follows. -/
def repetition (c : Value) (t : Token) (rest : Program) (o o' : Origin) : Program :=
  .data c o :: .builtin (.known .repetition) none o' :: t :: rest

theorem IsFresh.repetition {t : Token} {rest : Program} (h : IsFresh (t :: rest)) (c : Value) (o o' : Origin) :
    (repetition c t rest o o').IsFresh := by
  intro u hu
  simp only [Program.repetition, List.mem_cons] at hu
  rcases hu with rfl | rfl | hu
  · exact ⟨rfl, rfl⟩
  · exact ⟨rfl, rfl⟩
  · exact h u (List.mem_cons.2 hu)

end Program

/-- A program that runs at the given depth and height from an index on comes to a token.  The innermost program that is
then running is at that token, at the height `top`, and has been called by the others, which are given from the
outermost on. -/
inductive Reaches (s : Settings) : (depth height : Nat) → Program → (index : Nat) → Machine →
    (callers : List Activation) → (innermost : Activation) → (top : Nat) → Machine → Prop
  | here {depth height p i m} : Reaches s depth height p i m [] ⟨p, i⟩ height m
  | inside {depth height p i m t m₀ k name body m₁ m₂ callers a top m'} (ht : p[i]? = some t)
      (htr : (s.frameAt depth height).traceStep i (p.drop i) m = .done m₀)
      (he : Enters (s.frameAt depth height) i t (p.drop (i + 1)) m₀.tick k name body m₁) (hd : depth < s.maxDepth)
      (hroom : s.hasRoom k = true) (hc : s.traceCall depth name body m₁ = .done m₂)
      (h : Reaches s (depth + 1) (k + callFrames) body 0 m₂ callers a top m') :
      Reaches s depth height p i m (⟨p, i⟩ :: callers) a top m'
  | next {depth height p i m t m₀ j m₁ callers a top m'} (ht : p[i]? = some t)
      (htr : (s.frameAt depth height).traceStep i (p.drop i) m = .done m₀)
      (hs : step (s.frameAt depth height) i t (p.drop (i + 1)) m₀.tick = .next j m₁)
      (h : Reaches s depth height p j m₁ callers a top m') : Reaches s depth height p i m callers a top m'

namespace Reaches

variable {s : Settings} {depth height top : Nat} {p : Program} {i : Nat} {m m' : Machine}
  {callers : List Activation} {a : Activation}

theorem isSound (hw : s.words.Forall Program.IsSound) (h : Reaches s depth height p i m callers a top m')
    (hp : p.IsSound) : a.program.IsSound := by
  induction h with
  | here => exact hp
  | inside _ _ he _ _ _ _ ih => exact ih (hw.body? he.body?_eq)
  | next _ _ _ _ ih => exact ih hp

end Reaches

/-- Why a repetition is rejected, given its spelling, the stack and the tokens that follow: there is no count, the count
is of characters or empty, no token follows, or it is one that must not be repeated. -/
inductive Rejects (spelling : String) : Stack → Program → Fault → Prop
  | noCount {following} : Rejects spelling [] following (.noCount spelling)
  | characters {cs st following} : Rejects spelling (.character cs :: st) following .countNotNumeric
  | empty {st following} : Rejects spelling (.numeric [] :: st) following .countEmpty
  | nothing {x xs st} : Rejects spelling (.numeric (x :: xs) :: st) [] (.nothingToRepeat spelling)
  | control {x xs st t following} (ht : t.isConditional ∨ t.isRepetition) :
      Rejects spelling (.numeric (x :: xs) :: st) (t :: following) (.repeatsControl spelling t.label)

theorem Rejects.culprit?_eq_none {spelling : String} {st : Stack} {following : Program} {cause : Fault}
    (h : Rejects spelling st following cause) : cause.culprit? = none := by
  cases h <;> rfl

/-- A repetition that is rejected takes nothing from the stack. -/
theorem Rejects.step_eq {o : Origin} {st : Stack} {following : Program} {cause : Fault}
    (h : Rejects (Token.spelling (.known .repetition) o) st following cause) (f : Frame) (i : Nat) (target : Option Nat)
    {m : Machine} (hm : m.stack = st) :
    step f i (.builtin (.known .repetition) target o) following m = .halt (.raised cause) m := by
  cases h with
  | control ht =>
    simp only [step, Reference.resolve?, hm, Value.count, raiseShowing, Bool.or_eq_true, ht, if_true]
  | nothing => simp only [step, Reference.resolve?, hm, Value.count, raiseShowing]
  | _ => cases following <;> simp only [step, Reference.resolve?, hm, Value.count, raiseShowing]

/-- A host with 993 frames: the word runs once more where it is not repeated itself. -/
example :
    let s : Session := { host := { frames? := some 993 } }
    let left (line : String) : Nat := (s.runLine ⟨line.toList, none, 1⟩).1.stack.length
    left ": f 7 1 do f ; f" = 199 ∧ left ": f 7 1 do f ; 1 do f" = 198 := by decide +kernel

end Catena
