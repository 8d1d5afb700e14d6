import Catena.Proofs.Step

/-!
# Programs that only go forward

A program whose conditionals jump ahead never goes back: each step leads further on and at most to the end
(`Program.JumpsAhead.step_bounds`), so that one walk is the whole run (`Program.JumpsAhead.run_eq`).
-/

namespace Catena

namespace Program

/-- A step in a program that jumps ahead leads further on, and not beyond the end. -/
theorem JumpsAhead.step_bounds {p : Program} (hp : p.JumpsAhead) {f : Frame} {i j : Nat} {t : Token}
    {m m' : Machine} (ht : p[i]? = some t) (h : step f i t (p.drop (i + 1)) m = .next j m') :
    i < j ∧ j ≤ p.length := by
  obtain ⟨hi, -⟩ := List.getElem?_eq_some_iff.1 ht
  rcases step_next_cases h with hj | ⟨-, hne, hj⟩ | ⟨hb, l, hl, hj⟩
  · omega
  · rw [ne_eq, List.drop_eq_nil_iff] at hne
    omega
  · obtain ⟨hil, u, hu, -⟩ := hp i t l ht hb hl
    obtain ⟨hlen, -⟩ := List.getElem?_eq_some_iff.1 hu
    omega

/-- A walk through a program that jumps ahead does not turn back. -/
theorem JumpsAhead.walk_ne_back {p : Program} (hp : p.JumpsAhead) (f : Frame) {i : Nat} {ts : Program}
    (hts : p.drop i = ts) (skip : Nat) (m : Machine) (j : Nat) (m' : Machine) : walk f i skip ts m ≠ .back j m' := by
  induction ts generalizing i skip m with
  | nil => simp [walk]
  | cons t ts ih =>
    have ht : p[i]? = some t := by
      rw [← List.head?_drop, hts]; rfl
    have hts' : p.drop (i + 1) = ts := by
      rw [← List.tail_drop, hts]; rfl
    cases skip with
    | succ skip => exact ih hts' skip m
    | zero =>
      cases htr : f.traceStep i (t :: ts) m with
      | halted why m₀ => simp [walk_of_untraced htr]
      | done m₀ =>
        cases hs : step f i t ts m₀.tick with
        | halt why m₁ => simp [walk_of_halt htr hs]
        | next l m₁ =>
          rw [walk_of_next htr hs (hp.step_bounds ht (hts'.symm ▸ hs)).1]
          exact ih hts' _ m₁

end Program

/-- The run of a walk that is all of it. -/
def Walk.toRun : Walk → Run Failure
  | .ended m => .done m
  | .failed why m => .halted why m
  | .back _ m => .halted .exhausted m

/-- A program that jumps ahead runs in one walk, however often it might jump back. -/
theorem Program.JumpsAhead.run_eq {p : Program} (hp : p.JumpsAhead) (f : Frame) (m : Machine) :
    f.run p m = (walk f 0 0 p m).toRun := by
  have hb := hp.walk_ne_back f (List.drop_zero) 0 m
  unfold Frame.run Frame.runFrom
  cases hw : walk f 0 0 p m with
  | ended m' => rfl
  | failed why m' => rfl
  | back j m' => exact absurd hw (hb j m')

end Catena
