import Catena.Proofs.Progress

/-!
# Programs one after the other

Running two programs that are joined is running them one after the other (`interpret_pair_append`).  Three facts make
up the proof: a step, and so a walk, does not depend on where in a program it is taken (`walk_shift`); a walk through
`a ++ b` that stays within `a` is a walk through `a` alone until it ends (`walk_append`); and pairing joined programs
pairs each by itself.
-/

namespace Catena

/-- Goes on after a run that is done. -/
def Run.andThen {ε : Type} (r : Run ε) (next : Machine → Run ε) : Run ε :=
  match r with
  | .done m => next m
  | .halted why m => .halted why m

/-- The step that leads to an index further on. -/
def Step.shift (k : Nat) : Step → Step
  | .next j m => .next (j + k) m
  | .halt why m => .halt why m

/-- The walk that ends further on. -/
def Walk.shift (k : Nat) : Walk → Walk
  | .ended m => .ended m
  | .back j m => .back (j + k) m
  | .failed why m => .failed why m

/-! ### Other numbers for tokens -/

/-- The token with another number for its target. -/
def Token.renumber (g : Nat → Nat) : Token → Token
  | .builtin ref target origin => .builtin ref (target.map g) origin
  | t => t

/-- The step that leads to the same token under another number. -/
def Step.renumber (g : Nat → Nat) : Step → Step
  | .next j m => .next (g j) m
  | .halt why m => .halt why m

theorem Token.shift_eq_renumber (k : Nat) : Token.shift k = Token.renumber (· + k) := by
  funext t
  cases t <;> rfl

theorem Step.shift_eq_renumber (k : Nat) (st : Step) : st.shift k = st.renumber (· + k) := by
  cases st <;> rfl

section

variable {f : Frame} {g : Nat → Nat} {i : Nat} {t : Token}

@[simp] theorem Token.isConditional_renumber : (t.renumber g).isConditional = t.isConditional := by
  cases t <;> simp [renumber, isConditional_builtin]

@[simp] theorem Token.isRepetition_renumber : (t.renumber g).isRepetition = t.isRepetition := by
  cases t <;> simp [renumber, isRepetition_builtin]

@[simp] theorem Token.label_renumber : (t.renumber g).label = t.label := by
  cases t <;> rfl

private theorem Step.renumber_ofRun (r : Run Halt) : (Step.ofRun i r).renumber g = .ofRun (g i) r := by
  cases r <;> rfl

/-- A step that is repeated may lead anywhere. -/
theorem repeatStep_renumber (body : Machine → Step) (g : Nat → Nat) (n : Nat) (m : Machine) :
    repeatStep (fun m => (body m).renumber g) n m = repeatStep body n m := by
  induction n generalizing m with
  | zero => rfl
  | succ n ih =>
    simp only [repeatStep]
    cases body m with
    | next j m' => exact ih m'
    | halt why m' => rfl

private theorem branch_renumber (ref : Reference) {target : Option Nat} (origin : Origin) (hi : g (i + 1) = g i + 1)
    (hj : ∀ j, target = some j → g (j + 1) = g j + 1) (m : Machine) :
    branch ref (target.map g) origin (g i) m = (branch ref target origin i m).renumber g := by
  unfold branch
  split
  · rfl
  · rename_i v s _
    by_cases hv : v.holds
    · simp [hv, Step.renumber, hi]
    · cases target with
      | none => simp [hv, Step.renumber]
      | some j => simp [hv, Step.renumber, hj j rfl]

/-- A step of any token but a repetition is the same under other numbers, as long as the tokens behind it and behind its
target still have the next ones. -/
theorem step_renumber_of_not_repeats (ht : t.repeats = false) (hi : g (i + 1) = g i + 1)
    (hj : ∀ j, t.target? = some j → g (j + 1) = g j + 1) (following following' : Program) (m : Machine) :
    step f (g i) (t.renumber g) following' m = (step f i t following m).renumber g := by
  cases t with
  | word name origin =>
    simp only [Token.renumber, step, ← hi]
    cases f.settings.words.body? name with
    | none => by_cases hs : f.settings.strict <;> simp [hs, Step.renumber]
    | some body => exact (Step.renumber_ofRun _).symm
  | data value origin => simp [Token.renumber, step, Step.renumber, hi]
  | definition name body origin => simp [Token.renumber, step, Step.renumber, hi]
  | other text => simp [Token.renumber, step, Step.renumber, hi]
  | builtin ref target origin =>
    simp only [Token.renumber, step, ← hi]
    cases hr : ref.resolve? with
    | none => rfl
    | some b =>
      cases b with
      | print => rfl
      | forward => rfl
      | conditional => exact branch_renumber ref origin hi hj m
      | operator op =>
        dsimp only
        cases op.apply m.stack <;> rfl
      | repetition => simp [Token.repeats, hr] at ht

/-- A repetition with nothing behind it is the same under another number. -/
theorem step_renumber_of_repeats_nothing (ht : t.repeats) (m : Machine) :
    step f (g i) (t.renumber g) [] m = (step f i t [] m).renumber g := by
  obtain ⟨ref, target, origin, rfl, hr⟩ := Token.eq_builtin_of_repeats ht
  cases hm : m.stack with
  | nil => simp [step, Token.renumber, Step.renumber, hr, hm]
  | cons v st => cases hv : v.count <;> simp [step, Token.renumber, Step.renumber, hr, hm, hv]

/-- A repetition is the same under other numbers if the token that it repeats is. -/
theorem step_renumber_of_repeats (ht : t.repeats) (hi : g (i + 2) = g i + 2) {body : Token} {rest rest' : Program}
    (hbody : ∀ m, step f.repeating (g i + 1) (body.renumber g) rest' m =
      (step f.repeating (i + 1) body rest m).renumber g) (m : Machine) :
    step f (g i) (t.renumber g) (body.renumber g :: rest') m = (step f i t (body :: rest) m).renumber g := by
  obtain ⟨ref, target, origin, rfl, hr⟩ := Token.eq_builtin_of_repeats ht
  have ht' : (Token.builtin ref target origin).renumber g = .builtin ref (target.map g) origin := rfl
  cases hm : m.stack with
  | nil => simp [step, ht', Step.renumber, hr, hm]
  | cons v st =>
    cases hv : v.count with
    | error fault => simp [step, ht', Step.renumber, hr, hm, hv]
    | ok n =>
      cases hb : body.isConditional || body.isRepetition with
      | true => simp [step, ht', Step.renumber, hr, hm, hv, hb]
      | false =>
        have hsteps : step f.repeating (g i + 1) (body.renumber g) rest' =
            fun m => (step f.repeating (i + 1) body rest m).renumber g := funext hbody
        simp only [step, ht', hr, hm, hv, Token.isConditional_renumber, Token.isRepetition_renumber, hb,
          Bool.false_eq_true, ↓reduceIte, hsteps, repeatStep_renumber, Step.renumber_ofRun, hi]

end

/-! ### Moving a program -/

/-- A step is the same wherever in a program it is taken, as long as targets move along. -/
theorem step_shift (f : Frame) (i k : Nat) (t : Token) (following : Program) (m : Machine) :
    step f (i + k) (t.shift k) (following.map (Token.shift k)) m = (step f i t following m).shift k := by
  rw [Token.shift_eq_renumber, Step.shift_eq_renumber]
  have hnext : ∀ j, j + 1 + k = j + k + 1 := by omega
  induction following generalizing f i t m with
  | nil =>
    cases ht : t.repeats with
    | false => exact step_renumber_of_not_repeats (g := (· + k)) ht (hnext i) (fun j _ => hnext j) _ _ m
    | true => exact step_renumber_of_repeats_nothing (g := (· + k)) ht m
  | cons body rest ih =>
    cases ht : t.repeats with
    | false => exact step_renumber_of_not_repeats (g := (· + k)) ht (hnext i) (fun j _ => hnext j) _ _ m
    | true =>
      -- the repeated token is a step of its own, one token on
      refine step_renumber_of_repeats (g := (· + k)) ht (Nat.add_right_comm i 2 k) (fun m => ?_) m
      rw [← ih f.repeating (i + 1) body m, hnext]

/-- A walk is the same wherever its program stands, as long as no step is traced. -/
theorem walk_shift {f : Frame} (hf : f.settings.verbosity = 0) (i k skip : Nat) (ts : Program) (m : Machine) :
    walk f (i + k) skip (ts.map (Token.shift k)) m = (walk f i skip ts m).shift k := by
  induction ts generalizing i skip m with
  | nil => rfl
  | cons t ts ih =>
    rw [List.map_cons]
    cases skip with
    | succ skip =>
      simp only [walk]
      rw [Nat.add_right_comm]
      exact ih (i + 1) skip m
    | zero =>
      have ht := f.traceStep_of_quiet hf i (t :: ts) m
      have ht' := f.traceStep_of_quiet hf (i + k) (t.shift k :: ts.map (Token.shift k)) m
      have hs' := step_shift f i k t ts m.tick
      cases hs : step f i t ts m.tick with
      | halt why m' =>
        rw [hs] at hs'
        rw [walk_of_halt ht hs, walk_of_halt ht' hs']
        simp [Walk.shift, Halt.blame]
      | next j m' =>
        rw [hs] at hs'
        by_cases hj : i < j
        · rw [walk_of_next ht hs hj, walk_of_next ht' hs' (by omega), ← ih (i + 1) (j - (i + 1)) m']
          congr 1 <;> omega
        · rw [walk_of_back ht hs hj, walk_of_back ht' hs' (by omega)]
          rfl

/-! ### Joining programs -/

/-- Goes on after a walk that ends. -/
def Walk.andThen (w : Walk) (next : Machine → Walk) : Walk :=
  match w with
  | .ended m => next m
  | .back j m => .back j m
  | .failed why m => .failed why m

private theorem step_append (f : Frame) (i : Nat) {t : Token} {a : Program} (ha : ∀ u ∈ t :: a, u.isKnown)
    (hl : ∀ u, (t :: a).getLast? = some u → u.isRepetition = false) (b : Program) (m : Machine) :
    step f i t (a ++ b) m = step f i t a m := by
  cases ht : t.repeats with
  | false => exact step_of_not_repeats f i ht _ _ m
  | true =>
    cases a with
    | nil =>
      -- the last token would be a repetition
      have h1 := hl t rfl
      rw [← Token.repeats_of_isKnown (ha t (by simp)), ht] at h1
      cases h1
    | cons body rest =>
      obtain ⟨ref, target, origin, rfl, hr⟩ := Token.eq_builtin_of_repeats ht
      cases hm : m.stack with
      | nil => simp [step, hr, hm]
      | cons v st =>
        cases hv : v.count with
        | error fault => simp [step, hr, hm, hv]
        | ok n =>
          cases hb : body.isConditional || body.isRepetition with
          | true => simp [step, hr, hm, hv, hb]
          | false =>
            -- what is repeated does not repeat in turn, and so looks at nothing behind it
            have hbody : body.repeats = false := by
              rw [Token.repeats_of_isKnown (ha body (by simp))]
              exact (Bool.or_eq_false_iff.1 hb).2
            have hstep : step f.repeating (i + 1) body (rest ++ b) = step f.repeating (i + 1) body rest := by
              funext m'
              exact step_of_not_repeats f.repeating (i + 1) hbody _ _ m'
            simp [step, hr, hm, hv, hb, hstep]

/-- A walk through joined programs is a walk through the first and then through the second, as long as no target of
the first lies beyond its end and it does not end with a repetition. -/
theorem walk_append {f : Frame} (hf : f.settings.verbosity = 0) {a : Program} (ha : ∀ t ∈ a, t.isKnown)
    (hl : ∀ t, a.getLast? = some t → t.isRepetition = false) {i : Nat}
    (hj : ∀ t ∈ a, ∀ j, t.target? = some j → j < i + a.length) (b : Program) {skip : Nat}
    (hk : skip ≤ a.length) (m : Machine) :
    walk f i skip (a ++ b) m = (walk f i skip a m).andThen (walk f (i + a.length) 0 b) := by
  induction a generalizing i skip m with
  | nil =>
    obtain rfl : skip = 0 := by simpa using hk
    simp [walk, Walk.andThen]
  | cons t a ih =>
    have hlen : i + (t :: a).length = i + 1 + a.length := by simp; omega
    have ha' : ∀ u ∈ a, u.isKnown := fun u hu => ha u (by simp [hu])
    have hl' : ∀ u, a.getLast? = some u → u.isRepetition = false := by
      intro u hu
      exact hl u (by simp [List.getLast?_cons, hu])
    have hj' : ∀ u ∈ a, ∀ j, u.target? = some j → j < i + 1 + a.length := by
      intro u hu j h
      have := hj u (by simp [hu]) j h
      omega
    rw [List.cons_append, hlen]
    cases skip with
    | succ skip => exact ih ha' hl' hj' (by simpa using hk) m
    | zero =>
      have htr := f.traceStep_of_quiet hf i (t :: a) m
      have htr' := f.traceStep_of_quiet hf i (t :: (a ++ b)) m
      have hs' := step_append f i ha hl b m.tick
      cases hs : step f i t a m.tick with
      | halt why m' =>
        rw [hs] at hs'
        rw [walk_of_halt htr hs, walk_of_halt htr' hs']
        rfl
      | next j m' =>
        rw [hs] at hs'
        -- no step leads past the seam, so that what is left to pass over lies before it
        have hle : j ≤ i + 1 + a.length := by
          rcases step_next_cases hs with h | ⟨-, hne, h⟩ | ⟨-, l, hlt, h⟩
          · omega
          · have := List.length_pos_iff.2 hne
            omega
          · have := hj t (by simp) l hlt
            omega
        by_cases hij : i < j
        · rw [walk_of_next htr hs hij, walk_of_next htr' hs' hij]
          exact ih ha' hl' hj' (by omega) m'
        · rw [walk_of_back htr hs hij, walk_of_back htr' hs' hij]
          rfl

/-- Pairing joined programs pairs each by itself, if the first needs no marker of the second. -/
theorem Program.pair_append {a b : Program} (ha : ∀ t ∈ a, t.isFresh) (hb : ∀ t ∈ b, t.isFresh)
    (hc : (Program.pair a).IsClosed) :
    Program.pair (a ++ b) = Program.pair a ++ (Program.pair b).map (Token.shift a.length) := by
  unfold Program.pair at hc ⊢
  rw [pairFrom_append ha b 0 hc, pairFrom_add hb 0 a.length]

theorem Walk.toRun_andThen (w : Walk) (next : Machine → Walk) :
    (w.andThen next).toRun = w.toRun.andThen fun m => (next m).toRun := by
  cases w <;> rfl

theorem Walk.toRun_shift (k : Nat) (w : Walk) : (w.shift k).toRun = w.toRun := by
  cases w <;> rfl

/-- A run without traces is one walk. -/
theorem interpret_of_quiet {s : Settings} (hs : s.verbosity = 0) {p : Program} (hp : p.JumpsAhead)
    (m : Machine) : interpret s p m = (walk s.frame 0 0 p m).toRun := by
  unfold interpret
  rw [hp.run_eq]
  cases (walk s.frame 0 0 p m).toRun with
  | done m' => simp [hs]
  | halted why m' => rfl

/-- A walk of a program on its own and one of the program where it stands are the same run. -/
theorem toRun_walk_shift {s : Settings} (hs : s.verbosity = 0) {ts : Program} (hts : ∀ t ∈ ts, t.isFresh) (k : Nat)
    (m : Machine) :
    (walk s.frame k 0 ((Program.pair ts).map (Token.shift k)) m).toRun = interpret s (Program.pair ts) m := by
  have hshift := walk_shift (f := s.frame) hs 0 k 0 (Program.pair ts) m
  rw [Nat.zero_add] at hshift
  rw [hshift, Walk.toRun_shift, interpret_of_quiet hs (Program.pair_jumpsAhead hts)]

/-- Running joined programs is running one after the other: stack, output, number of steps and failure are the same.
The first must not need a marker of the second, nor a token of it to repeat. -/
theorem interpret_pair_append (s : Settings) (hs : s.verbosity = 0) {a b : Program} (ha : ∀ t ∈ a, t.isFresh)
    (hb : ∀ t ∈ b, t.isFresh) (hc : (Program.pair a).IsClosed)
    (hl : ∀ t, a.getLast? = some t → t.isRepetition = false) (m : Machine) :
    interpret s (Program.pair (a ++ b)) m =
      (interpret s (Program.pair a) m).andThen (interpret s (Program.pair b)) := by
  have hab : ∀ t ∈ a ++ b, t.isFresh := by
    intro t ht
    rcases List.mem_append.1 ht with h | h
    · exact ha t h
    · exact hb t h
  have hlen : (Program.pair a).length = a.length := length_pairFrom 0 a
  have hknown : ∀ t ∈ Program.pair a, t.isKnown := by
    intro t ht
    obtain ⟨u, hu, e⟩ := Program.exists_of_mem_pair Token.isKnown_withTarget ht
    rw [← e]
    exact Token.isKnown_of_isFresh (ha u hu)
  have hlast : ∀ t, (Program.pair a).getLast? = some t → t.isRepetition = false := by
    intro t ht
    have h1 : ((Program.pair a).map Token.isRepetition).getLast? = some t.isRepetition := by simp [ht]
    rw [Program.map_pair Token.isRepetition_withTarget, List.getLast?_map, Option.map_eq_some_iff] at h1
    obtain ⟨u, hu, e⟩ := h1
    rw [← e]
    exact hl u hu
  have htarget : ∀ t ∈ Program.pair a, ∀ j, t.target? = some j → j < 0 + (Program.pair a).length := by
    intro t ht j hj
    have := Program.target?_lt_of_mem_pair ha ht hj
    omega
  rw [interpret_of_quiet hs (Program.pair_jumpsAhead hab), interpret_of_quiet hs (Program.pair_jumpsAhead ha),
    Program.pair_append ha hb hc, walk_append hs hknown hlast htarget _ (Nat.zero_le _), Walk.toRun_andThen]
  congr 1
  funext m'
  rw [interpret_of_quiet hs (Program.pair_jumpsAhead hb), hlen, walk_shift hs, Walk.toRun_shift]

/-- The source `1 if 2 then` followed by `0 if 3 then 2 do w`, where `w` is a word. -/
theorem interpret_pair_append_conditionals :
    let known := fun b : Builtin => Token.builtin (.known b) none {}
    let number := fun x : Float => Token.data (.scalar x) {}
    let a : Program := [number 1, known .conditional, number 2, known .forward]
    let b : Program :=
      [number 0, known .conditional, number 3, known .forward, number 2, known .repetition, .word "w" {}]
    let s : Settings := { words := .ofList [("w", [known (.operator .duplicate)])] }
    (Program.pair a).IsClosed ∧ interpret s (Program.pair (a ++ b)) {} =
      (interpret s (Program.pair a) {}).andThen (interpret s (Program.pair b)) := by
  intro known number a b s
  have hl : ∀ t, a.getLast? = some t → t.isRepetition = false := by
    intro t ht
    cases ht
    rfl
  exact ⟨by decide, interpret_pair_append s rfl (by decide) (by decide) (by decide) hl {}⟩

end Catena
