import Catena.Proofs.Effects
import Catena.Proofs.Nesting
import Catena.Proofs.Repetition

/-!
# Splitting an array and joining it again

An array that is split into its items is there again when these have been joined one by one, and nothing below it on
the stack is touched on the way (`interpret_split_join`).  On the way the stack holds an end of the array, joined, on
top of the items before it, one by one (`Value.stage`); each time that `cat` runs, one more item goes over from these.

To speak of the way and not of its end only, `Passes` follows a run to every machine that it comes by, those between
the times that a repetition runs a token included.  What is known of the stack at each token of a program (`IsCourse`)
gives both, where the run ends and what it comes by.
-/

namespace Catena

/-- A run comes by a machine: when it is at a token, or when a repetition has run the token after it a number of
times. -/
inductive Passes (s : Settings) (p : Program) (m : Machine) : Machine → Prop
  | token {callers a top m'} (h : Reaches s 0 0 p 0 m callers a top m') : Passes s p m m'
  | repeated {callers a top m₁ m₀ ref target o t ts v st n k m'} (h : Reaches s 0 0 p 0 m callers a top m₁)
      (ht : a.program.drop a.index = .builtin ref target o :: t :: ts)
      (htr : (s.frameAt callers.length top).traceStep a.index (a.program.drop a.index) m₁ = .done m₀)
      (hr : ref.resolve? = some .repetition) (hm : m₀.stack = v :: st) (hv : v.count = .ok n)
      (hb : (t.isConditional || t.isRepetition) = false) (hk : k ≤ n.toNat)
      (hdone : repeatStep (step (s.frameAt callers.length top).repeating (a.index + 1) t ts) k
        (m₀.tick.withStack st) = .done m') :
      Passes s p m m'

/-! ### Programs without words -/

/-- What is known of the stack at each token of a program that calls no words: a token takes a stack of which this is
known to one of which it is known at the token that is next.  Every such stack has a property, and so have those that a
repetition comes by. -/
structure IsCourse (s : Settings) (p : Program) (known : Nat → Stack → Prop) (keeps : Stack → Prop) : Prop where
  isSound : p.IsSound
  not_mem (name : String) (o : Origin) : Token.word name o ∉ p
  advances {i : Nat} {t : Token} {m : Machine} (ht : p[i]? = some t) (hm : known i m.stack) :
    ∃ j m', step s.frame i t (p.drop (i + 1)) m = .next j m' ∧ known j m'.stack
  keeps_of_known {i : Nat} {st : Stack} (h : known i st) : keeps st
  keeps_repeated {i : Nat} {ref : Reference} {target : Option Nat} {o : Origin} {t : Token} {ts : Program} {v : Value}
    {n : Int} {k : Nat} {m m' : Machine} (ht : p.drop i = .builtin ref target o :: t :: ts)
    (hr : ref.resolve? = some .repetition) (hm : known i (v :: m.stack)) (hv : v.count = .ok n) (hk : k ≤ n.toNat)
    (hdone : repeatStep (step s.frame.repeating (i + 1) t ts) k m = .done m') : keeps m'.stack

namespace IsCourse

variable {s : Settings} {p : Program} {known : Nat → Stack → Prop} {keeps : Stack → Prop}

/-- A step can be traced, which leaves the stack as it is. -/
private theorem exists_traceStep (hc : IsCourse s p known keeps) (i : Nat) (m : Machine) :
    ∃ m₀, s.frame.traceStep i (p.drop i) m = .done m₀ ∧ m₀.stack = m.stack := by
  have htext : Program.textless? (p.drop i) = none := by
    refine Program.textless?_eq_none_iff.2 fun t ht => ?_
    exact Program.textless?_eq_none_iff.1 hc.isSound.2 t (List.mem_of_mem_drop ht)
  obtain ⟨m₀, htr, hm₀⟩ := Frame.exists_traceStep_untraced htext s.frame i m
  exact ⟨m₀, htr, hm₀.stack_eq⟩

private theorem stack_traceStep (hc : IsCourse s p known keeps) {i : Nat} {m m₀ : Machine}
    (htr : s.frame.traceStep i (p.drop i) m = .done m₀) : m₀.stack = m.stack := by
  obtain ⟨m₁, hdone, hm₁⟩ := hc.exists_traceStep i m
  cases hdone.symm.trans htr
  exact hm₁

private theorem advances_traced (hc : IsCourse s p known keeps) {i : Nat} {t : Token} (ht : p[i]? = some t)
    {m m₀ : Machine} (htr : s.frame.traceStep i (p.drop i) m = .done m₀) (hm : known i m.stack) :
    ∃ j m', step s.frame i t (p.drop (i + 1)) m₀.tick = .next j m' ∧ known j m'.stack := by
  refine hc.advances ht ?_
  show known i m₀.stack
  rw [hc.stack_traceStep htr]
  exact hm

theorem exists_walk (hc : IsCourse s p known keeps) {i : Nat} (hi : i ≤ p.length) {m : Machine}
    (hm : known i m.stack) : ∃ m', walk s.frame i 0 (p.drop i) m = .ended m' ∧ known p.length m'.stack := by
  -- the rest of the program gets shorter with every step
  induction hn : p.length - i using Nat.strongRecOn generalizing i m with
  | ind n ih =>
    cases ht : p[i]? with
    | none =>
      have hle := List.getElem?_eq_none_iff.1 ht
      obtain rfl : i = p.length := by omega
      exact ⟨m, by rw [List.drop_length]; rfl, hm⟩
    | some t =>
      obtain ⟨m₀, htr, -⟩ := hc.exists_traceStep i m
      obtain ⟨j, m₁, hstep, hm₁⟩ := hc.advances_traced ht htr hm
      obtain ⟨hij, hjl⟩ := hc.isSound.1.step_bounds ht hstep
      obtain ⟨m', hwalk, hm'⟩ := ih (p.length - j) (by omega) hjl hm₁ rfl
      exact ⟨m', (walk_of_next_drop ht htr hstep hij).trans hwalk, hm'⟩

/-- A program whose course is known is done, and the stack is what is known at its end. -/
theorem exists_done (hc : IsCourse s p known keeps) {m : Machine} (hm : known 0 m.stack) :
    ∃ m', interpret s p m = .done m' ∧ known p.length m'.stack := by
  obtain ⟨m₁, hwalk, hm₁⟩ := hc.exists_walk (Nat.zero_le _) hm
  rw [List.drop_zero] at hwalk
  have hrun : s.frame.run p m = .done m₁ := by
    rw [hc.isSound.1.run_eq, hwalk]
    rfl
  by_cases hs : s.verbosity = 0
  · exact ⟨m₁, by rw [interpret, hrun]; exact if_pos hs, hm₁⟩
  · obtain ⟨m₂, htrace, hm₂⟩ := m₁.exists_trace_untraced (p := []) rfl 0 "  ✓".toList
    refine ⟨m₂, ?_, hm₂.stack_eq ▸ hm₁⟩
    rw [interpret, hrun]
    exact (if_neg hs).trans htrace

/-- A run whose course is known stays within its program, and at each token the stack is what is known there. -/
theorem known_of_reaches (hc : IsCourse s p known keeps) {depth height i : Nat} (hd : depth = 0) (hh : height = 0)
    {m m' : Machine} {callers : List Activation} {a : Activation} {top : Nat}
    (h : Reaches s depth height p i m callers a top m') (hm : known i m.stack) :
    callers = [] ∧ a.program = p ∧ top = 0 ∧ known a.index m'.stack := by
  induction h with
  | here => exact ⟨rfl, rfl, hh, hm⟩
  | @inside depth height p i m t m₀ k name body m₁ m₂ callers a top m' ht htr he =>
    obtain ⟨o, hword⟩ := he.exists_word
    have hsub : t :: p.drop (i + 1) ⊆ p := drop_eq_cons ht ▸ List.drop_subset i p
    exact (hc.not_mem name o (hsub hword)).elim
  | @next depth height p i m t m₀ j m₁ callers a top m' ht htr hs _ ih =>
    subst hd hh
    obtain ⟨j', m₂, hstep, hm₂⟩ := hc.advances_traced ht htr hm
    cases hstep.symm.trans hs
    exact ih hc rfl rfl hm₂

/-- Whatever a run whose course is known comes by has the property. -/
theorem keeps_of_passes (hc : IsCourse s p known keeps) {m m' : Machine} (hm : known 0 m.stack)
    (h : Passes s p m m') : keeps m'.stack := by
  cases h with
  | token h => exact hc.keeps_of_known (hc.known_of_reaches rfl rfl h hm).2.2.2
  | @repeated callers a top m₁ m₀ ref target o t ts v st n k m' h ht htr hr hm₀ hv hb hk hdone =>
    obtain ⟨rfl, hprogram, rfl, hknown⟩ := hc.known_of_reaches rfl rfl h hm
    rw [hprogram] at ht htr
    rw [← hc.stack_traceStep htr, hm₀] at hknown
    exact hc.keeps_repeated (m := m₀.tick.withStack st) ht hr hknown hv hk hdone

end IsCourse

/-! ### Ends of an array -/

namespace Value

/-- The first items of an array. -/
def take (n : Nat) : Value → Value
  | numeric xs => numeric (xs.take n)
  | character cs => character (cs.take n)

/-- An array without its first items. -/
def drop (n : Nat) : Value → Value
  | numeric xs => numeric (xs.drop n)
  | character cs => character (cs.drop n)

/-- An end of an array on top of the items before it, which lie on the stack one by one. -/
def stage (x : Value) (i : Nat) (below : Stack) : Stack := x.drop i :: ((x.take i).split.reverse ++ below)

variable {x : Value} {i : Nat}

theorem length_drop (x : Value) (i : Nat) : (x.drop i).length = x.length - i := by
  cases x <;> exact List.length_drop

theorem take_of_length_le {n : Nat} (h : x.length ≤ n) : x.take n = x := by
  cases x with
  | numeric xs => exact congrArg numeric (List.take_of_length_le h)
  | character cs => exact congrArg character (List.take_of_length_le h)

theorem stage_zero (x : Value) (below : Stack) : x.stage 0 below = x :: below := by
  cases x <;> rfl

private theorem drop_eq_cons_of_lt {α : Type} {xs : List α} (h : i < xs.length) :
    ∃ y, xs.drop i = y :: xs.drop (i + 1) :=
  ⟨_, List.drop_eq_getElem_cons h⟩

/-- The item behind the first ones is split off last. -/
theorem split_take_succ (hi : i < x.length) : (x.take (i + 1)).split = (x.take i).split ++ [(x.drop i).take 1] := by
  cases x with
  | numeric xs | character xs =>
    obtain ⟨y, hy⟩ := drop_eq_cons_of_lt hi
    simp only [take, drop, split, List.take_add, List.map_append, hy]
    rfl

/-- An item is joined with all those behind it. -/
theorem computes_concat (hi : i + 1 < x.length) :
    Operator.concat.Computes [(x.drop i).take 1, x.drop (i + 1)] [x.drop i] := by
  cases x with
  | numeric xs =>
    obtain ⟨y, hy⟩ := drop_eq_cons_of_lt (Nat.lt_of_succ_lt hi)
    simp only [take, drop, hy]
    exact .numbers (List.cons_ne_nil y []) (mt List.drop_eq_nil_iff.1 (Nat.not_le.2 hi))
  | character cs =>
    obtain ⟨y, hy⟩ := drop_eq_cons_of_lt (Nat.lt_of_succ_lt hi)
    simp only [take, drop, hy]
    exact .characters (List.cons_ne_nil y []) (mt List.drop_eq_nil_iff.1 (Nat.not_le.2 hi))

/-- To split an array is to come to the stage at which only its last item is joined. -/
theorem apply_transmute (hi : x.length = i + 1) (below : Stack) :
    Operator.transmute.apply (x :: below) = .ok (x.stage i below) := by
  have hwhole : x.take (i + 1) = x := take_of_length_le (by omega)
  have hlast : (x.drop i).take 1 = x.drop i := take_of_length_le (by rw [length_drop]; omega)
  have hsplit := split_take_succ (x := x) (i := i) (by omega)
  rw [hwhole, hlast] at hsplit
  have hcomputes : Operator.transmute.Computes [x] ((x.take i).split ++ [x.drop i]) := hsplit ▸ .transmute
  have happly := hcomputes.apply_eq below
  rw [List.reverse_append] at happly
  exact happly

/-- To join is to come one stage nearer to the whole array. -/
theorem apply_concat_stage (hi : i + 1 < x.length) (below : Stack) :
    Operator.concat.apply (x.stage (i + 1) below) = .ok (x.stage i below) := by
  have hstage : x.stage (i + 1) below =
      [(x.drop i).take 1, x.drop (i + 1)].reverse ++ ((x.take i).split.reverse ++ below) := by
    rw [stage, split_take_succ (Nat.lt_of_succ_lt hi), List.reverse_append]
    rfl
  rw [hstage]
  exact (computes_concat hi).apply_eq _

end Value

/-! ### Splitting and joining -/

/-- The token that splits an array. -/
def splitToken (o : Origin) : Token := .builtin (.known (.operator .transmute)) none o

/-- The token that joins two arrays. -/
def joinToken (o : Origin) : Token := .builtin (.known (.operator .concat)) none o

namespace Program

/-- An array is split, and then joined by a token for each time. -/
def splitJoins (o : Origin) (os : List Origin) : Program := splitToken o :: os.map joinToken

/-- An array is split, and then joined by a token that is repeated. -/
def splitRepeats (c : Value) (o o₁ o₂ o₃ : Origin) : Program := splitToken o :: repetition c (joinToken o₃) [] o₁ o₂

end Program

section

variable {x : Value} {k : Nat} (hx : x.length = k + 1) {below : Stack} {m : Machine}

include hx

theorem step_split (f : Frame) (i : Nat) (o : Origin) (ts : Program) (hm : m.stack = x :: below) :
    step f i (splitToken o) ts m = .next (i + 1) (m.withStack (x.stage k below)) := by
  simp only [splitToken, step, Reference.resolve?, hm, Value.apply_transmute hx]

theorem step_join (f : Frame) (i : Nat) (o : Origin) (ts : Program) {j : Nat} (hj : j < k)
    (hm : m.stack = x.stage (j + 1) below) :
    step f i (joinToken o) ts m = .next (i + 1) (m.withStack (x.stage j below)) := by
  simp only [joinToken, step, Reference.resolve?, hm, Value.apply_concat_stage (x := x) (i := j) (by omega)]

/-- A join that is repeated comes as many stages nearer to the whole array. -/
theorem exists_repeatStep_join (f : Frame) (i : Nat) (o : Origin) (ts : Program) {j n : Nat} (hn : n + j ≤ k)
    (hm : m.stack = x.stage (n + j) below) :
    ∃ m', repeatStep (step f i (joinToken o) ts) n m = .done m' ∧ m'.stack = x.stage j below := by
  induction n generalizing m with
  | zero => exact ⟨m, rfl, by rw [hm, Nat.zero_add]⟩
  | succ n ih =>
    have hstep := step_join hx f i o ts (j := n + j) (by omega) (hm.trans (by rw [Nat.add_right_comm]))
    rw [repeatStep, hstep]
    exact ih (by omega) rfl

end

theorem Value.suffix_stage (x : Value) (i : Nat) (below : Stack) : below <:+ x.stage i below :=
  (List.suffix_append _ below).trans (List.suffix_cons ..)

/-- A program without conditionals whose tokens have a text is sound. -/
theorem Program.isSound_of_not_branches {p : Program} (h : ∀ t ∈ p, t.branches = false ∧ t.textless? = none) :
    p.IsSound := by
  refine ⟨fun i t j ht hb => ?_, Program.textless?_eq_none_iff.2 fun t ht => (h t ht).2⟩
  rw [(h t (List.mem_of_getElem? ht)).1] at hb
  cases hb

/-- What a run that restores a stack does: it ends with the stack as it was, and the lower part of the stack is there on
everything that it comes by. -/
structure Restores (s : Settings) (p : Program) (m : Machine) (below : Stack) : Prop where
  done : ∃ m', interpret s p m = .done m' ∧ m'.stack = m.stack
  keeps {m' : Machine} (h : Passes s p m m') : below <:+ m'.stack

/-! ### The stack on the way -/

/-- The stack at each token, if an array is split and then joined by a token for each time. -/
def joinsStage (x : Value) (k : Nat) (below : Stack) : Nat → Stack
  | 0 => x :: below
  | i + 1 => x.stage (k - i) below

/-- What is known of the stack at each token, if an array is split and then joined by a token that is repeated.  That
token is not come to by itself. -/
inductive RepeatsStage (x : Value) (k : Nat) (c : Value) (below : Stack) : Nat → Stack → Prop
  | whole : RepeatsStage x k c below 0 (x :: below)
  | split : RepeatsStage x k c below 1 (x.stage k below)
  | counted : RepeatsStage x k c below 2 (c :: x.stage k below)
  | joined : RepeatsStage x k c below 4 (x :: below)

private theorem mem_splitJoins {o : Origin} {os : List Origin} {t : Token} (ht : t ∈ Program.splitJoins o os) :
    t = splitToken o ∨ ∃ o', t = joinToken o' := by
  rcases List.mem_cons.1 ht with rfl | ht
  · exact .inl rfl
  · obtain ⟨o', -, rfl⟩ := List.mem_map.1 ht
    exact .inr ⟨o', rfl⟩

section

variable {x : Value} {k : Nat} (hx : x.length = k + 1)

include hx

theorem isCourse_splitJoins (s : Settings) (o : Origin) {os : List Origin} (hos : os.length = k) (below : Stack) :
    IsCourse s (.splitJoins o os) (fun i st => st = joinsStage x k below i) (below <:+ ·) where
  isSound := by
    refine Program.isSound_of_not_branches fun t ht => ?_
    rcases mem_splitJoins ht with rfl | ⟨o', rfl⟩ <;> exact ⟨rfl, rfl⟩
  not_mem name o' ht := by
    rcases mem_splitJoins ht with h | ⟨o', h⟩ <;> cases h
  advances {i t m} ht hm := by
    cases i with
    | zero =>
      cases ht
      exact ⟨1, _, step_split hx s.frame 0 o _ hm, rfl⟩
    | succ i =>
      obtain ⟨o', ho', rfl⟩ : ∃ o', os[i]? = some o' ∧ joinToken o' = t := by
        simpa [Program.splitJoins] using ht
      have hi : i < k := hos ▸ (List.getElem?_eq_some_iff.1 ho').1
      have hstage : m.stack = x.stage (k - (i + 1) + 1) below := by
        rw [hm, joinsStage]
        congr 1
        omega
      exact ⟨i + 2, _, step_join hx s.frame (i + 1) o' _ (by omega) hstage, rfl⟩
  keeps_of_known {i st} h := by
    subst h
    cases i with
    | zero => exact List.suffix_cons ..
    | succ i => exact x.suffix_stage _ below
  keeps_repeated ht hr _ _ _ _ := by
    -- there is no repetition in the program
    have hmem := List.mem_of_mem_drop (ht ▸ List.mem_cons_self ..)
    rcases mem_splitJoins hmem with h | ⟨o', h⟩ <;> cases h <;> cases hr

theorem isCourse_splitRepeats (s : Settings) {c : Value} (hc : c.count = .ok (k : Int)) (o o₁ o₂ o₃ : Origin)
    (below : Stack) :
    IsCourse s (.splitRepeats c o o₁ o₂ o₃) (RepeatsStage x k c below) (below <:+ ·) where
  isSound := by
    refine Program.isSound_of_not_branches fun t ht => ?_
    simp only [Program.splitRepeats, Program.repetition, List.mem_cons, List.not_mem_nil, or_false] at ht
    rcases ht with rfl | rfl | rfl | rfl <;> exact ⟨rfl, rfl⟩
  not_mem name o' ht := by
    simp [Program.splitRepeats, Program.repetition, splitToken, joinToken] at ht
  advances {i t m} ht hm := by
    generalize hst : m.stack = st at hm
    cases hm with
    | whole =>
      cases ht
      exact ⟨1, _, step_split hx s.frame 0 o _ hst, .split⟩
    | split =>
      cases ht
      refine ⟨2, m.push c, by simp only [step], ?_⟩
      rw [Machine.push, hst]
      exact .counted
    | counted =>
      -- all the joins are one step of the repetition
      cases ht
      obtain ⟨m', hdone, hm'⟩ := exists_repeatStep_join hx (m := m.withStack (x.stage k below)) s.frame.repeating 3 o₃
        [] (n := k) (j := 0) (Nat.le_refl k) rfl
      refine ⟨4, m', ?_, ?_⟩
      · simp only [step, Reference.resolve?, hst, hc]
        exact congrArg (Step.ofRun 4) hdone
      · rw [hm', x.stage_zero]
        exact .joined
    | joined => cases ht
  keeps_of_known h := by
    cases h with
    | whole => exact List.suffix_cons ..
    | split => exact x.suffix_stage k below
    | counted => exact (x.suffix_stage k below).trans (List.suffix_cons ..)
    | joined => exact List.suffix_cons ..
  keeps_repeated {i ref target o' t ts v n j m m'} ht hr hm hv hj hdone := by
    generalize hst : v :: m.stack = st at hm
    cases hm with
    | whole =>
      cases ht
      cases hr
    | split => cases ht
    | joined => cases ht
    | counted =>
      cases ht
      obtain ⟨rfl, hm⟩ := List.cons.inj hst
      obtain rfl := Except.ok.inj (hv.symm.trans hc)
      have hle : j ≤ k := hj
      have hsum : j + (k - j) = k := Nat.add_sub_cancel' hle
      have hstage : m.stack = x.stage (j + (k - j)) below := by rw [hm, hsum]
      obtain ⟨m₁, hrun, hm₁⟩ := exists_repeatStep_join hx s.frame.repeating 3 o₃ [] (Nat.le_of_eq hsum) hstage
      cases hrun.symm.trans hdone
      rw [hm₁]
      exact x.suffix_stage _ below

end

/-- Splitting and joining cancel.  An array on top of any stack that is split, and then joined one time less than it has
items, is there again, whatever words are defined and however the program is run: with a token for each time, or with
one that is repeated by a value that counts as much.  What lies below the array is there on everything that the run
comes by. -/
theorem interpret_split_join (s : Settings) {x : Value} {k : Nat} (hx : x.length = k + 1) {below : Stack} {m : Machine}
    (hm : m.stack = x :: below) :
    (∀ (o : Origin) (os : List Origin), os.length = k → Restores s (.splitJoins o os) m below) ∧
    ∀ (c : Value) (o o₁ o₂ o₃ : Origin), c.count = .ok (k : Int) →
      Restores s (.splitRepeats c o o₁ o₂ o₃) m below := by
  constructor
  · intro o os hos
    have hcourse := isCourse_splitJoins hx s o hos below
    refine ⟨?_, hcourse.keeps_of_passes hm⟩
    obtain ⟨m', hdone, hm'⟩ := hcourse.exists_done hm
    refine ⟨m', hdone, ?_⟩
    have hlength : (Program.splitJoins o os).length = k + 1 := by simp [Program.splitJoins, hos]
    rw [hm', hlength, joinsStage, Nat.sub_self, x.stage_zero, hm]
  · intro c o o₁ o₂ o₃ hc
    have hcourse := isCourse_splitRepeats hx s hc o o₁ o₂ o₃ below
    have hstart : RepeatsStage x k c below 0 m.stack := hm ▸ .whole
    refine ⟨?_, hcourse.keeps_of_passes hstart⟩
    obtain ⟨m', hdone, hm'⟩ := hcourse.exists_done hstart
    refine ⟨m', hdone, ?_⟩
    have hend : RepeatsStage x k c below 4 m'.stack := hm'
    generalize m'.stack = st at hend
    cases hend
    exact hm.symm

/-- A text of three characters above a number, joined by two tokens or by one that `2.9` repeats, with room for no call
at all.  Between the two times the run comes by the last two characters, joined, above the first. -/
theorem interpret_split_join_text :
    let s : Settings := { words := .ofList [("cat", [.word "cat" {}])], strict := true, maxDepth := 0, verbosity := 1 }
    let x : Value := .character "abc".toList
    let c : Value := .numeric [2.9, -1]
    let m : Machine := { stack := [x, .scalar 7] }
    x.length = 2 + 1 ∧ c.count = .ok 2 ∧ Restores s (.splitJoins {} [{}, {}]) m [.scalar 7] ∧
      Restores s (.splitRepeats c {} {} {} {}) m [.scalar 7] ∧
      ∃ m', Passes s (.splitRepeats c {} {} {} {}) m m' ∧
        m'.stack = [.character "bc".toList, .character "a".toList, .scalar 7] := by
  intro s x c m
  have hx : x.length = 2 + 1 := rfl
  have hc : c.count = .ok 2 := rfl
  have hm : m.stack = x :: [.scalar 7] := rfl
  obtain ⟨hjoins, hrepeats⟩ := interpret_split_join s hx hm
  refine ⟨hx, hc, hjoins {} [{}, {}] rfl, hrepeats c {} {} {} {} hc, ?_⟩
  -- the machine at the repetition, and the same when the count has been taken
  let counted : Machine := (m.tick.withStack (x.stage 2 [.scalar 7])).tick.push c
  let started : Machine := counted.tick.withStack (x.stage 2 [.scalar 7])
  have hreach : Reaches s 0 0 (.splitRepeats c {} {} {} {}) 0 m [] ⟨.splitRepeats c {} {} {} {}, 2⟩ 0 counted :=
    .next rfl rfl rfl (.next rfl rfl rfl .here)
  obtain ⟨m', honce, hm'⟩ := exists_repeatStep_join hx (s.frameAt 0 0).repeating 3 {} [] (n := 1) (j := 1)
    (m := started) (by decide) rfl
  exact ⟨m', .repeated hreach rfl rfl rfl rfl hc rfl (by decide : 1 ≤ 2) honce, hm'⟩

end Catena
