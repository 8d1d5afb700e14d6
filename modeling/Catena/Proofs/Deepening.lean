import Catena.Proofs.Dictionary
import Catena.Proofs.Step

/-!
# Programs on a deeper stack

Most builtins act on a few values at the top of the stack and cannot tell what lies below.  A program of such builtins,
with words that are made of them, runs on a stack with more values below as it does without these, and leaves them where
they are (`interpret_deepens`).  The only exception is a run that ends for want of values, since these are then there.

`Deepens` compares two machines, and then what steps, walks and runs make of them; one lemma for each of these, in the
order in which they are built from each other, carries it from operators to whole programs.
-/

namespace Catena

/-! ### What a program sees of the stack -/

/-- Whether a builtin acts alike on all stacks that have its operands on top. -/
def Builtin.isLocal : Builtin → Bool
  | print | operator .rotate | operator .clear | operator .clearButOne | operator .len => false
  | _ => true

/-- Whether a token is none of the builtins that see more of the stack than their operands.  A token that is made by
hand may stand for any builtin. -/
def Token.isLocal : Token → Bool
  | builtin (.known b) _ _ => b.isLocal
  | builtin (.named _) _ _ => false
  | _ => true

def Program.IsLocal (p : Program) : Prop := ∀ t ∈ p, t.isLocal

theorem Program.IsLocal.head {t : Token} {ts : Program} (h : Program.IsLocal (t :: ts)) : t.isLocal := h t (by simp)

theorem Program.IsLocal.tail {t : Token} {ts : Program} (h : Program.IsLocal (t :: ts)) : ts.IsLocal :=
  fun u hu => h u (by simp [hu])

theorem Token.eq_repetition_of_isLocal {t : Token} (h : t.isLocal) (hr : t.repeats) :
    ∃ target origin, t = .builtin (.known .repetition) target origin := by
  obtain ⟨ref, target, origin, rfl, href⟩ := eq_builtin_of_repeats hr
  cases ref with
  | named name => cases h
  | known b =>
    cases href
    exact ⟨target, origin, rfl⟩

/-- Whether a program failed for want of values on the stack. -/
def Failure.isShort : Failure → Bool
  | fault cause _ => cause.category = .stack
  | _ => false

def Halt.isShort : Halt → Bool
  | raised cause => cause.category = .stack
  | passed failure => failure.isShort

/-- The failure with more values at the bottom of the stack that was left. -/
def Failure.onto (base : Stack) : Failure → Failure
  | fault cause blame => .fault cause { blame with stack := blame.stack ++ base }
  | why => why

def Halt.onto (base : Stack) : Halt → Halt
  | raised cause => raised cause
  | passed failure => passed (failure.onto base)

/-- The second machine has more values at the bottom of its stack, and has taken as many steps. -/
structure Machine.Deepens (base : Stack) (m m' : Machine) : Prop where
  stack_eq : m'.stack = m.stack ++ base
  steps_eq : m'.steps = m.steps

inductive Step.Deepens (base : Stack) : Step → Step → Prop where
  | next {j m m'} (h : m.Deepens base m') : Deepens base (.next j m) (.next j m')
  | halt {why m m'} (h : m.Deepens base m') : Deepens base (.halt why m) (.halt (why.onto base) m')
  | short {why m st} (h : why.isShort) : Deepens base (.halt why m) st

inductive Walk.Deepens (base : Stack) : Walk → Walk → Prop where
  | ended {m m'} (h : m.Deepens base m') : Deepens base (.ended m) (.ended m')
  | back {j m m'} (h : m.Deepens base m') : Deepens base (.back j m) (.back j m')
  | failed {why m m'} (h : m.Deepens base m') : Deepens base (.failed why m) (.failed (why.onto base) m')
  | short {why m w} (h : why.isShort) : Deepens base (.failed why m) w

inductive Run.Deepens (base : Stack) : Run Failure → Run Failure → Prop where
  | done {m m'} (h : m.Deepens base m') : Deepens base (.done m) (.done m')
  | halted {why m m'} (h : m.Deepens base m') : Deepens base (.halted why m) (.halted (why.onto base) m')
  | short {why m r} (h : why.isShort) : Deepens base (.halted why m) r

section

variable {base : Stack}

/-! ### Blame -/

theorem Halt.blame_onto (why : Halt) (t : Token) (s : Stack) :
    (why.onto base).blame t (s ++ base) = (why.blame t s).onto base := by
  cases why with
  | passed failure => rfl
  | raised cause =>
    simp only [Halt.onto, Halt.blame]
    split
    · rfl
    · split <;> rfl

theorem Halt.isShort_blame {why : Halt} {t : Token} (ht : t.isLocal) (h : why.isShort) (s : Stack) :
    (why.blame t s).isShort := by
  cases why with
  | passed failure => exact h
  | raised cause =>
    have hcause : cause.culprit? = none := by
      cases cause with
      | undefinedWord | unknownBuiltin => cases h
      | _ => rfl
    have htoken : t.unspelled? = none := by
      cases t with
      | builtin ref target origin =>
        cases ref with
        | known b => rfl
        | named name => cases ht
      | _ => rfl
    simp only [Halt.blame, hcause, htoken, Option.filter_none]
    exact h

/-! ### Operators -/

namespace Operator

theorem exists_effect {op : Operator} (h : (Builtin.operator op).isLocal) :
    ∃ inputs results, op.effect = .operands inputs results := by
  cases op with
  | len | rotate | clear | clearButOne => cases h
  | _ => exact ⟨_, _, rfl⟩

private theorem misfit?_append (op : Operator) (k : Nat) {inputs : List Operand} {s : Stack}
    (h : inputs.length ≤ s.length) : misfit? op k inputs (s ++ base) = misfit? op k inputs s := by
  induction inputs generalizing k s with
  | nil => simp [misfit?]
  | cons expected inputs ih =>
    cases s with
    | nil => cases h
    | cons v s => simp only [List.cons_append, misfit?, ih (k + 1) (Nat.le_of_succ_le_succ h)]

/-- An operator has too few operands, or it takes no notice of what is below them. -/
theorem apply_append {op : Operator} (h : (Builtin.operator op).isLocal) (s base : Stack) :
    (∃ fault, op.apply s = .error (fault, s) ∧ fault.category = .stack) ∨
      op.apply (s ++ base) = ((op.apply s).map (· ++ base)).mapError fun e => (e.1, e.2 ++ base) := by
  obtain ⟨inputs, results, heffect⟩ := exists_effect h
  by_cases hlen : s.length < inputs.length
  · left
    have hrefusal : refusal? op inputs s = some (.tooFewOperands op inputs.length s.length) := by
      simp only [refusal?, List.length_take]
      exact if_pos (by omega)
    exact ⟨.tooFewOperands op inputs.length s.length, by simp only [apply, heffect, hrefusal], rfl⟩
  · right
    have hle : inputs.length ≤ s.length := by omega
    have htake : (s ++ base).take inputs.length = s.take inputs.length := List.take_append_of_le_length hle
    have hdrop : (s ++ base).drop inputs.length = s.drop inputs.length ++ base := List.drop_append_of_le_length hle
    have hrefusal : ∀ s' : Stack, inputs.length ≤ s'.length → refusal? op inputs s' = misfit? op 1 inputs s' := by
      intro s' hs'
      simp only [refusal?, List.length_take]
      exact if_neg (by omega)
    simp only [apply, heffect, hrefusal s hle, hrefusal (s ++ base) (by simp; omega), misfit?_append op 1 hle, htake,
      hdrop]
    cases misfit? op 1 inputs s with
    | some fault => rfl
    | none =>
      cases op.results (s.take inputs.length) with
      | ok values => exact congrArg Except.ok (List.append_assoc values.reverse _ base).symm
      | error fault => rfl

end Operator

/-! ### Steps -/

namespace Machine.Deepens

variable {m m' : Machine}

theorem push (h : m.Deepens base m') (v : Value) : (m.push v).Deepens base (m'.push v) :=
  ⟨congrArg (v :: ·) h.stack_eq, h.steps_eq⟩

theorem withStack (h : m.Deepens base m') (s : Stack) : (m.withStack s).Deepens base (m'.withStack (s ++ base)) :=
  ⟨rfl, h.steps_eq⟩

theorem tick (h : m.Deepens base m') : m.tick.Deepens base m'.tick := ⟨h.stack_eq, congrArg (· + 1) h.steps_eq⟩

/-- What is traced may differ, as it shows the stack. -/
theorem emit (h : m.Deepens base m') (e e' : Emission) : (m.emit e).Deepens base (m'.emit e') :=
  ⟨h.stack_eq, h.steps_eq⟩

theorem stack_cons (h : m.Deepens base m') {v : Value} {st : Stack} (hm : m.stack = v :: st) :
    m'.stack = v :: (st ++ base) := by
  rw [h.stack_eq, hm, List.cons_append]

end Machine.Deepens

private theorem branch_deepens (b : Builtin) (target : Option Nat) (origin : Origin) (i : Nat) {m m' : Machine}
    (hm : m.Deepens base m') :
    Step.Deepens base (branch (.known b) target origin i m) (branch (.known b) target origin i m') := by
  unfold branch
  cases hs : m.stack with
  | nil => exact .short rfl
  | cons v st =>
    rw [hm.stack_cons hs]
    dsimp only
    split
    · exact .next (hm.withStack st)
    · cases target with
      | some j => exact .next (hm.withStack st)
      | none => exact .halt (hm.withStack st)

/-- A frame that calls words without regard to the bottom of the stack. -/
def Frame.Deepens (base : Stack) (f : Frame) : Prop :=
  ∀ height name body m m', f.settings.words.body? name = some body → m.Deepens base m' → ∀ j,
    Step.Deepens base (.ofRun j (f.call height name body m)) (.ofRun j (f.call height name body m'))

private theorem step_deepens_of_not_repeats {f : Frame} (hf : f.Deepens base) (i : Nat) {t : Token}
    (hr : t.repeats = false) (ht : t.isLocal) (following : Program) {m m' : Machine} (hm : m.Deepens base m') :
    Step.Deepens base (step f i t following m) (step f i t following m') := by
  cases t with
  | data v origin =>
    simp only [step]
    exact .next (hm.push v)
  | definition name body origin =>
    simp only [step]
    exact .next hm
  | other text =>
    simp only [step]
    exact .next hm
  | word name origin =>
    simp only [step]
    cases hb : f.settings.words.body? name with
    | some body => exact hf f.height name body m m' hb hm (i + 1)
    | none =>
      dsimp only
      split
      · exact .halt hm
      · exact .next hm
  | builtin ref target origin =>
    cases ref with
    | named name => cases ht
    | known b =>
      cases b with
      | print => cases ht
      | repetition => cases hr
      | forward =>
        simp only [step, Reference.resolve?]
        exact .next hm
      | conditional =>
        simp only [step, Reference.resolve?]
        exact branch_deepens .conditional target origin i hm
      | operator op =>
        simp only [step, Reference.resolve?, hm.stack_eq]
        rcases Operator.apply_append ht m.stack base with ⟨fault, ha, hfault⟩ | ha
        · rw [ha]
          exact .short (decide_eq_true hfault)
        · rw [ha]
          cases op.apply m.stack with
          | ok st => exact .next (hm.withStack st)
          | error e => exact .halt (hm.withStack e.2)

private theorem repeatStep_deepens {body : Machine → Step}
    (h : ∀ {m m' : Machine}, m.Deepens base m' → Step.Deepens base (body m) (body m')) (j n : Nat) {m m' : Machine}
    (hm : m.Deepens base m') :
    Step.Deepens base (.ofRun j (repeatStep body n m)) (.ofRun j (repeatStep body n m')) := by
  induction n generalizing m m' with
  | zero => exact .next hm
  | succ n ih =>
    have hstep := h hm
    unfold repeatStep
    generalize body m = st, body m' = st' at hstep
    cases hstep with
    | next h' => exact ih h'
    | halt h' => exact .halt h'
    | short h' => exact .short h'

private theorem step_deepens_of_repetition {f : Frame} (i : Nat) (target : Option Nat) (origin : Origin)
    {following : Program} (hbody : ∀ {body rest}, following = body :: rest → ∀ {m m'}, m.Deepens base m' →
      Step.Deepens base (step f.repeating (i + 1) body rest m) (step f.repeating (i + 1) body rest m'))
    {m m' : Machine}
    (hm : m.Deepens base m') :
    Step.Deepens base (step f i (.builtin (.known .repetition) target origin) following m)
      (step f i (.builtin (.known .repetition) target origin) following m') := by
  simp only [step, Reference.resolve?]
  cases hs : m.stack with
  | nil => exact .short rfl
  | cons v st =>
    rw [hm.stack_cons hs]
    dsimp only
    cases v.count with
    | error fault => exact .halt hm
    | ok n =>
      cases following with
      | nil => exact .halt hm
      | cons body rest =>
        dsimp only
        split
        · exact .halt hm
        · exact repeatStep_deepens (hbody rfl) (i + 2) n.toNat (hm.withStack st)

/-- A step takes no notice of the bottom of the stack. -/
theorem step_deepens {f : Frame} (hf : f.Deepens base) (i : Nat) {t : Token} {following : Program} (ht : t.isLocal)
    (hts : Program.IsLocal following) {m m' : Machine} (hm : m.Deepens base m') :
    Step.Deepens base (step f i t following m) (step f i t following m') := by
  -- the recursion of `step` is on the tokens that follow
  induction following generalizing f i t m m' with
  | nil =>
    cases hr : t.repeats with
    | false => exact step_deepens_of_not_repeats hf i hr ht [] hm
    | true =>
      obtain ⟨target, origin, rfl⟩ := Token.eq_repetition_of_isLocal ht hr
      refine step_deepens_of_repetition i target origin (fun h => ?_) hm
      cases h
  | cons body rest ih =>
    cases hr : t.repeats with
    | false => exact step_deepens_of_not_repeats hf i hr ht (body :: rest) hm
    | true =>
      obtain ⟨target, origin, rfl⟩ := Token.eq_repetition_of_isLocal ht hr
      refine step_deepens_of_repetition i target origin (fun h m m' hm => ?_) hm
      cases h
      exact ih (f := f.repeating) hf (i + 1) hts.head hts.tail hm

/-! ### Traces -/

namespace Machine.Deepens

variable {m m' : Machine}

private theorem trace (h : m.Deepens base m') (depth : Nat) (label label' : List Char) (p : Program) :
    Run.Deepens base (m.trace depth label p) (m'.trace depth label' p) := by
  unfold Machine.trace
  cases Program.textless? p with
  | some name => exact .halted (h.emit _ _)
  | none => exact .done ((h.emit _ _).emit _ _)

theorem traceStep (h : m.Deepens base m') (f : Frame) (i : Nat) (p : Program) :
    Run.Deepens base (f.traceStep i p m) (f.traceStep i p m') := by
  unfold Frame.traceStep
  split
  · exact h.trace ..
  · exact .done h

theorem traceCall (h : m.Deepens base m') (s : Settings) (depth : Nat) (name : String) (body : Program) :
    Run.Deepens base (s.traceCall depth name body m) (s.traceCall depth name body m') := by
  unfold Settings.traceCall
  split
  · exact h.trace ..
  · exact .done h

end Machine.Deepens

/-! ### Walks and runs -/

/-- A walk takes no notice of the bottom of the stack: what one step does not see, a walk does not see. -/
theorem walk_deepens {f : Frame} (hf : f.Deepens base) (i skip : Nat) {ts : Program} (hts : ts.IsLocal)
    {m m' : Machine} (hm : m.Deepens base m') : Walk.Deepens base (walk f i skip ts m) (walk f i skip ts m') := by
  induction ts generalizing i skip m m' with
  | nil => exact .ended hm
  | cons t ts ih =>
    cases skip with
    | succ skip => exact ih (i + 1) skip hts.tail hm
    | zero =>
      have htrace := hm.traceStep f i (t :: ts)
      simp only [walk]
      generalize f.traceStep i (t :: ts) m = r, f.traceStep i (t :: ts) m' = r' at htrace
      cases htrace with
      | halted h => exact .failed h
      | short h => exact .short h
      | @done m₀ m₀' h =>
        have hstep := step_deepens hf i hts.head hts.tail h.tick
        dsimp only
        generalize step f i t ts m₀.tick = st, step f i t ts m₀'.tick = st' at hstep
        cases hstep with
        | short h => exact .short (Halt.isShort_blame hts.head h _)
        | @halt why m₁ m₁' h =>
          dsimp only
          rw [h.stack_eq, Halt.blame_onto]
          exact .failed h
        | @next j m₁ m₁' h =>
          dsimp only
          split
          · exact ih (i + 1) (j - (i + 1)) hts.tail h
          · exact .back h

private theorem Frame.Deepens.runFrom {f : Frame} (hf : f.Deepens base) {p : Program} (hp : p.IsLocal)
    (patience index : Nat) {m m' : Machine} (hm : m.Deepens base m') :
    Run.Deepens base (f.runFrom p patience index m) (f.runFrom p patience index m') := by
  induction patience using Nat.strongRecOn generalizing index m m' with
  | ind patience ih =>
    have hwalk := walk_deepens hf 0 index hp hm
    unfold Frame.runFrom
    generalize walk f 0 index p m = w, walk f 0 index p m' = w' at hwalk
    cases hwalk with
    | ended h => exact .done h
    | failed h => exact .halted h
    | short h => exact .short h
    | @back j _ _ h =>
      cases patience with
      | zero => exact .halted h
      | succ patience => exact ih patience (by omega) j h

theorem Frame.Deepens.run {f : Frame} (hf : f.Deepens base) {p : Program} (hp : p.IsLocal) {m m' : Machine}
    (hm : m.Deepens base m') : Run.Deepens base (f.run p m) (f.run p m') :=
  hf.runFrom hp f.settings.patience 0 hm

/-- Calls take no notice of the bottom of the stack, as far as they nest. -/
theorem callWord_deepens {s : Settings} (hs : s.words.Forall Program.IsLocal) (room depth height : Nat) {name : String}
    {body : Program} (hb : s.words.body? name = some body) {m m' : Machine} (hm : m.Deepens base m') (j : Nat) :
    Step.Deepens base (.ofRun j (callWord s room depth height name body m))
      (.ofRun j (callWord s room depth height name body m')) := by
  induction room generalizing depth height name body m m' j with
  | zero =>
    simp only [callWord]
    split
    · exact .halt hm
    · exact .halt hm
  | succ room ih =>
    simp only [callWord]
    split
    · have htrace := hm.traceCall s depth name body
      generalize s.traceCall depth name body m = r, s.traceCall depth name body m' = r' at htrace
      cases htrace with
      | halted h => exact .halt h
      | short h => exact .short h
      | @done m₀ m₀' h =>
        -- within the call there is less room for calls
        have hf : Frame.Deepens base ⟨s, depth + 1, height + callFrames, callWord s room (depth + 1)⟩ :=
          fun height _ _ _ _ hb hm j => ih (depth + 1) height hb hm j
        have hrun := hf.run (hs.body? hb) h
        dsimp only
        generalize Frame.run _ body m₀ = r, Frame.run _ body m₀' = r' at hrun
        cases hrun with
        | done h => exact .next h
        | halted h => exact .halt h
        | short h => exact .short h
    · exact .halt hm

theorem Settings.frame_deepens {s : Settings} (hs : s.words.Forall Program.IsLocal) : s.frame.Deepens base :=
  fun height _ _ _ _ hb hm j => callWord_deepens hs s.maxDepth.toNat 0 height hb hm j

/-- A run takes no notice of the bottom of the stack. -/
theorem run_deepens {s : Settings} (hs : s.words.Forall Program.IsLocal) {p : Program} (hp : p.IsLocal)
    {m m' : Machine} (hm : m.Deepens base m') : Run.Deepens base (interpret s p m) (interpret s p m') := by
  have hrun := (Settings.frame_deepens hs).run hp hm
  unfold interpret
  generalize s.frame.run p m = r, s.frame.run p m' = r' at hrun
  cases hrun with
  | halted h => exact .halted h
  | short h => exact .short h
  | done h =>
    dsimp only
    split
    · exact .done h
    · exact h.trace ..

end

/-- The bottom of the stack is a frame.  A program that is done on a stack is done on the same stack with more values
below, and leaves these below what it leaves otherwise.  A program that fails, but not for want of values, fails with
the same error, blamed on the same token, and both stacks that are left, that of the error and that of the machine, are
the same with the values below. -/
theorem interpret_deepens {s : Settings} (hs : s.words.Forall Program.IsLocal) {p : Program} (hp : p.IsLocal)
    (m : Machine) (base : Stack) :
    (∀ m₁, interpret s p m = .done m₁ → ∃ m₂, interpret s p (m.withStack (m.stack ++ base)) = .done m₂ ∧
      m₂.stack = m₁.stack ++ base ∧ m₂.steps = m₁.steps) ∧
    (∀ why m₁, interpret s p m = .halted why m₁ → why.isShort = false →
      ∃ m₂, interpret s p (m.withStack (m.stack ++ base)) = .halted (why.onto base) m₂ ∧
        m₂.stack = m₁.stack ++ base ∧ m₂.steps = m₁.steps) := by
  have hrun := run_deepens hs hp (⟨rfl, rfl⟩ : m.Deepens base (m.withStack (m.stack ++ base)))
  generalize interpret s p m = r, interpret s p (m.withStack (m.stack ++ base)) = r' at hrun
  constructor
  · intro m₁ h
    subst h
    cases hrun with
    | done h => exact ⟨_, rfl, h.stack_eq, h.steps_eq⟩
  · intro why m₁ h hwhy
    subst h
    cases hrun with
    | halted h => exact ⟨_, rfl, h.stack_eq, h.steps_eq⟩
    | short h =>
      rw [hwhy] at h
      cases h

/-- The source `2 do w 0 if swp then +` on the text `a` above a number, where `w` doubles a text.  It repeats a call,
skips a branch and fails on the operands that are left, with or without a value below. -/
theorem interpret_deepens_repetition :
    let known := fun b : Builtin => Token.builtin (.known b) none {}
    let number := fun x : Float => Token.data (.scalar x) {}
    let s : Settings := { words := .ofList [("w", [known (.operator .duplicate), known (.operator .concat)])] }
    let p : Program := .pair [number 2, known .repetition, .word "w" {}, number 0, known .conditional,
      known (.operator .swap), known .forward, known (.operator .plus)]
    let m : Machine := { stack := [.character ['a'], .scalar 1] }
    let left : Stack := [.character ['a', 'a', 'a', 'a'], .scalar 1]
    let base : Stack := [.character ['b']]
    let fault : Fault := .wrongOperand .plus .numeric 1 .character
    s.words.Forall Program.IsLocal ∧ p.IsLocal ∧
      interpret s p m = .halted (.fault fault ⟨"+", {}, left⟩) { stack := left, steps := 9 } ∧
      ∃ m₂, interpret s p (m.withStack (m.stack ++ base)) = .halted (.fault fault ⟨"+", {}, left ++ base⟩) m₂ ∧
        m₂.stack = left ++ base ∧ m₂.steps = 9 := by
  intro known number s p m left base fault
  have hs : s.words.Forall Program.IsLocal := by
    unfold Words.Forall Program.IsLocal
    decide
  have hp : p.IsLocal := by
    unfold Program.IsLocal
    decide
  have hrun : interpret s p m = .halted (.fault fault ⟨"+", {}, left⟩) { stack := left, steps := 9 } := rfl
  exact ⟨hs, hp, hrun, (interpret_deepens hs hp m base).2 _ _ hrun rfl⟩

end Catena
