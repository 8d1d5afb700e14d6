import Catena.Proofs.Dictionary
import Catena.Proofs.Origins
import Catena.Proofs.Step

/-!
# Runs that follow each other

Two runs of a program under settings that differ in something are compared step by step.  A `Likeness` says what they
have in common: how the machines are alike, what the origins of one program are in the other, and which failures of the
first run excuse the second.  Where the machines have the same stack, and calls and traces are alike, so are steps
(`step_follows`), hence walks (`walk_follows`), calls (`callWord_follows`) and whole runs (`interpret_follows`).

The two runs take up the same frames of their hosts, or the second takes up less or has more room, and the overflow of
the first is an excuse (`Likeness.Lower`).
-/

namespace Catena

/-- What two runs have in common. -/
structure Likeness where
  /-- What becomes of the origins of the first program in the second. -/
  origin : Origin → Origin
  machine : Machine → Machine → Prop
  /-- The faults of the first run after which the second may do anything. -/
  excuses : Fault → Prop
  /-- Whether the second run may do anything as well after the first has overflowed. -/
  excusesOverflow : Prop := False
  /-- The tokens that programs are made of. -/
  admits : Token → Prop
  text_origin (o : Origin) : (origin o).text = o.text
  origin_empty : origin {} = {}
  isKnown {t : Token} {cause : Fault} (ht : admits t) (hc : excuses cause) : t.isKnown
  stack_eq {m m' : Machine} (h : machine m m') : m'.stack = m.stack
  withStack {m m' : Machine} (h : machine m m') (s : Stack) : machine (m.withStack s) (m'.withStack s)
  tick {m m' : Machine} (h : machine m m') : machine m.tick m'.tick
  printed {m m' : Machine} (h : machine m m') (text : List Char) :
    machine (m.emit (.printed text)) (m'.emit (.printed text))

/-- Runs on the same machines. -/
def Likeness.ofEq (origin : Origin → Origin) (excuses : Fault → Prop) (admits : Token → Prop)
    (text_origin : ∀ o, (origin o).text = o.text) (origin_empty : origin {} = {})
    (isKnown : ∀ {t cause}, admits t → excuses cause → t.isKnown) : Likeness where
  origin
  machine := Eq
  excuses
  excusesOverflow := False
  admits
  text_origin
  origin_empty
  isKnown
  stack_eq h := by rw [h]
  withStack h s := by rw [h]
  tick h := by rw [h]
  printed h text := by rw [h]

/-! ### What is compared -/

def Failure.relocate (g : Origin → Origin) : Failure → Failure
  | fault cause blame => .fault cause { blame with origin := g blame.origin }
  | why => why

def Halt.relocate (g : Origin → Origin) : Halt → Halt
  | raised cause => raised cause
  | passed failure => passed (failure.relocate g)

namespace Likeness

def excusesFailure (C : Likeness) : Failure → Prop
  | .fault cause _ => C.excuses cause
  | .overflowed => C.excusesOverflow
  | .unspelled _ | .exhausted => False

def excusesHalt (C : Likeness) : Halt → Prop
  | .raised cause => C.excuses cause
  | .passed failure => C.excusesFailure failure

def Admits (C : Likeness) (p : Program) : Prop := ∀ t ∈ p, C.admits t

/-- The second run has taken up as many frames as the first, or less and is excused if the first overflows. -/
def Lower (C : Likeness) (height height' : Nat) : Prop := height' = height ∨ height' ≤ height ∧ C.excusesOverflow

theorem Lower.add {C : Likeness} {height height' : Nat} (h : C.Lower height height') (k : Nat) :
    C.Lower (height + k) (height' + k) :=
  h.imp (congrArg (· + k)) fun h => ⟨Nat.add_le_add_right h.1 k, h.2⟩

theorem Admits.head {C : Likeness} {t : Token} {ts : Program} (h : C.Admits (t :: ts)) : C.admits t := h t (by simp)

theorem Admits.tail {C : Likeness} {t : Token} {ts : Program} (h : C.Admits (t :: ts)) : C.Admits ts :=
  fun u hu => h u (by simp [hu])

end Likeness

inductive Step.Follows (C : Likeness) : Step → Step → Prop where
  | next {j m m'} (h : C.machine m m') : Follows C (.next j m) (.next j m')
  | halt {why m m'} (h : C.machine m m') : Follows C (.halt why m) (.halt (why.relocate C.origin) m')
  | excused {why m st} (h : C.excusesHalt why) : Follows C (.halt why m) st

inductive Walk.Follows (C : Likeness) : Walk → Walk → Prop where
  | ended {m m'} (h : C.machine m m') : Follows C (.ended m) (.ended m')
  | back {j m m'} (h : C.machine m m') : Follows C (.back j m) (.back j m')
  | failed {why m m'} (h : C.machine m m') : Follows C (.failed why m) (.failed (why.relocate C.origin) m')
  | excused {why m w} (h : C.excusesFailure why) : Follows C (.failed why m) w

inductive Run.Follows (C : Likeness) : Run Failure → Run Failure → Prop where
  | done {m m'} (h : C.machine m m') : Follows C (.done m) (.done m')
  | halted {why m m'} (h : C.machine m m') : Follows C (.halted why m) (.halted (why.relocate C.origin) m')
  | excused {why m r} (h : C.excusesFailure why) : Follows C (.halted why m) r

variable {C : Likeness}

/-! ### Blame -/

private theorem Likeness.spelling_origin (C : Likeness) (ref : Reference) (o : Origin) :
    Token.spelling ref (C.origin o) = Token.spelling ref o := by
  unfold Token.spelling
  rw [C.text_origin]

private theorem Likeness.label_relocate (C : Likeness) (t : Token) : (t.relocate C.origin).label = t.label := by
  cases t with
  | builtin ref target origin => exact C.spelling_origin ref origin
  | data v origin =>
    show (C.origin origin).text.getD _ = _
    rw [C.text_origin]
    rfl
  | _ => rfl

private theorem Likeness.origin_relocate (C : Likeness) (t : Token) :
    (t.relocate C.origin).origin = C.origin t.origin := by
  cases t with
  | other text => exact C.origin_empty.symm
  | _ => rfl

private theorem Halt.blame_relocate (why : Halt) (t : Token) (s : Stack) :
    (why.relocate C.origin).blame (t.relocate C.origin) s = (why.blame t s).relocate C.origin := by
  cases why with
  | passed failure => rfl
  | raised cause =>
    simp only [Halt.relocate, Halt.blame, C.origin_relocate, C.label_relocate, Token.unspelled?_relocate]
    split
    · rfl
    · split <;> rfl

/-- A fault that is an excuse is blamed on the token, which has a text. -/
private theorem Likeness.excusesFailure_blame {t : Token} (ht : C.admits t) {why : Halt} (h : C.excusesHalt why)
    (s : Stack) : C.excusesFailure (why.blame t s) := by
  cases why with
  | passed failure => exact h
  | raised cause =>
    have htext : t.unspelled? = none := by
      have hknown := C.isKnown ht h
      cases t with
      | builtin ref target origin =>
        cases ref with
        | known b => rfl
        | named name => cases hknown
      | _ => rfl
    simp only [Halt.blame, htext]
    split <;> exact h

/-! ### Steps -/

/-- A frame that calls words and traces steps like another one. -/
structure Frame.Follows (C : Likeness) (f f' : Frame) : Prop where
  body?_eq (name : String) :
    f'.settings.words.body? name = (f.settings.words.body? name).map (Program.relocate C.origin)
  strict : f'.settings.strict = f.settings.strict ∨
    f.settings.strict = true ∧ ∀ name, C.excuses (.undefinedWord name)
  patience_eq : f'.settings.patience = f.settings.patience
  lower : C.Lower f.height f'.height
  traceStep (i : Nat) {p : Program} (hp : C.Admits p) {m m' : Machine} (hm : C.machine m m') :
    Run.Follows C (f.traceStep i p m) (f'.traceStep i (Program.relocate C.origin p) m')
  call {k k' : Nat} (hk : C.Lower k k') {name : String} {body : Program}
    (hb : f.settings.words.body? name = some body) {m m' : Machine} (hm : C.machine m m') (j : Nat) :
    Step.Follows C (.ofRun j (f.call k name body m)) (.ofRun j (f'.call k' name (Program.relocate C.origin body) m'))

theorem Frame.Follows.repeating {f f' : Frame} (hf : f.Follows C f') : f.repeating.Follows C f'.repeating :=
  { hf with lower := hf.lower.add repetitionFrames }

private theorem raiseShowing_origin (fault : String → Fault) (ref : Reference) (o : Origin) :
    raiseShowing fault ref (C.origin o) = (raiseShowing fault ref o).relocate C.origin := by
  cases ref with
  | known b =>
    show Halt.raised (fault (Token.spelling _ (C.origin o))) = _
    rw [C.spelling_origin]
    rfl
  | named name => rfl

private theorem Likeness.push {m m' : Machine} (h : C.machine m m') (v : Value) : C.machine (m.push v) (m'.push v) := by
  show C.machine (m.withStack (v :: m.stack)) (m'.withStack (v :: m'.stack))
  rw [C.stack_eq h]
  exact C.withStack h (v :: m.stack)

private theorem Likeness.print {m m' : Machine} (h : C.machine m m') : C.machine m.print m'.print := by
  unfold Machine.print
  rw [C.stack_eq h]
  cases m.stack with
  | nil => exact h
  | cons v st => exact C.printed h _

private theorem branch_follows (ref : Reference) (target : Option Nat) (o : Origin) (i : Nat) {m m' : Machine}
    (hm : C.machine m m') : Step.Follows C (branch ref target o i m) (branch ref target (C.origin o) i m') := by
  unfold branch
  rw [C.stack_eq hm]
  cases m.stack with
  | nil =>
    dsimp only
    rw [raiseShowing_origin]
    exact .halt hm
  | cons v st =>
    dsimp only
    split
    · exact .next (C.withStack hm st)
    · cases target with
      | some j => exact .next (C.withStack hm st)
      | none =>
        dsimp only
        rw [raiseShowing_origin]
        exact .halt (C.withStack hm st)

private theorem step_follows_of_not_repeats {f f' : Frame} (hf : f.Follows C f') (i : Nat) {t : Token}
    (hr : t.repeats = false) (following following' : Program) {m m' : Machine} (hm : C.machine m m') :
    Step.Follows C (step f i t following m) (step f' i (t.relocate C.origin) following' m') := by
  cases t with
  | data v origin =>
    simp only [step, Token.relocate]
    exact .next (C.push hm v)
  | definition name body origin =>
    simp only [step, Token.relocate]
    exact .next hm
  | other text =>
    simp only [step, Token.relocate]
    exact .next hm
  | word name origin =>
    simp only [step, Token.relocate, hf.body?_eq]
    cases hb : f.settings.words.body? name with
    | some body => exact hf.call hf.lower hb hm (i + 1)
    | none =>
      dsimp only [Option.map_none]
      rcases hf.strict with hstrict | ⟨hstrict, hexcuse⟩
      · rw [hstrict]
        split
        · exact .halt hm
        · exact .next hm
      · rw [hstrict]
        exact .excused (hexcuse name)
  | builtin ref target origin =>
    simp only [step, Token.relocate]
    cases href : ref.resolve? with
    | none => exact .halt hm
    | some b =>
      cases b with
      | print => exact .next (C.print hm)
      | forward => exact .next hm
      | conditional => exact branch_follows ref target origin i hm
      | repetition => simp [Token.repeats, href] at hr
      | operator op =>
        dsimp only
        rw [C.stack_eq hm]
        cases op.apply m.stack with
        | ok st => exact .next (C.withStack hm st)
        | error e => exact .halt (C.withStack hm e.2)

private theorem repeatStep_follows {act act' : Machine → Step}
    (h : ∀ {m m' : Machine}, C.machine m m' → Step.Follows C (act m) (act' m')) (j n : Nat) {m m' : Machine}
    (hm : C.machine m m') : Step.Follows C (.ofRun j (repeatStep act n m)) (.ofRun j (repeatStep act' n m')) := by
  induction n generalizing m m' with
  | zero => exact .next hm
  | succ n ih =>
    have hstep := h hm
    unfold repeatStep
    generalize act m = st, act' m' = st' at hstep
    cases hstep with
    | next h' => exact ih h'
    | halt h' => exact .halt h'
    | excused h' => exact .excused h'

private theorem step_follows_of_repetition {f f' : Frame} (i : Nat) {ref : Reference}
    (hr : ref.resolve? = some .repetition) (target : Option Nat) (o : Origin) {following : Program}
    (hbody : ∀ {body rest}, following = body :: rest → ∀ {m m'}, C.machine m m' → Step.Follows C
      (step f.repeating (i + 1) body rest m)
      (step f'.repeating (i + 1) (body.relocate C.origin) (Program.relocate C.origin rest) m'))
    {m m' : Machine} (hm : C.machine m m') :
    Step.Follows C (step f i (.builtin ref target o) following m)
      (step f' i (.builtin ref target (C.origin o)) (Program.relocate C.origin following) m') := by
  simp only [step, hr]
  rw [C.stack_eq hm]
  cases m.stack with
  | nil =>
    dsimp only
    rw [raiseShowing_origin]
    exact .halt hm
  | cons v st =>
    dsimp only
    cases v.count with
    | error fault => exact .halt hm
    | ok n =>
      cases following with
      | nil =>
        simp only [Program.relocate]
        rw [raiseShowing_origin]
        exact .halt hm
      | cons body rest =>
        simp only [Program.relocate, Token.isConditional_relocate, Token.isRepetition_relocate, C.label_relocate]
        split
        · rw [raiseShowing_origin]
          exact .halt hm
        · exact repeatStep_follows (hbody rfl) (i + 2) n.toNat (C.withStack hm st)

/-- Alike frames take alike steps. -/
theorem step_follows {f f' : Frame} (hf : f.Follows C f') (i : Nat) (t : Token) (following : Program) {m m' : Machine}
    (hm : C.machine m m') : Step.Follows C (step f i t following m)
      (step f' i (t.relocate C.origin) (Program.relocate C.origin following) m') := by
  -- the recursion of `step` is on the tokens that follow
  induction following generalizing f f' i t m m' with
  | nil =>
    cases hr : t.repeats with
    | false => exact step_follows_of_not_repeats hf i hr _ _ hm
    | true =>
      obtain ⟨ref, target, origin, rfl, href⟩ := Token.eq_builtin_of_repeats hr
      refine step_follows_of_repetition i href target origin (fun h => ?_) hm
      cases h
  | cons body rest ih =>
    cases hr : t.repeats with
    | false => exact step_follows_of_not_repeats hf i hr _ _ hm
    | true =>
      obtain ⟨ref, target, origin, rfl, href⟩ := Token.eq_builtin_of_repeats hr
      refine step_follows_of_repetition i href target origin (fun h m m' hm => ?_) hm
      cases h
      exact ih hf.repeating (i + 1) body hm

/-! ### Walks and runs -/

/-- What one step keeps alike, a walk keeps alike. -/
theorem walk_follows {f f' : Frame} (hf : f.Follows C f') (i skip : Nat) {ts : Program} (hts : C.Admits ts)
    {m m' : Machine} (hm : C.machine m m') :
    Walk.Follows C (walk f i skip ts m) (walk f' i skip (Program.relocate C.origin ts) m') := by
  induction ts generalizing i skip m m' with
  | nil => exact .ended hm
  | cons t ts ih =>
    rw [Program.relocate]
    cases skip with
    | succ skip => exact ih (i + 1) skip hts.tail hm
    | zero =>
      have htrace := hf.traceStep i hts hm
      simp only [walk]
      rw [Program.relocate] at htrace
      generalize f.traceStep i (t :: ts) m = r, f'.traceStep i _ m' = r' at htrace
      cases htrace with
      | halted h => exact .failed h
      | excused h => exact .excused h
      | @done m₀ m₀' h =>
        have hstep := step_follows hf i t ts (C.tick h)
        dsimp only
        generalize step f i t ts m₀.tick = st, step f' i _ _ m₀'.tick = st' at hstep
        cases hstep with
        | excused h => exact .excused (C.excusesFailure_blame hts.head h _)
        | @halt why m₁ m₁' h =>
          dsimp only
          rw [C.stack_eq h, Halt.blame_relocate]
          exact .failed h
        | @next j m₁ m₁' h =>
          dsimp only
          split
          · exact ih (i + 1) (j - (i + 1)) hts.tail h
          · exact .back h

private theorem Frame.Follows.runFrom {f f' : Frame} (hf : f.Follows C f') {p : Program} (hp : C.Admits p)
    (patience index : Nat) {m m' : Machine} (hm : C.machine m m') :
    Run.Follows C (f.runFrom p patience index m) (f'.runFrom (Program.relocate C.origin p) patience index m') := by
  induction patience using Nat.strongRecOn generalizing index m m' with
  | ind patience ih =>
    have hwalk := walk_follows hf 0 index hp hm
    unfold Frame.runFrom
    generalize walk f 0 index p m = w, walk f' 0 index _ m' = w' at hwalk
    cases hwalk with
    | ended h => exact .done h
    | failed h => exact .halted h
    | excused h => exact .excused h
    | @back j _ _ h =>
      cases patience with
      | zero => exact .halted h
      | succ patience => exact ih patience (by omega) j h

theorem Frame.Follows.run {f f' : Frame} (hf : f.Follows C f') {p : Program} (hp : C.Admits p) {m m' : Machine}
    (hm : C.machine m m') : Run.Follows C (f.run p m) (f'.run (Program.relocate C.origin p) m') := by
  unfold Frame.run
  rw [hf.patience_eq]
  exact hf.runFrom hp f.settings.patience 0 hm

/-- Settings under which programs run like they do under others.  They may be looser, if the faults that are then not
raised are excuses. -/
structure Settings.Follows (C : Likeness) (s s' : Settings) : Prop where
  body?_eq (name : String) : s'.words.body? name = (s.words.body? name).map (Program.relocate C.origin)
  admits : s.words.Forall C.Admits
  strict : s'.strict = s.strict ∨ s.strict = true ∧ ∀ name, C.excuses (.undefinedWord name)
  maxDepth : s'.maxDepth = s.maxDepth ∨ s.maxDepth ≤ s'.maxDepth ∧ ∀ name limit, C.excuses (.tooDeep name limit)
  patience_eq : s'.patience = s.patience
  hasRoom : s'.hasRoom = s.hasRoom ∨ (∀ k, s.hasRoom k = true → s'.hasRoom k = true) ∧ C.excusesOverflow
  traceStep (depth height height' : Nat) (call call' : (height : Nat) → String → Program → Machine → Run Halt) (i : Nat)
    {p : Program} (hp : C.Admits p) {m m' : Machine} (hm : C.machine m m') :
    Run.Follows C (Frame.traceStep ⟨s, depth, height, call⟩ i p m)
      (Frame.traceStep ⟨s', depth, height', call'⟩ i (Program.relocate C.origin p) m')
  traceCall (depth : Nat) (name : String) {body : Program} (hb : C.Admits body) {m m' : Machine}
    (hm : C.machine m m') :
    Run.Follows C (s.traceCall depth name body m) (s'.traceCall depth name (Program.relocate C.origin body) m')
  traceEnd {m m' : Machine} (hm : C.machine m m') :
    Run.Follows C (if s.verbosity = 0 then .done m else m.trace 0 "  ✓".toList [])
      (if s'.verbosity = 0 then .done m' else m'.trace 0 "  ✓".toList [])

/-- The second host has room wherever the first has, and where that is short of room it excuses the second. -/
private theorem Settings.Follows.hasRoom_cases {s s' : Settings} (hs : s.Follows C s') {k k' : Nat}
    (hk : C.Lower k k') :
    s.hasRoom k = true ∧ s'.hasRoom k' = true ∨
      s.hasRoom k = false ∧ (s'.hasRoom k' = false ∨ C.excusesOverflow) := by
  cases h : s.hasRoom k with
  | true =>
    have hle : k' ≤ k := hk.elim Nat.le_of_eq And.left
    have hroom := hs.hasRoom.elim (fun e => (congrFun e k).trans h) fun hmore => hmore.1 k h
    exact .inl ⟨rfl, Settings.hasRoom_of_le hle hroom⟩
  | false =>
    refine .inr ⟨rfl, ?_⟩
    rcases hk with rfl | ⟨-, hexcuse⟩
    · exact hs.hasRoom.imp (fun e => (congrFun e _).trans h) And.right
    · exact .inr hexcuse

/-- Calls are alike as far as they nest: both have as much room, or the first may have less and is excused. -/
theorem callWord_follows {s s' : Settings} (hs : s.Follows C s') {room room' : Nat}
    (hroom : room' = room ∧ s'.maxDepth = s.maxDepth ∨ room ≤ room' ∧ ∀ name limit, C.excuses (.tooDeep name limit))
    (depth : Nat) {k k' : Nat} (hk : C.Lower k k') {name : String} {body : Program}
    (hb : s.words.body? name = some body) {m m' : Machine} (hm : C.machine m m') (j : Nat) :
    Step.Follows C (.ofRun j (callWord s room depth k name body m))
      (.ofRun j (callWord s' room' depth k' name (Program.relocate C.origin body) m')) := by
  induction room generalizing room' depth k k' name body m m' j with
  | zero =>
    rcases hs.hasRoom_cases hk with ⟨h, h'⟩ | ⟨h, h' | hexcuse⟩
    · rcases hroom with ⟨rfl, hmax⟩ | ⟨-, hexcuse⟩
      · simp only [callWord, h, h', hmax]
        exact .halt hm
      · simp only [callWord, h]
        exact .excused (hexcuse name s.maxDepth)
    · cases room' <;> simp only [callWord, h, h'] <;> exact .halt hm
    · simp only [callWord, h]
      exact .excused hexcuse
  | succ room ih =>
    obtain ⟨room', rfl⟩ : ∃ n, room' = n + 1 := ⟨room' - 1, by omega⟩
    have hroom' : room' = room ∧ s'.maxDepth = s.maxDepth ∨
        room ≤ room' ∧ ∀ name limit, C.excuses (.tooDeep name limit) :=
      hroom.imp (fun h => ⟨by omega, h.2⟩) fun h => ⟨by omega, h.2⟩
    rcases hs.hasRoom_cases hk with ⟨h, h'⟩ | ⟨h, h' | hexcuse⟩
    · have htrace := hs.traceCall depth name (hs.admits.body? hb) hm
      simp only [callWord, h, h', ↓reduceIte]
      generalize s.traceCall depth name body m = r, s'.traceCall depth name _ m' = r' at htrace
      cases htrace with
      | halted h => exact .halt h
      | excused h => exact .excused h
      | @done m₀ m₀' h =>
        -- within the call there is less room for calls
        have hf : Frame.Follows C ⟨s, depth + 1, k + callFrames, callWord s room (depth + 1)⟩
            ⟨s', depth + 1, k' + callFrames, callWord s' room' (depth + 1)⟩ :=
          { body?_eq := hs.body?_eq
            strict := hs.strict
            patience_eq := hs.patience_eq
            lower := hk.add callFrames
            traceStep := hs.traceStep (depth + 1) _ _ _ _
            call := fun hk _ _ hb _ _ hm j => ih hroom' (depth + 1) hk hb hm j }
        have hrun := hf.run (hs.admits.body? hb) h
        dsimp only
        generalize Frame.run _ body m₀ = r, Frame.run _ _ m₀' = r' at hrun
        cases hrun with
        | done h => exact .next h
        | halted h => exact .halt h
        | excused h => exact .excused h
    · simp only [callWord, h, h']
      exact .halt hm
    · simp only [callWord, h]
      exact .excused hexcuse

/-- The frames of alike settings are alike, at the same depth and with as many frames taken up or less. -/
theorem Settings.Follows.frame {s s' : Settings} (hs : s.Follows C s') : s.frame.Follows C s'.frame where
  body?_eq := hs.body?_eq
  strict := hs.strict
  patience_eq := hs.patience_eq
  lower := .inl rfl
  traceStep := hs.traceStep 0 _ _ _ _
  call hk _ _ hb _ _ hm j := by
    refine callWord_follows hs ?_ 0 hk hb hm j
    exact hs.maxDepth.imp (fun h => ⟨by rw [h], h⟩) fun h => ⟨by omega, h.2⟩

/-- Under alike settings, programs run alike on alike machines. -/
theorem interpret_follows {s s' : Settings} (hs : s.Follows C s') {p : Program} (hp : C.Admits p) {m m' : Machine}
    (hm : C.machine m m') :
    Run.Follows C (interpret s p m) (interpret s' (Program.relocate C.origin p) m') := by
  have hrun := hs.frame.run hp hm
  unfold interpret
  generalize s.frame.run p m = r, s'.frame.run _ m' = r' at hrun
  cases hrun with
  | halted h => exact .halted h
  | excused h => exact .excused h
  | done h => exact hs.traceEnd h

end Catena
