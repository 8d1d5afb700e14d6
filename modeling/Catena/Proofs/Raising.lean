import Catena.Proofs.Blame

/-!
# Where faults come from

A token raises a fault because it calls a word that may not be called, calls a word that is not defined, refers to no
builtin, or for what it finds on the stack and in the program (`Raised`).  A repetition raises what the token after it
raises, so that the token in question may be one of those that follow (`raised_of_step`).  A run that fails comes to
raise a fault (`exists_raises_of_interpret`), which is that of a token of the program that was started or of the body of
a word (`Raises.exists_raised`, `Raises.runsWith`).
-/

namespace Catena

/-- Why one of the given tokens raises a fault. -/
inductive Raised (f : Frame) (ts : Program) : Fault → Prop where
  | refused {k : Nat} {name : String} {o : Origin} {body : Program} {cause : Fault} {m m' : Machine}
      (ht : .word name o ∈ ts) (hb : f.settings.words.body? name = some body)
      (hc : f.call k name body m = .halted (.raised cause) m') : Raised f ts cause
  | undefined {name : String} {o : Origin} (ht : .word name o ∈ ts) (hb : f.settings.words.body? name = none)
      (hs : f.settings.strict = true) : Raised f ts (.undefinedWord name)
  | unknown {ref : Reference} {target : Option Nat} {o : Origin} (ht : .builtin ref target o ∈ ts)
      (hr : ref.resolve? = none) : Raised f ts (.unknownBuiltin ref.name)
  | own {cause : Fault} (hname : cause.category ≠ .name) (hdepth : cause.category ≠ .recursion) : Raised f ts cause

theorem Raised.mono {f : Frame} {ts ts' : Program} {cause : Fault} (h : Raised f ts cause) (hts : ts ⊆ ts') :
    Raised f ts' cause := by
  cases h with
  | refused ht hb hc => exact .refused (hts ht) hb hc
  | undefined ht hb hs => exact .undefined (hts ht) hb hs
  | unknown ht hr => exact .unknown (hts ht) hr
  | own hname hdepth => exact .own hname hdepth

/-- The height at which a token is run does not matter to what it raises. -/
theorem Raised.of_repeating {f : Frame} {ts : Program} {cause : Fault} (h : Raised f.repeating ts cause) :
    Raised f ts cause := by
  cases h with
  | refused ht hb hc => exact .refused ht hb hc
  | undefined ht hb hs => exact .undefined ht hb hs
  | unknown ht hr => exact .unknown ht hr
  | own hname hdepth => exact .own hname hdepth

/-! ### Faults of builtins -/

private theorem Operator.misfit?_cases {op : Operator} {position : Nat} {inputs : List Operand} {s : Stack}
    {cause : Fault} (h : op.misfit? position inputs s = some cause) :
    ∃ expected k found, cause = .wrongOperand op expected k found := by
  fun_induction Operator.misfit? op position inputs s with
  | case1 position expected inputs v s hfits ih => exact ih h
  | case2 position expected inputs v s hfits =>
    cases h
    exact ⟨expected, position, v.variant, rfl⟩
  | case3 => cases h

private theorem Operator.results_cases {op : Operator} {operands : List Value} {cause : Fault}
    (h : op.results operands = .error cause) :
    cause = .concatEmpty ∨ ∃ left right, cause = .concatMixed left right := by
  unfold Operator.results at h
  split at h
  · split at h
    · cases h
    · rename_i top below
      have hc := map_eq_error h
      unfold Operator.concatenate at hc
      split at hc
      · cases hc
        exact .inl rfl
      · split at hc
        · cases hc
        · cases hc
        · cases hc
          exact .inr ⟨_, _, rfl⟩
    · cases h
    · cases h
  · split at h <;> cases h
  · cases h

/-- What is wrong with the operands of an operator concerns neither names nor calls. -/
private theorem Operator.raised_of_apply {op : Operator} {s s' : Stack} {cause : Fault}
    (h : op.apply s = .error (cause, s')) (f : Frame) (ts : Program) : Raised f ts cause := by
  unfold Operator.apply at h
  split at h
  · cases h
  · rename_i inputs results _
    cases hr : op.refusal? inputs s with
    | some fault =>
      simp only [hr] at h
      cases h
      unfold Operator.refusal? at hr
      split at hr
      · cases hr
        exact .own nofun nofun
      · obtain ⟨expected, k, found, rfl⟩ := Operator.misfit?_cases hr
        exact .own nofun nofun
    | none =>
      simp only [hr] at h
      split at h
      · cases h
      · rename_i fault hresults
        cases h
        rcases Operator.results_cases hresults with rfl | ⟨left, right, rfl⟩ <;> exact .own nofun nofun

private theorem Value.raised_of_count {v : Value} {cause : Fault} (h : v.count = .error cause) (f : Frame)
    (ts : Program) : Raised f ts cause := by
  unfold Value.count at h
  split at h <;> cases h <;> exact .own nofun nofun

private theorem raiseShowing_raised {fault : String → Fault} {ref : Reference} {o : Origin} {cause : Fault}
    (h : raiseShowing fault ref o = .raised cause) : ∃ spelling, cause = fault spelling := by
  cases ref with
  | known b =>
    cases h
    exact ⟨_, rfl⟩
  | named name => cases h

private theorem branch_raised {ref : Reference} {target : Option Nat} {o : Origin} {i : Nat} {m m' : Machine}
    {cause : Fault} (h : branch ref target o i m = .halt (.raised cause) m') (f : Frame) (ts : Program) :
    Raised f ts cause := by
  unfold branch at h
  split at h
  · obtain ⟨spelling, rfl⟩ := raiseShowing_raised (Step.halt.inj h).1
    exact .own nofun nofun
  · dsimp only at h
    split at h
    · cases h
    · split at h
      · cases h
      · obtain ⟨spelling, rfl⟩ := raiseShowing_raised (Step.halt.inj h).1
        exact .own nofun nofun

/-! ### Faults of a step -/

/-- A token raises a fault itself, or repeats a token that does.  A repetition does not repeat another one. -/
theorem step_raised_cases {f : Frame} {i : Nat} {t : Token} {ts : Program} {m m' : Machine} {cause : Fault}
    (h : step f i t ts m = .halt (.raised cause) m') :
    Raised f [t] cause ∨ ∃ u us m₁, t.repeats = true ∧ u.isRepetition = false ∧ ts = u :: us ∧
      step f.repeating (i + 1) u us m₁ = .halt (.raised cause) m' := by
  have htake : Takes f.settings (fun k name body m r => f.call k name body m = r) f.height i t ts m
      (.halt (.raised cause) m') := h ▸ takes_step (fun _ _ _ _ _ => rfl) i t ts m
  have hmem : t ∈ [t] := List.mem_singleton_self t
  generalize hr : Step.halt (.raised cause) m' = r at htake
  cases htake with
  | called hb hc => exact .inl (.refused hmem hb (hc.trans (Step.ofRun_eq_halt hr.symm)))
  | undefined hb hs =>
    cases hr
    exact .inl (.undefined hmem hb hs)
  | unknown href =>
    cases hr
    exact .inl (.unknown hmem href)
  | branch => exact .inl (branch_raised hr.symm f _)
  | operatorFails _ ha =>
    cases hr
    exact .inl (Operator.raised_of_apply ha f _)
  | badCount _ _ hv =>
    cases hr
    exact .inl (Value.raised_of_count hv f _)
  | noCount | nothingToRepeat | repeatsControl =>
    obtain ⟨spelling, rfl⟩ := raiseShowing_raised (Step.halt.inj hr).1.symm
    exact .inl (.own nofun nofun)
  | repetition href hm hv hb =>
    simp only [step, href, hm, hv, hb, Bool.false_eq_true, ↓reduceIte] at h
    obtain ⟨k, m₁, -, -, hhalt⟩ := repeatStep_eq_halted_iff.1 (Step.ofRun_eq_halt h)
    exact .inr ⟨_, _, m₁, by simp [Token.repeats, href], (Bool.or_eq_false_iff.1 hb).2, rfl, hhalt.trans hr⟩
  | _ => cases hr

/-- A fault of a step is raised by the token that is run or, behind repetitions, by one that follows. -/
theorem raised_of_step {f : Frame} {i : Nat} {t : Token} {ts : Program} {m m' : Machine} {cause : Fault}
    (h : step f i t ts m = .halt (.raised cause) m') : Raised f (t :: ts) cause := by
  induction ts generalizing f i t m with
  | nil =>
    rcases step_raised_cases h with hraised | ⟨u, us, m₁, -, -, hnil, -⟩
    · exact hraised
    · cases hnil
  | cons u us ih =>
    rcases step_raised_cases h with hraised | ⟨_, _, m₁, -, -, hcons, hhalt⟩
    · exact hraised.mono (List.cons_subset_cons t (List.nil_subset _))
    · obtain ⟨rfl, rfl⟩ := List.cons.inj hcons
      exact (ih hhalt).of_repeating.mono (List.subset_cons_self ..)

/-- A call is refused with a fault at the limit, where the host has room for it, and for no other reason. -/
theorem Settings.frameAt_call_raised {s : Settings} {depth height k : Nat} {name : String} {body : Program}
    {m m' : Machine} {cause : Fault} (h : (s.frameAt depth height).call k name body m = .halted (.raised cause) m') :
    s.maxDepth ≤ depth ∧ s.hasRoom k = true ∧ cause = .tooDeep name s.maxDepth := by
  rcases frameAt_call_halted_cases h with ⟨-, hwhy⟩ | ⟨hroom, hle, hwhy⟩ | ⟨_, hwhy, -⟩ | ⟨-, -, _, _, hwhy, -⟩ <;>
    cases hwhy
  exact ⟨hle, hroom, rfl⟩

/-! ### Faults of a run -/

/-- A run that fails, but not for want of room in the host, comes to raise a fault, and the failure is blamed for it. -/
theorem exists_raises_of_interpret {s : Settings} (hs : s.words.Forall Program.IsSound) {p : Program} (hp : p.IsSound)
    {m m' : Machine} {why : Failure} (hwhy : why ≠ .overflowed) (h : interpret s p m = .halted why m') :
    ∃ callers a cause, Raises s 0 0 p 0 m callers a cause m' ∧ a.Blames cause m'.stack why :=
  exists_raises_of_run (Settings.blamesWithin hs 0) hp hwhy (run_of_interpret h)

/-- The programs that run when a program does: itself, and the bodies of words. -/
def Program.RunsWith (w : Words) (p q : Program) : Prop := q = p ∨ ∃ name, w.body? name = some q

theorem Raises.runsWith {s : Settings} {depth height : Nat} {p : Program} {i : Nat} {m m' : Machine}
    {callers : List Activation} {a : Activation} {cause : Fault} (h : Raises s depth height p i m callers a cause m') :
    p.RunsWith s.words a.program := by
  rcases h.innermost with ⟨-, hp⟩ | ⟨-, hbody⟩
  · exact .inl hp
  · exact .inr hbody

/-- The fault is raised by the step of the token that the innermost program is at, at whatever depth that is running. -/
theorem Raises.exists_step {s : Settings} {depth height : Nat} {p : Program} {i : Nat} {m m' : Machine}
    {callers : List Activation} {a : Activation} {cause : Fault} (h : Raises s depth height p i m callers a cause m') :
    ∃ depth height t m₀, a.program[a.index]? = some t ∧
      step (s.frameAt depth height) a.index t (a.program.drop (a.index + 1)) m₀ = .halt (.raised cause) m' := by
  induction h with
  | here ht _ hs => exact ⟨_, _, _, _, ht, hs⟩
  | inside _ _ _ _ _ _ _ ih => exact ih
  | next _ _ _ _ ih => exact ih

/-- The fault is raised by a token of the innermost program. -/
theorem Raises.exists_raised {s : Settings} {depth height : Nat} {p : Program} {i : Nat} {m m' : Machine}
    {callers : List Activation} {a : Activation} {cause : Fault} (h : Raises s depth height p i m callers a cause m') :
    ∃ depth height, Raised (s.frameAt depth height) a.program cause := by
  obtain ⟨depth, height, t, m₀, ht, hs⟩ := h.exists_step
  refine ⟨depth, height, (raised_of_step hs).mono ?_⟩
  rw [← drop_eq_cons ht]
  exact List.drop_subset a.index a.program

end Catena
