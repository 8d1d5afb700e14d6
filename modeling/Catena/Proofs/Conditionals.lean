import Catena.Proofs.Agreement
import Catena.Proofs.Matching

/-!
# Conditionals are structured

A conditional with a block of its own, in which every conditional and every marker is paired, takes the marker behind
that block (`pair_conditional`).  So a run goes through the block and on behind the marker if the condition holds, and
otherwise goes on behind the marker at once (`interpret_conditional`), whatever conditionals stand in the block.
-/

namespace Catena

namespace Program

/-- A condition, a conditional with its block and its marker, and what follows. -/
def conditional (c : Value) (b rest : Program) (o o' o'' : Origin) : Program :=
  [.data c o, .builtin (.known .conditional) none o'] ++ b ++ [.builtin (.known .forward) none o''] ++ rest

theorem IsFresh.conditional {b rest : Program} (hb : b.IsFresh) (hrest : rest.IsFresh) (c : Value) (o o' o'' : Origin) :
    (conditional c b rest o o' o'').IsFresh := by
  intro t ht
  simp only [Program.conditional, List.mem_append, List.mem_cons, List.not_mem_nil, or_false] at ht
  rcases ht with (((rfl | rfl) | ht) | rfl) | ht
  · exact ⟨rfl, rfl⟩
  · exact ⟨rfl, rfl⟩
  · exact hb t ht
  · exact ⟨rfl, rfl⟩
  · exact hrest t ht

/-- Every conditional and every marker of a program is paired within it. -/
def IsPaired (p : Program) : Prop :=
  (pair p).IsClosed ∧ ∀ j < p.length, p[j]?.any Token.isForward → ∃ i < p.length, (pair p).partner? i = some j

instance (p : Program) : Decidable p.IsPaired := inferInstanceAs (Decidable (_ ∧ _))

/-- A program in which all is paired leaves no marker open. -/
theorem IsPaired.markers_eq_nil {b : Program} (hb : ∀ t ∈ b, t.isFresh) (h : b.IsPaired) (i : Nat) :
    (pairFrom i b).2 = [] := by
  have hopen : (pairFrom 0 b).2 = [] := by
    cases hm : (pairFrom 0 b).2 with
    | nil => rfl
    | cons j markers =>
      -- the conditional of the first open marker would have its partner before it
      obtain ⟨inner, u, rest, hsplit, hinner, hu, hj, -⟩ := exists_balanced_of_markers hm
      rw [Nat.zero_add] at hj
      have hget : b[j]? = some u := by
        rw [hsplit, hj, List.getElem?_append_right (Nat.le_refl _)]
        simp
      have htake : (b.take j).drop 0 = inner := by
        rw [List.drop_zero, hsplit, hj, List.take_left]
      obtain ⟨k, -, hk⟩ := h.2 j (List.getElem?_eq_some_iff.1 hget).1 (by rw [hget]; exact hu)
      rw [partner?_pair_iff fun t ht _ => Token.target?_of_isFresh (hb t ht)] at hk
      obtain ⟨t, ht, hc⟩ := hk.conditional
      obtain ⟨l, hl, hlj⟩ := (htake ▸ hinner).exists_encloses (Nat.zero_le k) hk.lt ht hc
      have := hk.unique hl
      omega
  have hadd := pairFrom_add hb 0 i
  rw [Nat.zero_add] at hadd
  rw [hadd, hopen]
  rfl

theorem IsClosed.map_shift {p : Program} (h : p.IsClosed) (k : Nat) : IsClosed (p.map (Token.shift k)) := by
  intro t ht hc
  obtain ⟨u, hu, rfl⟩ := List.mem_map.1 ht
  rw [Token.isConditional_shift] at hc
  have htarget := h u hu hc
  cases u with
  | builtin ref target origin => simpa [Token.shift, Token.target?] using htarget
  | _ => cases htarget

/-- A conditional that is followed by a paired block and a marker jumps to that marker. -/
theorem pair_conditional {b rest : Program} (hb : b.IsFresh) (hpaired : b.IsPaired) (hrest : rest.IsFresh) (c : Value)
    (o o' o'' : Origin) :
    pair (conditional c b rest o o' o'') =
      .data c o :: .builtin (.known .conditional) (some (2 + b.length)) o' :: ((pair b).map (Token.shift 2) ++
        .builtin (.known .forward) none o'' :: (pair rest).map (Token.shift (2 + b.length + 1))) := by
  have hclosed : IsClosed (pairFrom 2 b).1 := by
    rw [pairFrom_eq_shift hb.isFresh]
    exact hpaired.1.map_shift 2
  have hblock := pairFrom_append hb.isFresh (.builtin (.known .forward) none o'' :: rest) 2 hclosed
  have hmarker : pairFrom (2 + b.length) (.builtin (.known .forward) none o'' :: rest) =
      (.builtin (.known .forward) none o'' :: (pairFrom (2 + b.length + 1) rest).1,
        (2 + b.length) :: (pairFrom (2 + b.length + 1) rest).2) := rfl
  rw [hpaired.markers_eq_nil hb.isFresh, List.nil_append, hmarker, pairFrom_eq_shift hb.isFresh,
    pairFrom_eq_shift hrest.isFresh] at hblock
  have hassoc : conditional c b rest o o' o'' =
      .data c o :: .builtin (.known .conditional) none o' :: (b ++ .builtin (.known .forward) none o'' :: rest) := by
    simp [conditional]
  rw [hassoc]
  simp [pair, pairFrom, hblock, Token.isForward, Token.isConditional, Token.withTarget]

end Program

/-! ### Blocks in a walk -/

@[simp] theorem Token.isKnown_shift (k : Nat) (t : Token) : (t.shift k).isKnown = t.isKnown := by
  cases t with
  | builtin ref target origin => cases ref <;> rfl
  | _ => rfl

/-- What does not depend on targets is the same in a block, wherever it stands. -/
private theorem map_block {β : Type} {g : Token → β} (hw : ∀ t j, g (t.withTarget j) = g t)
    (hs : ∀ k t, g (Token.shift k t) = g t) (k : Nat) (b : Program) :
    ((Program.pair b).map (Token.shift k)).map g = b.map g := by
  rw [List.map_map, ← Program.map_pair hw b]
  exact List.map_congr_left fun t _ => hs k t

/-- A walk comes to the end of a block, unless it fails there, and goes on behind it. -/
theorem walk_block_append {f : Frame} (hf : f.settings.verbosity = 0) {b : Program} (hb : ∀ t ∈ b, t.isFresh)
    (hl : ∀ t, b.getLast? = some t → t.isRepetition = false) (k : Nat) (after : Program) (m : Machine) :
    walk f k 0 ((Program.pair b).map (Token.shift k) ++ after) m =
      ((walk f 0 0 (Program.pair b) m).shift k).andThen (walk f (k + b.length) 0 after) := by
  have hknown : ∀ t ∈ (Program.pair b).map (Token.shift k), t.isKnown := by
    intro t ht
    have hmem : t.isKnown ∈ b.map Token.isKnown := by
      rw [← map_block Token.isKnown_withTarget Token.isKnown_shift k b]
      exact List.mem_map_of_mem ht
    obtain ⟨u, hu, e⟩ := List.mem_map.1 hmem
    rw [← e]
    exact Token.isKnown_of_isFresh (hb u hu)
  have hlast : ∀ t, ((Program.pair b).map (Token.shift k)).getLast? = some t → t.isRepetition = false := by
    intro t ht
    have hmap : (b.map Token.isRepetition).getLast? = some t.isRepetition := by
      rw [← map_block Token.isRepetition_withTarget Token.isRepetition_shift k b, List.getLast?_map, ht]
      rfl
    rw [List.getLast?_map, Option.map_eq_some_iff] at hmap
    obtain ⟨u, hu, e⟩ := hmap
    rw [← e]
    exact hl u hu
  have hlen : ((Program.pair b).map (Token.shift k)).length = b.length := by
    rw [List.length_map]
    exact length_pairFrom 0 b
  have htarget : ∀ t ∈ (Program.pair b).map (Token.shift k), ∀ j, t.target? = some j →
      j < k + ((Program.pair b).map (Token.shift k)).length := by
    intro t ht j hj
    obtain ⟨u, hu, rfl⟩ := List.mem_map.1 ht
    cases u with
    | builtin ref target origin =>
      obtain ⟨l, hl, rfl⟩ := Option.map_eq_some_iff.1 hj
      have := Program.target?_lt_of_mem_pair hb hu hl
      rw [List.length_map]
      omega
    | _ => cases hj
  have hshift := walk_shift hf 0 k 0 (Program.pair b) m
  rw [Nat.zero_add] at hshift
  rw [walk_append hf hknown hlast htarget _ (Nat.zero_le _), hlen, hshift]

/-! ### The run of a conditional -/

section

variable {s : Settings} (hs : s.verbosity = 0) {b rest : Program} (hb : b.IsFresh) (hpaired : b.IsPaired)
  (hrest : rest.IsFresh) (c : Value) (o o' o'' : Origin) (m : Machine)

include hs hb hpaired hrest

/-- A run comes to the block of a conditional, or passes over it, with the condition gone. -/
private theorem interpret_conditional_eq_walk :
    interpret s (Program.pair (.conditional c b rest o o' o'')) m =
      (walk s.frame 2 (if c.holds then 0 else b.length + 1) ((Program.pair b).map (Token.shift 2) ++
        .builtin (.known .forward) none o'' :: (Program.pair rest).map (Token.shift (2 + b.length + 1)))
        m.tick.tick).toRun := by
  rw [interpret_of_quiet hs (hb.conditional hrest c o o' o'').isSound_pair.1, Program.pair_conditional hb hpaired hrest]
  generalize (Program.pair b).map (Token.shift 2) ++ _ = block
  have hquiet : ∀ i p m, s.frame.traceStep i p m = .done m := s.frame.traceStep_of_quiet hs
  have hdata : step s.frame 0 (.data c o) (.builtin (.known .conditional) (some (2 + b.length)) o' :: block) m.tick =
      .next 1 (m.tick.push c) := by simp only [step]
  have hbranch : step s.frame 1 (.builtin (.known .conditional) (some (2 + b.length)) o') block (m.tick.push c).tick =
      .next (if c.holds then 2 else 2 + b.length + 1) m.tick.tick := by
    simp only [step, Reference.resolve?, branch, Machine.push, Machine.tick, Machine.withStack]
    split <;> rfl
  rw [walk_of_next (hquiet _ _ _) hdata (by omega), Nat.sub_self,
    walk_of_next (hquiet _ _ _) hbranch (by split <;> omega)]
  congr 2
  split <;> omega

theorem interpret_conditional_of_holds (hl : ∀ t, b.getLast? = some t → t.isRepetition = false) (hc : c.holds) :
    interpret s (Program.pair (.conditional c b rest o o' o'')) m =
      (interpret s (Program.pair b) m.tick.tick).andThen fun m => interpret s (Program.pair rest) m.tick := by
  rw [interpret_conditional_eq_walk hs hb hpaired hrest, hc, if_pos rfl, walk_block_append hs hb.isFresh hl,
    Walk.toRun_andThen, Walk.toRun_shift, ← interpret_of_quiet hs hb.isSound_pair.1]
  congr 1
  funext m'
  -- the marker is passed in one step
  have hmarker : step s.frame (2 + b.length) (.builtin (.known .forward) none o'')
      ((Program.pair rest).map (Token.shift (2 + b.length + 1))) m'.tick = .next (2 + b.length + 1) m'.tick := by
    simp only [step, Reference.resolve?]
  rw [walk_of_next (s.frame.traceStep_of_quiet hs _ _ _) hmarker (by omega), Nat.sub_self,
    toRun_walk_shift hs hrest.isFresh]

theorem interpret_conditional_of_not_holds (hc : c.holds = false) :
    interpret s (Program.pair (.conditional c b rest o o' o'')) m = interpret s (Program.pair rest) m.tick.tick := by
  have hlen : ((Program.pair b).map (Token.shift 2)).length = b.length := by
    rw [List.length_map]
    exact length_pairFrom 0 b
  have hdrop : ((Program.pair b).map (Token.shift 2) ++ Token.builtin (.known .forward) none o'' ::
      (Program.pair rest).map (Token.shift (2 + b.length + 1))).drop (b.length + 1) =
      (Program.pair rest).map (Token.shift (2 + b.length + 1)) := by
    rw [← hlen, List.drop_append]
    simp
  rw [interpret_conditional_eq_walk hs hb hpaired hrest, hc, if_neg (by simp), walk_skip, hdrop, ← Nat.add_assoc,
    toRun_walk_shift hs hrest.isFresh]

end

/-- A conditional is structured.  If one of the numbers of its condition is positive, it comes to running its block and
then, if that is done, what follows; and otherwise to running what follows alone.  The stack, what is printed and the
failure, if there is one, are the same. -/
theorem interpret_conditional {s : Settings} (hs : s.words.Forall Program.IsSound) {b rest : Program}
    (hb : b.IsFresh) (hpaired : b.IsPaired) (hl : ∀ t, b.getLast? = some t → t.isRepetition = false)
    (hrest : rest.IsFresh) (c : Value) (o o' o'' : Origin) (m : Machine) :
    let p := Program.pair (.conditional c b rest o o' o'')
    ((∃ x ∈ c.numbers, 0 < x) → Run.Agrees id (interpret s p m)
      ((interpret s (Program.pair b) m).andThen (interpret s (Program.pair rest)))) ∧
    ((∀ x ∈ c.numbers, ¬ 0 < x) → Run.Agrees id (interpret s p m) (interpret s (Program.pair rest) m)) := by
  intro p
  have hfresh := hb.conditional hrest c o o' o''
  have hrun : Run.Agrees id (interpret s p m) (interpret s.quiet p m) :=
    interpret_agrees hs hfresh.isSound_pair (.refl m)
  have hticks : m.tick.tick.Agrees m := (Machine.Agrees.refl m).tick.tick
  constructor
  · rintro ⟨x, hx, hpos⟩
    have hc : c.holds := List.any_eq_true.2 ⟨x, hx, decide_eq_true hpos⟩
    rw [interpret_conditional_of_holds (s := s.quiet) rfl hb hpaired hrest c o o' o'' m hl hc] at hrun
    refine hrun.trans ((interpret_quiet_agrees hs hb.isSound_pair hticks).andThen fun hm => ?_)
    exact interpret_quiet_agrees hs hrest.isSound_pair hm.tick
  · intro hnone
    have hc : c.holds = false := List.any_eq_false.2 fun x hx h => hnone x hx (of_decide_eq_true h)
    rw [interpret_conditional_of_not_holds (s := s.quiet) rfl hb hpaired hrest c o o' o'' m hc] at hrun
    exact hrun.trans (interpret_quiet_agrees hs hrest.isSound_pair hticks)

/-- The block `1 if 5 _ then dup` under the conditions `[-1 2]` and `"x"`, before `0 if w then +`, every step traced. -/
theorem interpret_conditional_nested :
    let known := fun b : Builtin => Token.builtin (.known b) none {}
    let number := fun x : Float => Token.data (.scalar x) {}
    let s : Settings := { words := .ofList [("w", .pair [known (.operator .clear)])], verbosity := 2 }
    let b : Program := [number 1, known .conditional, number 5, known .print, known .forward,
      known (.operator .duplicate)]
    let rest : Program := [number 0, known .conditional, .word "w" {}, known .forward, known (.operator .plus)]
    s.words.Forall Program.IsSound ∧ b.IsFresh ∧ b.IsPaired ∧ rest.IsFresh ∧
      Run.Agrees id (interpret s (Program.pair (.conditional (.numeric [-1, 2]) b rest {} {} {})) {})
        ((interpret s (Program.pair b) {}).andThen (interpret s (Program.pair rest))) ∧
      Run.Agrees id (interpret s (Program.pair (.conditional (.character ['x']) b rest {} {} {})) {})
        (interpret s (Program.pair rest) {}) := by
  intro known number s b rest
  have hs : s.words.Forall Program.IsSound := by
    refine Words.forall_ofList fun e he => ?_
    obtain rfl := List.mem_singleton.1 he
    exact Program.IsFresh.isSound_pair (by decide)
  have hb : b.IsFresh := by decide
  have hpaired : b.IsPaired := by decide
  have hrest : rest.IsFresh := by decide
  have hl : ∀ t, b.getLast? = some t → t.isRepetition = false := by
    intro t ht
    cases ht
    rfl
  refine ⟨hs, hb, hpaired, hrest, ?_, ?_⟩
  · exact (interpret_conditional hs hb hpaired hl hrest _ {} {} {} {}).1 ⟨2, by simp [Value.numbers], by decide⟩
  · exact (interpret_conditional hs hb hpaired hl hrest _ {} {} {} {}).2 (by simp [Value.numbers])

end Catena
