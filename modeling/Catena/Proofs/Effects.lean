import Catena.Operator

/-!
# Stack effects

An operator that takes operands does one of five things to a stack (`Operator.Acts`, `acts_apply`): it finds too few
operands, or one that does not fit, and then nothing has been taken; it is `concat` and its operands cannot be joined,
and then both are gone; or it puts what it computes from its operands in their place (`Operator.Computes`).  Which of
these it is, the effect of the operator tells, and every operator honours its effect (`apply_honours_effect`).
-/

namespace Catena

/-- How many results there are, given the operands. -/
def Results.count : Results → List Value → Nat
  | exactly n, _ => n
  | onePerItem, operands => operands.foldl (fun n v => n + v.length) 0

/-- The operand at a place from the top of the stack, counted from zero, is none that the input there admits. -/
def Misfits (inputs : List Operand) (s : Stack) (i : Nat) : Prop :=
  ∃ expected v, inputs[i]? = some expected ∧ s[i]? = some v ∧ expected.admits v.variant = false

namespace Operator

/-- What an operator does to a pair of numbers, if it goes item by item. -/
def itemwise? : Operator → Option (Float → Float → Float)
  | plus => some (· + ·)
  | minus => some (· - ·)
  | multiply => some (· * ·)
  | divide => some (· / ·)
  | both => some fun x y => truth (0 < x && 0 < y)
  | either => some fun x y => truth (0 < x || 0 < y)
  | _ => none

/-- An operator computes values from its operands, of which the deeper one comes first.  The values are in the order in
which they are pushed. -/
inductive Computes : Operator → (operands values : List Value) → Prop
  | itemwise {op f xs ys} (hf : itemwise? op = some f) :
      Computes op [.numeric xs, .numeric ys] [.numeric (broadcast f xs ys)]
  | equal {v w} : Computes .equal [v, w] [.scalar (truth (v.same w))]
  | numbers {xs ys} (hx : xs ≠ []) (hy : ys ≠ []) :
      Computes .concat [.numeric xs, .numeric ys] [.numeric (xs ++ ys)]
  | characters {cs ds} (hc : cs ≠ []) (hd : ds ≠ []) :
      Computes .concat [.character cs, .character ds] [.character (cs ++ ds)]
  | transmute {v} : Computes .transmute [v] v.split
  | duplicate {v} : Computes .duplicate [v] [v, v]
  | swap {v w} : Computes .swap [v, w] [w, v]
  | pop {v} : Computes .pop [v] []

/-- What an operator with the given inputs does to a stack: it leaves another one, or a fault and the stack at that
point. -/
inductive Acts (op : Operator) (inputs : List Operand) (s : Stack) : Except (Fault × Stack) Stack → Prop
  | tooFew (h : s.length < inputs.length) : Acts op inputs s (.error (.tooFewOperands op inputs.length s.length, s))
  | misfit {i expected v} (hlen : inputs.length ≤ s.length) (hi : inputs[i]? = some expected) (hv : s[i]? = some v)
      (h : expected.admits v.variant = false) (hfirst : ∀ j < i, ¬ Misfits inputs s j) :
      Acts op inputs s (.error (.wrongOperand op expected (i + 1) v.variant, s))
  | computed {operands values below} (hs : s = operands.reverse ++ below) (h : op.Computes operands values) :
      Acts op inputs s (.ok (values.reverse ++ below))
  | empty {v w below} (hop : op = .concat) (hs : s = w :: v :: below) (h : v.length = 0 ∨ w.length = 0) :
      Acts op inputs s (.error (.concatEmpty, below))
  | mixed {v w below} (hop : op = .concat) (hs : s = w :: v :: below) (hv : v.length ≠ 0) (hw : w.length ≠ 0)
      (h : v.variant ≠ w.variant) : Acts op inputs s (.error (.concatMixed v.variant w.variant, below))

/-! ### Checks -/

section Checks

variable {op : Operator} {inputs : List Operand} {s : Stack}

private theorem misfits_zero {expected : Operand} {v : Value} :
    Misfits (expected :: inputs) (v :: s) 0 ↔ expected.admits v.variant = false := by
  simp [Misfits]

private theorem misfits_succ {expected : Operand} {v : Value} {i : Nat} :
    Misfits (expected :: inputs) (v :: s) (i + 1) ↔ Misfits inputs s i := by
  simp [Misfits]

/-- The check finds the first operand that does not fit, if there is one. -/
private theorem misfit?_spec (op : Operator) (k : Nat) (inputs : List Operand) (s : Stack) :
    (op.misfit? k inputs s = none ∧ ∀ i, ¬ Misfits inputs s i) ∨
    ∃ i expected v, inputs[i]? = some expected ∧ s[i]? = some v ∧ expected.admits v.variant = false ∧
      (∀ j < i, ¬ Misfits inputs s j) ∧ op.misfit? k inputs s = some (.wrongOperand op expected (k + i) v.variant) := by
  induction inputs generalizing k s with
  | nil => exact .inl ⟨by simp only [misfit?], fun i ⟨_, _, hi, _⟩ => by cases hi⟩
  | cons expected inputs ih =>
    cases s with
    | nil => exact .inl ⟨by simp only [misfit?], fun i ⟨_, _, _, hv, _⟩ => by cases hv⟩
    | cons v s =>
      rw [misfit?]
      cases hadmits : expected.admits v.variant with
      | false => exact .inr ⟨0, expected, v, rfl, rfl, hadmits, fun j hj => by omega, rfl⟩
      | true =>
        -- the operand on top fits, and in what is left the others are one place nearer to the top
        have hzero : ¬ Misfits (expected :: inputs) (v :: s) 0 := by simp [misfits_zero, hadmits]
        rcases ih (k + 1) s with ⟨hnone, hall⟩ | ⟨i, expected', v', hi, hv, ha, hfirst, hsome⟩
        · refine .inl ⟨hnone, fun i => ?_⟩
          cases i with
          | zero => exact hzero
          | succ i =>
            rw [misfits_succ]
            exact hall i
        · refine .inr ⟨i + 1, expected', v', hi, hv, ha, fun j hj => ?_, ?_⟩
          · cases j with
            | zero => exact hzero
            | succ j =>
              rw [misfits_succ]
              exact hfirst j (by omega)
          · rw [if_pos rfl, hsome, Nat.add_right_comm, Nat.add_assoc]

private theorem refusal?_of_lt (h : s.length < inputs.length) :
    op.refusal? inputs s = some (.tooFewOperands op inputs.length s.length) := by
  unfold refusal?
  rw [if_pos (by rw [List.length_take]; omega)]

private theorem refusal?_of_le (h : inputs.length ≤ s.length) : op.refusal? inputs s = op.misfit? 1 inputs s := by
  unfold refusal?
  rw [if_neg (by rw [List.length_take]; omega)]

end Checks

/-! ### What is computed -/

theorem effect_of_itemwise? {op : Operator} {f : Float → Float → Float} (h : op.itemwise? = some f) :
    op.effect = .operands [.numeric, .numeric] (.exactly 1) := by
  cases op with
  | plus | minus | multiply | divide | both | either => rfl
  | _ => cases h

theorem results_of_itemwise? {op : Operator} {f : Float → Float → Float} (h : op.itemwise? = some f) (v w : Value) :
    op.results [w, v] = .ok [.numeric (broadcast f v.numbers w.numbers)] := by
  cases op with
  | plus | minus | multiply | divide | both | either =>
    cases h
    rfl
  | _ => cases h

variable {op : Operator} {inputs : List Operand} {results : Results} {s : Stack}

/-- An operator with two operands that fit does nothing but replace them with its results. -/
private theorem apply_pair {first second : Operand} (he : op.effect = .operands [first, second] results) {v w : Value}
    (hw : first.admits w.variant) (hv : second.admits v.variant) (below : Stack) :
    op.apply (w :: v :: below) = ((op.results [w, v]).map (·.reverse ++ below)).mapError (·, below) := by
  have hcheck : op.refusal? [first, second] (w :: v :: below) = none := by simp [refusal?, misfit?, hw, hv]
  simp only [apply, he, hcheck, List.length_cons, List.length_nil, List.take_succ_cons, List.take_zero,
    List.drop_succ_cons, List.drop_zero]
  cases op.results [w, v] <;> rfl

/-- An operator takes its operands off the stack and pushes what it computes from them. -/
theorem Computes.apply_eq {operands values : List Value} (h : op.Computes operands values) (below : Stack) :
    op.apply (operands.reverse ++ below) = .ok (values.reverse ++ below) := by
  cases h with
  | @itemwise op f xs ys hf =>
    have happly := apply_pair (effect_of_itemwise? hf) (v := .numeric xs) (w := .numeric ys) rfl rfl below
    rw [results_of_itemwise? hf] at happly
    exact happly
  | numbers hx hy =>
    obtain ⟨x, xs, rfl⟩ := List.exists_cons_of_ne_nil hx
    obtain ⟨y, ys, rfl⟩ := List.exists_cons_of_ne_nil hy
    rfl
  | characters hc hd =>
    obtain ⟨c, cs, rfl⟩ := List.exists_cons_of_ne_nil hc
    obtain ⟨d, ds, rfl⟩ := List.exists_cons_of_ne_nil hd
    rfl
  | _ => rfl

/-- What is computed takes and makes as many values as the effect says. -/
theorem Computes.length_eq {operands values : List Value} (h : op.Computes operands values)
    (he : op.effect = .operands inputs results) :
    operands.length = inputs.length ∧ values.length = results.count operands := by
  cases h with
  | itemwise hf =>
    rw [effect_of_itemwise? hf] at he
    cases he
    exact ⟨rfl, rfl⟩
  | @transmute v =>
    cases he
    refine ⟨rfl, ?_⟩
    cases v <;> simp [Value.split, Results.count, Value.length]
  | _ =>
    cases he
    exact ⟨rfl, rfl⟩

private theorem apply_concat {v w : Value} {cause : Fault} (h : concatenate v w = .error cause) (below : Stack) :
    concat.apply (w :: v :: below) = .error (cause, below) := by
  have he : concat.effect = .operands [.any, .any] (.exactly 1) := rfl
  have hresults : concat.results [w, v] = .error cause := congrArg (Except.map ([·])) h
  rw [apply_pair he rfl rfl, hresults]
  rfl

private theorem apply_concat_of_empty {v w : Value} (h : v.length = 0 ∨ w.length = 0) (below : Stack) :
    concat.apply (w :: v :: below) = .error (.concatEmpty, below) := by
  refine apply_concat ?_ below
  unfold concatenate
  rw [if_pos (by simpa using h)]

private theorem apply_concat_of_mixed {v w : Value} (hv : v.length ≠ 0) (hw : w.length ≠ 0)
    (h : v.variant ≠ w.variant) (below : Stack) :
    concat.apply (w :: v :: below) = .error (.concatMixed v.variant w.variant, below) := by
  refine apply_concat ?_ below
  unfold concatenate
  rw [if_neg (by simp [hv, hw])]
  cases v <;> cases w <;> first | rfl | exact (h rfl).elim

/-! ### What an operator does -/

theorem Computes.acts {operands values : List Value} (h : op.Computes operands values) (below : Stack) :
    op.Acts inputs (operands.reverse ++ below) (op.apply (operands.reverse ++ below)) := by
  rw [h.apply_eq below]
  exact .computed rfl h

/-- Values are concatenated, unless one is empty or they are of different variants. -/
private theorem concat_cases (v w : Value) (below : Stack) :
    ((v.length = 0 ∨ w.length = 0) ∧ concat.apply (w :: v :: below) = .error (.concatEmpty, below)) ∨
    ((v.length ≠ 0 ∧ w.length ≠ 0 ∧ v.variant ≠ w.variant) ∧
      concat.apply (w :: v :: below) = .error (.concatMixed v.variant w.variant, below)) ∨
    ∃ values, concat.Computes [v, w] values := by
  by_cases hempty : v.length = 0 ∨ w.length = 0
  · exact .inl ⟨hempty, apply_concat_of_empty hempty below⟩
  · obtain ⟨hv, hw⟩ := not_or.1 hempty
    by_cases hmixed : v.variant ≠ w.variant
    · exact .inr (.inl ⟨⟨hv, hw, hmixed⟩, apply_concat_of_mixed hv hw hmixed below⟩)
    · have hne : ∀ {α : Type} {xs : List α}, xs.length ≠ 0 → xs ≠ [] := fun h => List.length_pos_iff.1 (by omega)
      refine .inr (.inr ?_)
      cases v with
      | numeric xs =>
        cases w with
        | numeric ys => exact ⟨_, .numbers (hne hv) (hne hw)⟩
        | character ds => exact (hmixed nofun).elim
      | character cs =>
        cases w with
        | numeric ys => exact (hmixed nofun).elim
        | character ds => exact ⟨_, .characters (hne hv) (hne hw)⟩

/-- If there are enough operands and all of them fit, the operator computes its results or cannot concatenate. -/
private theorem acts_of_fits (he : op.effect = .operands inputs results) (hlen : inputs.length ≤ s.length)
    (hfits : ∀ i, ¬ Misfits inputs s i) : op.Acts inputs s (op.apply s) := by
  cases hf : op.itemwise? with
  | some f =>
    rw [effect_of_itemwise? hf] at he
    cases he
    match s, hlen with
    | w :: v :: below, _ =>
      have hw := hfits 0
      have hv := hfits 1
      rw [misfits_zero] at hw
      rw [misfits_succ, misfits_zero] at hv
      cases v with
      | character cs => exact (hv rfl).elim
      | numeric xs =>
        cases w with
        | character ds => exact (hw rfl).elim
        | numeric ys => exact (Computes.itemwise hf).acts below
  | none =>
    cases op with
    | plus | minus | multiply | divide | both | either => cases hf
    | len | rotate | clear | clearButOne => cases he
    | equal =>
      cases he
      match s, hlen with
      | w :: v :: below, _ => exact Computes.equal.acts below
    | swap =>
      cases he
      match s, hlen with
      | w :: v :: below, _ => exact Computes.swap.acts below
    | concat =>
      cases he
      match s, hlen with
      | w :: v :: below, _ =>
        rcases concat_cases v w below with ⟨hempty, h⟩ | ⟨⟨hv, hw, hmixed⟩, h⟩ | ⟨values, hc⟩
        · exact h ▸ .empty rfl rfl hempty
        · exact h ▸ .mixed rfl rfl hv hw hmixed
        · exact hc.acts below
    | transmute =>
      cases he
      match s, hlen with
      | v :: below, _ => exact Computes.transmute.acts below
    | duplicate =>
      cases he
      match s, hlen with
      | v :: below, _ => exact Computes.duplicate.acts below
    | pop =>
      cases he
      match s, hlen with
      | v :: below, _ => exact Computes.pop.acts below

section Effects

variable (he : op.effect = .operands inputs results)

include he

private theorem apply_of_lt (h : s.length < inputs.length) :
    op.apply s = .error (.tooFewOperands op inputs.length s.length, s) := by
  simp only [apply, he, refusal?_of_lt h]

/-- What an operator does to a stack. -/
theorem acts_apply (s : Stack) : op.Acts inputs s (op.apply s) := by
  by_cases hlen : s.length < inputs.length
  · rw [apply_of_lt he hlen]
    exact .tooFew hlen
  · have hle : inputs.length ≤ s.length := by omega
    rcases misfit?_spec op 1 inputs s with ⟨-, hfits⟩ | ⟨i, expected, v, hi, hv, ha, hfirst, hsome⟩
    · exact acts_of_fits he hle hfits
    · simp only [apply, he, refusal?_of_le hle, hsome, Nat.add_comm 1 i]
      exact .misfit hle hi hv ha hfirst

theorem acts_of_apply {r : Except (Fault × Stack) Stack} (h : op.apply s = r) : op.Acts inputs s r :=
  h ▸ acts_apply he s

private theorem exists_apply_of_misfits (hlen : inputs.length ≤ s.length) {i : Nat} (h : Misfits inputs s i) :
    ∃ expected position found, op.apply s = .error (.wrongOperand op expected position found, s) := by
  rcases misfit?_spec op 1 inputs s with ⟨-, hfits⟩ | ⟨j, expected, v, -, -, -, -, hsome⟩
  · exact (hfits i h).elim
  · exact ⟨expected, 1 + j, v.variant, by simp only [apply, he, refusal?_of_le hlen, hsome]⟩

end Effects

/-- How an operator with the given inputs and results acts on a stack. -/
structure Honours (op : Operator) (inputs : List Operand) (results : Results) (s : Stack) : Prop where
  /-- There are too few operands exactly if the stack is shorter than the inputs, and then it stays as it is. -/
  stack_iff (left : Stack) : (∃ cause, op.apply s = .error (cause, left) ∧ cause.category = .stack) ↔
    s.length < inputs.length ∧ left = s
  /-- Otherwise an operand is refused exactly if one does not fit, and then the stack stays as it is. -/
  wrongOperand_iff (left : Stack) :
    (∃ expected position found, op.apply s = .error (.wrongOperand op expected position found, left)) ↔
      inputs.length ≤ s.length ∧ (∃ i, Misfits inputs s i) ∧ left = s
  /-- The operand that is refused is the first from the top that does not fit. -/
  first_refused {expected : Operand} {position : Nat} {found : Variant} {left : Stack}
    (h : op.apply s = .error (.wrongOperand op expected position found, left)) :
    ∃ i v, position = i + 1 ∧ inputs[i]? = some expected ∧ s[i]? = some v ∧ found = v.variant ∧
      expected.admits v.variant = false ∧ ∀ j < i, ¬ Misfits inputs s j
  /-- Operators whose operands fit do not fail, but for concatenation, which has then taken its two operands. -/
  eq_concat {cause : Fault} {left : Stack} (h : op.apply s = .error (cause, left)) (hlen : inputs.length ≤ s.length)
    (hfits : ∀ i, ¬ Misfits inputs s i) : op = .concat ∧ left = s.drop 2
  /-- Concatenation refuses empty operands. -/
  value_iff {v w : Value} {below : Stack} (hop : op = .concat) (hs : s = w :: v :: below) :
    (∃ cause left, op.apply s = .error (cause, left) ∧ cause.category = .value) ↔ v.length = 0 ∨ w.length = 0
  /-- Otherwise it refuses operands of different variants. -/
  type_iff {v w : Value} {below : Stack} (hop : op = .concat) (hs : s = w :: v :: below) :
    (∃ cause left, op.apply s = .error (cause, left) ∧ cause.category = .type) ↔
      v.length ≠ 0 ∧ w.length ≠ 0 ∧ v.variant ≠ w.variant
  /-- An operator that does not fail puts what it computes from its operands in their place, as many values as the
  effect says, and leaves what is below as it was. -/
  ok_iff (s' : Stack) : op.apply s = .ok s' ↔ ∃ operands values below, op.Computes operands values ∧
    operands.length = inputs.length ∧ values.length = results.count operands ∧
    s = operands.reverse ++ below ∧ s' = values.reverse ++ below

theorem honours_of_effect (he : op.effect = .operands inputs results) (s : Stack) : op.Honours inputs results s where
  stack_iff left := by
    constructor
    · rintro ⟨cause, h, hcause⟩
      cases acts_of_apply he h with
      | tooFew hlt => exact ⟨hlt, rfl⟩
      | _ => cases hcause
    · rintro ⟨h, rfl⟩
      exact ⟨_, apply_of_lt he h, rfl⟩
  wrongOperand_iff left := by
    constructor
    · rintro ⟨expected, position, found, h⟩
      cases acts_of_apply he h with
      | misfit hlen hi hv ha _ => exact ⟨hlen, ⟨_, _, _, hi, hv, ha⟩, rfl⟩
    · rintro ⟨hlen, ⟨i, hi⟩, rfl⟩
      exact exists_apply_of_misfits he hlen hi
  first_refused h := by
    cases acts_of_apply he h with
    | misfit _ hi hv ha hfirst => exact ⟨_, _, rfl, hi, hv, rfl, ha, hfirst⟩
  eq_concat h hlen hfits := by
    cases acts_of_apply he h with
    | tooFew hlt => omega
    | misfit _ hi hv ha _ => exact (hfits _ ⟨_, _, hi, hv, ha⟩).elim
    | empty hop hs _ => exact ⟨hop, by rw [hs]; rfl⟩
    | mixed hop hs _ _ _ => exact ⟨hop, by rw [hs]; rfl⟩
  value_iff {v w below} hop hs := by
    subst hop hs
    constructor
    · rintro ⟨cause, left, h, hcause⟩
      rcases concat_cases v w below with ⟨hempty, -⟩ | ⟨-, hmixed⟩ | ⟨values, hc⟩
      · exact hempty
      · cases hmixed.symm.trans h
        cases hcause
      · cases (hc.apply_eq below).symm.trans h
    · intro h
      exact ⟨_, _, apply_concat_of_empty h below, rfl⟩
  type_iff {v w below} hop hs := by
    subst hop hs
    constructor
    · rintro ⟨cause, left, h, hcause⟩
      rcases concat_cases v w below with ⟨-, hempty⟩ | ⟨hmixed, -⟩ | ⟨values, hc⟩
      · cases hempty.symm.trans h
        cases hcause
      · exact hmixed
      · cases (hc.apply_eq below).symm.trans h
    · rintro ⟨hv, hw, h⟩
      exact ⟨_, _, apply_concat_of_mixed hv hw h below, rfl⟩
  ok_iff s' := by
    constructor
    · intro h
      cases acts_of_apply he h with
      | computed hs hc => exact ⟨_, _, _, hc, (hc.length_eq he).1, (hc.length_eq he).2, hs, rfl⟩
    · rintro ⟨operands, values, below, hc, -, -, rfl, rfl⟩
      exact hc.apply_eq below

/-- Every operator honours its effect: it checks that there are enough operands and that they fit before it takes
any, and computes its results from the operands alone.  Operators on the whole stack do not fail. -/
theorem apply_honours_effect (op : Operator) (s : Stack) :
    (∀ inputs results, op.effect = .operands inputs results →
      (inputs.length = 1 ∨ inputs.length = 2) ∧ op.Honours inputs results s) ∧
    (op.effect = .wholeStack → ∃ s', op.apply s = .ok s') := by
  refine ⟨fun inputs results he => ⟨?_, honours_of_effect he s⟩, fun he => ⟨op.onStack s, by simp only [apply, he]⟩⟩
  cases op <;> cases he <;> simp

/-- The operand on top is subtracted from the other one, and a text below is left alone.  An empty array cannot be
concatenated to a text, and both are gone then.  An empty stack can be rotated. -/
theorem apply_honours_effect_minus_concat_rotate :
    minus.apply [.scalar 2, .numeric [5, 9], .character ['x']] = .ok [.numeric [3, 7], .character ['x']] ∧
    (∃ cause left, concat.apply [.numeric [], .character ['x'], .scalar 1] = .error (cause, left) ∧
      cause.category = .value ∧ left = [.scalar 1]) ∧
    ∃ s', rotate.apply [] = .ok s' := by
  have hminus := ((apply_honours_effect minus [.scalar 2, .numeric [5, 9], .character ['x']]).1 _ _ rfl).2
  have hconcat := ((apply_honours_effect concat [.numeric [], .character ['x'], .scalar 1]).1 _ _ rfl).2
  refine ⟨(hminus.ok_iff _).2 ?_, ?_, (apply_honours_effect rotate []).2 rfl⟩
  · exact ⟨[.numeric [5, 9], .scalar 2], _, [.character ['x']], .itemwise rfl, rfl, rfl, rfl, by decide +kernel⟩
  · obtain ⟨cause, left, h, hcause⟩ := (hconcat.value_iff rfl rfl).2 (.inr rfl)
    refine ⟨cause, left, h, hcause, (hconcat.eq_concat h (by decide) ?_).2⟩
    rintro i ⟨expected, v, hi, -, ha⟩
    match i, hi with
    | 0, rfl | 1, rfl => cases ha

end Operator

end Catena
