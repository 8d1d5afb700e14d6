import Catena.Proofs.Effects
import Mathlib.Data.List.Zip

/-!
# Broadcasting

Where two arrays are combined item by item, each of them starts over at its end until the longer one has ended, so that
the item of an array at any index is the one at the remainder of the index by its length.  `cycleFrom_drop` says so of
one step, which goes on from the last item to the first, and `getElem?_cycleFrom_drop` of all the items that are taken.
Side by side the arrays give the pairs of these items (`getElem?_alongside`), whichever is longer and also if its length
is no multiple of the other's, and the operators combine the pairs (`broadcast_cyclic`).

The order of two numbers matters for a difference and a quotient only (`Operator.itemwise?_comm`), and so does the order
of the two arrays on a stack (`Operator.apply_exchange`).
-/

namespace Catena

/-! ### Sums and products -/

namespace Number

open Float.Model Float.Model.UnpackedFloat

theorem plus_comm (x y : Float) : x + y = y + x := by
  have hunpacked (a b : UnpackedFloat) : a.add Format.binary64 b = b.add Format.binary64 a := by
    cases a <;> cases b
    case infinity.infinity s t | zero.zero s t => cases s <;> cases t <;> rfl
    case finite.finite s m e _ t n k _ =>
      -- both sums are made over the lesser of the two exponents, and what is rounded is a sum of integers
      show normalize Format.binary64
          (s.apply (decreaseExponent m e (min e k)).1 + t.apply (decreaseExponent n k (min e k)).1) (min e k)
          .positive =
        normalize Format.binary64
          (t.apply (decreaseExponent n k (min k e)).1 + s.apply (decreaseExponent m e (min k e)).1) (min k e) .positive
      rw [Int.min_comm k e, Int.add_comm]
    all_goals rfl
  exact congrArg (fun a => Float.ofModel (pack a)) (hunpacked x.toModel.unpack y.toModel.unpack)

theorem times_comm (x y : Float) : x * y = y * x := by
  have hsign (s t : Sign) : s * t = t * s := by cases s <;> cases t <;> rfl
  have hunpacked (a b : UnpackedFloat) : a.mul Format.binary64 b = b.mul Format.binary64 a := by
    cases a <;> cases b
    case infinity.infinity s t | infinity.finite s t _ _ _ | finite.infinity s _ _ _ t =>
      exact congrArg infinity (hsign s t)
    case zero.zero s t | zero.finite s t _ _ _ | finite.zero s _ _ _ t => exact congrArg zero (hsign s t)
    case finite.finite s m e _ t n k _ =>
      show roundWithAccuracy Format.binary64 (s * t) (m * n) (e + k) .exact =
        roundWithAccuracy Format.binary64 (t * s) (n * m) (k + e) .exact
      rw [hsign, Nat.mul_comm, Int.add_comm]
    all_goals rfl
  exact congrArg (fun a => Float.ofModel (pack a)) (hunpacked x.toModel.unpack y.toModel.unpack)

end Number

/-! ### Starting over -/

section Cycling

variable {α : Type} {full : List α}

theorem cycleFrom_nil (full : List α) (n : Nat) : cycleFrom full n [] = cycleFrom full n full := by
  cases n with
  | zero => rfl
  | succ n => cases full <;> rfl

/-- One item is taken, and the next one is behind it, or the first one behind the last. -/
theorem cycleFrom_drop {k : Nat} (hk : k < full.length) (n : Nat) :
    cycleFrom full (n + 1) (full.drop k) = full[k] :: cycleFrom full n (full.drop ((k + 1) % full.length)) := by
  have hstep : cycleFrom full (n + 1) (full.drop k) = full[k] :: cycleFrom full n (full.drop (k + 1)) := by
    rw [List.drop_eq_getElem_cons hk]
    rfl
  by_cases hnext : k + 1 < full.length
  · rw [hstep, Nat.mod_eq_of_lt hnext]
  · have hlast : k + 1 = full.length := by omega
    rw [hstep, hlast, Nat.mod_self, List.drop_length, cycleFrom_nil, List.drop_zero]

theorem getElem?_cycleFrom_drop {n k i : Nat} (hk : k < full.length) (hi : i < n) :
    (cycleFrom full n (full.drop k))[i]? = full[(k + i) % full.length]? := by
  -- on how many items are taken, from any start, since after a step the others are taken from the next index
  induction n generalizing k i with
  | zero => omega
  | succ n ih =>
    rw [cycleFrom_drop hk]
    cases i with
    | zero => rw [List.getElem?_cons_zero, Nat.add_zero, Nat.mod_eq_of_lt hk, List.getElem?_eq_getElem hk]
    | succ i =>
      have hnext : (k + 1) % full.length < full.length := Nat.mod_lt _ (by omega)
      have hsum : k + 1 + i = k + (i + 1) := by omega
      rw [List.getElem?_cons_succ, ih hnext (by omega), Nat.mod_add_mod, hsum]

theorem getElem?_cycleFrom (hfull : full ≠ []) {n i : Nat} (hi : i < n) :
    (cycleFrom full n full)[i]? = full[i % full.length]? := by
  have hstart := getElem?_cycleFrom_drop (List.length_pos_iff.2 hfull) hi
  rwa [List.drop_zero, Nat.zero_add] at hstart

end Cycling

/-! ### Two arrays side by side -/

section Alongside

variable {α : Type} {left right : List α}

theorem alongside_eq_nil (h : left = [] ∨ right = []) : alongside left right = [] := by
  rcases h with rfl | rfl <;> simp [alongside]

theorem alongside_eq_zip (hleft : left ≠ []) (hright : right ≠ []) :
    let n := max left.length right.length
    alongside left right = (cycleFrom left n left).zip (cycleFrom right n right) := by
  simp [alongside, hleft, hright]

theorem length_alongside (hleft : left ≠ []) (hright : right ≠ []) :
    (alongside left right).length = max left.length right.length := by
  rw [alongside_eq_zip hleft hright, List.length_zip, length_cycleFrom hleft, length_cycleFrom hright, Nat.min_self]

theorem getElem?_alongside (hleft : left ≠ []) (hright : right ≠ []) {i : Nat}
    (hi : i < max left.length right.length) :
    ∃ x y, left[i % left.length]? = some x ∧ right[i % right.length]? = some y ∧
      (alongside left right)[i]? = some (x, y) := by
  have hx := List.getElem?_eq_getElem (Nat.mod_lt i (List.length_pos_iff.2 hleft))
  have hy := List.getElem?_eq_getElem (Nat.mod_lt i (List.length_pos_iff.2 hright))
  refine ⟨_, _, hx, hy, ?_⟩
  rw [alongside_eq_zip hleft hright, List.getElem?_zip_eq_some, getElem?_cycleFrom hleft hi,
    getElem?_cycleFrom hright hi]
  exact ⟨hx, hy⟩

theorem alongside_swap (left right : List α) : alongside right left = (alongside left right).map Prod.swap := by
  simp only [alongside, Bool.or_comm right.isEmpty, Nat.max_comm right.length]
  split
  · rfl
  · exact (List.zip_swap ..).symm

end Alongside

/-! ### Items combined -/

theorem broadcast_swap {f : Float → Float → Float} (hf : ∀ x y, f x y = f y x) (left right : List Float) :
    broadcast f right left = broadcast f left right := by
  unfold broadcast
  rw [alongside_swap, List.map_map]
  exact List.map_congr_left fun p _ => hf p.2 p.1

/-- With an empty array there is nothing to combine.  Otherwise there are as many results as the longer array has items,
and the result at an index combines the items at the remainders of this index by the two lengths.  If the order of two
items does not matter, neither does that of two arrays. -/
theorem broadcast_cyclic (f : Float → Float → Float) (left right : List Float) :
    (left = [] ∨ right = [] → broadcast f left right = []) ∧
    (left ≠ [] → right ≠ [] →
      (broadcast f left right).length = max left.length right.length ∧
      ∀ i < max left.length right.length, ∃ x y, left[i % left.length]? = some x ∧ right[i % right.length]? = some y ∧
        (broadcast f left right)[i]? = some (f x y)) ∧
    ((∀ x y, f x y = f y x) → broadcast f right left = broadcast f left right) := by
  refine ⟨fun h => ?_, fun hleft hright => ⟨?_, fun i hi => ?_⟩, fun hf => broadcast_swap hf left right⟩
  · rw [broadcast, alongside_eq_nil h]
    rfl
  · rw [broadcast, List.length_map, length_alongside hleft hright]
  · obtain ⟨x, y, hx, hy, hpair⟩ := getElem?_alongside hleft hright hi
    refine ⟨x, y, hx, hy, ?_⟩
    rw [broadcast, List.getElem?_map, hpair]
    rfl

/-- Two items against five: the shorter array ends in the middle of its third round. -/
theorem broadcast_cyclic_third_round :
    let left : List Float := [10, 20]
    let right : List Float := [1, 2, 3, 4, 5]
    left ≠ [] ∧ right ≠ [] ∧ (∀ x y : Float, x + y = y + x) ∧
      (broadcast (· + ·) left right).length = 5 ∧ (broadcast (· + ·) left right)[3]? = some 24 ∧
      broadcast (· + ·) right left = broadcast (· + ·) left right := by
  intro left right
  have hleft : left ≠ [] := List.cons_ne_nil _ _
  have hright : right ≠ [] := List.cons_ne_nil _ _
  obtain ⟨-, hitems, hswap⟩ := broadcast_cyclic (· + ·) left right
  obtain ⟨hlength, hitem⟩ := hitems hleft hright
  obtain ⟨x, y, hx, hy, hsum⟩ := hitem 3 (by decide)
  have htwenty : left[3 % left.length]? = some 20 := by decide +kernel
  have hfour : right[3 % right.length]? = some 4 := by decide +kernel
  obtain rfl := Option.some.inj (hx.symm.trans htwenty)
  obtain rfl := Option.some.inj (hy.symm.trans hfour)
  exact ⟨hleft, hright, Number.plus_comm, hlength, hsum.trans (by decide +kernel), hswap Number.plus_comm⟩

namespace Operator

/-- Items may be exchanged, except for those of a difference or a quotient. -/
theorem itemwise?_comm {op : Operator} {f : Float → Float → Float} (hf : op.itemwise? = some f) (hminus : op ≠ minus)
    (hdivide : op ≠ divide) (x y : Float) : f x y = f y x := by
  cases op with
  | plus =>
    cases hf
    exact Number.plus_comm x y
  | minus => exact absurd rfl hminus
  | multiply =>
    cases hf
    exact Number.times_comm x y
  | divide => exact absurd rfl hdivide
  | both =>
    cases hf
    exact congrArg truth (Bool.and_comm ..)
  | either =>
    cases hf
    exact congrArg truth (Bool.or_comm ..)
  | _ => cases hf

/-- The two arrays on top of a stack may be exchanged before an operator that goes item by item, except for minus and
divide. -/
theorem apply_exchange {op : Operator} {f : Float → Float → Float} (hf : op.itemwise? = some f) (hminus : op ≠ minus)
    (hdivide : op ≠ divide) (xs ys : List Float) (below : Stack) :
    op.apply (.numeric xs :: .numeric ys :: below) = op.apply (.numeric ys :: .numeric xs :: below) := by
  have hxs : op.apply (.numeric xs :: .numeric ys :: below) = .ok (.numeric (broadcast f ys xs) :: below) :=
    (Computes.itemwise hf).apply_eq below
  have hys : op.apply (.numeric ys :: .numeric xs :: below) = .ok (.numeric (broadcast f xs ys) :: below) :=
    (Computes.itemwise hf).apply_eq below
  rw [hxs, hys, broadcast_swap (itemwise?_comm hf hminus hdivide)]

end Operator

end Catena
