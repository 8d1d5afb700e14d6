import Catena.Session

/-!
# Values given out and taken in

A value that is given out as a plain one is the same when it is taken in again (`Value.toValue_toPlain`), although a
single number goes out bare and other numbers in a list.  Plain values are pushed one by one, and those that can be
taken in are on the stack before the next one is looked at (`Session.push_append`).  So a stack that is given out can be
put on top of any other, and values up to the first that cannot be taken in stay pushed (`Session.push_toPlain`).
-/

namespace Catena

theorem Plain.mapM_toNumber (xs : List Float) : (xs.map Plain.number).mapM Plain.toNumber = .ok xs := by
  have hpure : Plain.toNumber ∘ Plain.number = fun x => (pure x : Except ConversionError Float) := rfl
  rw [List.mapM_map, hpure, List.mapM_pure]
  simp only [List.map_id']
  rfl

/-- Plain values each of which can be taken in are taken in as a list of values. -/
theorem Plain.exists_values {ps : List Plain} (h : ∀ q ∈ ps, ∃ v, q.toValue = .ok v) :
    ∃ values : List Value, ps.map Plain.toValue = values.map Except.ok := by
  induction ps with
  | nil => exact ⟨[], rfl⟩
  | cons p ps ih =>
    obtain ⟨v, hv⟩ := h p (List.mem_cons_self ..)
    obtain ⟨values, hvalues⟩ := ih fun q hq => h q (List.mem_cons_of_mem p hq)
    exact ⟨v :: values, by rw [List.map_cons, List.map_cons, hv, hvalues]⟩

/-- A value that is given out and taken in again is the same. -/
theorem Value.toValue_toPlain (v : Value) : v.toPlain.toValue = .ok v := by
  unfold Value.toPlain
  split
  · rfl
  · rfl
  · rw [Plain.toValue, Plain.mapM_toNumber]
    rfl

namespace Session

/-- Plain values that can all be taken in are on the stack, the last on top, before any others are pushed. -/
theorem push_append {before : List Plain} {values : List Value}
    (h : before.map Plain.toValue = values.map Except.ok) (s : Session) (after : List Plain) :
    s.push (before ++ after) = { s with stack := values.reverse ++ s.stack }.push after := by
  induction before generalizing values s with
  | nil =>
    cases values with
    | nil => rfl
    | cons v values => cases h
  | cons p before ih =>
    cases values with
    | nil => cases h
    | cons v values =>
      obtain ⟨hp, hbefore⟩ := List.cons.inj h
      have hstep : s.push (p :: (before ++ after)) = { s with stack := v :: s.stack }.push (before ++ after) := by
        rw [push, hp]
      rw [List.cons_append, hstep, ih hbefore, List.reverse_cons, List.append_assoc]
      rfl

theorem map_toValue_toPlain (s : Session) : s.toPlain.map Plain.toValue = s.stack.reverse.map Except.ok := by
  unfold toPlain
  rw [List.map_map]
  exact List.map_congr_left fun v _ => v.toValue_toPlain

/-- A stack that is given out can be put on top of any other, exactly as it was.  And if the values before the one at an
index can be taken in and that one cannot, the stack is left with exactly these on top. -/
theorem push_toPlain (source target : Session) :
    target.push source.toPlain = ({ target with stack := source.stack ++ target.stack }, none) ∧
    ∀ (ps : List Plain) (i : Nat) (p : Plain) (e : ConversionError), ps[i]? = some p → p.toValue = .error e →
      (∀ q ∈ ps.take i, ∃ v, q.toValue = .ok v) →
      ∃ values : List Value, (ps.take i).map Plain.toValue = values.map Except.ok ∧
        target.push ps = ({ target with stack := values.reverse ++ target.stack }, some e) := by
  constructor
  · have hpush := push_append source.map_toValue_toPlain target []
    rw [List.append_nil, List.reverse_reverse] at hpush
    exact hpush
  · intro ps i p e hp he hbefore
    obtain ⟨values, hvalues⟩ := Plain.exists_values hbefore
    refine ⟨values, hvalues, ?_⟩
    obtain ⟨hi, rfl⟩ := List.getElem?_eq_some_iff.1 hp
    have hsplit : ps = ps.take i ++ ps[i] :: ps.drop (i + 1) := by
      rw [← List.drop_eq_getElem_cons hi, List.take_append_drop]
    calc target.push ps = target.push (ps.take i ++ ps[i] :: ps.drop (i + 1)) := by rw [← hsplit]
      _ = { target with stack := values.reverse ++ target.stack }.push (ps[i] :: ps.drop (i + 1)) :=
        push_append hvalues ..
      _ = ({ target with stack := values.reverse ++ target.stack }, some e) := by rw [push, he]

/-- A list whose second item is no number stops what is pushed behind a flag, a text and an empty list; the number
behind it is not looked at.  The stack that is left can be given out and pushed again. -/
theorem push_toPlain_up_to_list :
    let ps : List Plain := [.flag true, .text ['a'], .list [], .list [.integer 1, .text ['x']], .number 2]
    let s : Session := { stack := [.scalar 7] }
    s.push ps = ({ s with stack := [.numeric [], .character ['a'], .scalar 1, .scalar 7] }, some (.malformed ['x'])) ∧
      s.push (s.push ps).1.toPlain = ({ s with stack :=
        [.numeric [], .character ['a'], .scalar 1, .scalar 7, .scalar 7] }, none) := by
  intro ps s
  have hbefore : ∀ q ∈ ps.take 3, ∃ v, q.toValue = .ok v := by
    intro q hq
    simp only [ps, List.take, List.mem_cons, List.not_mem_nil, or_false] at hq
    rcases hq with rfl | rfl | rfl
    · exact ⟨.scalar 1, rfl⟩
    · exact ⟨.character ['a'], rfl⟩
    · exact ⟨.numeric [], rfl⟩
  obtain ⟨values, hvalues, hpush⟩ := (push_toPlain s s).2 ps 3 _ (.malformed ['x']) rfl rfl hbefore
  have htaken : values.map Except.ok = [.scalar 1, .character ['a'], .numeric []].map Except.ok := hvalues.symm
  obtain rfl := (List.map_inj_right fun _ _ h => Except.ok.inj h).1 htaken
  refine ⟨hpush, ?_⟩
  rw [hpush]
  exact (push_toPlain _ s).1

end Session

end Catena
