import Catena.Words

/-!
# What holds of every body in a dictionary

A body that a dictionary gives for a name stands in one of its entries, and defining words adds no bodies but theirs.
So what holds of all bodies goes on to hold as long as it holds of those that are added (`Words.Forall.insertAll`).
-/

namespace Catena.Words

/-- The property holds of every body in the dictionary. -/
def Forall (P : Program → Prop) (w : Words) : Prop := ∀ e ∈ w.entries, P e.2

variable {P : Program → Prop} {w : Words}

theorem forall_empty : Forall P {} := by
  intro e he
  cases he

theorem mem_entries_of_body? {name : String} {body : Program} (hb : w.body? name = some body) :
    (name, body) ∈ w.entries := by
  obtain ⟨l₁, l₂, hl, -⟩ := List.lookup_eq_some_iff.1 hb
  rw [hl]
  simp

theorem Forall.body? (h : w.Forall P) {name : String} {body : Program} (hb : w.body? name = some body) : P body :=
  h (name, body) (mem_entries_of_body? hb)

private theorem mem_define {es : List (String × Program)} {name : String} {body : Program} {e : String × Program}
    (h : e ∈ define name body es) : e ∈ es ∨ e = (name, body) := by
  induction es with
  | nil => exact .inr (by simpa [define] using h)
  | cons first es ih =>
    rw [define] at h
    split at h
    · rcases List.mem_cons.1 h with rfl | h
      · exact .inr rfl
      · exact .inl (List.mem_cons_of_mem first h)
    · rcases List.mem_cons.1 h with rfl | h
      · exact .inl (List.mem_cons_self ..)
      · exact (ih h).imp_left (List.mem_cons_of_mem first)

/-- The entries of a dictionary to which definitions were added are old ones or among the definitions. -/
theorem mem_insertAll {es : List (String × Program)} {e : String × Program} (h : e ∈ (w.insertAll es).entries) :
    e ∈ w.entries ∨ e ∈ es := by
  induction es generalizing w with
  | nil => exact .inl h
  | cons first es ih =>
    rcases ih h with h | h
    · rcases mem_define h with h | rfl
      · exact .inl h
      · exact .inr (List.mem_cons_self ..)
    · exact .inr (List.mem_cons_of_mem first h)

theorem mem_ofList {es : List (String × Program)} {e : String × Program} (h : e ∈ (ofList es).entries) : e ∈ es :=
  (mem_insertAll h).resolve_left (List.not_mem_nil)

theorem Forall.insertAll (h : w.Forall P) {entries : List (String × Program)} (he : ∀ e ∈ entries, P e.2) :
    (w.insertAll entries).Forall P :=
  fun e hmem => (mem_insertAll hmem).elim (h e) (he e)

theorem forall_ofList {entries : List (String × Program)} (he : ∀ e ∈ entries, P e.2) : (ofList entries).Forall P :=
  forall_empty.insertAll he

end Catena.Words
