import Catena.Proofs.Lexing
import Catena.Proofs.Positions
import Catena.Proofs.Strictness

/-!
# The name and the place in a blame

An error is blamed by a name and a place.  The place is always that of the token that the innermost program is at.  The
name is the label of that token, except that an error about a word that is not defined has the name of the word.

A word that is run by itself is the token that the program is at, so that name and place are those of one token
(`Program.Names`).  A word that a repetition runs is not: the program is at the repetition, and the blame has the place
of the one and the name of the other (`Program.Divides`).  No other blame is divided, and a divided blame fits no token
at all (`interpret_blame_iff`).
-/

namespace Catena

namespace Program

/-- A program that comes from a source: it is read from one, or it is the body of a definition there. -/
def IsParsed (p : Program) : Prop :=
  ∃ source file line whole, parse source file line = .ok whole ∧ (p = whole ∨ ∃ name, (name, p) ∈ definitionsOf whole)

/-- A single token of a program has the place of a blame, and its label is the name in the blame. -/
def Names (p : Program) (blame : Blame) : Prop :=
  ∃ (i : Nat) (t : Token), p[i]? = some t ∧ t.label = blame.token ∧ t.origin = blame.origin ∧
    ∀ (j : Nat) (u : Token), p[j]? = some u → u.origin = blame.origin → j = i

/-- The place of a blame is that of a repetition, and the name is that of the word behind it, which is not defined. -/
def Divides (w : Words) (p : Program) (blame : Blame) : Prop :=
  ∃ (i : Nat) (t : Token) (o : Origin), p[i]? = some t ∧ t.isRepetition = true ∧ t.origin = blame.origin ∧
    p[i + 1]? = some (.word blame.token o) ∧ w.body? blame.token = none

end Program

/-! ### Texts and labels -/

/-- The text that a token has in its source fits the token: a word has its name, which spells no builtin, a builtin has
one of its spellings, and a definition has none. -/
def Token.IsSpelled : Token → Prop
  | .word name o => o.text = some name ∧ Builtin.ofSpelling? name = none
  | .builtin ref _ o => ∃ b text, ref = .known b ∧ o.text = some text ∧ Builtin.ofSpelling? text = some b
  | .definition _ _ o => ∃ text, o.text = some text ∧ Builtin.ofSpelling? text = none
  | .data .. => True
  | .other _ => False

/-- A token that stands in the source as a builtin does is shown as it stands there. -/
theorem Token.IsSpelled.label_eq {t : Token} (h : t.IsSpelled) {text : String} {b : Builtin}
    (ht : t.origin.text = some text) (hb : Builtin.ofSpelling? text = some b) : t.label = text := by
  cases t with
  | word name o => exact Option.some.inj (h.1.symm.trans ht)
  | data value o =>
    have htext : o.text = some text := ht
    simp only [Token.label, htext, Option.getD_some]
  | builtin ref target o =>
    have htext : o.text = some text := ht
    simp only [Token.label, Token.spelling, htext, Option.getD_some]
  | definition name body o =>
    obtain ⟨text', ht', hnone⟩ := h
    obtain rfl := Option.some.inj (ht'.symm.trans ht)
    rw [hnone] at hb
    cases hb
  | other text => exact h.elim

/-- No builtin is spelled like a definition. -/
private theorem ofSpelling?_definition {raw : List Char} (h : Spells .definition raw) :
    Builtin.ofSpelling? (String.ofList raw) = none := by
  have hall : ∀ b ∈ Builtin.all, ∀ s ∈ b.spellings, s.toList.head? ≠ some ':' := by decide
  refine Builtin.ofSpelling?_eq_none_iff.2 fun b hb => hall b b.mem_all _ hb ?_
  rw [h.inner_definition.1]
  simp

theorem readToken_isSpelled {depth : Nat} {file : Option String} {q : Piece} (hq : Spells q.shape q.raw) {t : Token}
    (h : readToken depth (q.toLexeme file) = .ok t) : t.IsSpelled := by
  obtain ⟨shape, raw, start⟩ := q
  cases shape with
  | definition =>
    obtain ⟨header, pieces, ts, -, -, -, rfl, -⟩ := readToken_definition_cases rfl h
    exact ⟨_, rfl, ofSpelling?_definition hq⟩
  | number =>
    unfold readToken at h
    obtain ⟨x, -, rfl⟩ := map_eq_ok h
    trivial
  | array =>
    unfold readToken at h
    obtain ⟨xs, -, rfl⟩ := map_eq_ok h
    trivial
  | string =>
    unfold readToken at h
    cases h
    trivial
  | symbol =>
    unfold readToken at h
    cases hb : Builtin.ofSpelling? (String.ofList raw) with
    | none =>
      simp only [Piece.toLexeme, Kind.ofSymbol, hb] at h
      cases h
      exact ⟨rfl, hb⟩
    | some b =>
      simp only [Piece.toLexeme, Kind.ofSymbol, hb] at h
      cases h
      exact ⟨b, _, rfl, rfl, hb⟩

namespace Program.IsParsed

variable {p : Program}

theorem isRead (h : p.IsParsed) : p.IsRead := by
  obtain ⟨source, file, line, whole, hparse, rfl | ⟨name, hp⟩⟩ := h
  · exact (isRead_of_parse hparse).1
  · exact (isRead_of_parse hparse).2 _ hp

theorem isSpelled (h : p.IsParsed) {t : Token} (ht : t ∈ p) : t.IsSpelled := by
  obtain ⟨source, file, line, whole, hparse, hp⟩ := h
  have hwith : ∀ (t : Token) j, (t.withTarget j).IsSpelled ↔ t.IsSpelled := by
    intro t j
    cases t <;> rfl
  obtain ⟨hwhole, hbodies⟩ := forall_of_parse hwith (fun hq _ ht => readToken_isSpelled hq ht) hparse
  rcases hp with rfl | ⟨name, hp⟩
  · exact hwhole t ht
  · exact hbodies _ hp t ht

theorem exists_placed (h : p.IsParsed) : ∃ source first lo hi, p.Placed source first lo hi := by
  obtain ⟨source, file, line, whole, hparse, rfl | ⟨name, hp⟩⟩ := h
  · exact ⟨source, line, 0, source.length, placed_of_parse hparse⟩
  · obtain ⟨ts, rfl, -⟩ := parse_eq_ok hparse
    obtain ⟨o, ho⟩ := mem_of_mem_definitionsOf hp
    obtain ⟨i, j, -, -, -, hbody⟩ := (placed_of_parse hparse).exists_body ho
    exact ⟨source, line, i + 1, j, hbody⟩

/-- No two tokens of a program have the same place. -/
theorem index_unique (h : p.IsParsed) {i j : Nat} {t u : Token} (ht : p[i]? = some t) (hu : p[j]? = some u)
    (ho : t.origin = u.origin) : i = j := by
  obtain ⟨source, first, lo, hi, hplaced⟩ := h.exists_placed
  obtain ⟨k, l, -, hkl, -, hspans⟩ := hplaced.exists_spans (List.mem_of_getElem? ht)
  have hpairs := List.pairwise_iff_getElem.1 hplaced.pairwise
  obtain ⟨hi, rfl⟩ := List.getElem?_eq_some_iff.1 ht
  obtain ⟨hj, rfl⟩ := List.getElem?_eq_some_iff.1 hu
  -- the one that comes later would have to start behind its own end
  rcases Nat.lt_trichotomy i j with hlt | heq | hlt
  · have hle := hpairs i j hi hj hlt k l k l hspans (ho ▸ hspans)
    omega
  · exact heq
  · have hle := hpairs j i hj hi hlt k l k l (ho ▸ hspans) hspans
    omega

end Program.IsParsed

/-! ### Names -/

theorem Fault.culprit?_eq_none {cause : Fault} (h : cause.category ≠ .name) : cause.culprit? = none := by
  cases cause with
  | undefinedWord name => exact absurd rfl h
  | unknownBuiltin name => exact absurd rfl h
  | _ => rfl

private theorem repeats_eq_isRepetition {t : Token} (h : t.unspelled? = none) : t.repeats = t.isRepetition := by
  refine Token.repeats_of_isKnown ?_
  cases t with
  | builtin ref target o =>
    cases ref with
    | known b => rfl
    | named name => cases h
  | _ => rfl

section

variable {s : Settings}

/-- A fault that a token raises is blamed under the label of any token, unless it is that of a word that is not
defined. -/
private theorem Raised.culprit?_cases {depth height : Nat} {t : Token} (ht : t.unspelled? = none) {cause : Fault}
    (h : Raised (s.frameAt depth height) [t] cause) :
    cause.culprit? = none ∨ ∃ name o, t = .word name o ∧ cause = .undefinedWord name ∧ s.strict = true ∧
      s.words.body? name = none := by
  by_cases hname : cause.category = .name
  · have hp : ∀ u ∈ [t], u.unspelled? = none := fun u hu => List.mem_singleton.1 hu ▸ ht
    obtain ⟨hstrict, name, o, hcause, hb, hmem⟩ := h.of_name hp hname
    exact .inr ⟨name, o, (List.mem_singleton.1 hmem).symm, hcause, hstrict, hb⟩
  · exact .inl (Fault.culprit?_eq_none hname)

/-- Where a fault is raised, name and place are those of the token that the program is at, or the token is a repetition
and the name is that of the word behind it. -/
private theorem Raises.label_or_divides {depth height : Nat} {p : Program} {i : Nat} {m m' : Machine}
    {callers : List Activation} {a : Activation} {cause : Fault} (h : Raises s depth height p i m callers a cause m')
    (hread : a.program.IsRead) {left : Stack} {why : Failure} (hblames : a.Blames cause left why) :
    ∃ blame t, why = .fault cause blame ∧ a.program[a.index]? = some t ∧ t.origin = blame.origin ∧
      (t.label = blame.token ∨
        s.strict = true ∧ cause = .undefinedWord blame.token ∧ a.program.Divides s.words blame) := by
  obtain ⟨depth, height, t, m₀, ht, hstep⟩ := h.exists_step
  obtain ⟨t', ht', rfl⟩ := hblames
  obtain rfl := Option.some.inj (ht.symm.trans ht')
  have hknown : ∀ u ∈ a.program, u.unspelled? = none := fun u hu => hread.isSound.unspelled?_eq_none hu
  refine ⟨_, t, rfl, ht, rfl, ?_⟩
  rcases step_raised_cases hstep with hraised | ⟨u, us, m₁, hrepeats, hnot, hdrop, hstep⟩
  · -- the token raises the fault itself
    left
    rcases hraised.culprit?_cases (hknown t (List.mem_of_getElem? ht)) with hnone | ⟨name, o, rfl, rfl, -, -⟩
    · simp [hnone]
    · have hne := hread.name_ne_empty (List.mem_of_getElem? ht)
      simp [Fault.culprit?, Option.filter, hne, Token.label]
  · have hu : a.program[a.index + 1]? = some u := by
      rw [← List.head?_drop, hdrop]
      rfl
    have hself : u.repeats = false := (repeats_eq_isRepetition (hknown u (List.mem_of_getElem? hu))).trans hnot
    have hraised : Raised (s.frameAt depth height) [u] cause := by
      rcases step_raised_cases hstep with hraised | ⟨_, _, _, hagain, -⟩
      · exact hraised.of_repeating
      · rw [hself] at hagain
        cases hagain
    rcases hraised.culprit?_cases (hknown u (List.mem_of_getElem? hu)) with hnone | ⟨name, o, rfl, rfl, hstrict, hb⟩
    · left
      simp [hnone]
    · right
      have hne := hread.name_ne_empty (List.mem_of_getElem? hu)
      have hname : ((Fault.undefinedWord name).culprit?.filter (· ≠ "")).getD t.label = name := by
        simp [Fault.culprit?, Option.filter, hne]
      have hrepetition : t.isRepetition = true :=
        (repeats_eq_isRepetition (hknown t (List.mem_of_getElem? ht))).symm.trans hrepeats
      rw [hname]
      exact ⟨hstrict, rfl, a.index, t, o, ht, hrepetition, rfl, hu, hb⟩

end

/-- A divided blame fits no token of a source: no word is spelled like a repetition. -/
private theorem Program.Divides.not_fits {w : Words} {p q : Program} {blame : Blame} (hp : p.IsParsed)
    (h : p.Divides w blame) (hq : q.IsParsed) {t : Token} (ht : t ∈ q) (ho : t.origin = blame.origin) :
    t.label ≠ blame.token := by
  obtain ⟨i, u, o, hu, hrepetition, huo, hword, -⟩ := h
  obtain ⟨b, text, htext, hb⟩ : ∃ b text, u.origin.text = some text ∧ Builtin.ofSpelling? text = some b := by
    have hspelled := hp.isSpelled (List.mem_of_getElem? hu)
    cases u with
    | builtin ref target o =>
      obtain ⟨b, text, -, htext, hb⟩ := hspelled
      exact ⟨b, text, htext, hb⟩
    | _ => cases hrepetition
  have hlabel : t.label = text := (hq.isSpelled ht).label_eq (by rw [ho, ← huo, htext]) hb
  obtain ⟨-, hnone⟩ := hp.isSpelled (List.mem_of_getElem? hword)
  rintro e
  rw [← e, hlabel, hb] at hnone
  cases hnone

/-- A failure is blamed on a single token, by its label and its place, in the program or in the body of a word, unless
the blame is divided between a repetition and the word behind it.  That happens in strict runs only, and the error is
that the word is not defined.  A failure that is not blamed at all is the host's, which lacks room for calls down to the
limit. -/
theorem interpret_blame_iff {s : Settings} (hs : s.words.Forall Program.IsParsed) {p : Program} (hp : p.IsParsed)
    {m m' : Machine} {why : Failure} (h : interpret s p m = .halted why m') :
    why = .overflowed ∧ s.hasRoomToLimit = false ∨ ∃ cause blame, why = .fault cause blame ∧
      ((∃ q, p.RunsWith s.words q ∧ q.Names blame) ↔ ¬ ∃ q, p.RunsWith s.words q ∧ q.Divides s.words blame) ∧
      ((∃ q, p.RunsWith s.words q ∧ q.Divides s.words blame) →
        s.strict = true ∧ cause = .undefinedWord blame.token) := by
  have hparsed : ∀ q, p.RunsWith s.words q → q.IsParsed := by
    rintro q (rfl | ⟨name, hb⟩)
    · exact hp
    · exact hs.body? hb
  have hsound : s.words.Forall Program.IsSound := fun e he => (hs e he).isRead.isSound
  refine (interpret_eq_halted hsound hp.isRead.isSound h).symm.imp_right ?_
  rintro ⟨_, _, hfault⟩
  obtain ⟨callers, a, cause, hraises, hblames⟩ :=
    exists_raises_of_interpret hsound hp.isRead.isSound (by simp [hfault]) h
  have ha := hraises.runsWith
  obtain ⟨blame, t, rfl, ht, ho, hcases⟩ := hraises.label_or_divides (hparsed _ ha).isRead hblames
  -- a divided blame leaves the second case only
  have hdivided : (∃ q, p.RunsWith s.words q ∧ q.Divides s.words blame) → t.label ≠ blame.token := by
    rintro ⟨q, hq, hdivides⟩
    exact hdivides.not_fits (hparsed q hq) (hparsed _ ha) (List.mem_of_getElem? ht) ho
  refine ⟨cause, blame, rfl, ⟨?_, fun hnot => ?_⟩, fun hdivides => ?_⟩
  · rintro ⟨q, hq, i, u, hu, hlabel, huo, -⟩ ⟨q', hq', hdivides⟩
    exact hdivides.not_fits (hparsed q' hq') (hparsed q hq) (List.mem_of_getElem? hu) huo hlabel
  · rcases hcases with hlabel | ⟨-, -, hdivides⟩
    · exact ⟨_, ha, a.index, t, ht, hlabel, ho, fun j u hu huo =>
        (hparsed _ ha).index_unique hu ht (huo.trans ho.symm)⟩
    · exact absurd ⟨_, ha, hdivides⟩ hnot
  · rcases hcases with hlabel | ⟨hstrict, hcause, -⟩
    · exact absurd hlabel (hdivided hdivides)
    · exact ⟨hstrict, hcause⟩

/-- The word that is not defined stands in the body of `f`, which the `do` repeats: the blame is that of one token, at
column 7, since the innermost program is at it. -/
theorem interpret_blame_iff_in_body :
    ∃ p, Program.parse ": f 1 nope ; 2 do f".toList none 1 = .ok p ∧
      let s : Settings := { words := .ofList (definitionsOf p), strict := true }
      let blame : Blame := ⟨"nope", ⟨some none, some 1, some 7, some "nope"⟩, [.scalar 1]⟩
      s.words.Forall Program.IsParsed ∧ p.IsParsed ∧
      (∃ m', interpret s p {} = .halted (.fault (.undefinedWord "nope") blame) m') ∧
      ∃ q, p.RunsWith s.words q ∧ q.Names blame := by
  have hrun : (Program.parse ": f 1 nope ; 2 do f".toList none 1).toOption.map (fun p =>
      ((interpret { words := .ofList (definitionsOf p), strict := true } p {}).blamed?,
        (p :: (Words.ofList (definitionsOf p)).entries.map (·.2)).all fun q => q.all fun t =>
          !t.isRepetition || t.origin.text ≠ some "nope")) =
      some (some (.undefinedWord "nope", ⟨"nope", ⟨some none, some 1, some 7, some "nope"⟩, [.scalar 1]⟩), true) := by
    decide +kernel
  cases hp : Program.parse ": f 1 nope ; 2 do f".toList none 1 with
  | error e =>
    rw [hp] at hrun
    cases hrun
  | ok p =>
    rw [hp] at hrun
    obtain ⟨hblamed, htexts⟩ := Prod.mk.inj (Option.some.inj hrun)
    have hparsed : p.IsParsed := ⟨_, _, _, p, hp, .inl rfl⟩
    refine ⟨p, rfl, ?_⟩
    intro s blame
    have hs : s.words.Forall Program.IsParsed :=
      Words.forall_ofList fun e he => ⟨_, _, _, p, hp, .inr ⟨e.1, he⟩⟩
    obtain ⟨m', hhalted⟩ := Run.eq_halted_of_blamed? hblamed
    obtain ⟨hover, -⟩ | ⟨cause, blame', hwhy, hiff, -⟩ := interpret_blame_iff hs hparsed hhalted
    · cases hover
    cases hwhy
    refine ⟨hs, hparsed, ⟨m', hhalted⟩, hiff.2 ?_⟩
    -- no repetition stands where the blame is
    rintro ⟨q, hq, i, t, o, ht, hrepetition, ho, -⟩
    have hmem : q ∈ p :: (Words.ofList (definitionsOf p)).entries.map (·.2) := by
      rcases hq with rfl | ⟨name, hb⟩
      · exact List.mem_cons_self ..
      · exact List.mem_cons_of_mem _ (List.mem_map_of_mem (Words.mem_entries_of_body? hb))
    have htext := List.all_eq_true.1 (List.all_eq_true.1 htexts q hmem) t (List.mem_of_getElem? ht)
    simp [hrepetition, ho] at htext

/-- In a strict run of `2 do nope` the name is that of the word and the place that of the `do`: no token has both. -/
theorem interpret_blame_divided :
    ∃ p, Program.parse "2 do nope".toList none 1 = .ok p ∧
      let s : Settings := { strict := true }
      let blame : Blame := ⟨"nope", ⟨some none, some 1, some 3, some "do"⟩, []⟩
      (∃ m', interpret s p {} = .halted (.fault (.undefinedWord "nope") blame) m') ∧
      ¬ ∃ q t, p.RunsWith s.words q ∧ t ∈ q ∧ t.label = blame.token ∧ t.origin = blame.origin := by
  have hrun : (Program.parse "2 do nope".toList none 1).toOption.map (fun p =>
      ((interpret { strict := true } p {}).blamed?,
        p.all fun t => t.label ≠ "nope" || t.origin ≠ ⟨some none, some 1, some 3, some "do"⟩)) =
      some (some (.undefinedWord "nope", ⟨"nope", ⟨some none, some 1, some 3, some "do"⟩, []⟩), true) := by
    decide +kernel
  cases hp : Program.parse "2 do nope".toList none 1 with
  | error e =>
    rw [hp] at hrun
    cases hrun
  | ok p =>
    rw [hp] at hrun
    obtain ⟨hblamed, htokens⟩ := Prod.mk.inj (Option.some.inj hrun)
    refine ⟨p, rfl, Run.eq_halted_of_blamed? hblamed, ?_⟩
    rintro ⟨q, t, rfl | ⟨name, hb⟩, ht, hlabel, ho⟩
    · have htoken := List.all_eq_true.1 htokens t ht
      simp [hlabel, ho] at htoken
    · cases hb

end Catena
