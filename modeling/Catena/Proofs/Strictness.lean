import Catena.Proofs.Limits
import Catena.Proofs.Raising

/-!
# Words that are not defined

Strict settings refuse to pass over a word that is not defined, and change nothing else (`interpret_strict`): a strict
run that meets no such word is the same run without strictness.  The error for one names it, since every word of a
program that is read has a name.  No other error of the same kind can arise, because such a program refers to builtins
by their names only.
-/

namespace Catena

/-! ### Programs that are read -/

/-- A program as it is read from a source: a pairing of tokens that are read from lexemes. -/
def Program.IsRead (p : Program) : Prop := ∃ ts, p = Program.pair ts ∧ ∀ t ∈ ts, t.IsRead

theorem Token.IsRead.isRead_body {name : String} {body : Program} {origin : Origin}
    (h : (Token.definition name body origin).IsRead) : body.IsRead := by
  cases h with
  | plain h => cases h
  | @definition _ ts _ hs hb hname hts => exact ⟨ts, rfl, fun t ht => .plain (hts t ht).1⟩

/-- A source gives a program that is read, and so are the bodies of its definitions. -/
theorem Program.isRead_of_parse {source : List Char} {file : Option String} {line : Int} {p : Program}
    (h : Program.parse source file line = .ok p) : p.IsRead ∧ ∀ e ∈ definitionsOf p, e.2.IsRead := by
  obtain ⟨ts, rfl, hts⟩ := Program.parse_eq_ok h
  refine ⟨⟨ts, rfl, hts⟩, fun e he => ?_⟩
  obtain ⟨origin, hread⟩ := exists_isRead_of_mem_definitionsOf hts he
  exact hread.isRead_body

theorem Program.IsRead.isSound {p : Program} (h : p.IsRead) : p.IsSound := by
  obtain ⟨ts, rfl, hts⟩ := h
  exact Program.isSound_pair hts

/-- The name of a word that a token calls. -/
def Token.called? : Token → Option String
  | .word name _ => some name
  | _ => none

/-- Every word of a program that is read has a name. -/
theorem Program.IsRead.name_ne_empty {p : Program} (h : p.IsRead) {name : String} {origin : Origin}
    (ht : Token.word name origin ∈ p) : name ≠ "" := by
  obtain ⟨ts, rfl, hts⟩ := h
  have hwith : ∀ (t : Token) j, (t.withTarget j).called? = t.called? := by
    intro t j
    cases t <;> rfl
  obtain ⟨u, hu, e⟩ := Program.exists_of_mem_pair hwith ht
  have hread := hts u hu
  cases u with
  | word name' origin' =>
    obtain rfl : name' = name := Option.some.inj e
    cases hread with
    | plain hplain =>
      cases hplain with
      | word hs hb =>
        obtain ⟨c, cs, hname⟩ := hs.exists_cons
        rintro rfl
        cases hname
  | _ => cases e

/-! ### Errors that are about a name -/

section

variable {s : Settings} {p : Program}

/-- A token that raises an error about a name calls a word that is not defined, strictly, if it refers to builtins by
their names only. -/
theorem Raised.of_name {depth height : Nat} (hp : ∀ t ∈ p, t.unspelled? = none) {cause : Fault}
    (h : Raised (s.frameAt depth height) p cause) (hname : cause.category = .name) :
    s.strict = true ∧ ∃ name origin, cause = .undefinedWord name ∧ s.words.body? name = none ∧
      Token.word name origin ∈ p := by
  cases h with
  | undefined ht hb hs => exact ⟨hs, _, _, rfl, hb, ht⟩
  | refused ht hb hc =>
    obtain ⟨-, -, rfl⟩ := Settings.frameAt_call_raised hc
    cases hname
  | own hn _ => exact absurd hname hn
  | @unknown ref target o ht hr =>
    have hknown := hp _ ht
    cases ref with
    | known b => cases hr
    | named name => cases hknown

/-- An error about a name is that of a word that is not defined, in a strict run. -/
theorem exists_undefined_of_interpret (hs : s.words.Forall Program.IsSound) (hp : p.IsSound) {m m' : Machine}
    {cause : Fault} {blame : Blame} (h : interpret s p m = .halted (.fault cause blame) m')
    (hname : cause.category = .name) :
    s.strict = true ∧ ∃ q name origin, p.RunsWith s.words q ∧ Token.word name origin ∈ q ∧
      s.words.body? name = none ∧ cause = .undefinedWord name ∧ (name ≠ "" → blame.token = name) := by
  obtain ⟨callers, a, cause', hraises, t, -, hwhy⟩ := exists_raises_of_interpret hs hp (by simp) h
  cases hwhy
  have hprogram : a.program.IsSound := by
    rcases hraises.runsWith with h | ⟨name, hb⟩
    · exact h ▸ hp
    · exact hs.body? hb
  obtain ⟨depth, height, hraised⟩ := hraises.exists_raised
  obtain ⟨hstrict, name, origin, rfl, hb, ht⟩ := hraised.of_name (fun t ht => hprogram.unspelled?_eq_none ht) hname
  refine ⟨hstrict, a.program, name, origin, hraises.runsWith, ht, hb, rfl, fun hne => ?_⟩
  simp [Fault.culprit?, Option.filter, hne]

end

/-- Strictness is conservative.  Unless a strict run ends with an error about a name, it is the run without strictness:
the same stack, output and number of steps, and the same failure if it fails.  A strict run that ends with such an error
blames a word by its name, which is called in the program or in the body of a word and is not defined.  A run without
strictness never ends with one. -/
theorem interpret_strict {s : Settings} (hs : s.words.Forall Program.IsRead) {p : Program} (hp : p.IsRead)
    (m : Machine) :
    let strict := interpret { s with strict := true } p m
    let lenient := interpret { s with strict := false } p m
    ((∀ cause, strict.fault? = some cause → cause.category ≠ .name) → lenient = strict) ∧
    (∀ cause blame, strict.blamed? = some (cause, blame) → cause.category = .name →
      cause = .undefinedWord blame.token ∧ s.words.body? blame.token = none ∧
      ∃ q origin, p.RunsWith s.words q ∧ Token.word blame.token origin ∈ q) ∧
    (∀ cause, lenient.fault? = some cause → cause.category ≠ .name) := by
  intro strict lenient
  have hsound : s.words.Forall Program.IsSound := fun e he => (hs e he).isSound
  refine ⟨fun hfits => ?_, fun cause blame hblamed hname => ?_, fun cause hcause hname => ?_⟩
  · have hspared : ∀ name, (Fault.undefinedWord name).category = .name := fun _ => rfl
    rcases interpret_eq_of_looser (s := { s with strict := true }) (E := fun cause => cause.category = .name)
      (O := False) hsound (.inr ⟨rfl, hspared⟩) (.inl rfl) (.inl rfl) hp.isSound m with
      h | ⟨cause, h, hcause⟩ | ⟨-, hfalse⟩
    · exact h
    · exact absurd hcause (hfits cause h)
    · exact hfalse.elim
  · obtain ⟨m', hrun⟩ := Run.eq_halted_of_blamed? hblamed
    obtain ⟨-, q, name, origin, hq, ht, hb, rfl, htoken⟩ :=
      exists_undefined_of_interpret (s := { s with strict := true }) hsound hp.isSound hrun hname
    have hread : q.IsRead := by
      rcases hq with rfl | ⟨other, hother⟩
      · exact hp
      · exact hs.body? hother
    obtain rfl := htoken (hread.name_ne_empty ht)
    exact ⟨rfl, hb, q, origin, hq, ht⟩
  · obtain ⟨⟨cause', blame⟩, hblamed, rfl⟩ := Option.map_eq_some_iff.1 hcause
    obtain ⟨m', hrun⟩ := Run.eq_halted_of_blamed? hblamed
    obtain ⟨hstrict, -⟩ :=
      exists_undefined_of_interpret (s := { s with strict := false }) hsound hp.isSound hrun hname
    cases hstrict

/-- The word that is not defined is repeated in the body of another one.  The error names it, although the `do` that
repeats it is blamed; without strictness it is passed over, and the run fails for another reason. -/
theorem interpret_strict_repeated :
    ∃ p, Program.parse ": f 2 do nope pop ; 1 f f".toList none 1 = .ok p ∧
      let s : Settings := { words := .ofList (definitionsOf p) }
      let strict := interpret { s with strict := true } p {}
      let lenient := interpret { s with strict := false } p {}
      s.words.Forall Program.IsRead ∧ p.IsRead ∧
      (∃ blame, strict.blamed? = some (.undefinedWord "nope", blame) ∧ blame.origin.text = some "do" ∧
        blame.token = "nope" ∧ s.words.body? blame.token = none) ∧
      lenient.fault? = some (.tooFewOperands .pop 1 0) ∧
      ∀ cause, lenient.fault? = some cause → cause.category ≠ .name := by
  have hrun : (Program.parse ": f 2 do nope pop ; 1 f f".toList none 1).toOption.map (fun p =>
      ((interpret { words := .ofList (definitionsOf p), strict := true } p {}).blamed?,
        (interpret { words := .ofList (definitionsOf p), strict := false } p {}).fault?)) =
      some (some (.undefinedWord "nope", ⟨"nope", ⟨some none, some 1, some 7, some "do"⟩, [.scalar 1]⟩),
        some (.tooFewOperands .pop 1 0)) := by decide +kernel
  cases hp : Program.parse ": f 2 do nope pop ; 1 f f".toList none 1 with
  | error e =>
    rw [hp] at hrun
    cases hrun
  | ok p =>
    rw [hp] at hrun
    obtain ⟨hstrict, hlenient⟩ := Prod.mk.inj (Option.some.inj hrun)
    obtain ⟨hread, hwords⟩ := Program.isRead_of_parse hp
    refine ⟨p, rfl, ?_⟩
    intro s strict lenient
    have hs : s.words.Forall Program.IsRead := Words.forall_ofList hwords
    obtain ⟨-, hnamed, hnever⟩ := interpret_strict hs hread {}
    obtain ⟨-, hundefined, -⟩ := hnamed _ _ hstrict rfl
    exact ⟨hs, hread, ⟨_, hstrict, rfl, rfl, hundefined⟩, hlenient, hnever⟩

end Catena
