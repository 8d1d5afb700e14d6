import Catena.Proofs.Raising

/-!
# Lines and the tokens on them

Lines that are fed to a session from a named file, with numbers from one on, give tokens that know their file and a
number from one on (`Program.isNumbered_of_parse`), and so does every token in the dictionary.  A refusal has such a
number as well, and a fault is blamed on such a token, with the stack that the line leaves
(`Session.IsNumbered.execute`).
-/

namespace Catena

/-- The origin has the name of a file and a line that is counted from one. -/
def Origin.IsNumbered (o : Origin) : Prop := ∃ file line, o.file = some (some file) ∧ o.line = some line ∧ 1 ≤ line

def Program.IsNumbered (p : Program) : Prop := ∀ t ∈ p, t.origin.IsNumbered

/-! ### Programs that are read -/

theorem Piece.isNumbered_toLexeme {q : Piece} (hq : 1 ≤ q.start.line) (file : String) :
    (q.toLexeme (some file)).origin.IsNumbered := by
  rw [q.origin_toLexeme]
  exact ⟨file, q.start.line, rfl, rfl, hq⟩

/-- The tokens of a source in a named file have numbers, also those in the bodies of definitions. -/
theorem Program.isNumbered_of_parse {source : List Char} {file : String} {line : Int} {p : Program}
    (h : Program.parse source (some file) line = .ok p) (hline : 1 ≤ line) :
    p.IsNumbered ∧ ∀ e ∈ definitionsOf p, e.2.IsNumbered := by
  have hwith : ∀ (t : Token) j, (t.withTarget j).origin.IsNumbered ↔ t.origin.IsNumbered := by
    intro t j
    cases t <;> rfl
  refine Program.forall_of_parse hwith (fun _ hq ht => ?_) h
  rw [readToken_origin ht]
  exact Piece.isNumbered_toLexeme (Int.le_trans hline hq) file

/-! ### Sessions -/

/-- The bodies in the dictionary are sound, and their tokens have numbers. -/
structure Session.IsNumbered (s : Session) : Prop where
  isSound : s.IsSound
  words : s.words.Forall Program.IsNumbered

/-- The fault of a run is blamed on a token of one of the programs that run, with the stack that the run leaves. -/
private theorem blame_of_interpret {s : Settings} (hs : s.words.Forall Program.IsSound)
    (hwords : s.words.Forall Program.IsNumbered) {p : Program} (hp : p.IsSound) (hnumbered : p.IsNumbered)
    {m m' : Machine} {cause : Fault} {blame : Blame} (h : interpret s p m = .halted (.fault cause blame) m') :
    blame.origin.IsNumbered ∧ blame.stack = m'.stack := by
  obtain ⟨callers, a, cause', hraises, t, ht, hwhy⟩ := exists_raises_of_interpret hs hp (by simp) h
  cases hwhy
  have hprogram : a.program.IsNumbered := by
    rcases hraises.runsWith with hself | ⟨name, hb⟩
    · exact hself ▸ hnumbered
    · exact hwords.body? hb
  exact ⟨hprogram t (List.mem_of_getElem? ht), rfl⟩

/-- A line from a named file, with a number from one on, keeps the dictionary numbered.  If it is refused it is not
empty, and the refusal has a number; if it fails, the fault is blamed on a token with a number, unless it is the host
that fails it. -/
theorem Session.IsNumbered.execute {s : Session} (hs : s.IsNumbered) {text : List Char} {file : String} {number : Int}
    (hnumber : 1 ≤ number) (verbosity : Nat) (tally : Tally) :
    let e := s.execute ⟨text, some file, number⟩ verbosity tally
    e.session.IsNumbered ∧ ∀ error, e.error? = some error →
      (∃ refusal, error = .unread (.refused refusal) ∧ text ≠ [] ∧ 1 ≤ refusal.start.line) ∨
      (∃ cause blame, error = .failed (.fault cause blame) ∧ blame.origin.IsNumbered ∧
        blame.stack = e.session.stack) ∨ error = .failed .overflowed := by
  obtain ⟨hsound, herrors⟩ := hs.isSound.execute ⟨text, some file, number⟩ verbosity tally
  unfold Session.execute at hsound herrors ⊢
  cases hp : Program.parse text (some file) number with
  | error unread =>
    refine ⟨hs, fun error herror => .inl ?_⟩
    cases herror
    have hline := Program.parse_refused hp
    cases unread with
    | originLacks field => exact hline.elim
    | refused refusal =>
      refine ⟨refusal, rfl, ?_, Int.le_trans hnumber hline⟩
      -- nothing is refused in an empty line
      rintro rfl
      cases hp
  | ok p =>
    simp only [hp] at hsound herrors ⊢
    obtain ⟨hp', hbodies⟩ := Program.isNumbered_of_parse hp hnumber
    have hsounds : (s.words.insertAll (definitionsOf p)).Forall Program.IsSound := hsound
    have hwords := hs.words.insertAll hbodies
    refine ⟨⟨hsound, hwords⟩, fun error herror => .inr ?_⟩
    rcases herrors error herror with ⟨refusal, rfl⟩ | ⟨cause, blame, rfl⟩ | ⟨hover, -⟩
    · split at herror <;> cases herror
    · split at herror
      · cases herror
      · rename_i why m' hrun
        cases herror
        refine .inl ⟨cause, blame, rfl, ?_⟩
        rw [hrun]
        exact blame_of_interpret hsounds hwords (Program.isSound_of_parse hp).1 hp' hrun
    · exact .inr hover

end Catena
