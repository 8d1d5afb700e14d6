import Catena.Proofs.Reading

/-!
# Tokens in other places

`relocate` changes the origins of tokens, in programs and in dictionaries.  It keeps what tokens are and how
conditionals are paired, and defining words commutes with it.  What a text is read as does not depend on its place: in
another file or on another line it is refused again or gives the same program in another place
(`Program.parse_unplaced`).
-/

namespace Catena

/-! ### Changing origins -/

mutual

/-- A token with another origin, as have the tokens in the body of a definition. -/
def Token.relocate (g : Origin → Origin) : Token → Token
  | .word name origin => .word name (g origin)
  | .data value origin => .data value (g origin)
  | .builtin ref target origin => .builtin ref target (g origin)
  | .definition name body origin => .definition name (Program.relocate g body) (g origin)
  | .other text => .other text

def Program.relocate (g : Origin → Origin) : List Token → List Token
  | [] => []
  | t :: ts => t.relocate g :: Program.relocate g ts

end

section

variable (g : Origin → Origin)

theorem Program.relocate_eq_map (p : Program) : Program.relocate g p = p.map (Token.relocate g) := by
  induction p with
  | nil => rfl
  | cons t ts ih => rw [Program.relocate, ih, List.map_cons]

mutual

theorem Token.relocate_id (t : Token) : t.relocate id = t := by
  cases t with
  | definition name body origin => rw [Token.relocate, Program.relocate_id body]; rfl
  | _ => rfl

theorem Program.relocate_id (p : List Token) : Program.relocate id p = p := by
  cases p with
  | nil => rfl
  | cons t ts => rw [Program.relocate, Token.relocate_id t, Program.relocate_id ts]

end

namespace Token

@[simp] theorem isForward_relocate (t : Token) : (t.relocate g).isForward = t.isForward := by
  cases t with
  | builtin ref target origin => simp [relocate, isForward_builtin]
  | _ => rfl

@[simp] theorem isConditional_relocate (t : Token) : (t.relocate g).isConditional = t.isConditional := by
  cases t with
  | builtin ref target origin => simp [relocate, isConditional_builtin]
  | _ => rfl

@[simp] theorem isRepetition_relocate (t : Token) : (t.relocate g).isRepetition = t.isRepetition := by
  cases t with
  | builtin ref target origin => simp [relocate, isRepetition_builtin]
  | _ => rfl

@[simp] theorem unspelled?_relocate (t : Token) : (t.relocate g).unspelled? = t.unspelled? := by
  cases t with
  | builtin ref target origin => cases ref <;> rfl
  | _ => rfl

end Token

/-- Conditionals are paired in any place. -/
theorem Program.relocate_pair (ts : Program) :
    Program.relocate g (Program.pair ts) = Program.pair (ts.map (Token.relocate g)) := by
  rw [Program.relocate_eq_map]
  refine (Program.pair_map (Token.isForward_relocate g) (Token.isConditional_relocate g) (fun t j => ?_) ts).symm
  cases t <;> rfl

/-! ### Dictionaries -/

theorem definitionsOf_relocate (p : Program) :
    definitionsOf (Program.relocate g p) = (definitionsOf p).map (Prod.map id (Program.relocate g)) := by
  induction p with
  | nil => rfl
  | cons t ts ih =>
    unfold definitionsOf at ih ⊢
    rw [Program.relocate, List.filterMap_cons, List.filterMap_cons, ih]
    cases t <;> rfl

namespace Words

/-- A dictionary in which the tokens of all bodies have other origins. -/
def relocate (w : Words) : Words := ⟨w.entries.map (Prod.map id (Program.relocate g))⟩

theorem body?_relocate (w : Words) (name : String) :
    (w.relocate g).body? name = (w.body? name).map (Program.relocate g) := by
  obtain ⟨es⟩ := w
  unfold body? relocate
  induction es with
  | nil => rfl
  | cons e es ih =>
    rw [List.map_cons, List.lookup_cons, List.lookup_cons]
    cases hname : name == e.1 with
    | true => simp [hname]
    | false => simpa [hname] using ih

private theorem map_define (name : String) (body : Program) (es : List (String × Program)) :
    (define name body es).map (Prod.map id (Program.relocate g)) =
      define name (Program.relocate g body) (es.map (Prod.map id (Program.relocate g))) := by
  induction es with
  | nil => rfl
  | cons e es ih =>
    rw [define, List.map_cons, define]
    by_cases hname : e.1 = name
    · simp [hname]
    · simp [hname, ih]

theorem relocate_insertAll (w : Words) (es : List (String × Program)) :
    (w.insertAll es).relocate g = (w.relocate g).insertAll (es.map (Prod.map id (Program.relocate g))) := by
  induction es generalizing w with
  | nil => rfl
  | cons e es ih =>
    have hinsert : (w.insert e.1 e.2).relocate g = (w.relocate g).insert e.1 (Program.relocate g e.2) :=
      congrArg Words.mk (map_define g e.1 e.2 w.entries)
    show ((w.insert e.1 e.2).insertAll es).relocate g = _
    rw [ih, hinsert]
    rfl

end Words

end

/-! ### Reading in another place -/

/-- An origin without the place: the text is left. -/
def Origin.unplaced (o : Origin) : Origin := { text := o.text }

/-- What is left of a piece without its place. -/
private def Piece.key (q : Piece) : Shape × List Char := (q.shape, q.raw)

private theorem toOption_map {α β ε : Type} (f : α → β) (x : Except ε α) :
    (x.map f).toOption = x.toOption.map f := by
  cases x <;> rfl

/-- What is read from items that have the same key is the same, as far as `g` shows it. -/
private theorem mapM_congr_key {α β γ ε κ : Type} {key : α → κ} {f f' : α → Except ε β} {g : β → γ}
    (h : ∀ a a', key a = key a' → (f a).toOption.map g = (f' a').toOption.map g) {l l' : List α}
    (hl : l.map key = l'.map key) :
    (l.mapM f).toOption.map (List.map g) = (l'.mapM f').toOption.map (List.map g) := by
  induction l generalizing l' with
  | nil =>
    obtain rfl : l' = [] := by simpa using hl.symm
    rfl
  | cons a l ih =>
    obtain ⟨a', l', rfl, ha, hl⟩ := List.map_eq_cons_iff.1 hl.symm
    have ha := h a a' ha.symm
    have ih := ih hl.symm
    rw [List.mapM_cons, List.mapM_cons]
    cases hf : f a <;> cases hf' : f' a' <;> simp [hf, hf', Except.toOption] at ha
    · rfl
    · cases hm : l.mapM f <;> cases hm' : l'.mapM f' <;> simp [hm, hm', Except.toOption] at ih
      · rfl
      · simp [bind, Except.bind, pure, Except.pure, Except.toOption, ha, ih]

private theorem scan_unplaced (p p' : Position) (n : Nat) (cs : List Char) :
    (scan p n cs).toOption.map (List.map Piece.key) = (scan p' n cs).toOption.map (List.map Piece.key) := by
  induction cs generalizing p p' n with
  | nil => cases n <;> rfl
  | cons c r ih =>
    cases n with
    | succ n => exact ih (p.next c) (p'.next c) n
    | zero =>
      rw [scan, scan]
      split
      · exact ih (p.next c) (p'.next c) 0
      · split
        · exact ih (p.next c) (p'.next c) _
        · cases lexemeAt? c r with
          | none => rfl
          | some found =>
            have hcons : ∀ start, List.map Piece.key ∘ (Piece.mk found.1 found.2 start :: ·) =
                (found :: ·) ∘ List.map Piece.key := fun _ => rfl
            dsimp only
            rw [toOption_map, toOption_map, Option.map_map, Option.map_map, hcons, hcons, ← Option.map_map,
              ← Option.map_map, ih (p.next c) (p'.next c)]

private theorem Piece.toLexeme_key {q q' : Piece} (h : q.key = q'.key) (file file' : Option String) :
    (q.toLexeme file).text = (q'.toLexeme file').text ∧ (q.toLexeme file).kind = (q'.toLexeme file').kind ∧
      (q.toLexeme file).origin.unplaced = (q'.toLexeme file').origin.unplaced := by
  obtain ⟨shape, raw, start⟩ := q
  obtain ⟨shape', raw', start'⟩ := q'
  cases h
  cases shape <;> exact ⟨rfl, rfl, rfl⟩

private theorem splitDefinition_unplaced (q q' : Piece) (file file' : Option String) (text : List Char) :
    (∃ e e', splitDefinition (q.toLexeme file).origin text = .error e ∧
      splitDefinition (q'.toLexeme file').origin text = .error e') ∨
    ∃ (name : List Char) (pieces pieces' : List Piece),
      splitDefinition (q.toLexeme file).origin text = .ok (name, pieces.map (Piece.toLexeme file)) ∧
      splitDefinition (q'.toLexeme file').origin text = .ok (name, pieces'.map (Piece.toLexeme file')) ∧
      pieces.map Piece.key = pieces'.map Piece.key := by
  have hscan := scan_unplaced ⟨q.start.line, q.start.column + 1⟩ ⟨q'.start.line, q'.start.column + 1⟩ 0 text
  unfold splitDefinition lex
  rw [q.place_toLexeme, q'.place_toLexeme]
  dsimp only
  generalize scan ⟨q.start.line, q.start.column + 1⟩ 0 text = x at hscan ⊢
  generalize scan ⟨q'.start.line, q'.start.column + 1⟩ 0 text = x' at hscan ⊢
  cases x <;> cases x' <;> simp [Except.toOption] at hscan
  · exact .inl ⟨_, _, rfl, rfl⟩
  · rename_i pieces pieces'
    cases pieces with
    | nil =>
      obtain rfl : pieces' = [] := by simpa using hscan.symm
      exact .inl ⟨_, _, rfl, rfl⟩
    | cons header pieces =>
      obtain ⟨header', pieces', rfl, hheader, hpieces⟩ := List.map_eq_cons_iff.1 hscan.symm
      obtain ⟨htext, hkind, -⟩ := Piece.toLexeme_key hheader.symm file file'
      simp only [Except.map, List.map_cons, hkind, htext]
      split
      · exact .inr ⟨_, pieces, pieces', rfl, rfl, hpieces.symm⟩
      · exact .inl ⟨_, _, rfl, rfl⟩

private theorem readNumber_unplaced (o o' : Origin) (text : List Char) :
    (readNumber o text).toOption = (readNumber o' text).toOption := by
  unfold readNumber
  cases Number.ofText? text <;> rfl

private theorem mapM_readNumber_unplaced (o o' : Origin) (texts : List (List Char)) :
    (texts.mapM (readNumber o)).toOption = (texts.mapM (readNumber o')).toOption := by
  have h : ∀ a a', id a = id a' → (readNumber o a).toOption.map id = (readNumber o' a').toOption.map id := by
    rintro a a' rfl
    exact congrArg (Option.map id) (readNumber_unplaced o o' a)
  simpa using mapM_congr_key h (rfl : texts.map id = texts.map id)

/-- A lexeme is read as the same token wherever it stands, if it is read at all. -/
private theorem readToken_unplaced (depth : Nat) {q q' : Piece} (h : q.key = q'.key) (file file' : Option String) :
    (readToken depth (q.toLexeme file)).toOption.map (Token.relocate Origin.unplaced) =
      (readToken depth (q'.toLexeme file')).toOption.map (Token.relocate Origin.unplaced) := by
  induction depth using Nat.strongRecOn generalizing q q' with
  | ind depth ih =>
    obtain ⟨htext, hkind, horigin⟩ := Piece.toLexeme_key h file file'
    unfold readToken
    rw [hkind, htext]
    split
    · rw [toOption_map, toOption_map, Option.map_map, Option.map_map, readNumber_unplaced _ (q'.toLexeme file').origin]
      exact congrArg (Option.map · _) (funext fun x => congrArg (Token.data _) horigin)
    · exact congrArg (fun o => some (Token.data _ o)) horigin
    · rw [toOption_map, toOption_map, Option.map_map, Option.map_map,
        mapM_readNumber_unplaced _ (q'.toLexeme file').origin]
      exact congrArg (Option.map · _) (funext fun xs => congrArg (Token.data _) horigin)
    · exact congrArg (fun o => some (Token.word _ o)) horigin
    · exact congrArg (fun o => some (Token.builtin _ none o)) horigin
    · rcases splitDefinition_unplaced q q' file file' (q'.toLexeme file').text with
        ⟨e, e', hs, hs'⟩ | ⟨name, pieces, pieces', hs, hs', hpieces⟩
      · rw [hs, hs']
        rfl
      · rw [hs, hs']
        cases depth with
        | zero => exact congrArg (fun o => some (Token.definition _ [] o)) horigin
        | succ depth =>
          have hbody := mapM_congr_key (fun _ _ h => ih depth (by omega) h) hpieces
          dsimp only
          rw [toOption_map, toOption_map, Option.map_map, Option.map_map, List.mapM_map, List.mapM_map]
          have hdefinition : ∀ o : Origin, (Token.relocate Origin.unplaced ∘ fun ts =>
              Token.definition (String.ofList name) (Program.pair ts) o) =
              (fun us => .definition (String.ofList name) (Program.pair us) o.unplaced) ∘
                List.map (Token.relocate Origin.unplaced) := by
            intro o
            funext ts
            exact congrArg (Token.definition _ · _) (Program.relocate_pair Origin.unplaced ts)
          rw [hdefinition, hdefinition, ← Option.map_map, ← Option.map_map, horigin]
          exact congrArg (Option.map _) hbody

/-- A text that is read in a file and on a line is read in any other, as the same program in another place. -/
theorem Program.parse_unplaced (source : List Char) (file file' : Option String) (line line' : Int) :
    (Program.parse source file line).toOption.map (Program.relocate Origin.unplaced) =
      (Program.parse source file' line').toOption.map (Program.relocate Origin.unplaced) := by
  have hscan := scan_unplaced ⟨line, 1⟩ ⟨line', 1⟩ 0 source
  unfold Program.parse lex
  generalize scan ⟨line, 1⟩ 0 source = x at hscan ⊢
  generalize scan ⟨line', 1⟩ 0 source = x' at hscan ⊢
  cases x <;> cases x' <;> simp [Except.toOption] at hscan
  · rfl
  · have hprogram : Program.relocate Origin.unplaced ∘ Program.pair =
        Program.pair ∘ List.map (Token.relocate Origin.unplaced) := funext (Program.relocate_pair Origin.unplaced)
    dsimp only [Except.map]
    unfold Program.ofLexemes
    rw [toOption_map, toOption_map, Option.map_map, Option.map_map, hprogram, ← Option.map_map, ← Option.map_map,
      List.mapM_map, List.mapM_map]
    refine congrArg (Option.map _) (mapM_congr_key (fun q q' h => ?_) hscan)
    obtain ⟨htext, -, -⟩ := Piece.toLexeme_key h file file'
    dsimp only [Function.comp]
    rw [htext]
    exact readToken_unplaced _ h file file'

end Catena
