import Catena.Proofs.History
import Catena.Proofs.Lexing
import Catena.Proofs.Safety

/-!
# The words of a session

Every word in the dictionary of a session comes from a definition in a line that was read.  A definition ends at the
first semicolon, its text is scanned once more, its first lexeme has to be a symbol that spells no builtin, and its
conditionals are paired among themselves.  So whatever was done with the session, each word can be called by its name,
and its body is flat (`Session.mem_entries_performAll`).
-/

namespace Catena

open Catena.Text

/-- A name that calls a word: on its own it is a whole source, which is read as the call. -/
structure IsCallable (name : String) : Prop where
  isBlank_eq_false : ∀ c ∈ name.toList, isBlank c = false
  semicolon_not_mem : ';' ∉ name.toList
  not_mem_spellings : ∀ b : Builtin, name ∉ b.spellings
  head : ∀ c, name.toList.head? = some c → isDigit c = false ∧ c ∉ ['#', '"', '[', ':']
  parse_eq : ∀ file line, Program.parse name.toList file line =
    .ok [.word name ⟨some file, some line, some 1, some name⟩]

/-- A body that defines no words of its own, refers to builtins by their names only, and in which a conditional has no
target or jumps to a marker behind it. -/
structure Program.IsFlat (p : Program) : Prop where
  definition_not_mem : ∀ name body origin, Token.definition name body origin ∉ p
  known : ∀ ref target origin, Token.builtin ref target origin ∈ p → ∃ b, ref = .known b
  jumpsAhead : p.JumpsAhead

/-! ### Names -/

private theorem Spells.isSolid_of_symbol {cs : List Char} (h : Spells .symbol cs) :
    IsSolid cs ∧ ∀ c, cs.head? = some c → isDigit c = false ∧ c ∉ ['#', '"', '[', ':'] := by
  cases h with
  | symbol hs hd ho =>
    refine ⟨hs, fun c hc => ?_⟩
    cases hc
    exact ⟨hd, ho⟩

/-- A symbol that spells no builtin is read as a call. -/
theorem Program.parse_symbol {name : String} (hs : Spells .symbol name.toList) (hb : Builtin.ofSpelling? name = none)
    (file : Option String) (line : Int) :
    Program.parse name.toList file line = .ok [.word name ⟨some file, some line, some 1, some name⟩] := by
  have hgap : IsGap [] := fun c hc => by cases hc
  have hscan : scan ⟨line, 1⟩ 0 name.toList = .ok [⟨.symbol, name.toList, ⟨line, 1⟩⟩] := by
    have h := hs.scan_eq (fun _ => hgap) ⟨line, 1⟩
    rwa [List.append_nil] at h
  have hlex : lex file ⟨line, 1⟩ name.toList =
      .ok [⟨name.toList, .word, ⟨some file, some line, some 1, some name⟩⟩] := by
    simp [lex, hscan, Except.map, Piece.toLexeme, Kind.ofSymbol, hb]
  unfold Program.parse
  rw [hlex]
  simp [Program.ofLexemes, readToken, Except.map, Program.pair, pairFrom, Token.isForward, Token.isConditional]

theorem Token.IsRead.isCallable {name : String} {body : Program} {origin : Origin}
    (h : (Token.definition name body origin).IsRead) : IsCallable name := by
  cases h with
  | plain h => cases h
  | definition hs hb hname hts =>
    obtain ⟨hsolid, hhead⟩ := hs.isSolid_of_symbol
    exact ⟨hsolid.2, hname, Builtin.ofSpelling?_eq_none_iff.1 hb, hhead, Program.parse_symbol hs hb⟩

/-! ### Bodies -/

/-- A token that is no definition and refers to builtins by their names only. -/
private def Token.isFlat : Token → Bool
  | .definition .. => false
  | .builtin (.named _) _ _ => false
  | _ => true

theorem Token.IsRead.isFlat_body {name : String} {body : Program} {origin : Origin}
    (h : (Token.definition name body origin).IsRead) : body.IsFlat := by
  have hwith : ∀ (t : Token) j, (t.withTarget j).isFlat = t.isFlat := by
    intro t j
    cases t with
    | builtin ref target origin => cases ref <;> rfl
    | _ => rfl
  have hjumps := h.isSound_body.1
  cases h with
  | plain h => cases h
  | @definition _ ts _ hs hb hname hts =>
    have hflat : ∀ t ∈ Program.pair ts, t.isFlat = true := by
      intro t ht
      obtain ⟨u, hu, e⟩ := Program.exists_of_mem_pair hwith ht
      rw [← e]
      cases (hts u hu).1 <;> rfl
    refine ⟨fun name body origin hmem => ?_, fun ref target origin hmem => ?_, hjumps⟩
    · cases hflat _ hmem
    · cases ref with
      | known b => exact ⟨b, rfl⟩
      | named name => cases hflat _ hmem

/-! ### Sessions -/

theorem Line.exists_isRead_of_mem_definitions {line : Line} {e : String × Program} (h : e ∈ line.definitions) :
    ∃ origin, (Token.definition e.1 e.2 origin).IsRead := by
  unfold Line.definitions at h
  split at h
  · rename_i p hp
    obtain ⟨ts, rfl, hts⟩ := Program.parse_eq_ok hp
    exact exists_isRead_of_mem_definitionsOf hts h
  · cases h

/-- Whatever is done with a session that starts without words, each word in its dictionary can be called by its name
and has a flat body. -/
theorem Session.mem_entries_performAll (stack : Stack) (debug strict : Bool) (maxDepth : Int) (host : Host)
    (acts : List Act) {name : String} {body : Program}
    (h : (name, body) ∈ (({ stack, debug, strict, maxDepth, host } : Session).performAll acts).words.entries) :
    IsCallable name ∧ body.IsFlat := by
  rw [words_performAll rfl] at h
  obtain ⟨line, -, hline⟩ := List.mem_flatMap.1 (Words.mem_ofList h)
  obtain ⟨origin, hread⟩ := Line.exists_isRead_of_mem_definitions hline
  exact ⟨hread.isCallable, hread.isFlat_body⟩

/-- A word with all that opens other lexemes in its name, defined anew in a file with a conditional that is closed and
one that is not. -/
theorem Session.mem_entries_performAll_symbol :
    let acts : List Session.Act := [.runLine ⟨": x#:\"[ 7 ; x#:\"[".toList, none, 1⟩, .push [.integer 3],
      .load ": y x#:\"[ ;\n: x#:\"[ ? ? y -> ;".toList (some "words"), .setStrict true]
    ∃ body, ("x#:\"[", body) ∈ (({} : Session).performAll acts).words.entries ∧
      body.map Token.target? = [none, some 3, none, none] ∧ IsCallable "x#:\"[" ∧ body.IsFlat := by
  intro acts
  have hentries : (({} : Session).performAll acts).words.entries.map (fun e => (e.1, e.2.map Token.target?)) =
      [("x#:\"[", [none, some 3, none, none]), ("y", [none])] := by decide +kernel
  have hmem : ("x#:\"[", [none, some 3, none, none]) ∈
      (({} : Session).performAll acts).words.entries.map (fun e => (e.1, e.2.map Token.target?)) := by
    rw [hentries]
    exact List.mem_cons_self ..
  obtain ⟨⟨name, body⟩, hbody, e⟩ := List.mem_map.1 hmem
  obtain ⟨rfl, htargets⟩ := Prod.mk.inj e
  exact ⟨body, hbody, htargets, Session.mem_entries_performAll [] false false 200 {} acts hbody⟩

end Catena
