import Catena.Proofs.Reading
import Catena.Shell.Arguments

/-!
# Tokens that ask for actions

The arguments that are left when the global options are out may be a list of tokens, and these are items one after the
other: a double dash, code behind its option or in one token with it, the option for the interactive loop, or the path
of something that is there.  `IsItem` and `AreItems` say so without a word on the order in which a token is tested, and
`actionsOf` accepts exactly such tokens and makes exactly their actions of them (`actionsOf_grammar`).

What an item asks for does not depend on what follows it (`IsItem.actionsOf_append`).  So tokens that are accepted may
be put before any others: their actions come first, and what becomes of the others stays the same.
-/

namespace Catena

/-- Whether there is anything at a path. -/
def Entry.isThere : Entry → Bool
  | file _ | directory => true
  | missing | blocked | overlong => false

namespace Shell

open Catena.Text

/-- The names of the option for code. -/
def codeNames : List (List Char) := ["-c".toList, "--command".toList]

/-- The names of the option for the interactive loop. -/
def loopNames : List (List Char) := ["-r".toList, "--repl".toList]

/-- The tokens of an item, and the action that it asks for.  Behind the option for code any token is code. -/
inductive IsItem (files : Files) : List (List Char) → Option Action → Prop
  | dashes : IsItem files ["--".toList] none
  | code {name text : List Char} (hname : name ∈ codeNames) : IsItem files [name, text] (some (.code text))
  | valued {name text : List Char} (hname : name ∈ codeNames) (htext : text ≠ []) :
      IsItem files [name ++ '=' :: text] (some (.code text))
  | loop {name : List Char} (hname : name ∈ loopNames) : IsItem files [name] (some .loop)
  | file {token : List Char} (hdash : token.head? ≠ some '-') (hthere : (files (Path.normalize token)).isThere) :
      IsItem files [token] (some (.file (Path.normalize token)))

/-- Tokens that are items one after the other, and the actions that these ask for. -/
inductive AreItems (files : Files) : List (List Char) → List Action → Prop
  | nil : AreItems files [] []
  | cons {item tokens : List (List Char)} {action? : Option Action} {actions : List Action}
      (hitem : IsItem files item action?) (h : AreItems files tokens actions) :
      AreItems files (item ++ tokens) (action?.toList ++ actions)

/-! ### A token by itself -/

theorem startsWith_iff {beginning : String} {text : List Char} :
    startsWith beginning text ↔ ∃ rest, text = beginning.toList ++ rest := by
  unfold startsWith
  rw [List.isPrefixOf_iff_prefix]
  exact ⟨fun ⟨rest, h⟩ => ⟨rest, h.symm⟩, fun ⟨rest, h⟩ => ⟨rest, h.symm⟩⟩

theorem mem_codeNames {name : List Char} : name ∈ codeNames ↔ name = "-c".toList ∨ name = "--command".toList := by
  simp only [codeNames, List.mem_cons, List.not_mem_nil, or_false]

theorem mem_loopNames {name : List Char} : name ∈ loopNames ↔ name = "-r".toList ∨ name = "--repl".toList := by
  simp only [loopNames, List.mem_cons, List.not_mem_nil, or_false]

private theorem or_decide_iff {token a b : List Char} {names : List (List Char)}
    (hnames : token ∈ names ↔ token = a ∨ token = b) : (token = a || token = b) = true ↔ token ∈ names := by
  rw [hnames, Bool.or_eq_true, decide_eq_true_eq, decide_eq_true_eq]

/-- Code in one token with its option. -/
private theorem startsWith_code_iff {token : List Char} :
    (startsWith "-c=" token || startsWith "--command=" token) = true ↔
      ∃ name ∈ codeNames, ∃ text, token = name ++ '=' :: text := by
  rw [Bool.or_eq_true, startsWith_iff, startsWith_iff]
  constructor
  · rintro (⟨text, rfl⟩ | ⟨text, rfl⟩)
    · exact ⟨"-c".toList, mem_codeNames.2 (.inl rfl), text, rfl⟩
    · exact ⟨"--command".toList, mem_codeNames.2 (.inr rfl), text, rfl⟩
  · rintro ⟨name, hname, text, rfl⟩
    rcases mem_codeNames.1 hname with rfl | rfl
    · exact .inl ⟨text, rfl⟩
    · exact .inr ⟨text, rfl⟩

private theorem valueOf_append {name : List Char} (hname : name ∈ codeNames) (text : List Char) :
    valueOf (name ++ '=' :: text) = text := by
  rcases mem_codeNames.1 hname with rfl | rfl <;> rfl

variable {files : Files}

theorem itemOf_of_mem_codeNames {name : List Char} (hname : name ∈ codeNames) : itemOf files name = .ok .codeNext := by
  rcases mem_codeNames.1 hname with rfl | rfl <;> rfl

/-- The path of something that is there is a file to load. -/
private theorem itemOf_of_isThere {token : List Char} (hdash : token.head? ≠ some '-')
    (hthere : (files (Path.normalize token)).isThere) :
    itemOf files token = .ok (.action (.file (Path.normalize token))) := by
  -- whatever is tested for before starts with a dash
  have hother : ∀ other : List Char, other.head? = some '-' → token ≠ other := by
    rintro other hother rfl
    exact hdash hother
  have hcode : token ∉ codeNames := fun hmem => (mem_codeNames.1 hmem).elim (hother _ rfl) (hother _ rfl)
  have hloop : token ∉ loopNames := fun hmem => (mem_loopNames.1 hmem).elim (hother _ rfl) (hother _ rfl)
  have hvalued : ¬ ∃ name ∈ codeNames, ∃ text, token = name ++ '=' :: text := by
    rintro ⟨name, hname, text, htoken⟩
    rcases mem_codeNames.1 hname with rfl | rfl
    · exact hother _ rfl htoken
    · exact hother _ rfl htoken
  unfold itemOf
  rw [if_neg (hother "--".toList rfl), if_neg (mt (or_decide_iff mem_codeNames).1 hcode),
    if_neg (mt startsWith_code_iff.1 hvalued), if_neg (mt (or_decide_iff mem_loopNames).1 hloop), if_neg hdash]
  cases hentry : files (Path.normalize token) with
  | file text => rfl
  | directory => rfl
  | missing | blocked | overlong =>
    rw [hentry] at hthere
    cases hthere

/-- A token that is an item by itself asks for its action. -/
theorem IsItem.itemOf_eq {token : List Char} {a : Action} (h : IsItem files [token] (some a)) :
    itemOf files token = .ok (.action a) := by
  cases h with
  | loop hname => rcases mem_loopNames.1 hname with rfl | rfl <;> rfl
  | file hdash hthere => exact itemOf_of_isThere hdash hthere
  | @valued name text hname htext =>
    -- no token that is tested for before has an equals sign
    have hother : ∀ other : List Char, '=' ∉ other → name ++ '=' :: text ≠ other := by
      rintro other hother rfl
      exact hother (List.mem_append_right _ (List.mem_cons_self ..))
    have hnames : name ++ '=' :: text ∉ codeNames := by
      intro hmem
      rcases mem_codeNames.1 hmem with heq | heq
      · exact hother _ (by decide) heq
      · exact hother _ (by decide) heq
    unfold itemOf
    rw [if_neg (hother _ (by decide)), if_neg (mt (or_decide_iff mem_codeNames).1 hnames),
      if_pos (startsWith_code_iff.2 ⟨name, hname, text, rfl⟩), valueOf_append hname, if_neg htext]

/-- A token is an item by itself, or the option for code, which takes the next token along. -/
theorem itemOf_eq_ok_cases {token : List Char} {item : Item} (h : itemOf files token = .ok item) :
    (item = .nothing ∧ token = "--".toList) ∨ (item = .codeNext ∧ token ∈ codeNames) ∨
      ∃ a, item = .action a ∧ IsItem files [token] (some a) := by
  unfold itemOf at h
  split at h
  · rename_i hdashes
    cases h
    exact .inl ⟨rfl, hdashes⟩
  · split at h
    · rename_i hcode
      cases h
      exact .inr (.inl ⟨rfl, (or_decide_iff mem_codeNames).1 hcode⟩)
    · split at h
      · rename_i hvalued
        obtain ⟨name, hname, text, rfl⟩ := startsWith_code_iff.1 hvalued
        rw [valueOf_append hname] at h
        split at h
        · cases h
        · rename_i htext
          cases h
          exact .inr (.inr ⟨_, rfl, .valued hname htext⟩)
      · split at h
        · rename_i hloop
          cases h
          exact .inr (.inr ⟨_, rfl, .loop ((or_decide_iff mem_loopNames).1 hloop)⟩)
        · split at h
          · cases h
          · rename_i hdash
            cases hentry : files (Path.normalize token) with
            | file _ | directory =>
              rw [hentry] at h
              cases h
              exact .inr (.inr ⟨_, rfl, .file hdash (by rw [hentry]; rfl)⟩)
            | missing | blocked | overlong =>
              rw [hentry] at h
              cases h

/-! ### Tokens one after the other -/

section Steps

variable {token : List Char}

theorem actionsOf_of_error {e : UsageError} (h : itemOf files token = .error e) (tokens : List (List Char)) :
    actionsOf files (token :: tokens) = .error e := by
  cases tokens <;> simp only [actionsOf, h]

theorem actionsOf_of_nothing (h : itemOf files token = .ok .nothing) (tokens : List (List Char)) :
    actionsOf files (token :: tokens) = actionsOf files tokens := by
  cases tokens <;> simp only [actionsOf, h]

theorem actionsOf_of_action {a : Action} (h : itemOf files token = .ok (.action a)) (tokens : List (List Char)) :
    actionsOf files (token :: tokens) = (actionsOf files tokens).map (a :: ·) := by
  cases tokens with
  | nil => simp only [actionsOf, h, Except.map]
  | cons next rest => simp only [actionsOf, h]

theorem actionsOf_of_codeNext (h : itemOf files token = .ok .codeNext) (next : List Char) (tokens : List (List Char)) :
    actionsOf files (token :: next :: tokens) = (actionsOf files tokens).map (.code next :: ·) := by
  simp only [actionsOf, h]

theorem actionsOf_of_codeNext_nil (h : itemOf files token = .ok .codeNext) :
    actionsOf files [token] = .error .missingCode := by
  simp only [actionsOf, h]

end Steps

private theorem map_nil_append (r : Except UsageError (List Action)) : r.map ([] ++ ·) = r := by
  cases r <;> rfl

private theorem map_append_map (r : Except UsageError (List Action)) (xs ys : List Action) :
    (r.map (ys ++ ·)).map (xs ++ ·) = r.map ((xs ++ ys) ++ ·) := by
  cases r with
  | error e => rfl
  | ok actions => simp only [Except.map, List.append_assoc]

/-- What an item asks for comes before what is made of the tokens that follow it, or the reason why they are refused. -/
theorem IsItem.actionsOf_append {item : List (List Char)} {action? : Option Action} (h : IsItem files item action?)
    (tokens : List (List Char)) :
    actionsOf files (item ++ tokens) = (actionsOf files tokens).map (action?.toList ++ ·) := by
  cases h with
  | dashes => exact (actionsOf_of_nothing rfl tokens).trans (map_nil_append _).symm
  | code hname => exact actionsOf_of_codeNext (itemOf_of_mem_codeNames hname) _ tokens
  | valued hname htext => exact actionsOf_of_action (IsItem.valued hname htext).itemOf_eq tokens
  | loop hname => exact actionsOf_of_action (IsItem.loop hname).itemOf_eq tokens
  | file hdash hthere => exact actionsOf_of_action (IsItem.file hdash hthere).itemOf_eq tokens

theorem AreItems.actionsOf_append {ts : List (List Char)} {actions : List Action} (h : AreItems files ts actions)
    (us : List (List Char)) : actionsOf files (ts ++ us) = (actionsOf files us).map (actions ++ ·) := by
  induction h with
  | nil => exact (map_nil_append _).symm
  | cons hitem _ ih => rw [List.append_assoc, hitem.actionsOf_append, ih, map_append_map]

/-- Tokens that are accepted start with an item, and what follows it is accepted too. -/
private theorem exists_item_of_actionsOf {token : List Char} {tokens : List (List Char)} {actions : List Action}
    (h : actionsOf files (token :: tokens) = .ok actions) :
    ∃ item rest action? actions', token :: tokens = item ++ rest ∧ rest.length ≤ tokens.length ∧
      IsItem files item action? ∧ actionsOf files rest = .ok actions' ∧ actions = action?.toList ++ actions' := by
  cases hitem : itemOf files token with
  | error e =>
    rw [actionsOf_of_error hitem] at h
    cases h
  | ok item =>
    rcases itemOf_eq_ok_cases hitem with ⟨rfl, rfl⟩ | ⟨rfl, hname⟩ | ⟨a, rfl, ha⟩
    · rw [actionsOf_of_nothing hitem] at h
      exact ⟨["--".toList], tokens, none, actions, rfl, Nat.le_refl _, .dashes, h, rfl⟩
    · cases tokens with
      | nil =>
        rw [actionsOf_of_codeNext_nil hitem] at h
        cases h
      | cons next rest =>
        rw [actionsOf_of_codeNext hitem] at h
        obtain ⟨actions', hrest, rfl⟩ := map_eq_ok h
        exact ⟨[token, next], rest, some (.code next), actions', rfl, Nat.le_succ _, .code hname, hrest, rfl⟩
    · rw [actionsOf_of_action hitem] at h
      obtain ⟨actions', hrest, rfl⟩ := map_eq_ok h
      exact ⟨[token], tokens, some a, actions', rfl, Nat.le_refl _, ha, hrest, rfl⟩

theorem areItems_of_actionsOf {ts : List (List Char)} {actions : List Action} (h : actionsOf files ts = .ok actions) :
    AreItems files ts actions := by
  -- an item is one token or two, so the induction is on how many are left
  induction hn : ts.length using Nat.strongRecOn generalizing ts actions with
  | ind n ih =>
    cases ts with
    | nil =>
      cases h
      exact .nil
    | cons token tokens =>
      obtain ⟨item, rest, action?, actions', heq, hle, hitem, hrest, rfl⟩ := exists_item_of_actionsOf h
      rw [heq]
      refine .cons hitem (ih rest.length ?_ hrest rfl)
      rw [List.length_cons] at hn
      omega

/-- Tokens are accepted exactly if they are items one after the other, and the actions are those that the items ask for.
Tokens that are accepted may be put before any others: their actions come before those of the others, or the others are
refused for the same reason. -/
theorem actionsOf_grammar (files : Files) (ts : List (List Char)) (actions : List Action) :
    (actionsOf files ts = .ok actions ↔ AreItems files ts actions) ∧
    (actionsOf files ts = .ok actions →
      ∀ us, actionsOf files (ts ++ us) = (actionsOf files us).map (actions ++ ·)) := by
  have hiff : actionsOf files ts = .ok actions ↔ AreItems files ts actions := by
    refine ⟨areItems_of_actionsOf, fun h => ?_⟩
    have happend := h.actionsOf_append []
    rw [List.append_nil] at happend
    rw [happend]
    exact congrArg Except.ok (List.append_nil actions)
  exact ⟨hiff, fun h => (hiff.1 h).actionsOf_append⟩

/-- Code that looks like an option, code with an equals sign in it, and a path with a slash too many, before an option
that has no code, before one whose code is empty, and before one with code of its own. -/
theorem actionsOf_grammar_options_as_code :
    let files : Files := fun path => if path = "a/b".toList then .file [] else .missing
    let ts := ["--", "-c", "--repl", "--command=x=-c", "a//b", "-r"].map String.toList
    let actions : List Action := [.code "--repl".toList, .code "x=-c".toList, .file "a/b".toList, .loop]
    AreItems files ts actions ∧
      actionsOf files (ts ++ ["-c".toList]) = .error .missingCode ∧
      actionsOf files (ts ++ ["-c=".toList]) = .error .emptyCode ∧
      actionsOf files (ts ++ ["-c".toList, "-x".toList]) = .ok (actions ++ [.code "-x".toList]) := by
  intro files ts actions
  have haccepted : actionsOf files ts = .ok actions := by rfl
  obtain ⟨hiff, happend⟩ := actionsOf_grammar files ts actions
  refine ⟨hiff.1 haccepted, ?_, ?_, ?_⟩
  · rw [happend haccepted]
    rfl
  · rw [happend haccepted]
    rfl
  · rw [happend haccepted]
    rfl

end Shell

end Catena
