import Catena.Shell.Command

/-!
# Global options anywhere

Where a global option stands among the arguments makes no difference.  Sorting goes through the arguments in order
(`sortArguments_append`), so that an option put between two of them is put between two of the global ones, and what is
chosen without it is chosen with it, apart from what the option itself asks for (`Options.ofGlobals_insert`).  The
argument before must not be an option that waits for its value (`awaitsValue`), which would take the other for it.

One of the options that the command declares is not among those that are sorted out, the long name of the option for a
trace: with it something else is run (`Request.ofArguments_insert_ne`).
-/

namespace Catena.Shell

open Catena.Text

/-- The arguments end in an option that still waits for its value. -/
def awaitsValue : List (List Char) → Bool
  | [] => false
  | [a] => a = "--max-depth".toList
  | a :: b :: rest => if a = "--max-depth".toList then awaitsValue rest else awaitsValue (b :: rest)

/-- The long name of the option for a trace. -/
def verboseName : List Char := "--verbose".toList

/-- The options without a value that are sorted out. -/
def IsSwitch (f : List Char) : Prop := String.ofList f ∈ flags ∨ isVerbose f

/-- The options without a value that the command declares. -/
def IsDeclared (f : List Char) : Prop := IsSwitch f ∨ f = verboseName

/-! ### Sorting -/

theorem sortArguments_of_isGlobal {a : List Char} (h : isGlobal a) (args : List (List Char)) :
    sortArguments (a :: args) = (a :: (sortArguments args).1, (sortArguments args).2) := by
  cases args with
  | nil => simp [sortArguments, h]
  | cons b rest => rw [sortArguments, if_pos h]

theorem sortArguments_of_other {a : List Char} (h : ¬ isGlobal a) (hdepth : a ≠ "--max-depth".toList)
    (args : List (List Char)) :
    sortArguments (a :: args) = ((sortArguments args).1, a :: (sortArguments args).2) := by
  cases args with
  | nil => simp [sortArguments, h]
  | cons b rest => rw [sortArguments, if_neg h, if_neg hdepth]

theorem sortArguments_of_depth (v : List Char) (args : List (List Char)) :
    sortArguments ("--max-depth".toList :: v :: args) =
      ("--max-depth".toList :: v :: (sortArguments args).1, (sortArguments args).2) := by
  rw [sortArguments, if_neg (by decide), if_pos rfl]

/-- An argument that waits for no value is sorted by itself. -/
theorem sortArguments_cons {a : List Char} (h : a ≠ "--max-depth".toList) (args : List (List Char)) :
    sortArguments (a :: args) =
      ((sortArguments [a]).1 ++ (sortArguments args).1, (sortArguments [a]).2 ++ (sortArguments args).2) := by
  by_cases hglobal : isGlobal a
  · rw [sortArguments_of_isGlobal hglobal, sortArguments_of_isGlobal hglobal []]
    rfl
  · rw [sortArguments_of_other hglobal h, sortArguments_of_other hglobal h []]
    rfl

theorem sortArguments_append {x : List (List Char)} (h : awaitsValue x = false) (y : List (List Char)) :
    sortArguments (x ++ y) =
      ((sortArguments x).1 ++ (sortArguments y).1, (sortArguments x).2 ++ (sortArguments y).2) := by
  fun_induction awaitsValue x with
  | case1 => rfl
  | case2 a => exact sortArguments_cons (of_decide_eq_false h) y
  | case3 v rest ih =>
    rw [List.cons_append, List.cons_append, sortArguments_of_depth, sortArguments_of_depth, ih h]
    rfl
  | case4 a b rest ha ih =>
    rw [List.cons_append, sortArguments_cons ha, sortArguments_cons ha (b :: rest), ih h, List.append_assoc,
      List.append_assoc]

/-- Arguments are gone through from the first on: a global option, an option with its value, another argument, or an
option that waits for its value in vain. -/
theorem arguments_induction {P : List (List Char) → Prop} (nil : P [])
    (global : ∀ a args, isGlobal a → P args → P (a :: args))
    (valued : ∀ v args, P args → P ("--max-depth".toList :: v :: args))
    (other : ∀ a args, ¬ isGlobal a → a ≠ "--max-depth".toList → P args → P (a :: args))
    (awaiting : P ["--max-depth".toList]) (args : List (List Char)) : P args := by
  induction args using sortArguments.induct with
  | case1 => exact nil
  | case2 a h => exact global a [] h nil
  | case3 a h =>
    by_cases hdepth : a = "--max-depth".toList
    · exact hdepth ▸ awaiting
    · exact other a [] h hdepth nil
  | case4 a b rest h _ _ _ ih => exact global a (b :: rest) h ih
  | case5 b rest _ _ _ _ ih => exact valued b rest ih
  | case6 a b rest h hdepth _ _ _ ih => exact other a (b :: rest) h hdepth ih

/-- Nothing is lost or doubled, and each group keeps its order. -/
theorem sortArguments_parts (args : List (List Char)) :
    ((sortArguments args).1 ++ (sortArguments args).2).Perm args ∧ (sortArguments args).1.Sublist args ∧
      (sortArguments args).2.Sublist args := by
  induction args using arguments_induction with
  | nil => simp [sortArguments]
  | global a args h ih =>
    obtain ⟨hperm, hglobals, hothers⟩ := ih
    rw [sortArguments_of_isGlobal h]
    exact ⟨hperm.cons a, hglobals.cons_cons a, hothers.cons a⟩
  | valued v args ih =>
    obtain ⟨hperm, hglobals, hothers⟩ := ih
    rw [sortArguments_of_depth]
    exact ⟨(hperm.cons v).cons _, (hglobals.cons_cons v).cons_cons _, (hothers.cons v).cons _⟩
  | other a args h hdepth ih =>
    obtain ⟨hperm, hglobals, hothers⟩ := ih
    rw [sortArguments_of_other h hdepth]
    exact ⟨List.perm_middle.trans (hperm.cons a), hglobals.cons a, hothers.cons_cons a⟩
  | awaiting => decide

/-! ### Options -/

theorem ne_depth_of_isGlobal {a : List Char} (h : isGlobal a) : a ≠ "--max-depth".toList := by
  rintro rfl
  exact absurd h (by decide)

theorem isGlobal_iff {a : List Char} : isGlobal a ↔ IsSwitch a ∨ startsWith "--max-depth=" a := by
  simp [isGlobal, IsSwitch]

theorem IsSwitch.not_startsWith {a : List Char} (h : IsSwitch a) : startsWith "--max-depth" a = false := by
  rcases h with h | h
  · have hflags : ∀ flag ∈ flags, startsWith "--max-depth" flag.toList = false := by decide
    simpa using hflags _ h
  · unfold isVerbose at h
    split at h
    · rename_i vs
      cases vs with
      | nil => cases h
      | cons v vs =>
        have hv : v = 'v' := by simp_all
        subst hv
        rfl
    · cases h

theorem startsWith_depth_of_equals {a : List Char} (h : startsWith "--max-depth=" a) : startsWith "--max-depth" a := by
  have hequals : "--max-depth=".toList <+: a := List.isPrefixOf_iff_prefix.1 h
  have hdepth : "--max-depth".toList <+: "--max-depth=".toList := by decide
  exact List.isPrefixOf_iff_prefix.2 (hdepth.trans hequals)

/-- A global option that limits the depth has its value behind an equals sign. -/
theorem startsWith_depth_iff {a : List Char} (h : isGlobal a) :
    startsWith "--max-depth" a = startsWith "--max-depth=" a := by
  rcases isGlobal_iff.1 h with hswitch | hequals
  · have hnot := hswitch.not_startsWith
    rw [hnot, eq_comm, Bool.eq_false_iff]
    intro hequals
    rw [startsWith_depth_of_equals hequals] at hnot
    cases hnot
  · rw [hequals, startsWith_depth_of_equals hequals]

theorem switches_cons {a : List Char} (h : isGlobal a) (args : List (List Char)) :
    switches (a :: args) = switches [a] ++ switches args := by
  cases args with
  | nil => simp [switches]
  | cons b rest =>
    simp only [switches, if_neg (ne_depth_of_isGlobal h), startsWith_depth_iff h]
    split <;> rfl

theorem switches_globals_append (x args : List (List Char)) :
    switches ((sortArguments x).1 ++ args) = switches (sortArguments x).1 ++ switches args := by
  induction x using arguments_induction with
  | nil => rfl
  | global a x h ih =>
    rw [sortArguments_of_isGlobal h, List.cons_append, switches_cons h, switches_cons h (sortArguments x).1, ih,
      List.append_assoc]
  | valued v x ih =>
    rw [sortArguments_of_depth]
    exact ih
  | other a x h hdepth ih =>
    rw [sortArguments_of_other h hdepth]
    exact ih
  | awaiting => rfl

theorem depthText?_cons {a : List Char} (h : a ≠ "--max-depth".toList) (args : List (List Char)) :
    depthText? (a :: args) = (depthText? args).or (depthText? [a]) := by
  have hstep : ∀ args, depthText? (a :: args) =
      if startsWith "--max-depth=" a then (depthText? args).or (some (a.drop "--max-depth=".length))
      else depthText? args := by
    intro args
    rw [depthText?.eq_def]
    simp only [if_neg h]
  rw [hstep args, hstep []]
  split
  · rfl
  · exact (Option.or_none ..).symm

theorem depthText?_of_depth (v : List Char) (args : List (List Char)) :
    depthText? ("--max-depth".toList :: v :: args) = (depthText? args).or (some v) := by
  rw [depthText?, if_neg (by decide), if_pos rfl]

theorem depthText?_globals_append (x args : List (List Char)) :
    depthText? ((sortArguments x).1 ++ args) = (depthText? args).or (depthText? (sortArguments x).1) := by
  induction x using arguments_induction with
  | nil => exact (Option.or_none ..).symm
  | global a x h ih =>
    have hdepth := ne_depth_of_isGlobal h
    rw [sortArguments_of_isGlobal h, List.cons_append, depthText?_cons hdepth,
      depthText?_cons hdepth (sortArguments x).1, ih, Option.or_assoc]
  | valued v x ih =>
    rw [sortArguments_of_depth, List.cons_append, List.cons_append, depthText?_of_depth, depthText?_of_depth, ih,
      Option.or_assoc]
  | other a x h hdepth ih =>
    rw [sortArguments_of_other h hdepth]
    exact ih
  | awaiting => exact (Option.or_none ..).symm

/-! ### What switches ask for -/

def asksDebug (a : List Char) : Bool := a = "--debug".toList || a = "-d".toList

/-- The options with what a switch asks for. -/
def Options.plus (o : Options) (a : List Char) : Options where
  verbosity := o.verbosity + if isVerbose a then a.length - 1 else 0
  debug := o.debug || asksDebug a
  strict := o.strict || a = "--strict".toList
  maxDepth := o.maxDepth
  ignore := o.ignore || (a = "--ignore".toList || a = "-i".toList)
  stats := o.stats || a = "--stats".toList
  plain := o.plain || (a = "--plain".toList || a = "-p".toList)

/-- The variable for debugging, which does not count beside its option. -/
def variableBeside (a : List Char) (debugVariable : Option (List Char)) : Option (List Char) :=
  if asksDebug a then none else debugVariable

/-- Whether switches or else the variable ask for debugging. -/
def debugOf (given : List (List Char)) (debugVariable : Option (List Char)) : Except UsageError Bool :=
  if given.contains "--debug".toList || given.contains "-d".toList then .ok true
  else readDebug (debugVariable.getD [])

/-- The options that switches choose, but for the limit on the depth and debugging. -/
def Options.ofSwitches (given : List (List Char)) (maxDepth : Int) (debug : Bool) : Options where
  verbosity := (given.filter isVerbose).foldl (fun n a => n + (a.length - 1)) 0
  debug := debug
  strict := given.contains "--strict".toList
  maxDepth := maxDepth
  ignore := given.contains "--ignore".toList || given.contains "-i".toList
  stats := given.contains "--stats".toList
  plain := given.contains "--plain".toList || given.contains "-p".toList

theorem Options.ofGlobals_eq (globals : List (List Char)) (debugVariable : Option (List Char)) :
    Options.ofGlobals globals debugVariable =
      (readDepth (depthText? globals)).bind fun maxDepth =>
        (debugOf (switches globals) debugVariable).map (Options.ofSwitches (switches globals) maxDepth) := by
  unfold ofGlobals debugOf
  dsimp only
  cases readDepth (depthText? globals) with
  | error e => rfl
  | ok maxDepth =>
    generalize switches globals = given
    show (if given.contains "--debug".toList || given.contains "-d".toList then _ else _) = Except.map _ (ite _ _ _)
    split
    · rfl
    · cases readDebug (debugVariable.getD []) <;> rfl

private theorem contains_insert (x y : List (List Char)) (a b : List Char) :
    (x ++ a :: y).contains b = ((x ++ y).contains b || a = b) := by
  simp [Bool.or_comm, Bool.or_left_comm, eq_comm]

private theorem contains_insert_or (x y : List (List Char)) (a b c : List Char) :
    ((x ++ a :: y).contains b || (x ++ a :: y).contains c) =
      ((x ++ y).contains b || (x ++ y).contains c || (a = b || a = c)) := by
  rw [contains_insert, contains_insert]
  ac_rfl

private theorem foldl_verbosity (args : List (List Char)) (n : Nat) :
    args.foldl (fun n a => n + (a.length - 1)) n = n + args.foldl (fun n a => n + (a.length - 1)) 0 := by
  induction args generalizing n with
  | nil => rfl
  | cons a args ih =>
    rw [List.foldl_cons, List.foldl_cons, ih (n + (a.length - 1)), ih (0 + (a.length - 1))]
    omega

private theorem verbosity_insert (x y : List (List Char)) (a : List Char) :
    ((x ++ a :: y).filter isVerbose).foldl (fun n a => n + (a.length - 1)) 0 =
      ((x ++ y).filter isVerbose).foldl (fun n a => n + (a.length - 1)) 0 +
        if isVerbose a then a.length - 1 else 0 := by
  rw [List.filter_append, List.filter_append, List.foldl_append, List.foldl_append, List.filter_cons]
  split
  · rw [List.foldl_cons, foldl_verbosity, foldl_verbosity (y.filter isVerbose) (List.foldl ..)]
    omega
  · rfl

theorem Options.ofSwitches_insert (x y : List (List Char)) (a : List Char) (maxDepth : Int) (debug : Bool) :
    Options.ofSwitches (x ++ a :: y) maxDepth (debug || asksDebug a) =
      (Options.ofSwitches (x ++ y) maxDepth debug).plus a := by
  unfold ofSwitches plus
  rw [verbosity_insert, contains_insert_or, contains_insert_or, contains_insert, contains_insert]

theorem debugOf_insert (x y : List (List Char)) (a : List Char) (debugVariable : Option (List Char)) :
    debugOf (x ++ a :: y) debugVariable =
      (debugOf (x ++ y) (variableBeside a debugVariable)).map (· || asksDebug a) := by
  unfold debugOf variableBeside
  rw [contains_insert_or]
  show (if (_ || asksDebug a) = true then _ else _) = _
  cases hasks : asksDebug a with
  | true =>
    rw [Bool.or_true, if_pos rfl, if_pos rfl]
    split <;> rfl
  | false =>
    have hsame : (fun debug => debug || false) = @id Bool := funext Bool.or_false
    rw [Bool.or_false, hsame, Except.map_id]
    rfl

/-- A switch among the global options adds what it asks for to what the others choose. -/
theorem Options.ofGlobals_insert {a : List Char} (ha : IsSwitch a) (x y : List (List Char))
    (debugVariable : Option (List Char)) :
    Options.ofGlobals ((sortArguments x).1 ++ a :: (sortArguments y).1) debugVariable =
      (Options.ofGlobals ((sortArguments x).1 ++ (sortArguments y).1) (variableBeside a debugVariable)).map
        (·.plus a) := by
  have hglobal : isGlobal a := isGlobal_iff.2 (.inl ha)
  have hequals : startsWith "--max-depth=" a = false := by
    rw [← startsWith_depth_iff hglobal, ha.not_startsWith]
  have hdepth : ∀ args, depthText? (a :: args) = depthText? args := by
    intro args
    have hnone : depthText? [a] = none := by
      simp only [depthText?, hequals, if_neg (ne_depth_of_isGlobal hglobal)]
      rfl
    rw [depthText?_cons (ne_depth_of_isGlobal hglobal), hnone, Option.or_none]
  have hswitches : ∀ args, switches (a :: args) = a :: switches args := by
    intro args
    have hone : switches [a] = [a] := by simp [switches, ha.not_startsWith]
    rw [switches_cons hglobal, hone]
    rfl
  rw [ofGlobals_eq, ofGlobals_eq, depthText?_globals_append, depthText?_globals_append, hdepth,
    switches_globals_append, switches_globals_append, hswitches, debugOf_insert]
  cases readDepth _ with
  | error e => rfl
  | ok maxDepth =>
    dsimp only [Except.bind]
    cases debugOf _ _ with
    | error e => rfl
    | ok debug => exact congrArg Except.ok (ofSwitches_insert ..)

/-! ### Options anywhere -/

theorem Request.eq_of_ofArguments {terminal : Bool} {as bs : List (List Char)}
    (h : ofArguments terminal as = actions bs) : as = bs := by
  unfold ofArguments at h
  split at h
  · split at h <;> cases h
  · split at h
    · cases h
    · split at h
      · cases h
      · exact actions.inj h
  · exact actions.inj h

theorem Request.ofArguments_of_two_le {as : List (List Char)} (h : 2 ≤ as.length) (terminal : Bool) :
    ofArguments terminal as = actions as := by
  match as with
  | [] | [_] => simp at h
  | _ :: _ :: _ => rfl

/-- One more argument that says what to run asks for something else, unless it is the name of a script. -/
theorem Request.ofArguments_insert_ne (terminal : Bool) (x y : List (List Char)) :
    ofArguments terminal (x ++ verboseName :: y) ≠ ofArguments terminal (x ++ y) := by
  by_cases hnil : x ++ y = []
  · obtain ⟨rfl, rfl⟩ := List.append_eq_nil_iff.1 hnil
    cases terminal <;> decide
  · have hlength : 2 ≤ (x ++ verboseName :: y).length := by
      have hpos := List.length_pos_iff.2 hnil
      simp only [List.length_append, List.length_cons] at hpos ⊢
      omega
    rw [ofArguments_of_two_le hlength]
    intro h
    have heq := congrArg List.length (eq_of_ofArguments h.symm)
    simp only [List.length_append, List.length_cons] at heq
    omega

/-- Global options may stand anywhere.  Sorting loses and doubles nothing and keeps the order of the global options and
that of the other arguments.  An option that the command declares may be put between any two arguments of which the
first does not wait for it as its value: then the same is run with the same other arguments, and the option is added to
the global ones, in its place, and to what they choose.  The long name of the option for a trace is the one exception:
it is taken for another argument, and something else is run. -/
theorem sortArguments_insert_iff (terminal : Bool) (x y : List (List Char)) (f : List Char)
    (hx : awaitsValue x = false) (hf : IsDeclared f) :
    (∀ args, let (globals, others) := sortArguments args
      (globals ++ others).Perm args ∧ globals.Sublist args ∧ others.Sublist args) ∧
    (Request.ofArguments terminal (sortArguments (x ++ f :: y)).2 =
        Request.ofArguments terminal (sortArguments (x ++ y)).2 ↔ f ≠ verboseName) ∧
    (f ≠ verboseName →
      (sortArguments (x ++ f :: y)).2 = (sortArguments (x ++ y)).2 ∧
      ∃ before after, (sortArguments (x ++ y)).1 = before ++ after ∧
        (sortArguments (x ++ f :: y)).1 = before ++ f :: after ∧
        ∀ debugVariable, Options.ofGlobals (before ++ f :: after) debugVariable =
          (Options.ofGlobals (before ++ after) (variableBeside f debugVariable)).map (·.plus f)) := by
  have hwithout := sortArguments_append hx y
  have hwith := sortArguments_append hx (f :: y)
  have hinsert : f ≠ verboseName → IsSwitch f ∧ sortArguments (x ++ f :: y) =
      ((sortArguments x).1 ++ f :: (sortArguments y).1, (sortArguments (x ++ y)).2) := by
    intro hname
    have hswitch : IsSwitch f := hf.resolve_right hname
    rw [hwith, hwithout, sortArguments_of_isGlobal (isGlobal_iff.2 (.inl hswitch))]
    exact ⟨hswitch, rfl⟩
  refine ⟨sortArguments_parts, ⟨?_, fun hname => ?_⟩, fun hname => ?_⟩
  · rintro hsame rfl
    rw [hwith, hwithout, sortArguments_of_other (by decide) (by decide)] at hsame
    exact Request.ofArguments_insert_ne _ _ _ hsame
  · rw [(hinsert hname).2]
  · obtain ⟨hswitch, hsort⟩ := hinsert hname
    rw [hsort]
    refine ⟨rfl, (sortArguments x).1, (sortArguments y).1, ?_, rfl, Options.ofGlobals_insert hswitch x y⟩
    rw [hwithout]

/-- A double request for a trace behind a limit with its value, and before an option that waits for one in vain. -/
theorem sortArguments_insert_iff_behind_value :
    let x := ["a", "--max-depth", "3"].map String.toList
    let y := ["-d", "--max-depth"].map String.toList
    let f := "-vv".toList
    awaitsValue x = false ∧ IsDeclared f ∧ f ≠ verboseName ∧
      Request.ofArguments false (sortArguments (x ++ y)).2 = .actions (["a", "--max-depth"].map String.toList) ∧
      Options.ofGlobals (sortArguments (x ++ y)).1 none = .ok { debug := true, maxDepth := 3 } ∧
      Request.ofArguments false (sortArguments (x ++ f :: y)).2 = .actions (["a", "--max-depth"].map String.toList) ∧
      Options.ofGlobals (sortArguments (x ++ f :: y)).1 none =
        .ok { verbosity := 2, debug := true, maxDepth := 3 } := by
  intro x y f
  have hx : awaitsValue x = false := by decide
  have hf : IsDeclared f := .inl (.inr (by decide))
  have hname : f ≠ verboseName := by decide
  have hrequest : Request.ofArguments false (sortArguments (x ++ y)).2 =
      .actions (["a", "--max-depth"].map String.toList) := by decide
  have hoptions : Options.ofGlobals (sortArguments (x ++ y)).1 none = .ok { debug := true, maxDepth := 3 } := by rfl
  obtain ⟨-, hsame, hparts⟩ := sortArguments_insert_iff false x y f hx hf
  obtain ⟨-, before, after, hbefore, hafter, hplus⟩ := hparts hname
  refine ⟨hx, hf, hname, hrequest, hoptions, (hsame.2 hname).trans hrequest, ?_⟩
  rw [hafter, hplus none, show variableBeside f none = none from rfl, ← hbefore, hoptions]
  rfl

/-- The long name of the option for a trace is handed on to the command, which does not know it. -/
theorem verboseName_is_unknown :
    IsDeclared verboseName ∧ Request.ofArguments false (sortArguments []).2 = .script ['-'] ∧
      Request.ofArguments false (sortArguments [verboseName]).2 = .actions [verboseName] ∧
      run { arguments := [verboseName], files := fun _ => .missing } =
        .refusedBy {} (.unknownOption verboseName) :=
  ⟨.inr rfl, rfl, rfl, rfl⟩

end Catena.Shell
