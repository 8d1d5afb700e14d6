import Catena.Proofs.Blanks
import Catena.Source.Lexeme

/-!
# The grammar of lexemes

`Spells` says what the text of a lexeme of each shape looks like.  Where a lexeme starts, the scanner only finds such
texts (`spells_of_lexemeAt?`), and it finds every one that is over: a number or a symbol runs up to a blank or the end
of the source, any other lexeme up to its own end (`Spells.scan_eq`).  So scanning lexemes that are set side by side
gives exactly these lexemes (`scan_joinSpaced`).
-/

namespace Catena

open Catena.Text

/-- What may stand between the quotes of a string: a quote or a backslash only behind a backslash, which no line feed
follows. -/
inductive IsQuoted : List Char → Prop where
  | nil : IsQuoted []
  | escaped {c : Char} {u : List Char} (hc : c ≠ '\n') (hu : IsQuoted u) : IsQuoted ('\\' :: c :: u)
  | plain {c : Char} {u : List Char} (hq : c ≠ '"') (hb : c ≠ '\\') (hu : IsQuoted u) : IsQuoted (c :: u)

/-- The texts of the lexemes of each shape. -/
inductive Spells : Shape → List Char → Prop where
  | string {u : List Char} (hu : IsQuoted u) : Spells .string ('"' :: (u ++ ['"']))
  | array {u : List Char} (hu : ']' ∉ u) : Spells .array ('[' :: (u ++ [']']))
  | definition {u : List Char} (hu : ';' ∉ u) : Spells .definition (':' :: (u ++ [';']))
  | number {c : Char} {u : List Char} (hs : IsSolid (c :: u)) (hd : isDigit c) : Spells .number (c :: u)
  | symbol {c : Char} {u : List Char} (hs : IsSolid (c :: u)) (hd : isDigit c = false)
      (ho : c ∉ ['#', '"', '[', ':']) : Spells .symbol (c :: u)

/-- Numbers and symbols have no end of their own: they run on as long as no blank comes. -/
def Shape.isRun : Shape → Bool
  | number | symbol => true
  | string | array | definition => false

/-- Nothing goes on: the text is over or starts with a blank. -/
def IsGap (rest : List Char) : Prop := ∀ c, rest.head? = some c → isBlank c

/-! ### From the scanner to the grammar -/

private theorem quoted_of_stringRest? {r t : List Char} (h : stringRest? r = some t) :
    ∃ u rest, IsQuoted u ∧ t = u ++ ['"'] ∧ r = t ++ rest := by
  fun_induction stringRest? r generalizing t with
  | case1 => cases h
  | case2 r => cases h
  | case3 c r hc ih =>
    obtain ⟨t', ht', rfl⟩ := Option.map_eq_some_iff.1 h
    obtain ⟨u, rest, hu, rfl, rfl⟩ := ih ht'
    exact ⟨'\\' :: c :: u, rest, .escaped hc hu, rfl, rfl⟩
  | case4 r =>
    obtain rfl : ['"'] = t := by simpa using h
    exact ⟨[], r, .nil, rfl, rfl⟩
  | case5 => cases h
  | case6 c r _ hq hb ih =>
    obtain ⟨t', ht', rfl⟩ := Option.map_eq_some_iff.1 h
    obtain ⟨u, rest, hu, rfl, rfl⟩ := ih ht'
    exact ⟨c :: u, rest, .plain hq hb hu, rfl, rfl⟩

private theorem upTo?_eq_some {close : Char} {r t : List Char} (h : upTo? close r = some t) :
    ∃ u rest, close ∉ u ∧ t = u ++ [close] ∧ r = t ++ rest := by
  fun_induction upTo? close r generalizing t with
  | case1 => cases h
  | case2 r =>
    obtain rfl : [close] = t := by simpa using h
    exact ⟨[], r, by simp, rfl, rfl⟩
  | case3 c r hc ih =>
    obtain ⟨t', ht', rfl⟩ := Option.map_eq_some_iff.1 h
    obtain ⟨u, rest, hu, rfl, rfl⟩ := ih ht'
    exact ⟨c :: u, rest, by simp [hu, Ne.symm hc], rfl, rfl⟩

private theorem isSolid_cons_solid {c : Char} (hc : isBlank c = false) (r : List Char) : IsSolid (c :: solid r) := by
  refine ⟨by simp, fun d hd => ?_⟩
  rcases List.mem_cons.1 hd with rfl | hd
  · exact hc
  · have h := List.all_takeWhile (l := r) (p := fun c => !isBlank c)
    rw [List.all_eq_true] at h
    simpa using h d hd

private theorem isGap_dropWhile (r : List Char) : IsGap (r.dropWhile fun c => !isBlank c) := by
  intro c hc
  have h := List.head?_dropWhile_not (fun c => !isBlank c) r
  rw [hc] at h
  simpa using h

/-- What is found at a character that starts a lexeme is spelled by the grammar and is the beginning of the source from
there on; if it is a run, it is all of it. -/
theorem spells_of_lexemeAt? {c : Char} {r raw : List Char} {shape : Shape} (hb : isBlank c = false) (hc : c ≠ '#')
    (h : lexemeAt? c r = some (shape, raw)) :
    Spells shape raw ∧ ∃ rest, c :: r = raw ++ rest ∧ (shape.isRun → IsGap rest) := by
  unfold lexemeAt? at h
  split at h
  · obtain ⟨t, ht, e⟩ := Option.map_eq_some_iff.1 h
    obtain ⟨u, rest, hu, rfl, rfl⟩ := quoted_of_stringRest? ht
    subst c
    cases e
    exact ⟨.string hu, rest, by simp, by simp [Shape.isRun]⟩
  · split at h
    · obtain ⟨t, ht, e⟩ := Option.map_eq_some_iff.1 h
      obtain ⟨u, rest, hu, rfl, rfl⟩ := upTo?_eq_some ht
      subst c
      cases e
      exact ⟨.array hu, rest, by simp, by simp [Shape.isRun]⟩
    · split at h
      · obtain ⟨t, ht, e⟩ := Option.map_eq_some_iff.1 h
        obtain ⟨u, rest, hu, rfl, rfl⟩ := upTo?_eq_some ht
        subst c
        cases e
        exact ⟨.definition hu, rest, by simp, by simp [Shape.isRun]⟩
      · have hs := isSolid_cons_solid hb r
        have hrun : c :: r = c :: solid r ++ r.dropWhile fun c => !isBlank c := by
          rw [List.cons_append, solid, List.takeWhile_append_dropWhile]
        cases hd : isDigit c with
        | true =>
          simp only [hd, ↓reduceIte, Option.some.injEq, Prod.mk.injEq] at h
          obtain ⟨rfl, rfl⟩ := h
          exact ⟨.number hs hd, _, hrun, fun _ => isGap_dropWhile r⟩
        | false =>
          simp only [hd, Bool.false_eq_true, ↓reduceIte, Option.some.injEq, Prod.mk.injEq] at h
          obtain ⟨rfl, rfl⟩ := h
          exact ⟨.symbol hs hd (by simp_all), _, hrun, fun _ => isGap_dropWhile r⟩

/-! ### From the grammar to the scanner -/

theorem IsQuoted.stringRest?_eq {u : List Char} (hu : IsQuoted u) (rest : List Char) :
    stringRest? (u ++ '"' :: rest) = some (u ++ ['"']) := by
  induction hu with
  | nil => rfl
  | escaped hc _ ih => simp [stringRest?, hc, ih]
  | @plain c u hq hb _ ih =>
    rw [List.cons_append, stringRest?]
    · simp [hq, hb, ih]
    · intro d r e
      exact absurd e hb

private theorem upTo?_append {close : Char} {u : List Char} (hu : close ∉ u) (rest : List Char) :
    upTo? close (u ++ close :: rest) = some (u ++ [close]) := by
  induction u with
  | nil => simp [upTo?]
  | cons c u ih =>
    obtain ⟨hc, hu⟩ : close ≠ c ∧ close ∉ u := by simpa using hu
    simp [upTo?, Ne.symm hc, ih hu]

private theorem solid_append {u rest : List Char} (hu : ∀ c ∈ u, isBlank c = false) (hrest : IsGap rest) :
    solid (u ++ rest) = u := by
  have hnil : rest.takeWhile (fun c => !isBlank c) = [] := by
    cases rest with
    | nil => rfl
    | cons c r => simp [hrest c rfl]
  unfold solid
  rw [List.takeWhile_append_of_pos (by simpa using hu), hnil, List.append_nil]

/-- A text of the grammar that does not run on is found as it is. -/
theorem Spells.lexemeAt?_eq {shape : Shape} {c : Char} {u : List Char} (h : Spells shape (c :: u)) {rest : List Char}
    (hrest : shape.isRun → IsGap rest) : lexemeAt? c (u ++ rest) = some (shape, c :: u) := by
  cases h with
  | string hu => simp [lexemeAt?, hu.stringRest?_eq]
  | array hu => simp [lexemeAt?, upTo?_append hu]
  | definition hu => simp [lexemeAt?, upTo?_append hu]
  | number hs hd =>
    have hne : c ≠ '"' ∧ c ≠ '[' ∧ c ≠ ':' := by refine ⟨?_, ?_, ?_⟩ <;> rintro rfl <;> exact absurd hd (by decide)
    simp [lexemeAt?, hne, hd, solid_append (fun d hd => hs.2 d (List.mem_cons_of_mem c hd)) (hrest rfl)]
  | symbol hs hd ho =>
    simp only [List.mem_cons, not_or] at ho
    simp [lexemeAt?, hd, ho, solid_append (fun d hd => hs.2 d (List.mem_cons_of_mem c hd)) (hrest rfl)]

/-- A lexeme starts with a character that is no blank and starts no comment. -/
theorem Spells.head {shape : Shape} {c : Char} {u : List Char} (h : Spells shape (c :: u)) :
    isBlank c = false ∧ c ≠ '#' := by
  cases h with
  | string | array | definition => decide
  | number hs hd =>
    refine ⟨hs.2 c (by simp), ?_⟩
    rintro rfl
    exact absurd hd (by decide)
  | symbol hs hd ho =>
    refine ⟨hs.2 c (by simp), ?_⟩
    rintro rfl
    exact ho (by simp)

/-- Characters that are taken are passed over. -/
theorem scan_append (p : Position) (u rest : List Char) :
    scan p u.length (u ++ rest) = scan (p.after u) 0 rest := by
  induction u generalizing p with
  | nil => rfl
  | cons c u ih => exact ih (p.next c)

theorem Spells.exists_cons {shape : Shape} {raw : List Char} (h : Spells shape raw) : ∃ c u, raw = c :: u := by
  cases h <;> exact ⟨_, _, rfl⟩

/-- The scanner takes a lexeme that does not run on and goes on after it. -/
theorem Spells.scan_eq {shape : Shape} {raw : List Char} (h : Spells shape raw) {rest : List Char}
    (hrest : shape.isRun → IsGap rest) (p : Position) :
    scan p 0 (raw ++ rest) = (scan (p.after raw) 0 rest).map (⟨shape, raw, p⟩ :: ·) := by
  obtain ⟨c, u, rfl⟩ := h.exists_cons
  obtain ⟨hb, hc⟩ := h.head
  rw [List.cons_append, scan]
  simp only [hb, hc, h.lexemeAt?_eq hrest, Bool.false_eq_true, ↓reduceIte, List.length_cons, Nat.add_sub_cancel]
  rw [scan_append]
  rfl

theorem scan_cons_of_isBlank {c : Char} (hc : isBlank c) (p : Position) (r : List Char) :
    scan p 0 (c :: r) = scan (p.next c) 0 r := by
  rw [scan, if_pos hc]

theorem scan_of_isBlank {bs : List Char} (h : ∀ c ∈ bs, isBlank c) (p : Position) : scan p 0 bs = .ok [] := by
  induction bs generalizing p with
  | nil => rfl
  | cons c bs ih => rw [scan_cons_of_isBlank (h c (by simp)), ih fun d hd => h d (by simp [hd])]

/-- Lexemes that stand side by side, with blanks after the last, are found one by one. -/
theorem scan_joinSpaced {items : List (Shape × List Char)} (h : ∀ i ∈ items, Spells i.1 i.2) {bs : List Char}
    (hbs : ∀ c ∈ bs, isBlank c) (p : Position) :
    ∃ pieces, scan p 0 (joinSpaced (items.map (·.2)) ++ bs) = .ok pieces ∧
      pieces.map (fun q => (q.shape, q.raw)) = items := by
  induction items generalizing p with
  | nil => exact ⟨[], scan_of_isBlank hbs p, rfl⟩
  | cons i items ih =>
    have hi : Spells i.1 i.2 := h i (by simp)
    cases items with
    | nil =>
      have hgap : IsGap bs := fun c hc => hbs c (List.mem_of_mem_head? hc)
      refine ⟨[⟨i.1, i.2, p⟩], ?_, rfl⟩
      show scan p 0 (i.2 ++ bs) = _
      rw [hi.scan_eq fun _ => hgap, scan_of_isBlank hbs]
      rfl
    | cons j items =>
      obtain ⟨pieces, hscan, hmap⟩ := ih (fun k hk => h k (List.mem_cons_of_mem i hk)) ((p.after i.2).next ' ')
      refine ⟨⟨i.1, i.2, p⟩ :: pieces, ?_, by simp [hmap]⟩
      have hgap : IsGap (' ' :: (joinSpaced ((j :: items).map (·.2)) ++ bs)) := by
        intro c hc
        obtain rfl : ' ' = c := by simpa using hc
        decide
      have hjoin : joinSpaced ((i :: j :: items).map (·.2)) ++ bs =
          i.2 ++ ' ' :: (joinSpaced ((j :: items).map (·.2)) ++ bs) := by
        simp [joinSpaced_cons_cons]
      rw [hjoin, hi.scan_eq fun _ => hgap, scan_cons_of_isBlank (by decide), hscan]
      rfl

end Catena
