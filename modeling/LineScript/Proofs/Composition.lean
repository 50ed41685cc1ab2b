/-
LineScript/Proofs/Composition.lean

Programs, line by line.

A text may be written in lines, with a line feed, a carriage return or both behind
each of them (`Text.Lineation`).  One way to do so is ruled out: behind a carriage
return, an empty line that a line feed ends would make one ending of the two.  The
lines are then found again (`Text.splitLines_text`), so that the statements of a
program are those of its lines that are neither blank nor comments, under the
numbers of their lines.

What a run does depends on the texts of the statements only, and not on their
numbers (`runStatements_congr`); and a run of statements in two parts hands the
value of the first part over to the second (`runStatements_append`).  So lines
without a statement may come and go, and programs may be put together.
-/
import LineScript.Proofs.Footprint
import LineScript.Proofs.Lines
import LineScript.Proofs.Logs

namespace LineScript

/-! ### Texts in lines -/

namespace Text

/-- What may end a line: a line feed, a carriage return, or both. -/
inductive Ending where
  | lineFeed
  | carriageReturn
  | both
deriving DecidableEq

/-- The characters of an ending. -/
def Ending.chars : Ending → List Char
  | lineFeed => ['\n']
  | carriageReturn => ['\r']
  | both => ['\r', '\n']

/-- Lines with endings behind them, and what stands behind the last ending. -/
def written : List (List Char × Ending) → Option (List Char) → List Char
  | [], last => last.getD []
  | (l, e) :: ls, last => l ++ (e.chars ++ written ls last)

/-- A text in lines.  All have endings but perhaps the last; none holds a line end
of its own; and no carriage return stands before an empty line with a line feed. -/
structure Lineation where
  ended : List (List Char × Ending)
  last : Option (List Char)
  whole : ∀ l ∈ ended.map Prod.fst ++ last.toList, ∀ c ∈ l, isLineEnd c = false
  apart : ended.IsChain fun a b => ¬ (a.2 = .carriageReturn ∧ b = ([], .lineFeed))

namespace Lineation

/-- The check that no line of a list holds a line end. -/
theorem whole_of_all {ls : List (List Char)} (h : (ls.all fun l => l.all (!isLineEnd ·)) = true) :
    ∀ l ∈ ls, ∀ c ∈ l, isLineEnd c = false := by
  intro l hl c hc
  have hline := List.all_eq_true.mp h l hl
  simpa using List.all_eq_true.mp hline c hc

/-- The lines. -/
def lines (p : Lineation) : List (List Char) :=
  p.ended.map Prod.fst ++ p.last.toList

/-- The text that they make. -/
def text (p : Lineation) : String :=
  String.ofList (written p.ended p.last)

end Lineation

section Written

variable {l : List Char} {e : Ending} {ls : List (List Char × Ending)} {last : Option (List Char)}

/-- A line and its ending are cut off a text, unless the ending reaches further. -/
theorem splitLines_line {cs : List Char} (hl : ∀ c ∈ l, isLineEnd c = false)
    (he : e = .carriageReturn → cs.head? ≠ some '\n') :
    splitLines (l ++ (e.chars ++ cs)) = l :: splitLines cs := by
  have hreturn : '\r' ∉ l := fun h => absurd (hl _ h) (by decide)
  rw [splitLines, mergeReturns_append hreturn]
  cases e with
  | lineFeed => exact cutAt_append_mark hl (by decide) _
  | both => exact cutAt_append_mark hl (by decide) _
  | carriageReturn =>
    have hkept : mergeReturns ('\r' :: cs) = '\r' :: mergeReturns cs := by
      rw [mergeReturns, if_neg]
      simpa using he rfl
    show cutAt isLineEnd (l ++ mergeReturns ('\r' :: cs)) = _
    rw [hkept]
    exact cutAt_append_mark hl (by decide) _

/-- Only an empty line that a line feed ends starts with a line feed. -/
theorem head?_written (hwhole : ∀ l ∈ ls.map Prod.fst ++ last.toList, ∀ c ∈ l, isLineEnd c = false)
    (h : (written ls last).head? = some '\n') : ∃ rest, ls = ([], .lineFeed) :: rest := by
  have hline : ∀ l ∈ ls.map Prod.fst ++ last.toList, l.head? ≠ some '\n' := by
    intro l hl hhead
    exact absurd (hwhole l hl _ (List.mem_of_head? hhead)) (by decide)
  rcases ls with - | ⟨⟨l, e⟩, rest⟩
  · rcases last with - | l
    · cases h
    · exact absurd h (hline l (by simp))
  · rcases l with - | ⟨c, l⟩
    · cases e with
      | lineFeed => exact ⟨rest, rfl⟩
      | carriageReturn | both => cases h
    · exact absurd h (hline (c :: l) (by simp))

/-- The lines of a text that is written in lines; an empty one at its end is none. -/
theorem splitLines_written
    (hwhole : ∀ l ∈ ls.map Prod.fst ++ last.toList, ∀ c ∈ l, isLineEnd c = false)
    (hapart : ls.IsChain fun a b => ¬ (a.2 = .carriageReturn ∧ b = ([], .lineFeed))) :
    splitLines (written ls last) = ls.map Prod.fst ++ last.toList.filter (· ≠ []) := by
  induction ls with
  | nil =>
    rcases last with - | l
    · rfl
    · -- what stands behind the last end is a line, unless it is empty
      have hl : ∀ c ∈ l, isLineEnd c = false := hwhole l (by simp)
      have hreturn : '\r' ∉ l := fun h => absurd (hl _ h) (by decide)
      have hmerge : mergeReturns l = l := by
        simpa [mergeReturns] using mergeReturns_append hreturn []
      show cutAt isLineEnd (mergeReturns l) = _
      rw [hmerge]
      by_cases hne : l = []
      · rw [hne]
        rfl
      · rw [cutAt_of_not_mark hl hne]
        simp [hne]
  | cons a ls ih =>
    obtain ⟨l, e⟩ := a
    rw [List.map_cons, List.cons_append, List.forall_mem_cons] at hwhole
    -- a carriage return in front of a line feed would be one end with it
    have hnext : e = .carriageReturn → (written ls last).head? ≠ some '\n' := by
      rintro rfl hhead
      obtain ⟨rest, rfl⟩ := head?_written hwhole.2 hhead
      exact (List.isChain_cons_cons.mp hapart).1 ⟨rfl, rfl⟩
    rw [written, splitLines_line hwhole.1 hnext, ih hwhole.2 hapart.of_cons]
    rfl

end Written

/-- **The lines of a text are found again.** -/
theorem Lineation.splitLines_text (p : Lineation) :
    splitLines p.text.toList = p.ended.map Prod.fst ++ p.last.toList.filter (· ≠ []) := by
  rw [text, String.toList_ofList]
  exact splitLines_written p.whole p.apart

end Text

/-! ### The statements among lines -/

namespace Program

open Text (Lineation)

/-- A line without a statement: nothing but blanks, or a comment behind blanks. -/
inductive Inert : List Char → Prop
  | blank {l : List Char} : (∀ c ∈ l, Text.isBlank c = true) → Inert l
  | comment {margin rest : List Char} : (∀ c ∈ margin, Text.isBlank c = true) →
    Inert (margin ++ '#' :: rest)

theorem isInert_iff {l : List Char} : isInert l = true ↔ Inert l := by
  constructor
  · intro h
    have hsplit : l.takeWhile Text.isBlank ++ Text.trimStart l = l :=
      List.takeWhile_append_dropWhile
    have hmargin : ∀ c ∈ l.takeWhile Text.isBlank, Text.isBlank c = true :=
      fun c => List.mem_takeWhile_imp
    rw [isInert] at h
    split at h
    · next hnil => exact .blank (List.dropWhile_eq_nil_iff.mp hnil)
    · next c r hcons =>
      -- the first character that is not blank is the hash
      obtain rfl : c = '#' := by simpa using h
      rw [← hsplit, hcons]
      exact .comment hmargin
  · rintro (hblank | hmargin)
    · exact isInert_of_blank hblank
    · rw [isInert, Text.trimStart_append hmargin]
      rfl

/-- The statements of a text are those of its lines; an empty line at the end, which
is not found again, would hold none. -/
theorem statements_text (p : Lineation) : statements p.text = statementsFrom 1 p.lines := by
  show statementsFrom 1 (Text.splitLines p.text.toList) = _
  rw [p.splitLines_text, Lineation.lines, statementsFrom_append, statementsFrom_append]
  congr 1
  rcases p.last with - | l
  · rfl
  · by_cases hl : l = []
    · subst hl
      rfl
    · simp [hl]

/-- The statements are the lines that are not inert, under their numbers. -/
theorem mem_statementsFrom_iff {ls : List (List Char)} {k n : Nat} {line : String} :
    (n, line) ∈ statementsFrom k ls ↔
      ∃ l, k ≤ n ∧ ls[n - k]? = some l ∧ ¬ Inert l ∧ line = String.ofList l := by
  simp only [statementsFrom, List.mem_map, List.mem_filter, Prod.exists, Prod.mk.injEq,
    Bool.not_eq_true']
  constructor
  · rintro ⟨n', l, ⟨⟨l', k', hget, rfl, rfl⟩, hl⟩, rfl, rfl⟩
    obtain ⟨hle, hget⟩ := List.mk_mem_zipIdx_iff_le_and_getElem?_sub.mp hget
    refine ⟨l', hle, hget, ?_, rfl⟩
    rw [← isInert_iff, hl]
    decide
  · rintro ⟨l, hle, hget, hl, rfl⟩
    rw [← isInert_iff, Bool.not_eq_true] at hl
    exact ⟨n, l, ⟨⟨l, n, List.mk_mem_zipIdx_iff_le_and_getElem?_sub.mpr ⟨hle, hget⟩, rfl, rfl⟩, hl⟩,
      rfl, rfl⟩

/-- They keep the order of the lines. -/
theorem pairwise_statementsFrom (k : Nat) (ls : List (List Char)) :
    (statementsFrom k ls).Pairwise fun a b => a.1 < b.1 := by
  have hnumbers : (ls.zipIdx k).Pairwise fun a b => a.2 < b.2 := by
    rw [← List.pairwise_map (f := Prod.snd), List.zipIdx_map_snd]
    exact List.pairwise_lt_range'
  rw [statementsFrom, List.pairwise_map]
  refine List.Pairwise.filter _ ?_
  rw [List.pairwise_map]
  exact hnumbers

/-- Without their numbers, they are the lines that are not inert. -/
theorem map_snd_statementsFrom (k : Nat) (ls : List (List Char)) :
    (statementsFrom k ls).map Prod.snd
      = (ls.filter fun l => !isInert l).map String.ofList := by
  induction ls generalizing k with
  | nil => rfl
  | cons l ls ih =>
    rcases hl : isInert l with - | -
    · rw [statementsFrom_cons hl, List.map_cons, ih, List.filter_cons, hl]
      rfl
    · have hskip : statementsFrom k (l :: ls) = statementsFrom (k + 1) ls := by
        have hnone : statementsFrom k [l] = [] :=
          statementsFrom_of_isInert (by simpa using hl) k
        rw [← List.singleton_append, statementsFrom_append, hnone]
        rfl
      rw [hskip, ih, List.filter_cons, hl]
      rfl

/-! ### Runs of statements -/

/-- A run does not look at the numbers of its statements. -/
theorem runStatements_congr [Host] {s : Settings} {last : Value} {ps qs : List (Nat × String)}
    (h : ps.map Prod.snd = qs.map Prod.snd) :
    runStatements s last ps = runStatements s last qs := by
  induction ps generalizing last qs with
  | nil =>
    obtain rfl := List.map_eq_nil_iff.mp h.symm
    rfl
  | cons p ps ih =>
    rcases qs with - | ⟨q, qs⟩
    · cases h
    · obtain ⟨hfirst, hrest⟩ := List.cons.inj h
      have ih : ∀ v, runStatements s v ps = runStatements s v qs := fun v => ih hrest
      rw [runStatements, runStatements, hfirst]
      simp only [ih]

/-- **A run in two parts** goes on with the value of the first. -/
theorem runStatements_append [Host] (s : Settings) (last : Value) (ps qs : List (Nat × String)) :
    runStatements s last (ps ++ qs)
      = runStatements s last ps >>= fun v => runStatements s v qs := by
  induction ps generalizing last with
  | nil =>
    show runStatements s last qs = pure last >>= fun v => runStatements s v qs
    rw [pure_bind]
  | cons p ps ih =>
    rw [List.cons_append, runStatements, runStatements, bind_assoc]
    simp only [ih]

/-- The value that a run starts with is forgotten at the first statement. -/
theorem runStatements_of_ne_nil [Host] {ps : List (Nat × String)} (h : ps ≠ []) (s : Settings)
    (last last' : Value) : runStatements s last ps = runStatements s last' ps := by
  rcases ps with - | ⟨p, ps⟩
  · exact absurd rfl h
  · rfl

/-! ### Programs in lines -/

/-- Lines that become others when lines without a statement are put in or taken
out, anywhere. -/
inductive Edited : List (List Char) → List (List Char) → Prop
  | nil : Edited [] []
  | keep (l : List Char) {ls ls' : List (List Char)} : Edited ls ls' → Edited (l :: ls) (l :: ls')
  | insert {l : List Char} {ls ls' : List (List Char)} : Inert l → Edited ls ls' →
    Edited ls (l :: ls')
  | delete {l : List Char} {ls ls' : List (List Char)} : Inert l → Edited ls ls' →
    Edited (l :: ls) ls'

theorem Edited.filter_eq {ls ls' : List (List Char)} (h : Edited ls ls') :
    ls.filter (fun l => !isInert l) = ls'.filter fun l => !isInert l := by
  induction h with
  | nil => rfl
  | keep l _ ih => rw [List.filter_cons, List.filter_cons, ih]
  | insert hl _ ih => rw [ih, List.filter_cons_of_neg (by simp [isInert_iff.mpr hl])]
  | delete hl _ ih => rw [← ih, List.filter_cons_of_neg (by simp [isInert_iff.mpr hl])]

/-- The statements of lines in two parts, apart from their numbers. -/
theorem run_of_append [Host] {p q r : Lineation} (h : r.lines = p.lines ++ q.lines) (s : Settings) :
    run s r.text
      = run s p.text >>= fun v => runStatements s v (statements q.text) := by
  have hparts : (statements r.text).map Prod.snd
      = (statements p.text ++ statements q.text).map Prod.snd := by
    rw [List.map_append, statements_text, statements_text, statements_text, h]
    simp only [map_snd_statementsFrom, List.filter_append, List.map_append]
  rw [run, runStatements_congr hparts, runStatements_append]
  rfl

theorem statements_eq_nil_iff {p : Lineation} :
    statements p.text = [] ↔ ∀ l ∈ p.lines, Inert l := by
  rw [statements_text, ← List.map_eq_nil_iff (f := Prod.snd), map_snd_statementsFrom,
    List.map_eq_nil_iff, List.filter_eq_nil_iff]
  simp [isInert_iff]

/-- **Programs go line by line.**  The statements of a program are those of its
lines that are neither blank nor comments, in order, under the numbers of their
lines; lines without a statement may be put in and taken out anywhere, and the run
is the same on every machine; and the lines of two programs together run as the
first, and then, if that succeeds, as the second on the machine that the first
leaves, with the value of the first if the second has no statement. -/
theorem run_by_lines [Host] :
    (∀ p : Lineation, (statements p.text).Pairwise (fun a b => a.1 < b.1) ∧
      ∀ n line, (n, line) ∈ statements p.text ↔
        ∃ l, 1 ≤ n ∧ p.lines[n - 1]? = some l ∧ ¬ Inert l ∧ line = String.ofList l) ∧
    (∀ p q : Lineation, Edited p.lines q.lines → ∀ s m, run s p.text m = run s q.text m) ∧
    ∀ p q r : Lineation, r.lines = p.lines ++ q.lines → ∀ s m m',
      (∀ e, run s p.text m = .error e m' → run s r.text m = .error e m') ∧
      ∀ v, run s p.text m = .ok v m' →
        ((∀ l ∈ q.lines, Inert l) → run s r.text m = .ok v m') ∧
        ((∃ l ∈ q.lines, ¬ Inert l) → run s r.text m = run s q.text m') := by
  refine ⟨?_, ?_, ?_⟩
  · -- the statements are the numbered lines that are not inert
    intro p
    rw [statements_text]
    exact ⟨pairwise_statementsFrom 1 p.lines, fun n line => mem_statementsFrom_iff⟩
  · -- edits touch inert lines only
    intro p q h s m
    have hsame : (statements p.text).map Prod.snd = (statements q.text).map Prod.snd := by
      rw [statements_text, statements_text, map_snd_statementsFrom, map_snd_statementsFrom,
        h.filter_eq]
    rw [run, run, runStatements_congr hsame]
  · -- the statements of `r` are those of `p` and then those of `q`
    intro p q r h s m m'
    rw [run_of_append h]
    refine ⟨fun e he => Run.bind_of_error he, fun v hv => ?_⟩
    rw [Run.bind_of_ok hv]
    refine ⟨fun hinert => ?_, ?_⟩
    · rw [statements_eq_nil_iff.mpr hinert]
      rfl
    · rintro ⟨l, hl, hstatement⟩
      have hne : statements q.text ≠ [] :=
        fun hnil => hstatement (statements_eq_nil_iff.mp hnil l hl)
      rw [runStatements_of_ne_nil hne s v .null]
      rfl

/-- A definition, a comment and a blank line under three kinds of ending, with and
without the lines that say nothing; and a statement behind them that needs what they
have defined. -/
theorem run_by_lines_of_comments :
    let p : Lineation := ⟨[("val x = 'y".toList, .both), ("\t# val x".toList, .carriageReturn),
      ([' '], .lineFeed)], none, Lineation.whole_of_all (by decide +kernel), by decide⟩
    let q : Lineation := ⟨[], some ['x'], Lineation.whole_of_all (by decide +kernel), by decide⟩
    let r : Lineation := ⟨p.ended, q.last, Lineation.whole_of_all (by decide +kernel), by decide⟩
    let plain : Lineation := ⟨[], some "val x = 'y".toList,
      Lineation.whole_of_all (by decide +kernel), by decide⟩
    let m : Machine := .fresh .standard []
    (1, "val x = 'y") ∈ statements p.text ∧ (2, "\t# val x") ∉ statements p.text ∧
      run {} p.text m = run {} plain.text m ∧
      ∃ v m', run {} p.text m = .ok v m' ∧ run {} r.text m = run {} q.text m' := by
  intro p q r plain m
  obtain ⟨hstatements, hedited, hparts⟩ := run_by_lines
  have hcomment : Inert "\t# val x".toList := isInert_iff.mp (by decide +kernel)
  have hblank : Inert [' '] := isInert_iff.mp (by decide +kernel)
  have hstatement : ∀ l : List Char, isInert l = false → ¬ Inert l := by
    intro l hl h
    rw [isInert_iff.mpr h] at hl
    cases hl
  have hsame : run {} p.text m = run {} plain.text m :=
    hedited p plain (.keep _ (.delete hcomment (.delete hblank .nil))) {} m
  -- the evaluator is run once, for the outcome
  have hsucceeds : ((run {} plain.text).outcome m).isOk = true := by decide +kernel
  obtain ⟨v, m', hv⟩ : ∃ v m', run {} plain.text m = .ok v m' := by
    rcases houtcome : (run {} plain.text).outcome m with e | v
    · rw [houtcome] at hsucceeds
      cases hsucceeds
    · exact ⟨v, _, Run.eq_ok_of_outcome houtcome⟩
  refine ⟨?_, ?_, hsame, v, m', hsame.trans hv, ?_⟩
  · refine ((hstatements p).2 1 _).mpr ⟨"val x = 'y".toList, le_refl 1, rfl, ?_, ?_⟩
    · exact hstatement _ (by decide +kernel)
    · exact String.ofList_toList.symm
  · intro h
    obtain ⟨l, -, hl, hinert, -⟩ := ((hstatements p).2 2 _).mp h
    cases hl
    exact hinert hcomment
  · refine ((hparts p q r rfl {} m m').2 v (hsame.trans hv)).2 ⟨['x'], ?_, ?_⟩
    · exact List.mem_singleton.mpr rfl
    · exact hstatement _ (by decide +kernel)

end Program

end LineScript
