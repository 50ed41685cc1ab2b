/-
LineScript/Proofs/Lines.lean

Where a program is cut into lines.

A text stands between margins of blanks, and every line end is a blank.  Behind a
margin the first line of a text is its front up to the first line end, with a part
of the margin before it; all lines before that one hold blanks only
(`Text.splitLines_of_margin`), and are no statements
(`Program.statements_of_margin`).

A carriage return ends a line as a line feed does, and the two together end one;
so a text whose carriage returns have been turned into line feeds has the same
lines (`Text.splitLines_unifyLineEnds`).
-/
import LineScript.Program
import Mathlib.Data.List.Basic
import Mathlib.Data.List.TakeWhile

namespace LineScript

/-! ### Margins -/

namespace Text

variable {cs : List Char}

theorem isBlank_of_isLineEnd {c : Char} (h : isLineEnd c = true) : isBlank c = true := by
  simp only [isLineEnd, isBlank, Bool.or_eq_true, Bool.and_eq_true, decide_eq_true_eq,
    beq_iff_eq] at h ⊢
  omega

theorem trimStart_append {p : List Char} (hp : ∀ c ∈ p, isBlank c = true) (cs : List Char) :
    trimStart (p ++ cs) = trimStart cs :=
  List.dropWhile_append_of_pos hp

theorem trimEnd_append_blank {q : List Char} (hq : ∀ c ∈ q, isBlank c = true) (cs : List Char) :
    trimEnd (cs ++ q) = trimEnd cs := by
  have hreverse : ∀ c ∈ q.reverse, isBlank c = true := by simpa using hq
  rw [trimEnd, List.reverse_append, trimStart_append hreverse, trimEnd]

/-- A text is what trimming leaves of its end, and blanks. -/
theorem exists_trimEnd (cs : List Char) :
    ∃ q, cs = trimEnd cs ++ q ∧ ∀ c ∈ q, isBlank c = true := by
  refine ⟨(cs.reverse.takeWhile isBlank).reverse, ?_, ?_⟩
  · have hsplit : cs.reverse.takeWhile isBlank ++ trimStart cs.reverse = cs.reverse :=
      List.takeWhile_append_dropWhile
    rw [trimEnd, ← List.reverse_append, hsplit, List.reverse_reverse]
  · intro c hc
    exact List.mem_takeWhile_imp (List.mem_reverse.1 hc)

/-- A text is what trimming leaves of it, between blanks. -/
theorem exists_margins (cs : List Char) :
    ∃ p q, cs = p ++ (trim cs ++ q) ∧ (∀ c ∈ p, isBlank c = true) ∧ ∀ c ∈ q, isBlank c = true := by
  obtain ⟨q, hq, hblank⟩ := exists_trimEnd (trimStart cs)
  refine ⟨cs.takeWhile isBlank, q, ?_, fun c => List.mem_takeWhile_imp, hblank⟩
  show cs = cs.takeWhile isBlank ++ (trimEnd (trimStart cs) ++ q)
  rw [← hq]
  exact List.takeWhile_append_dropWhile.symm

theorem isBlank_head?_trim (cs : List Char) : ∀ c ∈ (trim cs).head?, isBlank c = false := by
  intro c hc
  obtain ⟨q, hq, -⟩ := exists_trimEnd (trimStart cs)
  rcases hcs : trim cs with - | ⟨d, r⟩
  · rw [hcs] at hc
    cases hc
  · rw [hcs] at hc
    cases hc
    have hfront : trimStart cs = c :: (r ++ q) := by
      rw [hq]
      show trim cs ++ q = _
      rw [hcs, List.cons_append]
    exact isBlank_head_trimStart hfront

/-- Behind a margin, only the end of a text is trimmed. -/
theorem trim_of_margin {p x : List Char} (hp : ∀ c ∈ p, isBlank c = true)
    (hx : ∀ c ∈ x.head?, isBlank c = false) : trim (p ++ x) = trimEnd x := by
  have hfront : trimStart x = x := by
    rcases x with - | ⟨c, x⟩
    · rfl
    · simp [trimStart, hx c rfl]
  rw [trim, trimStart_append hp, hfront]

theorem trimEnd_trim (cs : List Char) : trimEnd (trim cs) = trim cs := by
  obtain ⟨p, q, hcs, hp, hq⟩ := exists_margins cs
  by_cases hempty : trim cs = []
  · rw [hempty]
    rfl
  · have hhead : ∀ c ∈ (trim cs ++ q).head?, isBlank c = false := by
      rw [List.head?_append_of_ne_nil _ hempty]
      exact isBlank_head?_trim cs
    rw [← trimEnd_append_blank hq, ← trim_of_margin hp hhead, ← hcs]

/-! ### Lines -/

theorem mergeReturns_append {x : List Char} (hx : '\r' ∉ x) (y : List Char) :
    mergeReturns (x ++ y) = x ++ mergeReturns y := by
  induction x with
  | nil => rfl
  | cons c x ih =>
    rw [List.mem_cons, not_or] at hx
    have hc : (c == '\r') = false := beq_false_of_ne (Ne.symm hx.1)
    rw [List.cons_append, mergeReturns, hc, Bool.false_and, if_neg Bool.false_ne_true, ih hx.2,
      List.cons_append]

/-- Nothing is merged across a character that is no line feed. -/
theorem mergeReturns_append_of_head {y : List Char} (hy : y.head? ≠ some '\n') (x : List Char) :
    mergeReturns (x ++ y) = mergeReturns x ++ mergeReturns y := by
  induction x with
  | nil => rfl
  | cons c x ih =>
    have hhead : ((x ++ y).head? == some '\n') = (x.head? == some '\n') := by
      cases x with
      | nil => simpa using hy
      | cons d x => rfl
    rw [List.cons_append, mergeReturns, mergeReturns, hhead, ih]
    split <;> rfl

theorem mem_of_mem_mergeReturns {c : Char} (h : c ∈ mergeReturns cs) : c ∈ cs := by
  fun_induction mergeReturns cs with
  | case1 => exact h
  | case2 d r _ ih => exact List.mem_cons_of_mem d (ih h)
  | case3 d r _ ih =>
    rcases List.mem_cons.1 h with rfl | h
    · exact List.mem_cons_self
    · exact List.mem_cons_of_mem d (ih h)

/-- Merging leaves a line end where there was one. -/
theorem exists_mergeReturns {e : Char} (he : isLineEnd e = true) (y : List Char) :
    ∃ e' y', mergeReturns (e :: y) = e' :: y' ∧ isLineEnd e' = true := by
  rw [mergeReturns]
  split
  · next h =>
    -- a carriage return gives way to the line feed behind it
    obtain ⟨z, rfl⟩ : ∃ z, y = '\n' :: z := by
      rw [Bool.and_eq_true, beq_iff_eq, beq_iff_eq] at h
      exact ⟨y.tail, (List.cons_head?_tail h.2).symm⟩
    exact ⟨'\n', mergeReturns z, rfl, rfl⟩
  · exact ⟨e, _, rfl, he⟩

theorem cutAt_of_not_mark {isMark : Char → Bool} {l : List Char} (hl : ∀ c ∈ l, isMark c = false)
    (hne : l ≠ []) : cutAt isMark l = [l] := by
  induction l with
  | nil => exact absurd rfl hne
  | cons c l ih =>
    have hc : isMark c = false := hl c List.mem_cons_self
    rcases l with - | ⟨d, l⟩
    · simp [cutAt, hc, consFirst]
    · have ih := ih (fun x hx => hl x (List.mem_cons_of_mem c hx)) (by simp)
      rw [cutAt, if_neg (by simp [hc]), ih]
      rfl

theorem mem_of_mem_cutAt {isMark : Char → Bool} {l : List Char} (hl : l ∈ cutAt isMark cs)
    {c : Char} (hc : c ∈ l) : c ∈ cs := by
  induction cs generalizing l with
  | nil => cases hl
  | cons d cs ih =>
    rw [cutAt] at hl
    split at hl
    · -- a mark ends an empty line
      rcases List.mem_cons.1 hl with rfl | hl
      · cases hc
      · exact List.mem_cons_of_mem d (ih hl hc)
    · -- another character goes to the first line behind it
      rcases hls : cutAt isMark cs with - | ⟨l₁, ls⟩
      · rw [hls] at hl
        cases List.mem_singleton.1 hl
        cases List.mem_singleton.1 hc
        exact List.mem_cons_self
      · rw [hls] at hl ih
        rcases List.mem_cons.1 hl with rfl | hl
        · rcases List.mem_cons.1 hc with rfl | hc
          · exact List.mem_cons_self
          · exact List.mem_cons_of_mem d (ih List.mem_cons_self hc)
        · exact List.mem_cons_of_mem d (ih (List.mem_cons_of_mem l₁ hl) hc)

/-- A margin makes whole lines, and the start of the line behind it. -/
theorem exists_cutAt_append (isMark : Char → Bool) (p : List Char) :
    ∃ ls r, (∀ l ∈ ls, ∀ c ∈ l, c ∈ p) ∧ (∀ c ∈ r, c ∈ p ∧ isMark c = false) ∧
      ∀ y, cutAt isMark (p ++ y) = ls ++ cutAt isMark (r ++ y) := by
  induction p with
  | nil => exact ⟨[], [], nofun, nofun, fun _ => rfl⟩
  | cons c p ih =>
    obtain ⟨ls, r, hls, hr, hcut⟩ := ih
    have hr' : ∀ d ∈ r, d ∈ c :: p ∧ isMark d = false := fun d hd =>
      ⟨List.mem_cons_of_mem c (hr d hd).1, (hr d hd).2⟩
    have hls' : ∀ l ∈ ls, ∀ d ∈ l, d ∈ c :: p := fun l hl d hd =>
      List.mem_cons_of_mem c (hls l hl d hd)
    -- `r` is the line that is open at the end of `p`
    by_cases hc : isMark c = true
    · refine ⟨[] :: ls, r, ?_, hr', ?_⟩
      · rw [List.forall_mem_cons]
        exact ⟨nofun, hls'⟩
      · intro y
        rw [List.cons_append, cutAt_mark hc, hcut, List.cons_append]
    · have hc : isMark c = false := by simpa using hc
      rcases ls with - | ⟨l, ls⟩
      · -- no line is closed yet, so `c` goes to the open one
        refine ⟨[], c :: r, nofun, ?_, ?_⟩
        · rw [List.forall_mem_cons]
          exact ⟨⟨List.mem_cons_self, hc⟩, hr'⟩
        · intro y
          rw [List.cons_append, cutAt, if_neg (by simp [hc]), hcut, List.nil_append,
            List.cons_append, List.nil_append, cutAt, if_neg (by simp [hc])]
      · -- `c` goes to the first line that is closed
        refine ⟨(c :: l) :: ls, r, ?_, hr', ?_⟩
        · rw [List.forall_mem_cons] at hls' ⊢
          refine ⟨?_, hls'.2⟩
          rw [List.forall_mem_cons]
          exact ⟨List.mem_cons_self, hls'.1⟩
        · intro y
          rw [List.cons_append, cutAt, if_neg (by simp [hc]), hcut]
          rfl

/-- A text is its first line, and what a line end starts. -/
theorem exists_firstLine (cs : List Char) :
    ∃ x y, cs = x ++ y ∧ (∀ c ∈ x, isLineEnd c = false) ∧ ∀ c ∈ y.head?, isLineEnd c = true := by
  induction cs with
  | nil => exact ⟨[], [], rfl, nofun, nofun⟩
  | cons c cs ih =>
    by_cases hc : isLineEnd c = true
    · refine ⟨[], c :: cs, rfl, nofun, ?_⟩
      rintro _ ⟨⟩
      exact hc
    · obtain ⟨x, y, rfl, hx, hy⟩ := ih
      refine ⟨c :: x, y, rfl, ?_, hy⟩
      rw [List.forall_mem_cons]
      exact ⟨by simpa using hc, hx⟩

/-- **The lines of a text behind a margin.**  Its first line, up to the first line
end, stands behind lines of the margin; the other lines are from what follows. -/
theorem splitLines_of_margin {p x y : List Char} (hp : ∀ c ∈ p, isBlank c = true) (hne : x ≠ [])
    (hhead : ∀ c ∈ x.head?, isBlank c = false) (hx : ∀ c ∈ x, isLineEnd c = false)
    (hy : ∀ c ∈ y.head?, isLineEnd c = true) :
    ∃ ls r rest, splitLines (p ++ (x ++ y)) = ls ++ (r ++ x) :: rest ∧
      (∀ l ∈ ls, ∀ c ∈ l, isBlank c = true) ∧ (∀ c ∈ r, isBlank c = true) ∧
      ∀ l ∈ rest, ∀ c ∈ l, c ∈ y := by
  have hnewline : (x ++ y).head? ≠ some '\n' := by
    rw [List.head?_append_of_ne_nil _ hne]
    intro h
    exact absurd (hhead _ h) (by decide)
  have hreturn : '\r' ∉ x := fun h => absurd (hx _ h) (by decide)
  have hmerge : mergeReturns (p ++ (x ++ y)) = mergeReturns p ++ (x ++ mergeReturns y) := by
    rw [mergeReturns_append_of_head hnewline, mergeReturns_append hreturn]
  obtain ⟨ls, r, hls, hr, hcut⟩ := exists_cutAt_append isLineEnd (mergeReturns p)
  have hblank : ∀ c ∈ mergeReturns p, isBlank c = true := fun c hc =>
    hp c (mem_of_mem_mergeReturns hc)
  have hline : ∀ c ∈ r ++ x, isLineEnd c = false := by
    rw [List.forall_mem_append]
    exact ⟨fun c hc => (hr c hc).2, hx⟩
  have hsplit : splitLines (p ++ (x ++ y)) = ls ++ cutAt isLineEnd (r ++ x ++ mergeReturns y) := by
    rw [splitLines, hmerge, hcut, List.append_assoc]
  refine ⟨ls, r, ?_⟩
  rcases y with - | ⟨e, y⟩
  · -- `x` is the last line
    refine ⟨[], ?_, fun l hl c hc => hblank c (hls l hl c hc), fun c hc => hblank c (hr c hc).1,
      nofun⟩
    show splitLines (p ++ (x ++ [])) = _
    rw [hsplit]
    show ls ++ cutAt isLineEnd (r ++ x ++ []) = _
    rw [List.append_nil, cutAt_of_not_mark hline (by simp [hne])]
  · -- the line ends behind `x`
    obtain ⟨e', y', hmerged, he'⟩ := exists_mergeReturns (hy e rfl) y
    refine ⟨cutAt isLineEnd y', ?_, fun l hl c hc => hblank c (hls l hl c hc),
      fun c hc => hblank c (hr c hc).1, ?_⟩
    · rw [hsplit, hmerged, cutAt_append_mark hline he']
    · intro l hl c hc
      refine mem_of_mem_mergeReturns ?_
      rw [hmerged]
      exact List.mem_cons_of_mem e' (mem_of_mem_cutAt hl hc)

/-! ### Texts without carriage returns -/

/-- Characters that are replaced by marks were marks. -/
theorem cutAt_map {isMark : Char → Bool} {f : Char → Char}
    (hf : ∀ c, f c = c ∨ isMark c = true ∧ isMark (f c) = true) (cs : List Char) :
    cutAt isMark (cs.map f) = cutAt isMark cs := by
  induction cs with
  | nil => rfl
  | cons c cs ih =>
    rw [List.map_cons]
    rcases hf c with hc | ⟨hc, hfc⟩
    · rw [hc, cutAt, cutAt, ih]
    · rw [cutAt_mark hfc, cutAt_mark hc, ih]

/-- A text has the same lines with and without carriage returns. -/
theorem splitLines_unifyLineEnds (cs : List Char) :
    splitLines (unifyLineEnds cs) = splitLines cs := by
  have hreturn : '\r' ∉ unifyLineEnds cs := by
    intro h
    obtain ⟨c, -, hc⟩ := List.mem_map.1 h
    split at hc
    · cases hc
    · next hne => simp [hc] at hne
  have hmerge : mergeReturns (unifyLineEnds cs) = unifyLineEnds cs := by
    simpa [mergeReturns] using mergeReturns_append hreturn []
  rw [splitLines, hmerge]
  refine cutAt_map (fun c => ?_) _
  by_cases hc : c = '\r'
  · subst hc
    exact .inr ⟨rfl, rfl⟩
  · exact .inl (by simp [hc])

end Text

/-! ### Statements -/

namespace Program

theorem statements_unifyLineEnds (text : String) :
    statements (String.ofList (Text.unifyLineEnds text.toList)) = statements text := by
  simp only [statements, numbered, String.toList_ofList, Text.splitLines_unifyLineEnds]

/-- The statements among lines that are numbered from `k` on. -/
def statementsFrom (k : Nat) (ls : List (List Char)) : List (Nat × String) :=
  (((ls.zipIdx k).map fun p => (p.2, p.1)).filter fun p => !isInert p.2).map
    fun p => (p.1, String.ofList p.2)

theorem statementsFrom_append (k : Nat) (ls ls' : List (List Char)) :
    statementsFrom k (ls ++ ls') = statementsFrom k ls ++ statementsFrom (k + ls.length) ls' := by
  simp only [statementsFrom, List.zipIdx_append, List.map_append, List.filter_append]

theorem statementsFrom_cons {l : List Char} (hl : isInert l = false) (k : Nat)
    (ls : List (List Char)) :
    statementsFrom k (l :: ls) = (k, String.ofList l) :: statementsFrom (k + 1) ls := by
  simp [statementsFrom, hl]

theorem statementsFrom_of_isInert {ls : List (List Char)} (hls : ∀ l ∈ ls, isInert l = true)
    (k : Nat) : statementsFrom k ls = [] := by
  have hnone : ((ls.zipIdx k).map fun p => (p.2, p.1)).filter (fun p => !isInert p.2) = [] := by
    rw [List.filter_eq_nil_iff]
    intro p hp
    obtain ⟨p', hp', rfl⟩ := List.mem_map.1 hp
    simpa using hls _ (List.fst_mem_of_mem_zipIdx hp')
  rw [statementsFrom, hnone, List.map_nil]

theorem isInert_of_blank {l : List Char} (hl : ∀ c ∈ l, Text.isBlank c = true) :
    isInert l = true := by
  have htrim : Text.trimStart l = [] := List.dropWhile_eq_nil_iff.2 hl
  rw [isInert, htrim]

/-- **The statements of a text behind a margin** start with its first line, if that
is no comment; and if only blanks follow, there is no other one. -/
theorem statements_of_margin {p x y : List Char} (hp : ∀ c ∈ p, Text.isBlank c = true)
    (hne : x ≠ []) (hhead : ∀ c ∈ x.head?, Text.isBlank c = false ∧ c ≠ '#')
    (hx : ∀ c ∈ x, Text.isLineEnd c = false) (hy : ∀ c ∈ y.head?, Text.isLineEnd c = true) :
    ∃ k r rest, statements (String.ofList (p ++ (x ++ y))) = (k, String.ofList (r ++ x)) :: rest ∧
      (∀ c ∈ r, Text.isBlank c = true) ∧ ((∀ c ∈ y, Text.isBlank c = true) → rest = []) := by
  obtain ⟨ls, r, rest, hsplit, hls, hr, hrest⟩ :=
    Text.splitLines_of_margin hp hne (fun c hc => (hhead c hc).1) hx hy
  -- the line with `x` is the first that is not inert
  have hline : isInert (r ++ x) = false := by
    rw [isInert, Text.trimStart_append hr]
    rcases x with - | ⟨c, x⟩
    · exact absurd rfl hne
    · obtain ⟨hblank, hsharp⟩ := hhead c rfl
      simp [Text.trimStart, hblank, hsharp]
  refine ⟨1 + ls.length, r, statementsFrom (1 + ls.length + 1) rest, ?_, hr, ?_⟩
  · show statementsFrom 1 (Text.splitLines (String.ofList (p ++ (x ++ y))).toList) = _
    rw [String.toList_ofList, hsplit, statementsFrom_append, statementsFrom_cons hline,
      statementsFrom_of_isInert fun l hl => isInert_of_blank (hls l hl), List.nil_append]
  · intro hy
    exact statementsFrom_of_isInert
      (fun l hl => isInert_of_blank fun c hc => hy c (hrest l hl c hc)) _

end Program

end LineScript
