/-
LineScript/Proofs/Layouts.lean

Layouts: the same lexemes with other gaps between them.

Lexemes may be written down with spaces and tabs between them, as many as one
likes.  Between two of them there may also be none, if one of the two is a mark
(`Lexeme.Laid`): a mark ends by itself, and it ends whatever stands before it, for
no word and no number goes on with a mark.  So scanning gives the lexemes back
(`Laid.lexes`), and nothing of them is lost to trimming when the whole stands
between blanks (`Laid.trim_eq`).  What is parsed depends on the lexemes only.
-/
import LineScript.Proofs.Lines
import LineScript.Proofs.Parsing

namespace LineScript

open Grammar (Derivation)
open Token (isGap Stops)

namespace Lexeme

/-- The lexemes written down in order, with gaps between them: at least one space
or tab between two of which neither is a mark. -/
inductive Laid : List Lexeme → List Char → Prop
  | nil : Laid [] []
  | last (l : Lexeme) : Laid [l] l.chars
  | next {l l' : Lexeme} {ls : List Lexeme} {gap cs : List Char} :
    (∀ c ∈ gap, isGap c = true) → gap ≠ [] ∨ l.kind.isMark = true ∨ l'.kind.isMark = true →
    Laid (l' :: ls) cs → Laid (l :: l' :: ls) (l.chars ++ (gap ++ cs))

/-- A text of lexemes between any blanks. -/
def LaidOut (ls : List Lexeme) (source : String) : Prop :=
  ∃ before cs after, Laid ls cs ∧ source.toList = before ++ (cs ++ after) ∧
    (∀ c ∈ before, Text.isBlank c = true) ∧ ∀ c ∈ after, Text.isBlank c = true

variable {l : Lexeme} {ls : List Lexeme} {cs : List Char}

/-- A mark continues neither a word nor a number. -/
theorem Spelled.stops (h : l.Spelled) (hmark : l.kind.isMark = true) (cs : List Char) :
    Stops (l.chars ++ cs) := by
  obtain ⟨k, text⟩ := l
  have hspells : Token.Spells k text.toList := h
  show Stops (text.toList ++ cs)
  generalize text.toList = w at hspells
  cases hspells <;> first | exact ⟨by decide, by decide⟩ | cases hmark

theorem stops_of_gap {gap : List Char} (h : ∀ c ∈ gap, isGap c = true) (hne : gap ≠ [])
    (cs : List Char) : Stops (gap ++ cs) := by
  rcases gap with - | ⟨c, gap⟩
  · exact absurd rfl hne
  · have hc := h c List.mem_cons_self
    simp only [isGap, Bool.or_eq_true, beq_iff_eq] at hc
    rcases hc with rfl | rfl <;> exact ⟨by decide, by decide⟩

/-- A mark may stand close to its neighbours. -/
theorem Laid.close (l : Lexeme) {l' : Lexeme} (h : Laid (l' :: ls) cs)
    (hmark : (l.kind.isMark || l'.kind.isMark) = true) : Laid (l :: l' :: ls) (l.chars ++ cs) := by
  have hnone : ∀ c ∈ ([] : List Char), isGap c = true := nofun
  exact .next hnone (.inr (by simpa using hmark)) h

/-- Any two lexemes may stand apart. -/
theorem Laid.spaced (l : Lexeme) (gap : List Char) {l' : Lexeme} (h : Laid (l' :: ls) cs)
    (hgap : (gap.all isGap && !gap.isEmpty) = true) :
    Laid (l :: l' :: ls) (l.chars ++ (gap ++ cs)) := by
  obtain ⟨hall, hne⟩ := Bool.and_eq_true_iff.mp hgap
  exact .next (List.all_eq_true.mp hall) (.inl (by simpa using hne)) h

theorem Laid.exists_first (h : Laid (l :: ls) cs) : ∃ r, cs = l.chars ++ r := by
  cases h with
  | last => exact ⟨[], (List.append_nil _).symm⟩
  | next => exact ⟨_, rfl⟩

theorem Laid.exists_last (h : Laid ls cs) (hne : ls ≠ []) : ∃ l ∈ ls, ∃ s, cs = s ++ l.chars := by
  induction h with
  | nil => exact absurd rfl hne
  | last l => exact ⟨l, List.mem_cons_self, [], rfl⟩
  | @next l l' ls gap cs _ _ _ ih =>
    obtain ⟨b, hb, s, rfl⟩ := ih (List.cons_ne_nil l' ls)
    exact ⟨b, List.mem_cons_of_mem l hb, l.chars ++ (gap ++ s), by simp only [List.append_assoc]⟩

theorem Lexes.gaps {gap : List Char} (hgap : ∀ c ∈ gap, isGap c = true) (h : Lexes cs ls) :
    Lexes (gap ++ cs) ls := by
  induction gap with
  | nil => exact h
  | cons c gap ih =>
    rw [List.forall_mem_cons] at hgap
    exact .gap hgap.1 (ih hgap.2)

/-- **Lexemes that are written down are found again.** -/
theorem Laid.lexes (hs : ∀ l ∈ ls, l.Spelled) (h : Laid ls cs) : Lexes cs ls := by
  induction h with
  | nil => exact .nil
  | last l =>
    have hl := Lexes.lexeme (hs l List.mem_cons_self) (.inr (show Stops [] from trivial)) .nil
    rwa [List.append_nil] at hl
  | @next l l' ls gap cs hgap hapart hrest ih =>
    rw [List.forall_mem_cons] at hs
    refine .lexeme hs.1 ?_ ((ih hs.2).gaps hgap)
    -- what is behind `l` is a gap or starts with a mark, unless `l` is a mark itself
    rcases hapart with hne | hmark | hmark
    · exact .inr (stops_of_gap hgap hne cs)
    · exact .inl hmark
    · by_cases hne : gap = []
      · obtain ⟨r, rfl⟩ := hrest.exists_first
        rw [hne]
        exact .inr ((hs.2 l' List.mem_cons_self).stops hmark r)
      · exact .inr (stops_of_gap hgap hne cs)

/-- Trimming takes away the blanks around the lexemes, and nothing else. -/
theorem Laid.trim_eq (hs : ∀ l ∈ ls, l.Spelled) (hne : ls ≠ []) (h : Laid ls cs)
    {before after : List Char} (hbefore : ∀ c ∈ before, Text.isBlank c = true)
    (hafter : ∀ c ∈ after, Text.isBlank c = true) :
    Text.trim (before ++ (cs ++ after)) = cs := by
  obtain ⟨a, ls, rfl⟩ := List.exists_cons_of_ne_nil hne
  have ha := hs a List.mem_cons_self
  obtain ⟨r, hfirst⟩ := h.exists_first
  obtain ⟨b, hb, s, hlast⟩ := h.exists_last hne
  -- the first lexeme and the last one stop the trimming
  have hhead : ∀ c ∈ cs.head?, Text.isBlank c = false := by
    rw [hfirst, List.head?_append_of_ne_nil _ ha.ne_nil]
    exact ha.isBlank_head?
  have hcs : cs ≠ [] := by
    rw [hfirst]
    exact List.append_ne_nil_of_left_ne_nil ha.ne_nil r
  have hmargin : ∀ c ∈ (cs ++ after).head?, Text.isBlank c = false := by
    rwa [List.head?_append_of_ne_nil _ hcs]
  calc Text.trim (before ++ (cs ++ after))
      = Text.trimEnd (cs ++ after) := Text.trim_of_margin hbefore hmargin
    _ = Text.trimEnd cs := Text.trimEnd_append_blank hafter cs
    _ = Text.trim cs := (Text.trim_of_margin (p := []) (by simp) hhead).symm
    _ = cs := trim_eq_self ha (hs b hb) hfirst hlast

end Lexeme

namespace Statement

open Lexeme (Laid LaidOut)

variable {ls : List Lexeme}

/-- Lexemes of a sentence are parsed as the sentence, whatever their layout. -/
theorem parse_of_laidOut [Text.CharacterNames] {w : Sentence} {source : String}
    (hs : ∀ l ∈ w.lexemes, l.Spelled) (h : LaidOut w.lexemes source) : parse source = w.toNode := by
  obtain ⟨before, cs, after, hlaid, hsource, hbefore, hafter⟩ := h
  refine parse_of_lexes ?_
  rw [hsource, hlaid.trim_eq hs w.lexemes_ne_nil hbefore hafter]
  exact hlaid.lexes hs

/-- **The layout makes no difference.**  Lexemes that are written down with gaps
between them, or with none beside a mark, are scanned as these lexemes; and if they
are a sentence of the grammar, then any two layouts of them, between any blanks, are
parsed as the same node, or with the same fault of a literal or a type. -/
theorem parse_any_layout [Text.CharacterNames] (hs : ∀ l ∈ ls, l.Spelled) :
    (∀ cs, Laid ls cs →
      (Token.scan cs).stuck = none ∧ (Token.scan cs).tokens.map Token.lexeme = ls) ∧
    (Nonempty (Derivation ls) → ∀ source source', LaidOut ls source → LaidOut ls source' →
      parse source = parse source' ∧ PastGrammar (parse source)) := by
  refine ⟨fun cs h => Lexeme.lexes_iff_scan.mp (h.lexes hs), ?_⟩
  rintro ⟨d⟩ source source' h h'
  obtain ⟨w, -, rfl⟩ := d.exists_sentence
  rw [parse_of_laidOut hs h, parse_of_laidOut hs h']
  exact ⟨rfl, pastGrammar_toNode w⟩

/-- An assignment of a call, as tight as it may be and as loose as one likes. -/
theorem parse_any_layout_of_call :
    let ls : List Lexeme := [.name "x", .equals, .name "f", .opening, .literal .decimal "-1.e5",
      .comma, .literal .symbol "'val", .closing]
    let tight := "x=f(-1.e5,'val)"
    let loose := "\u3000x\t= f (-1.e5 ,\t 'val )\n"
    (∀ l ∈ ls, l.Spelled) ∧ Nonempty (Derivation ls) ∧ Laid ls tight.toList ∧
      LaidOut ls tight ∧ LaidOut ls loose ∧
      (Token.scan tight.toList).tokens.map Token.lexeme = ls ∧ parse loose = parse tight := by
  intro ls tight loose
  have hs : ∀ l ∈ ls, l.Spelled := by
    have hspells : ∀ l : Lexeme, Token.lexeme? l.chars = some (l.kind, l.chars) → l.Spelled :=
      fun _ => Token.spells_of_lexeme?
    simp only [ls, List.forall_mem_cons]
    exact ⟨hspells _ (by decide +kernel), Lexeme.spelled_equals, hspells _ (by decide +kernel),
      Lexeme.spelled_opening, hspells _ (by decide +kernel), Lexeme.spelled_comma,
      hspells _ (by decide +kernel), Lexeme.spelled_closing, by simp⟩
  have hd : Nonempty (Derivation ls) :=
    ⟨.ofSentence (.assignment "x" (.call "f" [.literal .decimal "-1.e5", .literal .symbol "'val"]))
      hs⟩
  have htight : Laid ls "x=f(-1.e5,'val)".toList :=
    have h := Laid.last .closing
      |>.close (.literal .symbol "'val") rfl
      |>.close .comma rfl
      |>.close (.literal .decimal "-1.e5") rfl
      |>.close .opening rfl
      |>.close (.name "f") rfl
      |>.close .equals rfl
      |>.close (.name "x") rfl
    h
  -- gaps may stand between any two lexemes, and margins around them all
  have hloose : Laid ls "x\t= f (-1.e5 ,\t 'val )".toList :=
    have h := Laid.last .closing
      |>.spaced (.literal .symbol "'val") [' '] rfl
      |>.spaced .comma ['\t', ' '] rfl
      |>.spaced (.literal .decimal "-1.e5") [' '] rfl
      |>.close .opening rfl
      |>.spaced (.name "f") [' '] rfl
      |>.spaced .equals [' '] rfl
      |>.spaced (.name "x") ['\t'] rfl
    h
  have hlaidOut : LaidOut ls tight := ⟨[], _, [], htight, by decide +kernel, nofun, nofun⟩
  have hlaidOut' : LaidOut ls loose :=
    ⟨['\u3000'], _, ['\n'], hloose, by decide +kernel, List.all_eq_true.mp (by decide),
      List.all_eq_true.mp (by decide)⟩
  obtain ⟨hscan, hparse⟩ := parse_any_layout hs
  exact ⟨hs, hd, htight, hlaidOut, hlaidOut', (hscan _ htight).2,
    (hparse hd _ _ hlaidOut' hlaidOut).1⟩

end Statement

end LineScript
