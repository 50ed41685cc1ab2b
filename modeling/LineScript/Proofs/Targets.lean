/-
LineScript/Proofs/Targets.lean

A quick look at a line finds the assignments.

`assignmentTarget?` passes over blanks, takes a word, passes over blanks again
and looks for one equals sign.  It knows neither lexemes nor the grammar, and it
is more generous than the scanner: between the word and the sign it passes over
blanks of every sort, where only spaces and tabs separate lexemes.

On the lines that are parsed the two agree.  The word is the first lexeme of the
line (`Leads.word_eq`), and what is seen behind it is the first character of the
second lexeme, which no lexeme but the equals sign shares with it
(`head?_of_startsWithEquals`).  So the quick look sees the first two lexemes
(`assignmentTarget?_of_lexes`), and an assignment is told from the other
sentences by these.
-/
import LineScript.Proofs.Expansion
import LineScript.Proofs.Lines

namespace LineScript

/-! ### Words before blanks -/

namespace Token

variable {cs q : List Char}

theorem isBlank_of_isGap {c : Char} (h : isGap c = true) : Text.isBlank c = true := by
  simp only [isGap, Bool.or_eq_true, beq_iff_eq] at h
  rcases h with rfl | rfl <;> rfl

theorem isNamePart_of_isBlank {c : Char} (h : Text.isBlank c = true) : isNamePart c = false := by
  by_contra hpart
  rw [Bool.not_eq_false] at hpart
  rw [isBlank_of_isInk (isInk_of_isNamePart hpart)] at h
  cases h

theorem isNameStart_of_isBlank {c : Char} (h : Text.isBlank c = true) : isNameStart c = false := by
  by_contra hstart
  rw [Bool.not_eq_false] at hstart
  have hpart : isNamePart c = true := isNamePart_iff.mpr (.inl hstart)
  rw [isNamePart_of_isBlank h] at hpart
  cases hpart

/-- Blanks behind a text do not continue a word. -/
theorem word_append_blank (hq : ∀ c ∈ q, Text.isBlank c = true) (cs : List Char) :
    word (cs ++ q) = word cs := by
  rcases q with - | ⟨b, q⟩
  · rw [List.append_nil]
  · have hb := hq b List.mem_cons_self
    rcases cs with - | ⟨c, r⟩
    · simp only [List.nil_append, word, isNameStart_of_isBlank hb, Bool.false_eq_true, if_false]
    · have htake : (r ++ b :: q).takeWhile isNamePart = r.takeWhile isNamePart := by
        rw [List.takeWhile_append, List.takeWhile_cons, isNamePart_of_isBlank hb]
        split
        · next hlength =>
          rw [(List.takeWhile_prefix isNamePart).eq_of_length hlength]
          exact List.append_nil r
        · rfl
      rw [List.cons_append, word, word, htake]

end Token

/-! ### The first lexemes of a text -/

namespace Lexeme

variable {cs q r : List Char} {l : Lexeme} {ls : List Lexeme}

/-- The word at the front of a text is its first lexeme, if that is a word. -/
theorem Leads.word_eq (h : l.Leads cs) :
    (Token.IsWord l.chars ∧ Token.word cs = l.chars ∧ Token.Kind.ofWord l.chars = l.kind) ∨
    (¬ Token.IsWord l.chars ∧ Token.word cs = []) := by
  have htaken := leads_iff.mp h
  rcases cs with - | ⟨c, cs⟩
  · cases htaken
  · by_cases hc : Token.isNameStart c = true
    · rw [Token.lexeme?, if_pos hc] at htaken
      obtain ⟨hkind, hchars⟩ := Prod.mk.inj (Option.some.inj htaken)
      rw [← hchars]
      exact .inl ⟨Token.isWord_word cs hc, rfl, hkind⟩
    · refine .inr ⟨?_, by rw [Token.word, if_neg hc]⟩
      -- the lexeme starts as the text does
      obtain ⟨rest, hrest⟩ := h.front
      rcases hl : l.chars with - | ⟨d, w⟩
      · exact id
      · rw [hl] at hrest
        cases hrest
        exact fun hword => hc hword.1

/-- In front of the first lexeme there are spaces and tabs only. -/
theorem Lexes.exists_first (h : Lexes cs (l :: ls)) :
    ∃ gs r, cs = gs ++ (l.chars ++ r) ∧ (∀ c ∈ gs, Token.isGap c = true) ∧
      l.Leads (l.chars ++ r) ∧ Lexes r ls := by
  generalize hls : l :: ls = ls' at h
  induction h with
  | nil => cases hls
  | @gap c _ _ hc _ ih =>
    obtain ⟨gs, r, rfl, hgs, hrest⟩ := ih hls
    exact ⟨c :: gs, r, rfl, List.forall_mem_cons.mpr ⟨hc, hgs⟩, hrest⟩
  | token hl h _ =>
    cases hls
    exact ⟨[], _, rfl, List.forall_mem_nil _, hl, h⟩

theorem Lexes.isGap_of_nil (h : Lexes cs []) : ∀ c ∈ cs, Token.isGap c = true := by
  generalize hls : ([] : List Lexeme) = ls at h
  induction h with
  | nil => exact List.forall_mem_nil _
  | gap hc _ ih => exact List.forall_mem_cons.mpr ⟨hc, ih hls⟩
  | token => cases hls

/-- Passing over blanks leads to the first lexeme. -/
theorem Lexes.exists_trimStart (h : Lexes r (l :: ls)) (q : List Char) :
    ∃ r', Text.trimStart (r ++ q) = l.chars ++ (r' ++ q) ∧ l.Leads (l.chars ++ r') ∧
      Lexes r' ls := by
  obtain ⟨gs, r', rfl, hgs, hl, hrest⟩ := h.exists_first
  refine ⟨r', ?_, hl, hrest⟩
  rw [List.append_assoc, Text.trimStart_append fun c hc => Token.isBlank_of_isGap (hgs c hc),
    List.append_assoc]
  apply Text.trimStart_eq_self
  rw [List.head?_append_of_ne_nil _ (Token.Spells.ne_nil hl.spelled)]
  exact Token.Spells.isBlank_head? hl.spelled

end Lexeme

/-! ### What the quick look sees -/

namespace Statement

open Lexeme (Lexes)

variable {source x : String} {l : Lexeme} {ls : List Lexeme} {q r : List Char}

theorem head?_of_startsWithEquals {cs : List Char} (h : startsWithEquals cs = true) :
    cs.head? = some '=' := by
  unfold startsWithEquals at h
  split at h
  · cases h
  · rfl
  · cases h

/-- Where an equals sign is seen, the next lexeme is one. -/
theorem head?_lexes_of_startsWithEquals (h : Lexes r ls) (hq : ∀ c ∈ q, Text.isBlank c = true)
    (hseen : startsWithEquals (Text.trimStart (r ++ q)) = true) : ls.head? = some .equals := by
  rcases ls with - | ⟨l, ls⟩
  · -- there are blanks only
    have hblank : ∀ c ∈ r ++ q, Text.isBlank c = true := by
      rw [List.forall_mem_append]
      exact ⟨fun c hc => Token.isBlank_of_isGap (h.isGap_of_nil c hc), hq⟩
    rw [← List.append_nil (r ++ q), Text.trimStart_append hblank] at hseen
    cases hseen
  · obtain ⟨r', hr', hl, -⟩ := h.exists_trimStart q
    have hhead := head?_of_startsWithEquals hseen
    rw [hr', List.head?_append_of_ne_nil _ (Token.Spells.ne_nil hl.spelled)] at hhead
    rcases hchars : l.chars with - | ⟨c, w⟩
    · rw [hchars] at hhead
      cases hhead
    · rw [hchars] at hhead
      cases hhead
      -- no other lexeme starts with this character
      have htaken := Lexeme.leads_iff.mp hl
      rw [hchars] at htaken
      obtain ⟨hkind, -⟩ := Prod.mk.inj (Option.some.inj htaken)
      have hequals : l = .equals :=
        hl.spelled.eq_of_kind Lexeme.spelled_equals hkind.symm (.inl (by rw [← hkind]; rfl))
      rw [hequals]
      rfl

/-- An equals sign is seen, unless another one comes at once. -/
theorem startsWithEquals_of_lexes (h : Lexes r (.equals :: ls))
    (hq : ∀ c ∈ q, Text.isBlank c = true) (hls : ls.head? ≠ some .equals) :
    startsWithEquals (Text.trimStart (r ++ q)) = true := by
  obtain ⟨r', hr', -, hrest⟩ := h.exists_trimStart q
  rw [hr']
  show startsWithEquals ('=' :: (r' ++ q)) = true
  -- two marks in a row would be two lexemes
  have hnext : (r' ++ q).head? ≠ some '=' := by
    rcases r' with - | ⟨c, r'⟩
    · intro hhead
      have hblank := hq '=' (List.mem_of_head? hhead)
      cases hblank
    · rintro ⟨⟩
      have hequals : Lexes (Lexeme.equals.chars ++ r') ls := hrest
      obtain ⟨ls', rfl, -⟩ := hequals.of_lexeme Lexeme.spelled_equals (.inl rfl)
      exact hls rfl
  generalize r' ++ q = cs at hnext
  unfold startsWithEquals
  split
  · next heq =>
    cases heq
    exact absurd rfl hnext
  · rfl
  · next hne => exact absurd rfl (hne _)

/-- **The quick look sees the first lexeme, and an equals sign behind it.** -/
theorem assignmentTarget?_of_lexes (h : Lexes (Text.trim source.toList) (l :: ls)) :
    ∃ r q, Lexes r ls ∧ (∀ c ∈ q, Text.isBlank c = true) ∧
      assignmentTarget? source =
        if Token.IsWord l.chars ∧ startsWithEquals (Text.trimStart (r ++ q)) = true ∧
            l.kind ≠ .val ∧ l.kind ≠ .var then
          some l.text
        else none := by
  obtain ⟨q, hq, hblank⟩ := Text.exists_trimEnd (Text.trimStart source.toList)
  have hsource : Text.trimStart source.toList = Text.trim source.toList ++ q := hq
  obtain ⟨r, hr, hl, hrest⟩ := h.exists_trimStart []
  rw [List.append_nil, List.append_nil, Text.trimStart_eq_self (Text.isBlank_head?_trim _)] at hr
  refine ⟨r, q, hrest, hblank, ?_⟩
  have hdrop : (l.chars ++ r ++ q).drop l.chars.length = r ++ q := by
    rw [List.append_assoc, List.drop_left]
  have htext : String.ofList l.chars = l.text := String.ofList_toList
  simp only [assignmentTarget?, hsource, hr, Token.word_append_blank hblank]
  -- the first lexeme is a word, or no word starts the text
  rcases hl.word_eq with ⟨hword, hw, hkind⟩ | ⟨hword, hw⟩
  · simp only [hw, hkind, hdrop, htext, hword, hword.ne_nil, ne_eq, not_false_eq_true, true_and]
  · simp only [hw, hword, ne_eq, not_true_eq_false, false_and, if_false]

theorem assignmentTarget?_of_keyword {isMutable : Bool}
    (h : Lexes (Text.trim source.toList) (.keyword isMutable :: ls)) :
    assignmentTarget? source = none := by
  obtain ⟨r, q, -, -, htarget⟩ := assignmentTarget?_of_lexes h
  rw [htarget, if_neg]
  rintro ⟨-, -, hval, hvar⟩
  cases isMutable
  · exact hval rfl
  · exact hvar rfl

theorem assignmentTarget?_of_head? (h : Lexes (Text.trim source.toList) (l :: ls))
    (hls : ls.head? ≠ some .equals) : assignmentTarget? source = none := by
  obtain ⟨r, q, hr, hq, htarget⟩ := assignmentTarget?_of_lexes h
  rw [htarget, if_neg]
  rintro ⟨-, hseen, -⟩
  exact hls (head?_lexes_of_startsWithEquals hr hq hseen)

theorem assignmentTarget?_of_equals (h : Lexes (Text.trim source.toList) (.name x :: .equals :: ls))
    (hls : ls.head? ≠ some .equals) : assignmentTarget? source = some x := by
  obtain ⟨r, q, hr, hq, htarget⟩ := assignmentTarget?_of_lexes h
  have hx := Lexeme.spelled_name_iff.mp (h.spelled _ List.mem_cons_self)
  rw [htarget, if_pos ⟨hx.1, startsWithEquals_of_lexes hr hq hls, nofun, nofun⟩]
  rfl

end Statement

/-! ### Sentences -/

/-- No phrase starts with an equals sign, or has one behind its first lexeme. -/
theorem Phrase.exists_lexemes (p : Phrase) :
    ∃ l ls, p.lexemes = l :: ls ∧ l ≠ .equals ∧ ls.head? ≠ some .equals := by
  cases p with
  | literal k text => exact ⟨.literal k text, [], by rw [lexemes], nofun, nofun⟩
  | reference x => exact ⟨.name x, [], by rw [lexemes], nofun, nofun⟩
  | call f ps =>
    exact ⟨.name f, .opening :: (argumentLexemes ps ++ [.closing]), by rw [lexemes], nofun, nofun⟩

/-- The name that a sentence assigns. -/
def Sentence.assigned? : Sentence → Option String
  | assignment x _ => some x
  | _ => none

namespace Statement

variable {source : String} {n : Node}

/-- The quick look sees which sentences are assignments. -/
theorem assignmentTarget?_of_sentence {w : Sentence}
    (h : Lexeme.Lexes (Text.trim source.toList) w.lexemes) :
    assignmentTarget? source = w.assigned? := by
  cases w with
  | declaration m x t => exact assignmentTarget?_of_keyword h
  | definition m x t p => exact assignmentTarget?_of_keyword h
  | assignment x p =>
    obtain ⟨l, ls, hp, hne, -⟩ := p.exists_lexemes
    apply assignmentTarget?_of_equals h
    rw [hp]
    exact fun hl => hne (Option.some.inj hl)
  | expression p =>
    obtain ⟨l, ls, hp, -, hls⟩ := p.exists_lexemes
    rw [Sentence.lexemes, hp] at h
    exact assignmentTarget?_of_head? h hls

/-- **The quick look agrees with the parser.**  On every text that is parsed it
finds a name exactly if the text is an assignment, and that name; it finds none
exactly if the text is a declaration, a definition or an expression. -/
theorem assignmentTarget?_agrees [Text.CharacterNames] (h : parse source = .ok n) :
    (∀ x, assignmentTarget? source = some x ↔ ∃ e, n = .assignment x e) ∧
    (assignmentTarget? source = none ↔
      (∃ x t m, n = .declaration x t m) ∨
      (∃ x t m e, n = .block [.declaration x t m, .assignment x e]) ∨ n.IsExpression) := by
  obtain ⟨w, hw, hn⟩ := exists_sentence h
  rw [assignmentTarget?_of_sentence (sentence_eq_ok_iff.mp hw)]
  cases w with
  | declaration m x t =>
    cases hn
    simp [Sentence.assigned?]
  | definition m x t p =>
    obtain ⟨e, -, hdefinition⟩ := exists_of_bind_eq_ok hn
    obtain ⟨t', -, hblock⟩ := exists_of_bind_eq_ok hdefinition
    cases hblock
    simp [Sentence.assigned?]
  | assignment x p =>
    obtain ⟨e, -, hassignment⟩ := exists_of_bind_eq_ok hn
    cases hassignment
    have hnot : ¬ (Node.assignment x e).IsExpression := nofun
    simp [Sentence.assigned?, hnot]
  -- no expression is an assignment, so there is no target
  | expression p =>
    have hexpression := p.isExpression_of_toNode hn
    have hnot : ∀ x, ¬ ∃ e, n = .assignment x e := by
      rintro x ⟨e, rfl⟩
      cases hexpression
    simp [Sentence.assigned?, hnot, hexpression]

/-- A call is assigned, and the blanks around it are of several sorts. -/
theorem assignmentTarget?_agrees_of_call :
    let source := "\u00a0\n x\t= f(\"a = b\") "
    parse source = .ok (.assignment "x" (.call "f" [.literal (some (.str "a = b")) "Str"])) ∧
      assignmentTarget? source = some "x" := by
  intro source
  have hparse : parse source
      = .ok (.assignment "x" (.call "f" [.literal (some (.str "a = b")) "Str"])) := by cbv
  exact ⟨hparse, ((assignmentTarget?_agrees hparse).1 "x").mpr ⟨_, rfl⟩⟩

end Statement

end LineScript
