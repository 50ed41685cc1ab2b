/-
LineScript/Proofs/PrintedFloats.lean

The texts of finite floating-point numbers, as literals.

What is printed for a finite number follows a format of its own (`IsFloatText`), which
has exponents without a point and points without an exponent.  The grammar has two kinds
of decimal that cover all of it (`IsFloatText.spells`), so that such a text is one
decimal literal wherever it stands, and none of it is left for a literal of another
kind.

A place for an argument in a call, at any depth, is a `Phrase.Context`.  The lexemes of
a phrase in a context are those of the context around those of the phrase
(`lexemes_fill`), and its node is built around the node of the phrase (`toNode_fill`).
Since the text of a number reads back, that is the number that was printed.
-/
import LineScript.Proofs.Layouts
import LineScript.Proofs.ShortestText

namespace LineScript

open Lexeme (Laid LaidOut)
open Number (Binary64 IsFloatText isDigit)
open Token (IsDigits IsExponent IsSign IsWhole Spells)

/-! ### The texts of numbers are decimals -/

section Texts

variable {w : List Char}

theorem Token.isWhole_of_isDigits (hne : w ≠ []) (h : IsDigits w) : IsWhole w := by
  rcases w with - | ⟨c, r⟩
  · exact absurd rfl hne
  · refine ⟨h c List.mem_cons_self, fun d hd => ?_⟩
    rw [h d (List.mem_cons_of_mem c hd), Bool.true_or]

/-- **The text of a number is spelled as a decimal.** -/
theorem Number.IsFloatText.spells (h : IsFloatText w) : Spells (.literal .decimal) w := by
  cases h with
  | @positional s v f hs hne hv hfne hf =>
    have hdecimal := Spells.decimal hs (Token.isWhole_of_isDigits hne hv) hf (.inl rfl)
    rwa [List.append_nil, List.append_assoc] at hdecimal
  | @exponential s t es d sign hs hd ht hsign hlength hes =>
    have hne : es ≠ [] := by
      rintro rfl
      cases hlength
    have hexponent : IsExponent ('e' :: ([sign] ++ es)) := by
      refine .intro (.inl rfl) (.inr ?_) hne hes
      rcases hsign with rfl | rfl
      · exact .inl rfl
      · exact .inr rfl
    have hwhole : IsWhole [d] := ⟨hd, by simp⟩
    -- one digit, or a point and digits behind it
    rcases ht with rfl | ⟨f, -, hf, rfl⟩
    · have hscaled := Spells.scaled hs hwhole hexponent
      rwa [List.append_assoc] at hscaled
    · have hdecimal := Spells.decimal hs hwhole hf (.inr hexponent)
      rwa [List.append_assoc] at hdecimal

/-- There are no underscores in the text of a number. -/
theorem Number.IsFloatText.plain (h : IsFloatText w) : w.filter (· != '_') = w := by
  have hdigits : ∀ {ds : List Char}, IsDigits ds → ∀ c ∈ ds, (c != '_') = true := by
    intro ds hds c hc
    rw [bne_iff_ne]
    rintro rfl
    exact absurd (hds _ hc) (by decide)
  have hsign : ∀ {s : List Char}, IsSign s → ∀ c ∈ s, (c != '_') = true := by
    rintro s (rfl | rfl) <;> exact List.all_eq_true.mp (by decide)
  -- signs, digits, the point and the letter are no underscores
  rw [List.filter_eq_self]
  cases h with
  | positional hs _ hv _ hf =>
    simp only [List.forall_mem_append, List.forall_mem_cons]
    exact ⟨hsign hs, hdigits hv, by decide, hdigits hf⟩
  | @exponential s t es d sign hs hd ht hsigned _ hes =>
    simp only [List.forall_mem_append, List.forall_mem_cons]
    have hfirst : IsDigits [d] := by simpa [IsDigits] using hd
    refine ⟨hsign hs, hdigits hfirst d List.mem_cons_self, ?_, by decide, ?_, hdigits hes⟩
    · rcases ht with rfl | ⟨f, -, hf, rfl⟩
      · simp
      · rw [List.forall_mem_cons]
        exact ⟨by decide, hdigits hf⟩
    · rcases hsigned with rfl | rfl <;> decide

/-- The text of a number starts with a digit behind its sign. -/
theorem Number.IsFloatText.exists_digit (h : IsFloatText w) :
    ∃ s d r, IsSign s ∧ isDigit d = true ∧ w = s ++ d :: r := by
  cases h with
  | @positional s v f hs hne hv =>
    obtain ⟨d, v, rfl⟩ := List.exists_cons_of_ne_nil hne
    exact ⟨s, d, _, hs, hv d List.mem_cons_self, rfl⟩
  | exponential hs hd => exact ⟨_, _, _, hs, hd, rfl⟩

end Texts

/-- The text of a number is no name of one. -/
theorem Number.IsFloatText.ofText_eq {w : String} (h : IsFloatText w.toList) :
    Binary64.ofText w = Binary64.ofDecimal (Number.Decimal.read w.toList) := by
  obtain ⟨s, d, r, hs, hd, hw⟩ := h.exists_digit
  have hsign : Number.Decimal.readSign w.toList = (decide (s = ['-']), d :: r) := by
    rw [hw]
    refine Number.readSign_append hs ?_
    rintro c ⟨⟩
    exact hd
  have hname : ∀ {c : Char} {t : List Char}, isDigit c = false → d :: r ≠ c :: t := by
    rintro c t hc heq
    rw [(List.cons.inj heq).1, hc] at hd
    cases hd
  rw [Binary64.ofText, hsign]
  dsimp only
  rw [if_neg (hname (by decide)), if_neg (hname (by decide))]

/-- A decimal literal that is the text of a number is read as the number that the text
denotes. -/
theorem LiteralKind.read_floatText [Text.CharacterNames] {w : String} (h : IsFloatText w.toList) :
    read w decimal =
      if (Binary64.ofText w).isFinite then
        .ok (.literal (some (.float (Binary64.ofText w))) Class.float.name)
      else .error (.failure (.badStatement ("decimal " ++ w ++ " out of range"))) := by
  rw [read, readDecimal, h.plain, h.ofText_eq]

/-! ### Places in calls -/

/-- A place for a phrase: alone, or an argument of a call that has a place itself. -/
inductive Phrase.Context where
  | hole
  | call (function : String) (before : List Phrase) (inner : Phrase.Context)
    (after : List Phrase)

namespace Phrase.Context

open Sentence (pendingLexemes)

/-- Put a phrase in the place. -/
def fill : Context → Phrase → Phrase
  | hole, p => p
  | call f before inner after, p => .call f (before ++ inner.fill p :: after)

/-- The lexemes before the place. -/
def ahead : Context → List Lexeme
  | hole => []
  | call f before inner _ => .name f :: .opening :: (pendingLexemes before ++ inner.ahead)

/-- The lexemes behind the place. -/
def behind : Context → List Lexeme
  | hole => []
  | call _ _ inner after => inner.behind ++ (furtherLexemes after ++ [.closing])

/-- What becomes of the whole if the phrase in the place becomes a node or a fault. -/
def around [Text.CharacterNames] : Context → Except Fault Node → Except Fault Node
  | hole, r => r
  | call f before inner after, r => do
    let ns ← toNodes before
    let n ← inner.around r
    let ms ← toNodes after
    return .call f (ns ++ n :: ms)

/-- The lexemes of arguments, told from one of them. -/
theorem argumentLexemes_append (before after : List Phrase) (p : Phrase) :
    argumentLexemes (before ++ p :: after)
      = pendingLexemes before ++ (p.lexemes ++ furtherLexemes after) := by
  have hfurther : ∀ qs : List Phrase, furtherLexemes (qs ++ p :: after)
      = .comma :: (pendingLexemes qs ++ (p.lexemes ++ furtherLexemes after)) := by
    intro qs
    induction qs with
    | nil => rfl
    | cons q qs ih => simp [furtherLexemes, pendingLexemes, ih]
  rcases before with - | ⟨q, qs⟩
  · rfl
  · simp [argumentLexemes, pendingLexemes, hfurther]

/-- **The lexemes of a phrase stand in the place, and nothing else changes.** -/
theorem lexemes_fill (C : Context) (p : Phrase) :
    (C.fill p).lexemes = C.ahead ++ (p.lexemes ++ C.behind) := by
  induction C with
  | hole => simp [fill, ahead, behind]
  | call f before inner after ih =>
    rw [fill, lexemes, argumentLexemes_append, ih]
    simp [ahead, behind]

theorem toNodes_append [Text.CharacterNames] (before after : List Phrase) (p : Phrase) :
    toNodes (before ++ p :: after) = (do
      let ns ← toNodes before
      let n ← p.toNode
      let ms ← toNodes after
      return ns ++ n :: ms) := by
  induction before with
  | nil => rfl
  | cons q qs ih => simp [toNodes, ih]

/-- The node of a phrase stands in the place, and nothing else changes. -/
theorem toNode_fill [Text.CharacterNames] (C : Context) (p : Phrase) :
    (C.fill p).toNode = C.around p.toNode := by
  induction C with
  | hole => rfl
  | call f before inner after ih =>
    rw [fill, toNode, toNodes_append, ih]
    simp [around]

end Phrase.Context

/-! ### Printed numbers -/

namespace Statement

open Phrase (Context)

variable {w : String} {C : Context}

/-- A text of a number in a place is spelled, if what is around it is. -/
theorem spelled_fill (hw : IsFloatText w.toList) (hC : ∀ l ∈ C.ahead ++ C.behind, l.Spelled) :
    ∀ l ∈ (C.fill (.literal .decimal w)).lexemes, l.Spelled := by
  rw [List.forall_mem_append] at hC
  rw [C.lexemes_fill, List.forall_mem_append, List.forall_mem_append]
  refine ⟨hC.1, ?_, hC.2⟩
  intro l hl
  obtain rfl : l = .literal .decimal w := List.mem_singleton.mp hl
  exact hw.spells

/-- A text of a number in a place is parsed as what is around it, with the number in
the place. -/
theorem parse_fill [Text.CharacterNames] (hw : IsFloatText w.toList)
    (hC : ∀ l ∈ C.ahead ++ C.behind, l.Spelled)
    {source : String} (h : LaidOut (C.fill (.literal .decimal w)).lexemes source) :
    parse source = C.around (LiteralKind.read w .decimal) := by
  have hparse := parse_of_laidOut (w := .expression (C.fill (.literal .decimal w)))
    (spelled_fill hw hC) h
  rw [hparse, Sentence.toNode, C.toNode_fill, Phrase.toNode]

/-- **The text of a number is one decimal literal wherever it stands**, alone or as an
argument at any depth and in any layout, and is read as the number that it denotes.
What is printed for a finite number is such a text, and the number that it denotes is
the one that was printed. -/
theorem parse_printed_floats [Text.CharacterNames] :
    (∀ w : String, IsFloatText w.toList →
      (∀ rest, Token.Stops rest →
        Token.lexeme? (w.toList ++ rest) = some (.literal .decimal, w.toList)) ∧
      ∀ C : Context, (∀ l ∈ C.ahead ++ C.behind, l.Spelled) →
        (∀ cs, Laid (C.fill (.literal .decimal w)).lexemes cs →
          (Token.scan cs).stuck = none ∧
            (Token.scan cs).tokens.map Token.lexeme
              = C.ahead ++ .literal .decimal w :: C.behind) ∧
        ∀ source, LaidOut (C.fill (.literal .decimal w)).lexemes source →
          parse source = C.around
            (if (Binary64.ofText w).isFinite then
              .ok (.literal (some (.float (Binary64.ofText w))) Class.float.name)
            else .error (.failure (.badStatement ("decimal " ++ w ++ " out of range"))))) ∧
    ∀ (x : Binary64) (language : Language), x.isFinite = true →
      ∃ w, (Value.float x).printed language = .ok w ∧ IsFloatText w.toList ∧
        Binary64.ofText w = x ∧ parse w = .ok (.literal (some (.float x)) Class.float.name) := by
  refine ⟨fun w hw => ⟨fun rest hrest => ?_, fun C hC => ⟨fun cs hcs => ?_, fun source h => ?_⟩⟩,
    fun x language hx => ?_⟩
  · exact Token.lexeme?_append hw.spells (.inr hrest)
  · have hlexes := hcs.lexes (spelled_fill hw hC)
    rw [C.lexemes_fill] at hlexes
    exact Lexeme.lexes_iff_scan.mp hlexes
  · rw [parse_fill hw hC h, LiteralKind.read_floatText hw]
  · -- a printed float has one of the shapes and reads as itself
    obtain ⟨hshape, hread⟩ := Binary64.read_toText hx
    have hvalue : Binary64.ofText x.toText = x := hshape.ofText_eq.trans hread
    refine ⟨x.toText, rfl, hshape, hvalue, ?_⟩
    have halone : LaidOut (Context.hole.fill (.literal .decimal x.toText)).lexemes x.toText :=
      ⟨[], x.toText.toList, [], .last _, (List.append_nil _).symm, nofun, nofun⟩
    have hnone : ∀ l ∈ Context.hole.ahead ++ Context.hole.behind, l.Spelled := by
      intro l hl
      cases hl
    rw [parse_fill hshape hnone halone, LiteralKind.read_floatText hshape, hvalue, if_pos hx]
    rfl

/-- A small number inside an inner call, and a large one with an exponent and no
point. -/
theorem parse_printed_floats_of_call :
    let w := "-1e-05"
    let C : Context := .call "f" [] (.call "g" [.literal .symbol "'a"] .hole []) [.reference "x"]
    let source := "f(g('a,-1e-05)\t,x)"
    let big : Binary64 := ⟨0x4341C37937E08000⟩
    IsFloatText w.toList ∧ (∀ l ∈ C.ahead ++ C.behind, l.Spelled) ∧
      Laid (C.fill (.literal .decimal w)).lexemes source.toList ∧ big.isFinite = true ∧
      (Token.scan source.toList).tokens.map Token.lexeme
        = C.ahead ++ .literal .decimal w :: C.behind ∧
      (Value.float big).printed .english = .ok "1e+16" ∧
      parse "1e+16" = .ok (.literal (some (.float big)) Class.float.name) := by
  intro w C source big
  obtain ⟨htexts, hprinted⟩ := parse_printed_floats
  have hw : IsFloatText w.toList := by
    have hchars : w.toList = ['-'] ++ ('1' :: ([] ++ 'e' :: '-' :: ['0', '5'])) := by
      decide +kernel
    rw [hchars]
    exact .exponential (.inr rfl) (by decide) (.inl rfl) (.inr rfl) (by decide)
      (List.all_eq_true.mp (by decide))
  have hC : ∀ l ∈ C.ahead ++ C.behind, l.Spelled := by
    have hspells : ∀ l : Lexeme, Token.lexeme? l.chars = some (l.kind, l.chars) → l.Spelled :=
      fun _ => Token.spells_of_lexeme?
    have hlexemes : C.ahead ++ C.behind = [.name "f", .opening, .name "g", .opening,
      .literal .symbol "'a", .comma, .closing, .comma, .name "x", .closing] := rfl
    rw [hlexemes]
    simp only [List.forall_mem_cons]
    exact ⟨hspells _ (by decide +kernel), Lexeme.spelled_opening, hspells _ (by decide +kernel),
      Lexeme.spelled_opening, hspells _ (by decide +kernel), Lexeme.spelled_comma,
      Lexeme.spelled_closing, Lexeme.spelled_comma, hspells _ (by decide +kernel),
      Lexeme.spelled_closing, by simp⟩
  have hlaid : Laid (C.fill (.literal .decimal "-1e-05")).lexemes
      "f(g('a,-1e-05)\t,x)".toList :=
    have h := Laid.last .closing
      |>.close (.name "x") rfl
      |>.close .comma rfl
      |>.spaced .closing ['\t'] rfl
      |>.close (.literal .decimal "-1e-05") rfl
      |>.close .comma rfl
      |>.close (.literal .symbol "'a") rfl
      |>.close .opening rfl
      |>.close (.name "g") rfl
      |>.close .opening rfl
      |>.close (.name "f") rfl
    h
  have hbig : big.isFinite = true := by decide
  have htext : big.toText = "1e+16" := by decide +kernel
  obtain ⟨w', hw', -, -, hparse⟩ := hprinted big .english hbig
  obtain rfl : w' = "1e+16" := by
    rw [← htext]
    exact (Except.ok.inj hw').symm
  exact ⟨hw, hC, hlaid, hbig, (((htexts w hw).2 C hC).1 _ hlaid).2, hw', hparse⟩

end Statement

end LineScript
