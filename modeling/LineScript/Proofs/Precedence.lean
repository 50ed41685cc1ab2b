/-
LineScript/Proofs/Precedence.lean

Which fault of a sentence is reported.

A text that belongs to the grammar may still have faults of two sorts.  A literal
may be flawed: `Flawed` says in which ways, one for each kind of literal that can
be, and two for integers.  And a definition may be mistyped: `Mistyped` tells
that from its lexemes alone, because the only values whose class is known before
they are evaluated are literals.

Literals are read from left to right, whatever calls they stand in, and the type
is looked at last.  So the first flawed literal decides; without one the type
does; and without either there is a node.
-/
import LineScript.Proofs.ImplicitDeclarations
import LineScript.Proofs.Integers

namespace LineScript

open Grammar (Derivation)
open Lexeme (Lexes)
open Token (Spells)

/-! ### Flawed literals -/

namespace LiteralKind

/-- Only `null` has a class that is of no use as a type. -/
theorem classOf_eq_any_iff {k : LiteralKind} : k.classOf.name = Class.any.name ↔ k = null := by
  cases k <;> decide

variable [Text.CharacterNames]

/-- Why a literal cannot be read. -/
inductive Flawed : LiteralKind → String → Fault → Prop
  | overlong {t : String} : digitLimit < (t.toList.filter Number.isDigit).length →
    Flawed integer t (.crash .overlongInteger)
  | wide {t : String} : (t.toList.filter Number.isDigit).length ≤ digitLimit →
    ¬ (-2 ^ 63 ≤ Number.denoted t.toList ∧ Number.denoted t.toList ≤ 2 ^ 63 - 1) →
    Flawed integer t (.failure (.badStatement ("integer " ++ t ++ " out of range")))
  | infinite {t : String} :
    (Number.Binary64.ofDecimal (Number.Decimal.read (t.toList.filter (· != '_')))).isFinite
      = Bool.false →
    Flawed decimal t (.failure (.badStatement ("decimal " ++ t ++ " out of range")))
  | malformed {t : String} : Text.DoubleQuoted.decode? t.toList = none →
    Flawed text t (.failure (.badStatement ("invalid escape in " ++ t)))

/-- A literal is flawed exactly if it cannot be read. -/
theorem read_eq_error_iff {k : LiteralKind} {t : String} (h : Spells (.literal k) t.toList)
    {e : Fault} : k.read t = .error e ↔ k.Flawed t e := by
  cases k with
  | integer =>
    -- too many digits are refused before their value is looked at
    by_cases hlength : (t.toList.filter Number.isDigit).length ≤ digitLimit
    · rw [read_integer_eq h hlength]
      constructor
      · intro he
        split at he <;> cases he
        next hnone =>
        refine .wide hlength fun hfits => ?_
        obtain ⟨w, hw⟩ := Number.exists_word_iff.mpr hfits
        rw [Number.toWord?_eq_some_iff.mpr hw] at hnone
        cases hnone
      · rintro (hlong | ⟨-, hwide⟩)
        · exact absurd hlength (by omega)
        · split
          · next w hw =>
            exact absurd (Number.exists_word_iff.mp ⟨w, Number.toWord?_eq_some_iff.mp hw⟩) hwide
          · rfl
    · rw [read, readInteger, Number.filter_isDigit_plain, if_pos (by omega)]
      constructor
      · rintro ⟨⟩
        exact .overlong (by omega)
      · rintro (hlong | ⟨hshort, -⟩)
        · rfl
        · exact absurd hshort hlength
  | decimal =>
    rw [read, readDecimal]
    constructor
    · intro he
      split at he <;> cases he
      -- the value rounds past the largest float
      next hinfinite => exact .infinite (Bool.eq_false_iff.mpr hinfinite)
    · rintro (- | - | hinfinite)
      rw [if_neg (by simp [hinfinite])]
  | text =>
    rw [read, readText]
    constructor
    · intro he
      split at he <;> cases he
      next hnone => exact .malformed hnone
    · rintro (- | - | - | hnone)
      rw [hnone]
  | symbol | true | false | null =>
    constructor <;> intro he <;> cases he

theorem staticType?_of_read {k : LiteralKind} {t : String} {n : Node} (h : k.read t = .ok n) :
    n.staticType? = some k.classOf.name := by
  obtain ⟨v, rfl, -⟩ := read_eq_literal h
  rfl

end LiteralKind

namespace Lexeme

variable [Text.CharacterNames]

theorem fault?_eq_some_iff_flawed {k : LiteralKind} {t : String}
    (h : Spells (.literal k) t.toList) {e : Fault} :
    (literal k t).fault? = some e ↔ k.Flawed t e := by
  rw [← LiteralKind.read_eq_error_iff h, fault?_eq_some_iff]
  constructor
  · rintro ⟨k', t', hl, hread⟩
    cases hl
    exact hread
  · exact fun hread => ⟨k, t, rfl, hread⟩

/-- No literal among the lexemes is flawed. -/
def Flawless (ls : List Lexeme) : Prop :=
  ∀ k t, .literal k t ∈ ls → ∀ e, ¬ LiteralKind.Flawed k t e

variable {ls : List Lexeme}

theorem flawless_of_fault? (hs : ∀ l ∈ ls, l.Spelled) (h : ∀ l ∈ ls, l.fault? = none) :
    Flawless ls := by
  intro k t hmem e hflawed
  have hspells : Spells (.literal k) t.toList := hs _ hmem
  have hfault := (fault?_eq_some_iff_flawed hspells).mpr hflawed
  rw [h _ hmem] at hfault
  cases hfault

/-- The first lexeme that cannot be read is the first flawed literal. -/
theorem firstFault?_eq_some (hs : ∀ l ∈ ls, l.Spelled) {e : Fault}
    (h : firstFault? ls = some e) :
    ∃ before k t after, ls = before ++ .literal k t :: after ∧ Flawless before ∧ k.Flawed t e := by
  obtain ⟨before, l, after, rfl, hl, hbefore⟩ := List.findSome?_eq_some_iff.mp h
  obtain ⟨hsbefore, hsafter⟩ := List.forall_mem_append.mp hs
  obtain ⟨k, t, rfl, -⟩ := fault?_eq_some_iff.mp hl
  have hspells : Spells (.literal k) t.toList := hsafter _ List.mem_cons_self
  exact ⟨before, k, t, after, rfl, flawless_of_fault? hsbefore hbefore,
    (fault?_eq_some_iff_flawed hspells).mp hl⟩

theorem flawless_of_firstFault? (hs : ∀ l ∈ ls, l.Spelled) (h : firstFault? ls = none) :
    Flawless ls :=
  flawless_of_fault? hs (List.findSome?_eq_none_iff.mp h)

end Lexeme

/-! ### Mistyped definitions -/

namespace Lexeme

/-- The lexemes of a definition whose type does not fit its value: no type is
written, and the value is not a literal that has one; or the value is a literal of
another class than the one that is written. -/
inductive Mistyped : List Lexeme → Failure → Prop
  | notInferred {isMutable : Bool} {x : String} {value : List Lexeme} :
    (∀ k t, value = [literal k t] → k = .null) →
    Mistyped (keyword isMutable :: name x :: equals :: value) (.notInferred x)
  | clash {isMutable : Bool} {x type t : String} {k : LiteralKind} : k.classOf.name ≠ type →
    Mistyped [keyword isMutable, name x, colon, name type, equals, literal k t]
      (.clash type k.classOf.name)

end Lexeme

namespace Sentence

open Lexeme (Mistyped)

/-- The lexemes of a literal are those of no other phrase. -/
theorem eq_literal_of_lexemes {p : Phrase} {k : LiteralKind} {t : String}
    (h : p.lexemes = [.literal k t]) : p = .literal k t := by
  have hsentence : (expression p).lexemes = (expression (.literal k t)).lexemes := h
  cases lexemes_injective hsentence
  rfl

/-- Which definitions are mistyped. -/
theorem mistyped_definition_iff {m : Bool} {x : String} {type : Option String} {p : Phrase}
    {f : Failure} :
    Mistyped (definition m x type p).lexemes f ↔
      type = none ∧ (∀ k t, p = .literal k t → k = .null) ∧ f = .notInferred x ∨
      ∃ t k text, type = some t ∧ p = .literal k text ∧ k.classOf.name ≠ t ∧
        f = .clash t k.classOf.name := by
  constructor
  · intro h
    -- the lexeme behind the name tells whether a type is written
    generalize hls : (definition m x type p).lexemes = ls at h
    cases h with
    | @notInferred isMutable y value hvalue =>
      cases type with
      | some t => cases m <;> cases isMutable <;> cases hls
      | none =>
        obtain ⟨rfl, rfl⟩ : x = y ∧ p.lexemes = value := by
          cases m <;> cases isMutable <;> cases hls <;> exact ⟨rfl, rfl⟩
        refine .inl ⟨rfl, ?_, rfl⟩
        rintro k t rfl
        exact hvalue k t rfl
    | @clash isMutable y t text k hk =>
      obtain ⟨p', hp', hvalue⟩ := exists_definition hls
      cases hp'
      exact .inr ⟨t, k, text, rfl, eq_literal_of_lexemes hvalue, hk, rfl⟩
  · rintro (⟨rfl, hp, rfl⟩ | ⟨t, k, text, rfl, rfl, hk, rfl⟩)
    · exact .notInferred fun k t hlexemes => hp k t (eq_literal_of_lexemes hlexemes)
    · exact .clash hk

/-- Only definitions are mistyped. -/
theorem not_mistyped {w : Sentence} (hw : ∀ m x type p, w ≠ definition m x type p)
    (f : Failure) : ¬ Mistyped w.lexemes f := by
  intro h
  generalize hls : w.lexemes = ls at h
  cases h with
  | @notInferred isMutable x value _ =>
    rcases cases_of_keyword hls with ⟨y, t, rfl⟩ | ⟨y, t, p, rfl⟩ | ⟨y, p, rfl⟩
    · cases isMutable <;> cases hls
    · exact hw _ _ _ _ rfl
    · exact hw _ _ _ _ rfl
  | clash _ =>
    obtain ⟨p, rfl, -⟩ := exists_definition hls
    exact hw _ _ _ _ rfl

/-- A phrase that is no literal has no static type. -/
theorem staticType?_of_not_literal [Text.CharacterNames] {p : Phrase} {n : Node}
    (hp : p.toNode = .ok n) (h : ∀ k t, p ≠ .literal k t) : n.staticType? = none := by
  cases p with
  | literal k t => exact absurd rfl (h k t)
  | reference x =>
    cases hp
    rfl
  | call f ps =>
    obtain ⟨ns, -, hns⟩ := exists_of_bind_eq_ok hp
    cases hns
    rfl

/-- A definition is mistyped, or it has a type. -/
theorem definitionType_outcome [Text.CharacterNames] {p : Phrase} {n : Node}
    (hp : p.toNode = .ok n) (m : Bool) (x : String) (type : Option String) :
    (∃ f, Mistyped (definition m x type p).lexemes f ∧
        Node.definitionType x type n = .error (.failure f)) ∨
      (∀ f, ¬ Mistyped (definition m x type p).lexemes f) ∧
        ∃ t, Node.definitionType x type n = .ok t := by
  simp only [mistyped_definition_iff]
  -- only literals have a static type
  by_cases hliteral : ∃ k t, p = .literal k t
  · obtain ⟨k, t, rfl⟩ := hliteral
    have hstatic := LiteralKind.staticType?_of_read hp
    cases type with
    | none =>
      by_cases hk : k = .null
      · refine .inl ⟨.notInferred x, .inl ⟨rfl, ?_, rfl⟩, ?_⟩
        · rintro k' t' ⟨⟩
          exact hk
        · simp only [Node.definitionType, hstatic, LiteralKind.classOf_eq_any_iff.mpr hk, if_true]
      · refine .inr ⟨?_, k.classOf.name, ?_⟩
        · rintro f (⟨-, hnull, -⟩ | ⟨t', _, _, htype, -⟩)
          · exact hk (hnull k t rfl)
          · cases htype
        · simp only [Node.definitionType, hstatic, mt LiteralKind.classOf_eq_any_iff.mp hk,
            if_false]
    | some type =>
      by_cases hk : k.classOf.name = type
      · refine .inr ⟨?_, type, ?_⟩
        · rintro f (⟨htype, -⟩ | ⟨t', k', _, ⟨⟩, ⟨⟩, hclash, -⟩)
          · cases htype
          · exact hclash hk
        · simp only [Node.definitionType, hstatic, hk, if_true]
      · refine .inl ⟨.clash type k.classOf.name, .inr ⟨type, k, t, rfl, rfl, hk, rfl⟩, ?_⟩
        simp only [Node.definitionType, hstatic, hk, if_false]
  · have hother : ∀ k t, p ≠ .literal k t := fun k t h => hliteral ⟨k, t, h⟩
    have hstatic := staticType?_of_not_literal hp hother
    cases type with
    | none =>
      refine .inl ⟨.notInferred x, .inl ⟨rfl, fun k t h => absurd h (hother k t), rfl⟩, ?_⟩
      simp only [Node.definitionType, hstatic]
    | some type =>
      refine .inr ⟨?_, type, ?_⟩
      · rintro f (⟨htype, -⟩ | ⟨_, k, t, -, h, -⟩)
        · cases htype
        · exact hother k t h
      · simp only [Node.definitionType, hstatic]

/-- A sentence whose literals can be read is mistyped, or it has a node. -/
theorem toNode_of_readable [Text.CharacterNames] {w : Sentence}
    (h : Lexeme.firstFault? w.lexemes = none) :
    (∃ f, Mistyped w.lexemes f ∧ w.toNode = .error (.failure f)) ∨
      (∀ f, ¬ Mistyped w.lexemes f) ∧ ∃ n, w.toNode = .ok n := by
  have hvalue : ∀ p : Phrase, Lexeme.firstFault? p.lexemes = none → ∃ n, p.toNode = .ok n := by
    intro p hnone
    rcases p.toNode_outcome with ⟨e, hfault, -⟩ | ⟨-, hn⟩
    · rw [hnone] at hfault
      cases hfault
    · exact hn
  cases w with
  | declaration m x t => exact .inr ⟨not_mistyped (by simp), _, rfl⟩
  | definition m x type p =>
    have hlexemes : Lexeme.firstFault? (definition m x type p).lexemes
        = Lexeme.firstFault? p.lexemes := by
      cases m <;> cases type <;> rfl
    obtain ⟨n, hn⟩ := hvalue p (hlexemes ▸ h)
    -- all literals are read, so only the type may be at fault
    rw [toNode, hn]
    show (∃ f, _ ∧ Node.definition x type m n = _) ∨ _ ∧ ∃ n', Node.definition x type m n = .ok n'
    rw [Node.definition]
    rcases definitionType_outcome hn m x type with ⟨f, hf, htype⟩ | ⟨hf, t, htype⟩
    · exact .inl ⟨f, hf, by rw [htype]; rfl⟩
    · exact .inr ⟨hf, _, by rw [htype]; rfl⟩
  | assignment x p =>
    obtain ⟨n, hn⟩ := hvalue p h
    exact .inr ⟨not_mistyped (by simp), .assignment x n, by rw [toNode, hn]; rfl⟩
  | expression p => exact .inr ⟨not_mistyped (by simp), hvalue p h⟩

end Sentence

/-! ### The fault of a statement -/

namespace Statement

open Lexeme (Flawless Mistyped)

/-- **Which fault of a sentence is reported.**  The first flawed literal decides,
whatever calls it stands in and whatever the statement is.  Only if there is none
does a mistyped definition fail, and all other sentences have a node. -/
theorem parse_reports_first [Text.CharacterNames] {source : String} {ls : List Lexeme}
    (hls : Lexes (Text.trim source.toList) ls) (hd : Nonempty (Derivation ls)) :
    (∃ before k t after e, ls = before ++ .literal k t :: after ∧ Flawless before ∧
        k.Flawed t e ∧ parse source = .error e) ∨
      (Flawless ls ∧ ∃ f, Mistyped ls f ∧ parse source = .error (.failure f)) ∨
      (Flawless ls ∧ (∀ f, ¬ Mistyped ls f) ∧ ∃ n, parse source = .ok n) := by
  obtain ⟨d⟩ := hd
  obtain ⟨w, -, rfl⟩ := d.exists_sentence
  rw [parse_of_lexes hls]
  rcases hfault : Lexeme.firstFault? w.lexemes with - | e
  · -- no literal is at fault: the types decide
    have hflawless := Lexeme.flawless_of_firstFault? hls.spelled hfault
    rcases Sentence.toNode_of_readable hfault with hf | hn
    · exact .inr (.inl ⟨hflawless, hf⟩)
    · exact .inr (.inr ⟨hflawless, hn⟩)
  · -- the first literal at fault is the one that is reported
    obtain ⟨before, k, t, after, hsplit, hbefore, hflawed⟩ :=
      Lexeme.firstFault?_eq_some hls.spelled hfault
    refine .inl ⟨before, k, t, after, e, hsplit, hbefore, hflawed, ?_⟩
    rcases w.toNode_outcome with ⟨e', hfault', hw⟩ | ⟨hnone, -⟩
    · rw [hfault, Option.some.injEq] at hfault'
      rw [hw, hfault']
    · rw [hfault] at hnone
      cases hnone

/-- Two flawed literals, at different depths, in a definition without a type: the
fault is that of the left one.  In front of both stands a text that is not flawed,
because it names a character that there is. -/
theorem parse_reports_first_nested :
    letI : Text.CharacterNames := .bullet
    let named := "\"\\N\x7bBULLET\x7d\""
    let source := "val x = f(g(" ++ named ++ ", \"\\x\"), 9223372036854775808)"
    let ls := Sentence.lexemes (.definition false "x" none
      (.call "f" [.call "g" [.literal .text named, .literal .text "\"\\x\""],
        .literal .integer "9223372036854775808"]))
    (∀ e, ¬ LiteralKind.text.Flawed named e) ∧ Mistyped ls (.notInferred "x") ∧
      LiteralKind.integer.Flawed "9223372036854775808"
        (.failure (.badStatement ("integer " ++ "9223372036854775808" ++ " out of range"))) ∧
      (∃ before k t after e, ls = before ++ .literal k t :: after ∧ Flawless before ∧
        k.Flawed t e ∧ parse source = .error e) ∧
      parse source = .error (.failure (.badStatement "invalid escape in \"\\x\"")) := by
  let _ : Text.CharacterNames := .bullet
  intro named source ls
  have hls : Lexes (Text.trim source.toList) ls := Lexeme.lexes_iff_scan.mpr (by decide +kernel)
  have hspells : ∀ t, .literal .text t ∈ ls → Spells (.literal .text) t.toList :=
    fun t ht => hls.spelled _ ht
  have hflawless : ∀ e, ¬ LiteralKind.text.Flawed named e := by
    intro e he
    have hread := (LiteralKind.read_eq_error_iff (hspells named (by decide +kernel))).mpr he
    rw [LiteralKind.read_bullet] at hread
    cases hread
  have htext : LiteralKind.text.Flawed "\"\\x\""
      (.failure (.badStatement ("invalid escape in " ++ "\"\\x\""))) :=
    .malformed (by decide +kernel)
  have hnot : ¬ Flawless ls := fun h => h _ _ (by decide +kernel) _ htext
  refine ⟨hflawless, .notInferred ?_, .wide (by decide +kernel) (by decide +kernel), ?_, ?_⟩
  · intro k t h
    cases h
  · rcases @parse_reports_first .bullet _ _ hls ⟨.ofSentence _ hls.spelled⟩ with
      h | ⟨h, -⟩ | ⟨h, -⟩
    · exact h
    · exact absurd h hnot
    · exact absurd h hnot
  · have hread := (LiteralKind.read_eq_error_iff (hspells _ (by decide +kernel))).mpr htext
    rw [parse_of_lexes hls]
    simp only [Sentence.toNode, Phrase.toNode, Phrase.toNodes, LiteralKind.read_bullet, hread,
      named]
    rfl

end Statement

end LineScript
