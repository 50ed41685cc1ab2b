/-
LineScript/Proofs/Image.lean

The nodes that parsing gives.

A statement is one of four forms over well-formed expressions
(`Node.IsStatement`): names are names, literals carry the class of their value,
floating-point numbers are finite and symbols are words.  Parsing gives nothing
else, since all lexemes of a text are spelled as their kinds say.

Conversely every statement without a floating-point number has a source.  It is
found in two steps: the sentence that the node comes from, with its type written
out and the null characters of its texts written by their code; and the lexemes
of that sentence with a space between every two of them.
-/
import LineScript.Proofs.Footprint
import LineScript.Proofs.Literals
import LineScript.Proofs.Parsing

namespace LineScript

open Lexeme (Lexes)
open Token (IsName IsWord Spells Stops)

/-! ### Well-formed nodes -/

/-- The values that literals have. -/
inductive Value.IsLiteral : Value → Prop
  | null : IsLiteral null
  | int (n : Int64) : IsLiteral (int n)
  | float {x : Number.Binary64} : x.isFinite = true → IsLiteral (float x)
  | bool (b : Bool) : IsLiteral (bool b)
  | str (s : String) : IsLiteral (str s)
  | symbol {x : String} : IsWord x.toList → IsLiteral (symbol x)

namespace Node

/-- Expressions whose names are names, and whose literals carry the class of
their value. -/
inductive WellFormed : Node → Prop
  | literal {v : Value} {c : Class} : v.IsLiteral → v.classOf = .ok c →
    WellFormed (literal (some v) c.name)
  | identifier {x : String} : IsName x → WellFormed (identifier x)
  | call {f : String} {ns : List Node} : IsName f → (∀ n ∈ ns, WellFormed n) →
    WellFormed (call f ns)

/-- The four forms of a statement.  A literal that a name is defined with has
the declared type. -/
inductive IsStatement : Node → Prop
  | declaration {x t : String} (isMutable : Bool) : IsName x → IsName t →
    IsStatement (declaration x t isMutable)
  | definition {x t : String} (isMutable : Bool) {e : Node} : IsName x → IsName t →
    e.WellFormed → (∀ v type, e = .literal v type → t = type) →
    IsStatement (block [.declaration x t isMutable, .assignment x e])
  | assignment {x : String} {e : Node} : IsName x → e.WellFormed → IsStatement (assignment x e)
  | expression {e : Node} : e.WellFormed → IsStatement e

end Node

/-! ### What is parsed is well formed -/

/-- The class of a literal is a name. -/
theorem Value.IsLiteral.isName {v : Value} {c : Class} (hv : v.IsLiteral)
    (hc : v.classOf = .ok c) : IsName c.name := by
  cases hv <;> cases hc <;> decide

/-- A literal that is spelled as its kind says is read as such a value. -/
theorem LiteralKind.isLiteral_of_read [Text.CharacterNames] {k : LiteralKind} {text type : String}
    {v : Value}
    (hs : Spells (.literal k) text.toList) (h : k.read text = .ok (.literal (some v) type)) :
    v.IsLiteral := by
  cases k with
  | integer =>
    replace h : readInteger text = .ok (.literal (some v) type) := h
    unfold readInteger at h
    dsimp only at h
    split at h
    · cases h
    · split at h <;> cases h
      exact .int _
  -- a decimal past the range is refused, so the value is finite
  | decimal =>
    replace h : readDecimal text = .ok (.literal (some v) type) := h
    unfold readDecimal at h
    dsimp only at h
    split at h <;> cases h
    next hfinite => exact .float hfinite
  | text =>
    replace h : readText text = .ok (.literal (some v) type) := h
    unfold readText at h
    split at h <;> cases h
    exact .str _
  | symbol =>
    cases h
    generalize text.toList = w at hs
    cases hs with
    | symbol hword =>
      -- the spelling of the token says that a word stands behind the quote
      refine .symbol ?_
      rw [String.toList_ofList]
      exact hword
  | true =>
    cases h
    exact .bool _
  | false =>
    cases h
    exact .bool _
  | null =>
    cases h
    exact .null

/-- A result of two steps comes from a result of the first. -/
theorem exists_of_bind_eq_ok {α β : Type} {x : Except Fault α} {f : α → Except Fault β} {b : β}
    (h : (x >>= f) = .ok b) : ∃ a, x = .ok a ∧ f a = .ok b := by
  rcases x with e | a
  · cases h
  · exact ⟨a, rfl, h⟩

namespace Phrase

variable [Text.CharacterNames]

mutual

theorem wellFormed_of_toNode : (p : Phrase) → (∀ l ∈ p.lexemes, l.Spelled) →
    {n : Node} → p.toNode = .ok n → n.WellFormed
  | literal k text, hs, n, h => by
    obtain ⟨v, c, rfl, hc⟩ := LiteralKind.read_eq_ok h
    exact .literal (LiteralKind.isLiteral_of_read (hs _ List.mem_cons_self) h) hc
  | reference x, hs, n, h => by
    cases h
    exact .identifier (Lexeme.spelled_name_iff.mp (hs _ List.mem_cons_self))
  | call f ps, hs, n, h => by
    obtain ⟨hf, hps⟩ := spelled_call_iff.mp hs
    rw [toNode] at h
    obtain ⟨ns, hns, ⟨⟩⟩ := exists_of_bind_eq_ok h
    exact .call (Lexeme.spelled_name_iff.mp hf) (wellFormed_of_toNodes ps hps hns)

theorem wellFormed_of_toNodes : (ps : List Phrase) → (∀ p ∈ ps, ∀ l ∈ p.lexemes, l.Spelled) →
    {ns : List Node} → toNodes ps = .ok ns → ∀ n ∈ ns, n.WellFormed
  | [], _, ns, h => by
    cases h
    simp
  | p :: ps, hs, ns, h => by
    obtain ⟨hp, hps⟩ := List.forall_mem_cons.mp hs
    rw [toNodes] at h
    obtain ⟨n, hn, h⟩ := exists_of_bind_eq_ok h
    obtain ⟨ns, hns, ⟨⟩⟩ := exists_of_bind_eq_ok h
    exact List.forall_mem_cons.mpr ⟨wellFormed_of_toNode p hp hn, wellFormed_of_toNodes ps hps hns⟩

end

end Phrase

/-- The type of a definition is the one that is written or the one of the
value, and the latter if that is a literal. -/
theorem Node.definitionType_eq_ok {x t' : String} {t : Option String} {n : Node}
    (h : definitionType x t n = .ok t') :
    (t = some t' ∨ n.staticType? = some t') ∧ ∀ v type, n = literal v type → t' = type := by
  unfold definitionType at h
  split at h
  · -- neither a written type nor a static one
    cases h
  · next type hstatic =>
    split at h
    · cases h
    · cases h
      refine ⟨.inr hstatic, ?_⟩
      rintro v type rfl
      exact (Option.some.inj hstatic).symm
  · next t hstatic =>
    cases h
    refine ⟨.inl rfl, ?_⟩
    rintro v type rfl
    cases hstatic
  · -- both, and they must be the same
    next t inferred hstatic =>
    split at h
    · next heq =>
      cases h
      refine ⟨.inl rfl, ?_⟩
      rintro v type rfl
      exact heq ▸ (Option.some.inj hstatic).symm
    · cases h

/-- The static type of an expression is a name. -/
theorem Node.WellFormed.isName_staticType? {n : Node} (h : n.WellFormed) {t : String}
    (ht : n.staticType? = some t) : IsName t := by
  cases h with
  | literal hv hc =>
    cases ht
    exact hv.isName hc
  | identifier => cases ht
  | call => cases ht

/-- The node of a sentence is a statement. -/
theorem Sentence.isStatement_of_toNode [Text.CharacterNames] {w : Sentence}
    (hs : ∀ l ∈ w.lexemes, l.Spelled) {n : Node} (h : w.toNode = .ok n) : n.IsStatement := by
  have hname : ∀ x, .name x ∈ w.lexemes → IsName x :=
    fun x hx => Lexeme.spelled_name_iff.mp (hs _ hx)
  cases w with
  | declaration m x t =>
    cases h
    exact .declaration m (hname x (by simp [lexemes])) (hname t (by simp [lexemes]))
  | definition m x t p =>
    have hps : ∀ l ∈ p.lexemes, l.Spelled := fun l hl => hs l (by simp [lexemes, hl])
    have hx : IsName x := hname x (by simp [lexemes])
    rw [toNode] at h
    obtain ⟨e, he, h⟩ := exists_of_bind_eq_ok h
    rw [Node.definition] at h
    obtain ⟨t', ht, ⟨⟩⟩ := exists_of_bind_eq_ok h
    have hwell := p.wellFormed_of_toNode hps he
    -- the type is the written one or that of the value
    obtain ⟨rfl | hstatic, hliteral⟩ := Node.definitionType_eq_ok ht
    · exact .definition m hx (hname t' (by simp [lexemes, typeLexemes])) hwell hliteral
    · exact .definition m hx (hwell.isName_staticType? hstatic) hwell hliteral
  | assignment x p =>
    have hps : ∀ l ∈ p.lexemes, l.Spelled := fun l hl => hs l (by simp [lexemes, hl])
    rw [toNode] at h
    obtain ⟨e, he, ⟨⟩⟩ := exists_of_bind_eq_ok h
    exact .assignment (hname x (by simp [lexemes])) (p.wellFormed_of_toNode hps he)
  | expression p => exact .expression (p.wellFormed_of_toNode hs h)

theorem Statement.isStatement_of_parse [Text.CharacterNames] {source : String} {n : Node}
    (h : parse source = .ok n) :
    n.IsStatement := by
  obtain ⟨w, hw, hn⟩ := exists_sentence h
  exact Sentence.isStatement_of_toNode (sentence_eq_ok_iff.mp hw).spelled hn

/-! ### Every statement has a source -/

namespace Lexeme

/-- Lexemes with a space before each of them. -/
def spaced (ls : List Lexeme) : List Char :=
  ls.flatMap fun l => ' ' :: l.chars

theorem stops_spaced (ls : List Lexeme) : Stops (spaced ls) := by
  rcases ls with - | ⟨l, ls⟩
  · trivial
  · exact ⟨by decide, by decide⟩

theorem lexes_spaced {ls : List Lexeme} (hs : ∀ l ∈ ls, l.Spelled) : Lexes (spaced ls) ls := by
  induction ls with
  | nil => exact .nil
  | cons l ls ih =>
    obtain ⟨hl, hls⟩ := List.forall_mem_cons.mp hs
    exact .gap (by decide) (.lexeme hl (.inr (stops_spaced ls)) (ih hls))

/-- Every sequence of lexemes can be written down. -/
theorem exists_lexes {ls : List Lexeme} (hs : ∀ l ∈ ls, l.Spelled) :
    ∃ cs, Text.trim cs = cs ∧ Lexes cs ls := by
  rcases ls with - | ⟨a, ls⟩
  · exact ⟨[], rfl, .nil⟩
  · obtain ⟨ha, hls⟩ := List.forall_mem_cons.mp hs
    refine ⟨a.chars ++ spaced ls, ?_, .lexeme ha (.inr (stops_spaced ls)) (lexes_spaced hls)⟩
    -- the text ends with its last lexeme, which may be the first one
    rcases List.eq_nil_or_concat ls with rfl | ⟨init, b, rfl⟩
    · exact trim_eq_self ha ha rfl (s := []) (by simp [spaced])
    · refine trim_eq_self ha (hls b (by simp)) rfl (s := a.chars ++ spaced init ++ [' ']) ?_
      simp [spaced]

end Lexeme

theorem Sentence.exists_source [Text.CharacterNames] {w : Sentence}
    (hs : ∀ l ∈ w.lexemes, l.Spelled) :
    ∃ source, Statement.parse source = w.toNode := by
  obtain ⟨cs, htrim, hcs⟩ := Lexeme.exists_lexes hs
  refine ⟨String.ofList cs, Statement.parse_of_lexes ?_⟩
  rw [String.toList_ofList, htrim]
  exact hcs

/-- Every value of a literal but a floating-point number is written by some
literal. -/
theorem Value.IsLiteral.exists_phrase [Text.CharacterNames] {v : Value} {c : Class}
    (hv : v.IsLiteral) (hc : v.classOf = .ok c) (hfloat : ∀ x, v ≠ .float x) :
    ∃ k text, Spells (.literal k) text.toList ∧ k.read text = .ok (.literal (some v) c.name) := by
  cases hv with
  | null =>
    cases hc
    exact ⟨.null, "null", .null, rfl⟩
  | int n =>
    cases hc
    exact ⟨.integer, _, LiteralKind.spells_integer n.toInt, LiteralKind.read_integer n⟩
  | float => exact absurd rfl (hfloat _)
  | bool b =>
    cases hc
    cases b
    · exact ⟨.false, "false", .falseWord, rfl⟩
    · exact ⟨.true, "true", .trueWord, rfl⟩
  | str s =>
    cases hc
    -- every character can be written plainly or escaped
    have hwrites : ∀ c ∈ s.toList, Text.DoubleQuoted.Writes Text.DoubleQuoted.safeChar c :=
      fun c _ => Text.DoubleQuoted.writes_safeChar c
    refine ⟨.text, _, ?_, LiteralKind.read_text hwrites⟩
    rw [String.toList_ofList]
    exact Text.DoubleQuoted.spells_literal fun c hc => (hwrites c hc).inside
  | symbol hx =>
    cases hc
    exact ⟨.symbol, _, LiteralKind.spells_symbol hx, LiteralKind.read_symbol _⟩

namespace Node

/-- A written type fits an expression that is no literal of another type. -/
theorem WellFormed.definition_eq_ok {e : Node} (he : e.WellFormed) {x t : String} (m : Bool)
    (ht : ∀ v type, e = .literal v type → t = type) :
    definition x (some t) m e = .ok (block [.declaration x t m, .assignment x e]) := by
  cases he with
  | literal hv hc =>
    obtain rfl := ht _ _ rfl
    have htype : ∀ v t, definitionType x (some t) (.literal v t) = .ok t :=
      fun v t => if_pos rfl
    rw [definition, htype]
    rfl
  | identifier => rfl
  | call => rfl

variable [Text.CharacterNames]

/-- A phrase that is spelled as it should be and is read as a node. -/
def Spoken (n : Node) (p : Phrase) : Prop :=
  (∀ l ∈ p.lexemes, l.Spelled) ∧ p.toNode = .ok n

theorem exists_arguments {ns : List Node} (h : ∀ n ∈ ns, ∃ p, n.Spoken p) :
    ∃ ps, (∀ p ∈ ps, ∀ l ∈ p.lexemes, l.Spelled) ∧ Phrase.toNodes ps = .ok ns := by
  induction ns with
  | nil => exact ⟨[], by simp, rfl⟩
  | cons n ns ih =>
    obtain ⟨⟨p, hp, hn⟩, hrest⟩ := List.forall_mem_cons.mp h
    obtain ⟨ps, hps, hns⟩ := ih hrest
    refine ⟨p :: ps, List.forall_mem_cons.mpr ⟨hp, hps⟩, ?_⟩
    rw [Phrase.toNodes, hn, hns]
    rfl

/-- Every well-formed expression without a floating-point number is written by
some phrase. -/
theorem WellFormed.exists_phrase {n : Node} (h : n.WellFormed)
    (hfloat : ∀ x, .float x ∉ n.literals) : ∃ p, n.Spoken p := by
  induction h with
  | @literal v c hv hc =>
    have hne : ∀ x, v ≠ .float x := by
      rintro x rfl
      exact hfloat x (by simp [literals, literalValue])
    obtain ⟨k, text, hs, hread⟩ := hv.exists_phrase hc hne
    refine ⟨.literal k text, fun l hl => ?_, hread⟩
    rw [Phrase.lexemes, List.mem_singleton] at hl
    exact hl ▸ hs
  | @identifier x hx =>
    refine ⟨.reference x, fun l hl => ?_, rfl⟩
    rw [Phrase.lexemes, List.mem_singleton] at hl
    exact hl ▸ Lexeme.spelled_name_iff.mpr hx
  -- the induction hypothesis speaks of the arguments one by one
  | @call f ns hf _ ih =>
    have hspoken : ∀ n ∈ ns, ∃ p, n.Spoken p :=
      fun n hn => ih n hn fun x hx => hfloat x (mem_allLiterals.mpr ⟨n, hn, hx⟩)
    obtain ⟨ps, hps, hns⟩ := exists_arguments hspoken
    refine ⟨.call f ps, Phrase.spelled_call_iff.mpr ⟨Lexeme.spelled_name_iff.mpr hf, hps⟩, ?_⟩
    rw [Phrase.toNode, hns]
    rfl

/-- Every statement without a floating-point number is the node of some
sentence. -/
theorem IsStatement.exists_sentence {n : Node} (h : n.IsStatement)
    (hfloat : ∀ x, .float x ∉ n.literals) :
    ∃ w : Sentence, (∀ l ∈ w.lexemes, l.Spelled) ∧ w.toNode = .ok n := by
  cases h with
  | @declaration x t m hx ht =>
    refine ⟨.declaration m x t, ?_, rfl⟩
    simp [Sentence.lexemes, Lexeme.spelled_keyword, Lexeme.spelled_colon,
      Lexeme.spelled_name_iff.mpr hx, Lexeme.spelled_name_iff.mpr ht]
  | @definition x t m e hx ht he hliteral =>
    have hvalue : ∀ y, .float y ∉ e.literals :=
      fun y hy => hfloat y (by simp [literals, allLiterals, hy])
    obtain ⟨p, hp, hn⟩ := he.exists_phrase hvalue
    -- the type is always written out, also where it could be inferred
    refine ⟨.definition m x (some t) p, ?_, ?_⟩
    · simpa [Sentence.lexemes, Sentence.typeLexemes, Lexeme.spelled_keyword, Lexeme.spelled_colon,
        Lexeme.spelled_equals, Lexeme.spelled_name_iff.mpr hx, Lexeme.spelled_name_iff.mpr ht]
        using hp
    · rw [Sentence.toNode, hn]
      exact he.definition_eq_ok m hliteral
  | @assignment x e hx he =>
    obtain ⟨p, hp, hn⟩ := he.exists_phrase hfloat
    refine ⟨.assignment x p, ?_, ?_⟩
    · simpa [Sentence.lexemes, Lexeme.spelled_equals, Lexeme.spelled_name_iff.mpr hx] using hp
    · rw [Sentence.toNode, hn]
      rfl
  | expression he =>
    obtain ⟨p, hp, hn⟩ := he.exists_phrase hfloat
    exact ⟨.expression p, hp, hn⟩

end Node

/-- **The image of parsing.**  Every node that is parsed is a statement, and
every statement without a floating-point number is parsed from some source. -/
theorem Statement.parse_image [Text.CharacterNames] :
    (∀ source n, parse source = .ok n → n.IsStatement) ∧
    ∀ n : Node, n.IsStatement → (∀ x, .float x ∉ n.literals) → ∃ source, parse source = .ok n := by
  refine ⟨fun source n => isStatement_of_parse, ?_⟩
  intro n hn hfloat
  obtain ⟨w, hs, hw⟩ := hn.exists_sentence hfloat
  obtain ⟨source, hsource⟩ := Sentence.exists_source hs
  exact ⟨source, hsource.trans hw⟩

/-- A definition by a text that holds the null character, which its printed form
could not be read back from, has a source. -/
theorem Statement.parse_image_of_null_text :
    let n : Node := .block [.declaration "x" "Str" true,
      .assignment "x" (.literal (some (.str "\x00")) "Str")]
    n.IsStatement ∧ (∀ x, .float x ∉ n.literals) ∧ ∃ source, parse source = .ok n := by
  intro n
  have hn : n.IsStatement := by
    refine .definition true (by decide +kernel) (by decide +kernel) (.literal (.str _) rfl) ?_
    rintro v type ⟨⟩
    rfl
  have hfloat : ∀ x, .float x ∉ n.literals := by
    simp [n, Node.literals, Node.allLiterals, Node.literalValue]
  exact ⟨hn, hfloat, parse_image.2 n hn hfloat⟩

end LineScript
