/-
LineScript/Proofs/Parsing.lean

What parsing does, in terms of the grammar.

A statement whose lexemes are those of a sentence is parsed as that sentence
(`parse_of_lexes`), and then only two things can go wrong: the first literal
that cannot be read decides the outcome, and if all can be read a definition may
have a type that does not fit (`Sentence.toNode_outcome`).  The failures of the
grammar itself look different from both, which makes the outcome of parsing show
whether a text belongs to the grammar.
-/
import LineScript.Proofs.Grammar
import LineScript.Proofs.Literals

namespace LineScript

/-! ### Faults behind the grammar -/

theorem Sentence.lexemes_ne_nil (w : Sentence) : w.lexemes ≠ [] := by
  rcases w with ⟨m, x, t⟩ | ⟨m, x, t, p⟩ | ⟨x, p⟩ | (p | x | ⟨f, ps⟩) <;>
    simp [Sentence.lexemes, Phrase.lexemes]

/-- A type that does not fit is a failure of its own kind. -/
theorem Node.definitionType_eq_error {x : String} {t : Option String} {n : Node} {e : Fault}
    (h : definitionType x t n = .error e) :
    ∃ f, e = .failure f ∧ (f.kind = .typeNotInferred ∨ f.kind = .typeClash) := by
  unfold definitionType at h
  split at h
  · cases h
    exact ⟨_, rfl, .inl rfl⟩
  · split at h <;> cases h
    exact ⟨_, rfl, .inl rfl⟩
  · cases h
  · split at h <;> cases h
    exact ⟨_, rfl, .inr rfl⟩

section Reading

variable [Text.CharacterNames]

/-- The fault with which an operation ended. -/
def faultOf {α : Type} : Except Fault α → Option Fault
  | .ok _ => none
  | .error e => some e

/-- Why a lexeme cannot be read, if it is a literal that cannot. -/
def Lexeme.fault? : Lexeme → Option Fault
  | ⟨.literal k, text⟩ => faultOf (k.read text)
  | _ => none

theorem Lexeme.fault?_eq_some_iff {l : Lexeme} {e : Fault} :
    l.fault? = some e ↔ ∃ k text, l = .literal k text ∧ k.read text = .error e := by
  constructor
  · intro h
    unfold fault? at h
    split at h
    · next k text =>
      rcases hk : k.read text with e' | n
      · rw [hk] at h
        cases h
        exact ⟨k, text, rfl, hk⟩
      · rw [hk] at h
        cases h
    · cases h
  · rintro ⟨k, text, rfl, hk⟩
    show faultOf (k.read text) = some e
    rw [hk]
    rfl

/-- Why the first literal that cannot be read cannot be read. -/
def Lexeme.firstFault? (ls : List Lexeme) : Option Fault :=
  ls.findSome? Lexeme.fault?

theorem Lexeme.firstFault?_append (ls ls' : List Lexeme) :
    firstFault? (ls ++ ls') = (firstFault? ls).or (firstFault? ls') :=
  List.findSome?_append

namespace Phrase

mutual

/-- A phrase fails with its first literal that cannot be read. -/
theorem faultOf_toNode : (p : Phrase) → faultOf p.toNode = Lexeme.firstFault? p.lexemes
  | .literal k text => by
    rw [toNode]
    show faultOf (k.read text) = Lexeme.firstFault? [⟨.literal k, text⟩]
    rw [Lexeme.firstFault?, List.findSome?_singleton]
    rfl
  | .reference x => rfl
  | .call f ps => by
    have harguments := faultOf_toNodes ps
    rw [toNode, lexemes]
    show _ = Lexeme.firstFault? (argumentLexemes ps ++ [.closing])
    rw [Lexeme.firstFault?_append, ← harguments]
    rcases toNodes ps with e | ns <;> rfl

theorem faultOf_toNodes :
    (ps : List Phrase) → faultOf (toNodes ps) = Lexeme.firstFault? (argumentLexemes ps)
  | [] => rfl
  | p :: ps => by
    rw [toNodes, argumentLexemes, Lexeme.firstFault?_append, ← faultOf_toNode p,
      ← faultOf_toNodes_further ps]
    rcases p.toNode with e | n
    · rfl
    · rcases toNodes ps with e | ns <;> rfl

theorem faultOf_toNodes_further :
    (ps : List Phrase) → faultOf (toNodes ps) = Lexeme.firstFault? (furtherLexemes ps)
  | [] => rfl
  | p :: ps => by
    rw [toNodes, furtherLexemes]
    show _ = Lexeme.firstFault? (lexemes p ++ furtherLexemes ps)
    rw [Lexeme.firstFault?_append, ← faultOf_toNode p, ← faultOf_toNodes_further ps]
    rcases p.toNode with e | n
    · rfl
    · rcases toNodes ps with e | ns <;> rfl

end

theorem toNode_outcome (p : Phrase) :
    (∃ e, Lexeme.firstFault? p.lexemes = some e ∧ p.toNode = .error e) ∨
      Lexeme.firstFault? p.lexemes = none ∧ ∃ n, p.toNode = .ok n := by
  rw [← p.faultOf_toNode]
  rcases p.toNode with e | n
  · exact .inl ⟨e, rfl, rfl⟩
  · exact .inr ⟨rfl, n, rfl⟩

end Phrase

/-- A sentence fails with its first literal that cannot be read; if there is
none, it fails only if the type of a definition does not fit. -/
theorem Sentence.toNode_outcome (w : Sentence) :
    (∃ e, Lexeme.firstFault? w.lexemes = some e ∧ w.toNode = .error e) ∨
      Lexeme.firstFault? w.lexemes = none ∧
        ((∃ n, w.toNode = .ok n) ∨
          ∃ x t n e, Node.definitionType x t n = .error e ∧ w.toNode = .error e) := by
  cases w with
  | declaration m x t =>
    refine .inr ⟨?_, .inl ⟨_, rfl⟩⟩
    cases m <;> rfl
  | definition m x t p =>
    -- only the value has literals, whatever stands in front of it
    have hlexemes : Lexeme.firstFault? (definition m x t p).lexemes
        = Lexeme.firstFault? p.lexemes := by
      cases m <;> cases t <;> rfl
    rw [hlexemes]
    rcases p.toNode_outcome with ⟨e, hfault, hp⟩ | ⟨hnone, n, hp⟩
    · exact .inl ⟨e, hfault, by rw [toNode, hp]; rfl⟩
    · have hnode : (definition m x t p).toNode = Node.definition x t m n := by
        rw [toNode, hp]
        rfl
      refine .inr ⟨hnone, ?_⟩
      rw [hnode, Node.definition]
      -- the literals are read, so what is left to fail is the type
      rcases ht : Node.definitionType x t n with e | t'
      · exact .inr ⟨x, t, n, e, ht, rfl⟩
      · exact .inl ⟨_, rfl⟩
  | assignment x p =>
    have hlexemes : Lexeme.firstFault? (assignment x p).lexemes
        = Lexeme.firstFault? p.lexemes := rfl
    rw [hlexemes]
    rcases p.toNode_outcome with ⟨e, hfault, hp⟩ | ⟨hnone, n, hp⟩
    · exact .inl ⟨e, hfault, by rw [toNode, hp]; rfl⟩
    · exact .inr ⟨hnone, .inl ⟨_, by rw [toNode, hp]; rfl⟩⟩
  | expression p =>
    rcases p.toNode_outcome with ⟨e, hfault, hp⟩ | ⟨hnone, n, hp⟩
    · exact .inl ⟨e, hfault, hp⟩
    · exact .inr ⟨hnone, .inl ⟨n, hp⟩⟩

/-- A literal that cannot be read is a crash, or is refused for a reason that
starts with what it is. -/
theorem LiteralKind.read_eq_error {k : LiteralKind} {text : String} {e : Fault}
    (h : k.read text = .error e) :
    e = .crash .overlongInteger ∨
      ∃ reason, e = .failure (.badStatement reason) ∧
        (reason.toList.head? = some 'i' ∨ reason.toList.head? = some 'd') := by
  cases k with
  -- the reasons start with the name of the kind, or with "invalid"
  | integer =>
    replace h : readInteger text = .error e := h
    unfold readInteger at h
    dsimp only at h
    split at h
    · cases h
      exact .inl rfl
    · split at h <;> cases h
      refine .inr ⟨_, rfl, .inl ?_⟩
      rw [String.toList_append, String.toList_append]
      rfl
  | decimal =>
    replace h : readDecimal text = .error e := h
    unfold readDecimal at h
    dsimp only at h
    split at h <;> cases h
    refine .inr ⟨_, rfl, .inr ?_⟩
    rw [String.toList_append, String.toList_append]
    rfl
  | text =>
    replace h : readText text = .error e := h
    unfold readText at h
    split at h <;> cases h
    refine .inr ⟨_, rfl, .inl ?_⟩
    rw [String.toList_append]
    rfl
  | symbol | true | false | null => cases h

/-! ### Parsing -/

namespace Statement

open Grammar (Derivation)
open Lexeme (Lexes)

/-- An outcome from behind the grammar: a node, the fault of a literal that
cannot be read, or the failure of a type that does not fit. -/
inductive PastGrammar : Except Fault Node → Prop
  | node (n : Node) : PastGrammar (.ok n)
  | literal {k : LiteralKind} {text : String} {e : Fault} :
    k.read text = .error e → PastGrammar (.error e)
  | type {x : String} {t : Option String} {n : Node} {e : Fault} :
    Node.definitionType x t n = .error e → PastGrammar (.error e)

/-- The failures of the grammar itself do not come from behind it. -/
theorem not_pastGrammar {f : Failure} (hkind : f.kind = .malformed ∨ f.kind = .unknownToken)
    (hreason : ∀ reason, f = .badStatement reason →
      reason.toList.head? = some 'a' ∨ reason.toList.head? = some 'e') :
    ¬ PastGrammar (.error (.failure f)) := by
  rintro (- | h | h)
  -- the kind may be the same as that of a bad literal, but not the first letter
  · rcases LiteralKind.read_eq_error h with h | ⟨reason, h, hhead⟩
    · cases h
    · cases h
      rcases hreason reason rfl with h | h <;> rw [h] at hhead <;> revert hhead <;> decide
  · obtain ⟨g, hg, hk⟩ := Node.definitionType_eq_error h
    cases hg
    rcases hkind with h | h <;> rw [h] at hk <;> revert hk <;> decide

theorem not_pastGrammar_empty :
    ¬ PastGrammar (.error (.failure (.badStatement "empty statement"))) := by
  refine not_pastGrammar (.inl rfl) ?_
  rintro reason ⟨⟩
  exact .inr rfl

theorem not_pastGrammar_of_sentence {cs : List Char} {f : Failure}
    (h : sentence cs = .error f) : ¬ PastGrammar (.error (.failure f)) := by
  obtain ⟨column, rfl | ⟨c, rfl⟩⟩ := sentence_eq_error h
  · refine not_pastGrammar (.inl rfl) ?_
    rintro reason ⟨⟩
    rw [String.toList_append]
    exact .inl rfl
  · refine not_pastGrammar (.inr rfl) ?_
    rintro reason ⟨⟩

theorem pastGrammar_toNode (w : Sentence) : PastGrammar w.toNode := by
  rcases w.toNode_outcome with ⟨e, hfault, hw⟩ | ⟨-, ⟨n, hw⟩ | ⟨x, t, n, e, ht, hw⟩⟩
  · rw [hw]
    obtain ⟨l, -, hl⟩ := List.exists_of_findSome?_eq_some hfault
    obtain ⟨k, text, -, hread⟩ := Lexeme.fault?_eq_some_iff.mp hl
    exact .literal hread
  · exact hw ▸ .node n
  · exact hw ▸ .type ht

/-- A text that is made of the lexemes of a sentence is parsed as the
sentence. -/
theorem parse_of_lexes {source : String} {w : Sentence}
    (h : Lexes (Text.trim source.toList) w.lexemes) : parse source = w.toNode := by
  have hsentence := sentence_eq_ok_iff.mpr h
  rw [parse]
  generalize Text.trim source.toList = cs at h hsentence
  have hempty : cs.isEmpty = false := by
    rcases cs with - | ⟨c, r⟩
    · exact absurd (Lexeme.lexes_iff_scan.mp h).2.symm w.lexemes_ne_nil
    · rfl
  rw [parseTrimmed, hempty, if_neg (by decide), hsentence]

/-- A text is a sentence, or is refused by the grammar. -/
theorem parse_cases (source : String) :
    (∃ w : Sentence, Lexes (Text.trim source.toList) w.lexemes ∧ parse source = w.toNode) ∨
      ∃ f, parse source = .error (.failure f) ∧ ¬ PastGrammar (.error (.failure f)) := by
  rw [parse, parseTrimmed]
  split
  · exact .inr ⟨_, rfl, not_pastGrammar_empty⟩
  · split
    · next w hw => exact .inl ⟨w, sentence_eq_ok_iff.mp hw, rfl⟩
    · next f hf => exact .inr ⟨f, rfl, not_pastGrammar_of_sentence hf⟩

/-- **The parser accepts exactly the grammar.**  A statement gets past the
grammar exactly if its text, trimmed, is made of lexemes that have a
derivation; no lexemes have two derivations; and parsing gives the node that
the derivation means, or the fault that its first bad literal or its type
gives. -/
theorem parse_decides_grammar (source : String) :
    (PastGrammar (parse source) ↔
      ∃ ls, Lexes (Text.trim source.toList) ls ∧ Nonempty (Derivation ls)) ∧
    (∀ ls, Subsingleton (Derivation ls)) ∧
    ∀ ls, Lexes (Text.trim source.toList) ls → ∀ d : Derivation ls,
      d.tree.items = (parse source).map fun n => [.node n] := by
  refine ⟨⟨?_, ?_⟩, fun ls => ⟨Derivation.eq_of_lexemes⟩, ?_⟩
  · -- the parser works through one sentence, whose tree is the derivation
    intro h
    rcases parse_cases source with ⟨w, hw, -⟩ | ⟨f, hf, hpast⟩
    · exact ⟨w.lexemes, hw, ⟨.ofSentence w hw.spelled⟩⟩
    · rw [hf] at h
      exact absurd h hpast
  · -- every derivation is the tree of a sentence
    rintro ⟨ls, hls, ⟨d⟩⟩
    obtain ⟨w, -, rfl⟩ := d.exists_sentence
    rw [parse_of_lexes hls]
    exact pastGrammar_toNode w
  · -- and the sentence gives the items of its tree
    intro ls hls d
    obtain ⟨w, hw, rfl⟩ := d.exists_sentence
    rw [parse_of_lexes hls, hw]
    exact Grammar.items_sentenceTree w

end Statement

end Reading

namespace Statement

open Grammar (Derivation)
open Lexeme (Lexes)

/-- A definition without a type by a call, with gaps around every token, and with a
text that names a character: it fails with its type, and has a derivation. -/
theorem parse_decides_grammar_of_call :
    letI : Text.CharacterNames := .bullet
    let source := " val x =\tf( 'y , \"\\N\x7bBULLET\x7d\" ) "
    parse source = .error (.failure (.notInferred "x")) ∧
      ∃ ls, Lexes (Text.trim source.toList) ls ∧ Nonempty (Derivation ls) := by
  let _ : Text.CharacterNames := .bullet
  intro source
  have hscan : Token.scan (Text.trim source.toList)
      = ⟨[⟨.val, "val", 1⟩, ⟨.name, "x", 5⟩, ⟨.equals, "=", 7⟩, ⟨.name, "f", 9⟩,
          ⟨.opening, "(", 10⟩, ⟨.literal .symbol, "'y", 12⟩, ⟨.comma, ",", 15⟩,
          ⟨.literal .text, "\"\\N\x7bBULLET\x7d\"", 17⟩, ⟨.closing, ")", 30⟩], none⟩ := by
    decide +kernel
  have hsentence : sentence (Text.trim source.toList)
      = .ok (.definition false "x" none
          (.call "f" [.literal .symbol "'y", .literal .text "\"\\N\x7bBULLET\x7d\""])) := by
    rw [sentence, hscan]
    rfl
  have hparse : parse source = .error (.failure (.notInferred "x")) := by
    rw [parse, parseTrimmed, if_neg (by decide +kernel), hsentence]
    simp only [Sentence.toNode, Phrase.toNode, Phrase.toNodes, LiteralKind.read_bullet]
    rfl
  have hpast : PastGrammar (parse source) := by
    have htype : Node.definitionType "x" none (.identifier "z")
        = .error (.failure (.notInferred "x")) := rfl
    rw [hparse]
    exact .type htype
  exact ⟨hparse, (@parse_decides_grammar .bullet source).1.mp hpast⟩

end Statement

end LineScript
