/-
LineScript/Proofs/Grammar.lean

The grammar of statements as a table of productions, and its trees.

A tree is valid if the children of each of its nodes are a production of the
part that the node stands for, and a derivation of lexemes is a valid tree of a
whole statement whose leaves they are.  What a tree means (`Tree.items`) is said
part by part, from the leaves up and from left to right, without looking at how
texts are read.

Sentences are the link to the reader.  Each has a tree, the leaves of which are
its lexemes and the meaning of which is its node; and every valid tree of a
statement is the tree of a sentence (`Derivation.exists_sentence`), by one case
for each production.  Sentences with the same lexemes are equal, and so are two
derivations of the same lexemes (`Derivation.eq_of_lexemes`).
-/
import LineScript.Proofs.Acceptance
import Mathlib.Data.List.Forall2

namespace LineScript

namespace Grammar

/-! ### Productions -/

/-- The parts of a statement. -/
inductive Part where
  | start
  | statement
  | declaration
  | definition
  | assignment
  | keyword
  | expression
  | reference
  | call
  /-- The arguments of a call behind the first. -/
  | more
  | literal
deriving DecidableEq

/-- What stands in a production: a token of a kind, or a part. -/
inductive Element where
  | token (k : Token.Kind)
  | part (q : Part)
deriving DecidableEq

open Element LineScript.Grammar.Part in
/-- The grammar: what each part may be made of. -/
def productions : Part → List (List Element)
  | start => [[part statement]]
  | statement => [[part definition], [part declaration], [part assignment], [part expression]]
  | declaration => [[part keyword, token .name, token .colon, token .name]]
  | definition =>
    [[part keyword, token .name, token .colon, token .name, token .equals, part expression],
      [part keyword, token .name, token .equals, part expression]]
  | assignment => [[token .name, token .equals, part expression]]
  | keyword => [[token .val], [token .var]]
  | expression => [[part literal], [part call], [part reference]]
  | reference => [[token .name]]
  | call =>
    [[token .name, token .opening, token .closing],
      [token .name, token .opening, part expression, part more, token .closing]]
  | more => [[], [token .comma, part expression, part more]]
  | literal =>
    [[token (.literal .integer)], [token (.literal .decimal)], [token (.literal .text)],
      [token (.literal .true)], [token (.literal .false)], [token (.literal .null)],
      [token (.literal .symbol)]]

/-! ### Trees -/

/-- A tree with lexemes at its leaves and parts at its nodes. -/
inductive Tree where
  | leaf (l : Lexeme)
  | node (q : Part) (children : List Tree)

namespace Tree

/-- What a tree is as an element of a production. -/
def root : Tree → Element
  | leaf l => .token l.kind
  | node q _ => .part q

mutual

/-- The leaves of a tree, from left to right. -/
def leaves : Tree → List Lexeme
  | leaf l => [l]
  | node _ ts => allLeaves ts

/-- The leaves of several trees. -/
def allLeaves : List Tree → List Lexeme
  | [] => []
  | t :: ts => leaves t ++ allLeaves ts

end

/-- A tree of the grammar: its lexemes are spelled as their kinds say, and each
node has the children of a production. -/
inductive Valid : Tree → Prop
  | leaf {l : Lexeme} : l.Spelled → Valid (leaf l)
  | node {q : Part} {ts : List Tree} : ts.map root ∈ productions q → (∀ t ∈ ts, Valid t) →
    Valid (node q ts)

end Tree

/-- A derivation of lexemes from the start of the grammar. -/
@[ext]
structure Derivation (ls : List Lexeme) where
  tree : Tree
  valid : tree.Valid
  root_eq : tree.root = .part .start
  leaves_eq : tree.leaves = ls

/-! ### Meaning -/

/-- What a tree contributes to the part above it: a lexeme, the mutability
that a keyword declares, or a node. -/
inductive Item where
  | lexeme (l : Lexeme)
  | mutability (isMutable : Bool)
  | node (n : Node)

/-- The node that an item is. -/
def Item.node? : Item → Option Node
  | node n => some n
  | _ => none

section Meaning

variable [Text.CharacterNames]

/-- What a part contributes, given what its children do.  The parts that only
group others pass on what they are given. -/
def build : Part → List Item → Except Fault (List Item)
  | .start, items | .statement, items | .expression, items | .more, items => .ok items
  | .keyword, [.lexeme l] => .ok [.mutability (l.text == "var")]
  | .declaration, [.mutability m, .lexeme x, .lexeme t] =>
    .ok [.node (.declaration x.text t.text m)]
  | .definition, [.mutability m, .lexeme x, .lexeme t, .node n] => do
    let block ← Node.definition x.text (some t.text) m n
    return [.node block]
  | .definition, [.mutability m, .lexeme x, .node n] => do
    let block ← Node.definition x.text none m n
    return [.node block]
  | .assignment, [.lexeme x, .node n] => .ok [.node (.assignment x.text n)]
  | .reference, [.lexeme x] => .ok [.node (.identifier x.text)]
  | .call, .lexeme f :: arguments => .ok [.node (.call f.text (arguments.filterMap Item.node?))]
  | .literal, [.lexeme ⟨.literal k, text⟩] => do
    let n ← k.read text
    return [.node n]
  -- no valid tree comes here
  | _, _ => .ok []

namespace Tree

mutual

/-- What a tree contributes; marks contribute nothing. -/
def items : Tree → Except Fault (List Item)
  | leaf l => .ok (if l.kind.isMark then [] else [.lexeme l])
  | node q ts => do
    let items ← allItems ts
    build q items

/-- What several trees contribute, from left to right. -/
def allItems : List Tree → Except Fault (List Item)
  | [] => .ok []
  | t :: ts => do
    let front ← items t
    let rest ← allItems ts
    return front ++ rest

end

end Tree

end Meaning

/-! ### The trees of sentences -/

open LineScript.Grammar.Tree (leaf node)

mutual

/-- The tree of a phrase. -/
def phraseTree : Phrase → Tree
  | .literal k text => node .expression [node .literal [leaf (.literal k text)]]
  | .reference x => node .expression [node .reference [leaf (.name x)]]
  | .call f ps =>
    node .expression [node .call
      (leaf (.name f) :: leaf .opening :: (argumentTrees ps ++ [leaf .closing]))]

/-- The trees of the arguments of a call. -/
def argumentTrees : List Phrase → List Tree
  | [] => []
  | p :: ps => [phraseTree p, moreTree ps]

/-- The tree of the arguments behind the first. -/
def moreTree : List Phrase → Tree
  | [] => node .more []
  | p :: ps => node .more [leaf .comma, phraseTree p, moreTree ps]

end

/-- The tree of a keyword. -/
def keywordTree (isMutable : Bool) : Tree :=
  node .keyword [leaf (.keyword isMutable)]

/-- The trees of a written type. -/
def typeTrees (type : Option String) : List Tree :=
  (Sentence.typeLexemes type).map leaf

/-- The tree of a sentence, without the nodes above its form. -/
def formTree : Sentence → Tree
  | .declaration m x t =>
    node .declaration [keywordTree m, leaf (.name x), leaf .colon, leaf (.name t)]
  | .definition m x t p =>
    node .definition
      (keywordTree m :: leaf (.name x) :: (typeTrees t ++ [leaf .equals, phraseTree p]))
  | .assignment x p => node .assignment [leaf (.name x), leaf .equals, phraseTree p]
  | .expression p => phraseTree p

/-- The tree of a sentence. -/
def sentenceTree (w : Sentence) : Tree :=
  node .start [node .statement [formTree w]]

/-! #### Their leaves -/

open LineScript.Grammar.Tree (leaves allLeaves)

theorem allLeaves_append (ts us : List Tree) :
    allLeaves (ts ++ us) = allLeaves ts ++ allLeaves us := by
  induction ts with
  | nil => rfl
  | cons t ts ih => simp [allLeaves, ih]

mutual

theorem leaves_phraseTree : (p : Phrase) → (phraseTree p).leaves = p.lexemes
  | .literal _ _ => rfl
  | .reference _ => rfl
  | .call f ps => by
    simp [phraseTree, leaves, allLeaves, allLeaves_append, leaves_argumentTrees ps, Phrase.lexemes]

theorem leaves_argumentTrees :
    (ps : List Phrase) → allLeaves (argumentTrees ps) = Phrase.argumentLexemes ps
  | [] => rfl
  | p :: ps => by
    simp [argumentTrees, allLeaves, leaves_phraseTree p, leaves_moreTree ps,
      Phrase.argumentLexemes]

theorem leaves_moreTree : (ps : List Phrase) → (moreTree ps).leaves = Phrase.furtherLexemes ps
  | [] => rfl
  | p :: ps => by
    simp [moreTree, leaves, allLeaves, leaves_phraseTree p, leaves_moreTree ps,
      Phrase.furtherLexemes]

end

/-- The leaves of the tree of a sentence are its lexemes. -/
theorem leaves_sentenceTree (w : Sentence) : (sentenceTree w).leaves = w.lexemes := by
  cases w with
  | declaration m x t => rfl
  | definition m x t p =>
    cases t <;>
      simp [sentenceTree, formTree, keywordTree, typeTrees, Sentence.typeLexemes, leaves,
        allLeaves, leaves_phraseTree, Sentence.lexemes]
  | assignment x p =>
    simp [sentenceTree, formTree, leaves, allLeaves, leaves_phraseTree, Sentence.lexemes]
  | expression p =>
    simp [sentenceTree, formTree, leaves, allLeaves, leaves_phraseTree, Sentence.lexemes]

/-! #### Their meaning -/

theorem filterMap_node? (ns : List Node) : (ns.map Item.node).filterMap Item.node? = ns := by
  rw [List.filterMap_map]
  exact List.filterMap_some

section Meaning

open LineScript.Grammar.Tree (items allItems)

variable [Text.CharacterNames]

theorem allItems_append (ts us : List Tree) :
    allItems (ts ++ us) = (do
      let front ← allItems ts
      let rest ← allItems us
      return front ++ rest) := by
  induction ts with
  | nil =>
    rcases h : allItems us with e | items
    · exact h
    · exact h
  | cons t ts ih =>
    rw [List.cons_append, allItems, allItems, ih]
    rcases items t with e | front
    · -- the first failure is the same, wherever the list is cut
      rfl
    · rcases allItems ts with e | middle
      · rfl
      · rcases allItems us with e | rest
        · rfl
        · exact congrArg Except.ok (List.append_assoc front middle rest).symm

theorem allItems_singleton (t : Tree) : allItems [t] = t.items := by
  rw [allItems]
  rcases t.items with e | items
  · rfl
  · exact congrArg Except.ok (List.append_nil items)

/-- A part that only groups others means what it groups. -/
theorem items_group {q : Part} (h : ∀ items, build q items = .ok items) (t : Tree) :
    (node q [t]).items = t.items := by
  rw [items, allItems_singleton]
  rcases t.items with e | items
  · rfl
  · exact h items

mutual

theorem items_phraseTree :
    (p : Phrase) → (phraseTree p).items = p.toNode.map fun n => [.node n]
  | .literal k text => by
    rw [phraseTree, items_group fun _ => rfl, items, allItems_singleton, Phrase.toNode]
    show build .literal [.lexeme ⟨.literal k, text⟩] = _
    rcases h : k.read text with e | n <;> simp [build, h] <;> rfl
  | .reference x => rfl
  | .call f ps => by
    have harguments := items_argumentTrees ps
    rw [phraseTree, items_group fun _ => rfl, items, allItems, allItems, allItems_append,
      harguments, Phrase.toNode]
    rcases Phrase.toNodes ps with e | ns
    · rfl
    · show build .call (.lexeme (.name f) :: (ns.map Item.node ++ [])) = .ok [.node (.call f ns)]
      rw [List.append_nil, build, filterMap_node?]
      rfl

theorem items_argumentTrees :
    (ps : List Phrase) → allItems (argumentTrees ps) = (Phrase.toNodes ps).map (·.map .node)
  | [] => rfl
  | p :: ps => by
    rw [argumentTrees, allItems, allItems_singleton, items_phraseTree p, items_moreTree ps,
      Phrase.toNodes]
    rcases p.toNode with e | n
    · rfl
    · rcases Phrase.toNodes ps with e | ns <;> rfl

theorem items_moreTree :
    (ps : List Phrase) → (moreTree ps).items = (Phrase.toNodes ps).map (·.map .node)
  | [] => rfl
  | p :: ps => by
    rw [moreTree, items, allItems, allItems, allItems_singleton, items_phraseTree p,
      items_moreTree ps, Phrase.toNodes]
    rcases p.toNode with e | n
    · rfl
    · rcases Phrase.toNodes ps with e | ns <;> rfl

end

theorem items_keywordTree (isMutable : Bool) :
    (keywordTree isMutable).items = .ok [.mutability isMutable] := by
  cases isMutable <;> rfl

/-- The tree of a sentence means its node. -/
theorem items_sentenceTree (w : Sentence) :
    (sentenceTree w).items = w.toNode.map fun n => [.node n] := by
  rw [sentenceTree, items_group fun _ => rfl, items_group fun _ => rfl]
  cases w with
  | declaration m x t =>
    cases m <;> rfl
  | definition m x t p =>
    rw [formTree, items, Sentence.toNode]
    -- the written type is the only difference between the two productions
    cases t with
    | none =>
      show (allItems [keywordTree m, leaf (.name x), leaf .equals, phraseTree p] >>= _) = _
      rw [allItems, allItems, allItems, allItems_singleton, items_keywordTree, items_phraseTree]
      rcases p.toNode with e | n <;> rfl
    | some t =>
      show (allItems [keywordTree m, leaf (.name x), leaf .colon, leaf (.name t), leaf .equals,
        phraseTree p] >>= _) = _
      rw [allItems, allItems, allItems, allItems, allItems, allItems_singleton, items_keywordTree,
        items_phraseTree]
      rcases p.toNode with e | n <;> rfl
  | assignment x p =>
    rw [formTree, items, allItems, allItems, allItems_singleton, items_phraseTree, Sentence.toNode]
    rcases p.toNode with e | n <;> rfl
  | expression p => exact items_phraseTree p

end Meaning

/-! #### Their validity -/

/-- A valid tree for an element of a production. -/
def Derives (e : Element) (t : Tree) : Prop :=
  t.root = e ∧ t.Valid

theorem derives_leaf {l : Lexeme} (h : l.Spelled) : Derives (.token l.kind) (leaf l) :=
  ⟨rfl, .leaf h⟩

theorem derives_name {x : String} (h : (Lexeme.name x).Spelled) :
    Derives (.token .name) (leaf (.name x)) :=
  derives_leaf h

theorem derives_literal {k : LiteralKind} {text : String} (h : (Lexeme.literal k text).Spelled) :
    Derives (.token (.literal k)) (leaf (.literal k text)) :=
  derives_leaf h

/-- Trees for the elements of a production make a tree for the part. -/
theorem derives_node {q : Part} {es : List Element} {ts : List Tree} (hes : es ∈ productions q)
    (h : List.Forall₂ Derives es ts) : Derives (.part q) (node q ts) := by
  have hchildren : ts.map Tree.root = es ∧ ∀ t ∈ ts, t.Valid := by
    clear hes
    induction h with
    | nil => exact ⟨rfl, by simp⟩
    | cons ht _ ih =>
      obtain ⟨hroots, hvalid⟩ := ih
      exact ⟨by rw [List.map_cons, ht.1, hroots], List.forall_mem_cons.mpr ⟨ht.2, hvalid⟩⟩
  obtain ⟨rfl, hvalid⟩ := hchildren
  exact ⟨rfl, .node hes hvalid⟩

mutual

theorem derives_phraseTree :
    (p : Phrase) → (∀ l ∈ p.lexemes, l.Spelled) → Derives (.part .expression) (phraseTree p)
  | .literal k text, h => by
    have hleaf := derives_literal (h (.literal k text) (by simp [Phrase.lexemes]))
    have hliteral : Derives (.part .literal) (node .literal [leaf (.literal k text)]) :=
      derives_node (by cases k <;> decide) (.cons hleaf .nil)
    exact derives_node (by decide) (.cons hliteral .nil)
  | .reference x, h => by
    have hleaf := derives_name (h (.name x) (by simp [Phrase.lexemes]))
    have hreference : Derives (.part .reference) (node .reference [leaf (.name x)]) :=
      derives_node (by decide) (.cons hleaf .nil)
    exact derives_node (by decide) (.cons hreference .nil)
  -- a call without arguments has a production of its own
  | .call f [], h => by
    have hname := derives_name (h (.name f) (by simp [Phrase.lexemes]))
    have hcall : Derives (.part .call)
        (node .call [leaf (.name f), leaf .opening, leaf .closing]) :=
      derives_node (by decide) (.cons hname (.cons (derives_leaf Lexeme.spelled_opening)
        (.cons (derives_leaf Lexeme.spelled_closing) .nil)))
    exact derives_node (by decide) (.cons hcall .nil)
  | .call f (p :: ps), h => by
    have hname := derives_name (h (.name f) (by simp [Phrase.lexemes]))
    have hp := derives_phraseTree p fun l hl =>
      h l (by simp [Phrase.lexemes, Phrase.argumentLexemes, hl])
    have hps := derives_moreTree ps fun l hl =>
      h l (by simp [Phrase.lexemes, Phrase.argumentLexemes, hl])
    have hcall : Derives (.part .call) (node .call
        [leaf (.name f), leaf .opening, phraseTree p, moreTree ps, leaf .closing]) :=
      derives_node (by decide) (.cons hname (.cons (derives_leaf Lexeme.spelled_opening)
        (.cons hp (.cons hps (.cons (derives_leaf Lexeme.spelled_closing) .nil)))))
    exact derives_node (by decide) (.cons hcall .nil)

theorem derives_moreTree :
    (ps : List Phrase) → (∀ l ∈ Phrase.furtherLexemes ps, l.Spelled) →
      Derives (.part .more) (moreTree ps)
  | [], _ => derives_node (by decide) .nil
  | p :: ps, h => by
    have hp := derives_phraseTree p fun l hl => h l (by simp [Phrase.furtherLexemes, hl])
    have hps := derives_moreTree ps fun l hl => h l (by simp [Phrase.furtherLexemes, hl])
    exact derives_node (by decide)
      (.cons (derives_leaf Lexeme.spelled_comma) (.cons hp (.cons hps .nil)))

end

theorem derives_keywordTree (isMutable : Bool) :
    Derives (.part .keyword) (keywordTree isMutable) := by
  have hleaf := derives_leaf (Lexeme.spelled_keyword isMutable)
  exact derives_node (by cases isMutable <;> decide) (.cons hleaf .nil)

/-- The tree of a sentence is valid if its lexemes are spelled as they should
be. -/
theorem derives_sentenceTree (w : Sentence) (h : ∀ l ∈ w.lexemes, l.Spelled) :
    Derives (.part .start) (sentenceTree w) := by
  -- every form stands under `statement` and `start`
  have hstart : ∀ q : Part, [.part q] ∈ productions .statement →
      Derives (.part q) (formTree w) → Derives (.part .start) (sentenceTree w) := by
    intro q hq hform
    exact derives_node (by decide) (.cons (derives_node hq (.cons hform .nil)) .nil)
  cases w with
  | declaration m x t =>
    have hx := derives_name (h (.name x) (by simp [Sentence.lexemes]))
    have ht := derives_name (h (.name t) (by simp [Sentence.lexemes]))
    exact hstart .declaration (by decide) (derives_node (by decide)
      (.cons (derives_keywordTree m) (.cons hx (.cons (derives_leaf Lexeme.spelled_colon)
        (.cons ht .nil)))))
  | definition m x t p =>
    have hx := derives_name (h (.name x) (by simp [Sentence.lexemes]))
    have hp := derives_phraseTree p fun l hl => h l (by simp [Sentence.lexemes, hl])
    have hrest : List.Forall₂ Derives [.token .equals, .part .expression]
        [leaf .equals, phraseTree p] :=
      .cons (derives_leaf Lexeme.spelled_equals) (.cons hp .nil)
    refine hstart .definition (by decide) ?_
    cases t with
    | none =>
      exact derives_node (by decide) (.cons (derives_keywordTree m) (.cons hx hrest))
    | some t =>
      have ht := derives_name (h (.name t) (by simp [Sentence.lexemes, Sentence.typeLexemes]))
      exact derives_node (by decide) (.cons (derives_keywordTree m) (.cons hx
        (.cons (derives_leaf Lexeme.spelled_colon) (.cons ht hrest))))
  | assignment x p =>
    have hx := derives_name (h (.name x) (by simp [Sentence.lexemes]))
    have hp := derives_phraseTree p fun l hl => h l (by simp [Sentence.lexemes, hl])
    exact hstart .assignment (by decide) (derives_node (by decide)
      (.cons hx (.cons (derives_leaf Lexeme.spelled_equals) (.cons hp .nil))))
  | expression p => exact hstart .expression (by decide) (derives_phraseTree p h)

/-! ### Every valid tree is the tree of a sentence -/

/-- What the valid trees for an element look like. -/
def Known : Element → Tree → Prop
  | .token k, t => ∃ l : Lexeme, l.kind = k ∧ l.Spelled ∧ t = leaf l
  | .part .start, t => ∃ w, t = sentenceTree w
  | .part .statement, t => ∃ w, t = node .statement [formTree w]
  | .part .declaration, t => ∃ m x y, t = formTree (.declaration m x y)
  | .part .definition, t => ∃ m x y p, t = formTree (.definition m x y p)
  | .part .assignment, t => ∃ x p, t = formTree (.assignment x p)
  | .part .keyword, t => ∃ m, t = keywordTree m
  | .part .expression, t => ∃ p, t = phraseTree p
  | .part .reference, t => ∃ x, t = node .reference [leaf (.name x)]
  | .part .call, t =>
    ∃ f ps,
      t = node .call (leaf (.name f) :: leaf .opening :: (argumentTrees ps ++ [leaf .closing]))
  | .part .more, t => ∃ ps, t = moreTree ps
  | .part .literal, t => ∃ k text, t = node .literal [leaf (.literal k text)]

section Known

variable {t : Tree}

/-- A mark or a keyword has only one leaf. -/
theorem Known.eq_leaf {l : Lexeme} (hl : l.Spelled)
    (hfixed : l.kind.isMark = true ∨ l.kind = .val ∨ l.kind = .var) (h : Known (.token l.kind) t) :
    t = leaf l := by
  obtain ⟨l', hk, hl', rfl⟩ := h
  rw [hl.eq_of_kind hl' hk.symm hfixed]

theorem Known.exists_name (h : Known (.token .name) t) : ∃ x, t = leaf (.name x) := by
  obtain ⟨⟨k, x⟩, hk, -, rfl⟩ := h
  obtain rfl : k = .name := hk
  exact ⟨x, rfl⟩

theorem Known.exists_literal {k : LiteralKind} (h : Known (.token (.literal k)) t) :
    ∃ text, t = leaf (.literal k text) := by
  obtain ⟨⟨k', text⟩, hk, -, rfl⟩ := h
  obtain rfl : k' = .literal k := hk
  exact ⟨text, rfl⟩

/-- One case for each production. -/
theorem known_node {q : Part} {es : List Element} {ts : List Tree} (hes : es ∈ productions q)
    (h : List.Forall₂ Known es ts) : Known (.part q) (node q ts) := by
  cases q with
  | start =>
    obtain rfl := List.mem_singleton.mp hes
    rcases h with - | ⟨⟨w, rfl⟩, ⟨⟩⟩
    exact ⟨w, rfl⟩
  | statement =>
    simp only [productions, List.mem_cons, List.not_mem_nil, or_false] at hes
    -- the four forms: definition, declaration, assignment, expression
    rcases hes with rfl | rfl | rfl | rfl <;> rcases h with - | ⟨ht, ⟨⟩⟩
    · obtain ⟨m, x, y, p, rfl⟩ := ht
      exact ⟨_, rfl⟩
    · obtain ⟨m, x, y, rfl⟩ := ht
      exact ⟨_, rfl⟩
    · obtain ⟨x, p, rfl⟩ := ht
      exact ⟨_, rfl⟩
    · obtain ⟨p, rfl⟩ := ht
      exact ⟨.expression p, rfl⟩
  | declaration =>
    obtain rfl := List.mem_singleton.mp hes
    rcases h with - | ⟨⟨m, rfl⟩, - | ⟨hx, - | ⟨hcolon, - | ⟨ht, ⟨⟩⟩⟩⟩⟩
    obtain ⟨x, rfl⟩ := Known.exists_name hx
    obtain ⟨t, rfl⟩ := Known.exists_name ht
    obtain rfl := Known.eq_leaf Lexeme.spelled_colon (.inl rfl) hcolon
    exact ⟨m, x, t, rfl⟩
  | definition =>
    simp only [productions, List.mem_cons, List.not_mem_nil, or_false] at hes
    rcases hes with rfl | rfl
    · -- with a type
      rcases h with - | ⟨⟨m, rfl⟩, - | ⟨hx, - | ⟨hcolon, - | ⟨ht, - | ⟨hequals,
        - | ⟨⟨p, rfl⟩, ⟨⟩⟩⟩⟩⟩⟩⟩
      obtain ⟨x, rfl⟩ := Known.exists_name hx
      obtain ⟨t, rfl⟩ := Known.exists_name ht
      obtain rfl := Known.eq_leaf Lexeme.spelled_colon (.inl rfl) hcolon
      obtain rfl := Known.eq_leaf Lexeme.spelled_equals (.inl rfl) hequals
      exact ⟨m, x, some t, p, rfl⟩
    · -- without a type
      rcases h with - | ⟨⟨m, rfl⟩, - | ⟨hx, - | ⟨hequals, - | ⟨⟨p, rfl⟩, ⟨⟩⟩⟩⟩⟩
      obtain ⟨x, rfl⟩ := Known.exists_name hx
      obtain rfl := Known.eq_leaf Lexeme.spelled_equals (.inl rfl) hequals
      exact ⟨m, x, none, p, rfl⟩
  | assignment =>
    obtain rfl := List.mem_singleton.mp hes
    rcases h with - | ⟨hx, - | ⟨hequals, - | ⟨⟨p, rfl⟩, ⟨⟩⟩⟩⟩
    obtain ⟨x, rfl⟩ := Known.exists_name hx
    obtain rfl := Known.eq_leaf Lexeme.spelled_equals (.inl rfl) hequals
    exact ⟨x, p, rfl⟩
  | keyword =>
    simp only [productions, List.mem_cons, List.not_mem_nil, or_false] at hes
    rcases hes with rfl | rfl <;> rcases h with - | ⟨ht, ⟨⟩⟩
    · obtain rfl := Known.eq_leaf (Lexeme.spelled_keyword false) (.inr (.inl rfl)) ht
      exact ⟨false, rfl⟩
    · obtain rfl := Known.eq_leaf (Lexeme.spelled_keyword true) (.inr (.inr rfl)) ht
      exact ⟨true, rfl⟩
  | expression =>
    simp only [productions, List.mem_cons, List.not_mem_nil, or_false] at hes
    rcases hes with rfl | rfl | rfl <;> rcases h with - | ⟨ht, ⟨⟩⟩
    · obtain ⟨k, text, rfl⟩ := ht
      exact ⟨.literal k text, rfl⟩
    · obtain ⟨f, ps, rfl⟩ := ht
      exact ⟨.call f ps, rfl⟩
    · obtain ⟨x, rfl⟩ := ht
      exact ⟨.reference x, rfl⟩
  | reference =>
    obtain rfl := List.mem_singleton.mp hes
    rcases h with - | ⟨hx, ⟨⟩⟩
    obtain ⟨x, rfl⟩ := Known.exists_name hx
    exact ⟨x, rfl⟩
  | call =>
    simp only [productions, List.mem_cons, List.not_mem_nil, or_false] at hes
    rcases hes with rfl | rfl
    · -- no arguments
      rcases h with - | ⟨hf, - | ⟨hopening, - | ⟨hclosing, ⟨⟩⟩⟩⟩
      obtain ⟨f, rfl⟩ := Known.exists_name hf
      obtain rfl := Known.eq_leaf Lexeme.spelled_opening (.inl rfl) hopening
      obtain rfl := Known.eq_leaf Lexeme.spelled_closing (.inl rfl) hclosing
      exact ⟨f, [], rfl⟩
    · -- a first argument, and more of them behind it
      rcases h with - | ⟨hf, - | ⟨hopening, - | ⟨⟨p, rfl⟩, - | ⟨⟨ps, rfl⟩, - | ⟨hclosing, ⟨⟩⟩⟩⟩⟩⟩
      obtain ⟨f, rfl⟩ := Known.exists_name hf
      obtain rfl := Known.eq_leaf Lexeme.spelled_opening (.inl rfl) hopening
      obtain rfl := Known.eq_leaf Lexeme.spelled_closing (.inl rfl) hclosing
      exact ⟨f, p :: ps, rfl⟩
  | more =>
    simp only [productions, List.mem_cons, List.not_mem_nil, or_false] at hes
    rcases hes with rfl | rfl
    · -- no more arguments
      cases h
      exact ⟨[], rfl⟩
    · rcases h with - | ⟨hcomma, - | ⟨⟨p, rfl⟩, - | ⟨⟨ps, rfl⟩, ⟨⟩⟩⟩⟩
      obtain rfl := Known.eq_leaf Lexeme.spelled_comma (.inl rfl) hcomma
      exact ⟨p :: ps, rfl⟩
  | literal =>
    simp only [productions, List.mem_cons, List.not_mem_nil, or_false] at hes
    -- one token of its kind for each literal
    rcases hes with rfl | rfl | rfl | rfl | rfl | rfl | rfl <;> rcases h with - | ⟨ht, ⟨⟩⟩
    all_goals
      obtain ⟨text, rfl⟩ := Known.exists_literal ht
      exact ⟨_, text, rfl⟩

theorem known_of_valid (h : t.Valid) : Known t.root t := by
  induction h with
  | leaf hl => exact ⟨_, rfl, hl, rfl⟩
  | node hes _ ih =>
    exact known_node hes (List.forall₂_map_left_iff.mpr (List.forall₂_same.mpr ih))

end Known

/-! ### Derivations -/

namespace Derivation

variable {ls : List Lexeme}

/-- A derivation is the tree of a sentence with these lexemes. -/
theorem exists_sentence (d : Derivation ls) :
    ∃ w, d.tree = sentenceTree w ∧ ls = w.lexemes := by
  have hknown := known_of_valid d.valid
  rw [d.root_eq] at hknown
  obtain ⟨w, hw⟩ := hknown
  exact ⟨w, hw, by rw [← d.leaves_eq, hw, leaves_sentenceTree]⟩

/-- The derivation that a sentence gives to its lexemes. -/
def ofSentence (w : Sentence) (h : ∀ l ∈ w.lexemes, l.Spelled) : Derivation w.lexemes :=
  ⟨sentenceTree w, (derives_sentenceTree w h).2, rfl, leaves_sentenceTree w⟩

/-- **The grammar is unambiguous.** -/
theorem eq_of_lexemes (d d' : Derivation ls) : d = d' := by
  obtain ⟨w, hw, rfl⟩ := d.exists_sentence
  obtain ⟨w', hw', hls⟩ := d'.exists_sentence
  obtain rfl := Sentence.lexemes_injective hls
  exact Derivation.ext (hw.trans hw'.symm)

end Derivation

end Grammar

end LineScript
