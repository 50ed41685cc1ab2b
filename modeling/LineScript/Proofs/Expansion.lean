/-
LineScript/Proofs/Expansion.lean

A definition and its two statements.

`val x: T = e` declares a name and gives it a first value, and so do the two
lines `val x: T` and `x = e`.  They are compared in three steps.

* Texts.  Behind the equals sign all is the same in `val x: T = e` and `x = e`,
  down to the blanks that are trimmed, so one is parsed if the other is; and the
  node of the one is the definition made from the node of the other.
* Runs.  At verbosity zero, executing the definition is executing its two
  statements, one after the other, as computations on machines.
* Verbosities.  The trace differs, as two lines are read instead of one; all else
  is brought to other verbosities by the screen that drops the trace.

What stands between the forms is the check of the definition: the static type of
`e`, if there is one, has to be `T` itself.  A declaration and an assignment compare
classes instead, and the two comparisons differ exactly if `e` is a literal whose
class `T` stands for by another name (`Session.Aliased`).
-/
import LineScript.Proofs.Safety
import LineScript.Proofs.StaticTypes
import LineScript.Proofs.Tracing

namespace LineScript

open Run

/-! ### Lexemes at the front of a text -/

namespace Lexeme

variable {c : Char} {cs : List Char} {l : Lexeme} {ls : List Lexeme}

theorem Spelled.isGap_head? (hl : l.Spelled) (cs : List Char) :
    ∀ c ∈ (l.chars ++ cs).head?, Token.isGap c = false := by
  rw [List.head?_append_of_ne_nil _ (Token.Spells.ne_nil hl)]
  exact fun c hc => Text.isGap_of_isBlank (Token.Spells.isBlank_head? hl c hc)

theorem Lexes.of_gap (hc : Token.isGap c = true) (h : Lexes (c :: cs) ls) : Lexes cs ls := by
  generalize hds : c :: cs = ds at h
  cases h with
  | nil => cases hds
  | gap _ h =>
    cases hds
    exact h
  | @token l rest _ hl _ =>
    have hgap := hl.spelled.isGap_head? rest c (by rw [← hds]; rfl)
    rw [hc] at hgap
    cases hgap

/-- A text that starts with a lexeme and something that could not continue it
has that lexeme for its first. -/
theorem Lexes.of_lexeme (hl : l.Spelled) (hnext : l.kind.isMark = true ∨ Token.Stops cs)
    (h : Lexes (l.chars ++ cs) ls) : ∃ ls', ls = l :: ls' ∧ Lexes cs ls' := by
  have htaken := Token.lexeme?_append hl hnext
  generalize hds : l.chars ++ cs = ds at h
  cases h with
  | nil => exact absurd (List.append_eq_nil_iff.mp hds).1 (Token.Spells.ne_nil hl)
  -- a spelled lexeme does not start with a gap
  | @gap c _ _ hc _ =>
    have hgap := hl.isGap_head? cs c (by rw [hds]; rfl)
    rw [hc] at hgap
    cases hgap
  | @token l' rest ls' hl' h =>
    -- both tokens are what the lexer takes at the front
    have htaken' := leads_iff.mp hl'
    rw [← hds, htaken] at htaken'
    obtain ⟨hkind, hchars⟩ := Prod.mk.inj (Option.some.inj htaken')
    obtain rfl : l' = l := by
      obtain ⟨k, s⟩ := l
      obtain ⟨k', s'⟩ := l'
      obtain rfl : k = k' := hkind
      obtain rfl : s = s' := String.toList_injective hchars
      rfl
    rw [List.append_cancel_left hds]
    exact ⟨ls', rfl, h⟩

end Lexeme

/-! ### Sentences by their first lexemes -/

namespace Sentence

variable {w : Sentence} {x type : String} {isMutable : Bool} {ls : List Lexeme}

theorem exists_assignment (h : w.lexemes = .name x :: .equals :: ls) :
    ∃ p, w = .assignment x p ∧ p.lexemes = ls := by
  rcases w with ⟨m, y, t⟩ | ⟨m, y, t, p⟩ | ⟨y, p⟩ | (⟨k, text⟩ | y | ⟨f, ps⟩)
  · cases m <;> cases h
  · cases m <;> cases h
  · cases h
    exact ⟨p, rfl, rfl⟩
  · cases h
  · cases h
  · cases h

theorem exists_definition
    (h : w.lexemes = .keyword isMutable :: .name x :: .colon :: .name type :: .equals :: ls) :
    ∃ p, w = .definition isMutable x (some type) p ∧ p.lexemes = ls := by
  rcases w with ⟨m, y, t⟩ | ⟨m, y, _ | t, p⟩ | ⟨y, p⟩ | (⟨k, text⟩ | y | ⟨f, ps⟩)
  · cases m <;> cases isMutable <;> cases h
  · cases m <;> cases isMutable <;> cases h
  · cases m <;> cases isMutable <;> cases h <;> exact ⟨p, rfl, rfl⟩
  · cases isMutable <;> cases h
  · cases isMutable <;> cases h
  · cases isMutable <;> cases h
  · cases isMutable <;> cases h

end Sentence

/-! ### The three texts -/

namespace Statement

open Lexeme (Lexes)
open Token (IsName Stops)

/-- A declaration, `val x: T` or `var x: T`. -/
def declarationText (isMutable : Bool) (x type : String) : String :=
  (if isMutable then "var" else "val") ++ " " ++ x ++ ": " ++ type

/-- A target and what it is set to: `x = e`, or with a declaration for the target
`val x: T = e`. -/
def settingText (target e : String) : String :=
  target ++ " = " ++ e

/-- What is behind the equals sign when the text is trimmed. -/
def settingTail (e : String) : List Char :=
  Text.trimEnd (' ' :: e.toList)

/-- Trimming stops at a character that is not blank. -/
theorem trimEnd_append {c : Char} (hc : Text.isBlank c = false) (cs ds : List Char) :
    Text.trimEnd (cs ++ c :: ds) = cs ++ c :: Text.trimEnd ds := by
  have hreverse : (cs ++ c :: ds).reverse = ds.reverse ++ c :: cs.reverse := by simp
  simp only [Text.trimEnd, Text.trimStart, hreverse, List.dropWhile_append]
  split
  case isTrue hempty =>
    rw [List.dropWhile_cons_of_neg (by simp [hc]), List.isEmpty_iff.mp hempty]
    simp
  case isFalse => simp

theorem trim_settingText {target : String} {l : Lexeme} {r : List Char} (hl : l.Spelled)
    (htarget : target.toList = l.chars ++ r) (e : String) :
    Text.trim (settingText target e).toList = target.toList ++ ' ' :: '=' :: settingTail e := by
  have hchars : (settingText target e).toList
      = (target.toList ++ [' ']) ++ '=' :: ' ' :: e.toList := by
    simp [settingText, String.toList_append]
  have hstart : Text.trimStart (settingText target e).toList = (settingText target e).toList := by
    refine Text.trimStart_eq_self ?_
    rw [hchars, htarget, List.append_assoc, List.append_assoc,
      List.head?_append_of_ne_nil _ (Token.Spells.ne_nil hl)]
    exact Token.Spells.isBlank_head? hl
  rw [Text.trim, hstart, hchars, trimEnd_append (by decide), List.append_assoc]
  rfl

variable {x type : String} {isMutable : Bool} {cs : List Char} {ls : List Lexeme}

theorem toList_declarationText (isMutable : Bool) (x type : String) :
    (declarationText isMutable x type).toList
      = (Lexeme.keyword isMutable).chars ++ (' ' :: ((Lexeme.name x).chars ++
        (Lexeme.colon.chars ++ (' ' :: (Lexeme.name type).chars)))) := by
  cases isMutable <;> simp [declarationText, Lexeme.keyword, Lexeme.chars, Lexeme.name,
    Lexeme.colon, String.toList_append]

/-- The lexemes of a declaration, and of what follows it. -/
theorem lexes_declarationText_iff (isMutable : Bool) (hx : IsName x) (ht : IsName type)
    (hcs : Stops cs) :
    Lexes ((declarationText isMutable x type).toList ++ cs) ls ↔
      ∃ ls', ls = .keyword isMutable :: .name x :: .colon :: .name type :: ls' ∧ Lexes cs ls' := by
  have hkeyword := Lexeme.spelled_keyword isMutable
  have hname := Lexeme.spelled_name_iff.mpr hx
  have htype := Lexeme.spelled_name_iff.mpr ht
  have hspace : ∀ ds, Stops (' ' :: ds) := fun ds => ⟨by decide, by decide⟩
  have hcolon : ∀ ds, Stops (Lexeme.colon.chars ++ ds) := fun ds => ⟨by decide, by decide⟩
  rw [toList_declarationText]
  simp only [List.append_assoc, List.cons_append]
  constructor
  · -- read off the text, lexeme by lexeme
    intro h
    obtain ⟨_, rfl, h₁⟩ := h.of_lexeme hkeyword (.inr (hspace _))
    obtain ⟨_, rfl, h₂⟩ := (h₁.of_gap (by decide)).of_lexeme hname (.inr (hcolon _))
    obtain ⟨_, rfl, h₃⟩ := h₂.of_lexeme Lexeme.spelled_colon (.inl rfl)
    obtain ⟨ls', rfl, h₄⟩ := (h₃.of_gap (by decide)).of_lexeme htype (.inr hcs)
    exact ⟨ls', rfl, h₄⟩
  · -- and put in front of it again
    rintro ⟨ls', rfl, h⟩
    refine .lexeme hkeyword (.inr (hspace _)) (.gap (by decide) ?_)
    refine .lexeme hname (.inr (hcolon _)) (.lexeme Lexeme.spelled_colon (.inl rfl) ?_)
    exact .gap (by decide) (.lexeme htype (.inr hcs) h)

theorem lexes_equals_iff :
    Lexes (' ' :: '=' :: cs) ls ↔ ∃ ls', ls = .equals :: ls' ∧ Lexes cs ls' := by
  constructor
  · exact fun h => (h.of_gap (by decide)).of_lexeme Lexeme.spelled_equals (.inl rfl)
  · rintro ⟨ls', rfl, h⟩
    exact .gap (by decide) (.lexeme Lexeme.spelled_equals (.inl rfl) h)

/-- A declaration is parsed as one. -/
theorem parse_declarationText [Text.CharacterNames] (isMutable : Bool) (hx : IsName x)
    (ht : IsName type) :
    parse (declarationText isMutable x type) = .ok (.declaration x type isMutable) := by
  have hend : Stops [] := trivial
  have hlexes := (lexes_declarationText_iff isMutable hx ht hend).mpr ⟨[], rfl, .nil⟩
  rw [List.append_nil] at hlexes
  have htrim : Text.trim (declarationText isMutable x type).toList
      = (declarationText isMutable x type).toList := by
    refine Lexeme.trim_eq_self (Lexeme.spelled_keyword isMutable) (Lexeme.spelled_name_iff.mpr ht)
      (toList_declarationText isMutable x type) (s := (Lexeme.keyword isMutable).chars ++
        (' ' :: ((Lexeme.name x).chars ++ (Lexeme.colon.chars ++ [' '])))) ?_
    simp [toList_declarationText]
  rw [← htrim] at hlexes
  exact parse_of_lexes (w := .declaration isMutable x type) hlexes

/-- An assignment has the lexemes of its name, of the equals sign, and of the
text behind it. -/
theorem lexes_assignment_iff (hx : IsName x) (e : String) :
    Lexes (Text.trim (settingText x e).toList) ls ↔
      ∃ ls', ls = .name x :: .equals :: ls' ∧ Lexes (settingTail e) ls' := by
  have hname := Lexeme.spelled_name_iff.mpr hx
  have hspace : Stops (' ' :: '=' :: settingTail e) := ⟨by decide, by decide⟩
  rw [trim_settingText (r := []) hname (by simp [Lexeme.chars, Lexeme.name])]
  constructor
  · intro h
    obtain ⟨_, rfl, h₁⟩ := Lexes.of_lexeme hname (.inr hspace) h
    obtain ⟨ls', rfl, h₂⟩ := lexes_equals_iff.mp h₁
    exact ⟨ls', rfl, h₂⟩
  · rintro ⟨ls', rfl, h⟩
    exact Lexes.lexeme hname (.inr hspace) (lexes_equals_iff.mpr ⟨ls', rfl, h⟩)

theorem lexes_definition_iff (isMutable : Bool) (hx : IsName x) (ht : IsName type) (e : String) :
    Lexes (Text.trim (settingText (declarationText isMutable x type) e).toList) ls ↔
      ∃ ls', ls = .keyword isMutable :: .name x :: .colon :: .name type :: .equals :: ls' ∧
        Lexes (settingTail e) ls' := by
  have hspace : Stops (' ' :: '=' :: settingTail e) := ⟨by decide, by decide⟩
  rw [trim_settingText (Lexeme.spelled_keyword isMutable) (toList_declarationText isMutable x type),
    lexes_declarationText_iff isMutable hx ht hspace]
  constructor
  · rintro ⟨_, rfl, h⟩
    obtain ⟨ls', rfl, htail⟩ := lexes_equals_iff.mp h
    exact ⟨ls', rfl, htail⟩
  · rintro ⟨ls', rfl, h⟩
    exact ⟨_, rfl, lexes_equals_iff.mpr ⟨ls', rfl, h⟩⟩

/-- If the assignment is parsed, the definition is made from its node. -/
theorem parse_definition_of_assignment [Text.CharacterNames] (isMutable : Bool) (hx : IsName x)
    (ht : IsName type) {e : String} {k : Node} (h : parse (settingText x e) = .ok k) :
    ∃ n, k = .assignment x n ∧
      parse (settingText (declarationText isMutable x type) e)
        = Node.definition x (some type) isMutable n := by
  obtain ⟨w, hw, hnode⟩ := exists_sentence h
  obtain ⟨ls, hls, htail⟩ := (lexes_assignment_iff hx e).mp (sentence_eq_ok_iff.mp hw)
  obtain ⟨p, rfl, rfl⟩ := Sentence.exists_assignment hls
  obtain ⟨n, hn, hk⟩ := exists_of_bind_eq_ok hnode
  cases hk
  refine ⟨n, rfl, ?_⟩
  have hlexes := (lexes_definition_iff isMutable hx ht e).mpr ⟨p.lexemes, rfl, htail⟩
  rw [parse_of_lexes (w := .definition isMutable x (some type) p) hlexes, Sentence.toNode, hn]
  rfl

/-- If the definition is parsed, so is the assignment. -/
theorem parse_assignment_of_definition [Text.CharacterNames] (hx : IsName x) (ht : IsName type)
    {e : String} {k : Node} (h : parse (settingText (declarationText isMutable x type) e) = .ok k) :
    ∃ n, parse (settingText x e) = .ok (.assignment x n) ∧
      Node.definition x (some type) isMutable n = .ok k := by
  obtain ⟨w, hw, hnode⟩ := exists_sentence h
  obtain ⟨ls, hls, htail⟩ := (lexes_definition_iff isMutable hx ht e).mp (sentence_eq_ok_iff.mp hw)
  obtain ⟨p, rfl, rfl⟩ := Sentence.exists_definition hls
  obtain ⟨n, hn, hk⟩ := exists_of_bind_eq_ok hnode
  refine ⟨n, ?_, hk⟩
  have hlexes := (lexes_assignment_iff hx e).mpr ⟨p.lexemes, rfl, htail⟩
  rw [parse_of_lexes (w := .assignment x p) hlexes, Sentence.toNode, hn]
  rfl

end Statement

/-! ### Runs without trace -/

namespace Node

variable {x type t : String} {isMutable : Bool} {n k : Node}

/-- A written type that the static type is, if there is one, makes a definition. -/
theorem definition_of_agreement (h : ∀ t, n.staticType? = some t → t = type) :
    definition x (some type) isMutable n
      = .ok (.block [.declaration x type isMutable, .assignment x n]) := by
  unfold definition definitionType
  rcases ht : n.staticType? with _ | t
  · rfl
  · obtain rfl := h t ht
    simp only [if_pos]
    rfl

theorem definition_of_clash (h : n.staticType? = some t) (hne : t ≠ type) :
    definition x (some type) isMutable n = .error (.failure (.clash type t)) := by
  unfold definition definitionType
  rw [h]
  simp only [if_neg hne]
  rfl

theorem staticType?_of_definition (h : definition x (some type) isMutable n = .ok k) :
    ∀ t, n.staticType? = some t → t = type := by
  intro t ht
  by_contra hne
  rw [definition_of_clash ht hne] at h
  cases h

end Node

section AnyHost

variable [Host]

namespace Run

/-- Without trace, running a node is evaluating it. -/
theorem node_quiet (l : Language) (n : Node) :
    node ⟨l, 0⟩ n = n.evaluate ⟨l, 0⟩ >>= conclude ⟨l, 0⟩ := by
  funext m
  simp only [node, Bind.bind, EStateM.bind]
  rcases n.evaluate ⟨l, 0⟩ m with ⟨v, m'⟩ | ⟨f | c, m'⟩ <;> rfl

theorem execute_quiet {source : String} {n : Node} (h : Statement.parse source = .ok n)
    (l : Language) : execute ⟨l, 0⟩ source = n.evaluate ⟨l, 0⟩ >>= conclude ⟨l, 0⟩ := by
  obtain ⟨form, hform⟩ := (Statement.isStatement_of_parse h).exists_debugForm l
  have hread : ∀ m, read ⟨l, 0⟩ source m = .ok n m := by
    intro m
    rw [read, h]
    show (ofExcept (n.debugForm l) >>= _) m = _
    rw [hform]
    rfl
  funext m
  rw [← node_quiet]
  exact bind_of_ok (hread m)

/-- A declaration gives a symbol, which is concluded without more ado. -/
theorem declaration_quiet (l : Language) (x type : String) (isMutable : Bool) :
    (Node.declaration x type isMutable).evaluate ⟨l, 0⟩ >>= conclude ⟨l, 0⟩
      = (Node.declaration x type isMutable).evaluate ⟨l, 0⟩ := by
  funext m
  rcases Node.evaluate_declaration ⟨l, 0⟩ x type isMutable m with ⟨e, he⟩ | ⟨m', hm', -⟩
  · rw [bind_of_error he, he]
  · rw [bind_of_ok hm', hm']
    rfl

open Statement

/-- **Without trace, a definition is its two statements, one after the other.** -/
theorem execute_definition_quiet {x type e : String} {isMutable : Bool} {n : Node}
    (hx : Token.IsName x) (ht : Token.IsName type)
    (hn : parse (settingText x e) = .ok (.assignment x n))
    (h : ∀ t, n.staticType? = some t → t = type) (l : Language) :
    execute ⟨l, 0⟩ (settingText (declarationText isMutable x type) e)
      = execute ⟨l, 0⟩ (declarationText isMutable x type) >>= fun _ =>
        execute ⟨l, 0⟩ (settingText x e) := by
  obtain ⟨_, ⟨⟩, hdefinition⟩ := parse_definition_of_assignment isMutable hx ht hn
  rw [Node.definition_of_agreement h] at hdefinition
  rw [execute_quiet hdefinition, execute_quiet (parse_declarationText isMutable hx ht),
    execute_quiet hn, declaration_quiet, Node.evaluate_pair, bind_assoc]

/-- A declaration and an assignment that succeed: the type stands for the class of
the literal that is assigned. -/
theorem lookupClass?_of_literal {l : Language} {x type t : String} {isMutable : Bool}
    {u v w : Value} {m m₁ m₂ : Machine}
    (hfirst : (Node.declaration x type isMutable).evaluate ⟨l, 0⟩ m = .ok w m₁)
    (hsecond : (Node.assignment x (.literal (some u) t)).evaluate ⟨l, 0⟩ m₁ = .ok v m₂) :
    ∃ c, m.store.lookupClass? type = some c ∧ u.classOf = .ok c := by
  obtain ⟨_, he⟩ | ⟨_, hok, hdeclare⟩ := Node.evaluate_declaration ⟨l, 0⟩ x type isMutable m
  · rw [hfirst] at he
    cases he
  rw [hfirst] at hok
  cases hok
  obtain ⟨_, _, he, -⟩ | ⟨_, _, hok, hassign⟩ :=
    Node.evaluate_assignment ⟨l, 0⟩ x (.literal (some u) t) m₁
  · rw [hsecond] at he
    cases he
  rw [hsecond] at hok
  cases hok
  obtain ⟨_, ⟨⟩⟩ := Node.evaluate_of_assignment hsecond
  -- the name that is assigned is the one that was declared
  obtain ⟨-, c, hc, hstore⟩ := Store.declare_eq_ok hdeclare
  obtain ⟨y, hy, -, hclass, -⟩ := Store.assign_eq_ok hassign
  rw [hstore, Table.find?_insert_self] at hy
  cases hy
  exact ⟨c, Store.resolveType_eq_ok_iff.mp hc, hclass⟩

/-- If both statements succeed and the value has a static type, it is a literal, and
the type stands for its class. -/
theorem exists_literal_of_execute {l : Language} {x type e t : String} {isMutable : Bool}
    {n : Node} {v w : Value} {m m₁ m₂ : Machine} (hx : Token.IsName x) (ht : Token.IsName type)
    (hn : parse (settingText x e) = .ok (.assignment x n)) (hstatic : n.staticType? = some t)
    (hfirst : execute ⟨l, 0⟩ (declarationText isMutable x type) m = .ok w m₁)
    (hsecond : execute ⟨l, 0⟩ (settingText x e) m₁ = .ok v m₂) :
    ∃ u c, n = .literal (some u) c.name ∧ t = c.name ∧ u.classOf = .ok c ∧
      m.store.lookupClass? type = some c := by
  rw [execute_quiet (parse_declarationText isMutable hx ht), declaration_quiet] at hfirst
  rw [execute_quiet hn] at hsecond
  obtain ⟨_, _, hassign, -⟩ := exists_ok_of_bind hsecond
  cases Statement.isStatement_of_parse hn with
  | assignment _ hwell =>
    cases hwell with
    -- the value fits the declared type, which was looked up by its name
    | @literal u c _ hc =>
      cases hstatic
      obtain ⟨c', hlookup, hc'⟩ := lookupClass?_of_literal hfirst hassign
      rw [hc] at hc'
      cases hc'
      exact ⟨u, c, rfl, rfl, hc, hlookup⟩
    -- only literals have a static type
    | identifier => cases hstatic
    | call => cases hstatic
  | expression h => cases h

end Run

/-! ### Sessions -/

namespace Session

open Statement (settingText declarationText)

/-- A line that does what two lines do, one after the other. -/
theorem perform_of_bind {s : Session} {line first second : String}
    (h : Run.execute s.settings line = Run.execute s.settings first >>= fun _ =>
      Run.execute s.settings second) :
    (∃ v, (s.perform (.execute first)).2 = .ok (.value v)) ∧
        s.perform (.execute line) = (s.perform (.execute first)).1.perform (.execute second) ∨
      ∃ e, (s.perform (.execute first)).2 = .error e ∧
        (s.perform (.execute line)).2 = .error e := by
  rw [perform_execute s first, perform_execute s line, h]
  rcases hr : Run.execute s.settings first s.machine with ⟨v, m⟩ | ⟨e, m⟩
  · rw [bind_of_ok hr]
    exact .inl ⟨⟨v, rfl⟩, (perform_execute ⟨s.settings, m⟩ second).symm⟩
  · rw [bind_of_error hr]
    exact .inr ⟨e, rfl, rfl⟩

theorem perform_of_parse_error {s : Session} {source : String} {e : Fault}
    (h : Statement.parse source = .error e) : s.perform (.execute source) = (s, .error e) := by
  have hrun : Run.execute s.settings source s.machine = .error e s.machine :=
    bind_of_error (read_of_parse_error s.settings h s.machine)
  rw [perform_execute, hrun]

theorem exists_of_perform {s : Session} {source : String} {v : Value}
    (h : (s.perform (.execute source)).2 = .ok (.value v)) :
    ∃ n m, Statement.parse source = .ok n ∧ Run.execute s.settings source s.machine = .ok v m ∧
      (s.perform (.execute source)).1 = ⟨s.settings, m⟩ := by
  rcases hparse : Statement.parse source with e | n
  · rw [perform_of_parse_error hparse] at h
    cases h
  · rw [perform_execute] at h ⊢
    rcases hr : Run.execute s.settings source s.machine with ⟨w, m⟩ | ⟨e, m⟩
    · rw [hr] at h
      cases h
      exact ⟨n, m, rfl, rfl, rfl⟩
    · rw [hr] at h
      cases h

/-- The text `e` is a literal, and `type` stands for its class by another name. -/
def Aliased (s : Session) (x type e : String) : Prop :=
  ∃ v c, Statement.parse (settingText x e) = .ok (.assignment x (.literal (some v) c.name)) ∧
    v.classOf = .ok c ∧ s.machine.store.lookupClass? type = some c ∧ c.name ≠ type

variable {x type : String}

/-- The two forms, in a session without trace. -/
theorem definition_expands_quiet {s : Session} (hs : s.settings.verbosity = 0)
    (hx : Token.IsName x) (ht : Token.IsName type) (isMutable : Bool) (e : String) (v : Value) :
    let one := s.perform (.execute (settingText (declarationText isMutable x type) e))
    let first := s.perform (.execute (declarationText isMutable x type))
    let second := first.1.perform (.execute (settingText x e))
    (one.2 = .ok (.value v) ↔
      (∃ w, first.2 = .ok (.value w)) ∧ second.2 = .ok (.value v) ∧ ¬ s.Aliased x type e) ∧
    (one.2 = .ok (.value v) → one = second) := by
  intro one first second
  obtain ⟨⟨l, _⟩, m⟩ := s
  obtain rfl : _ = 0 := hs
  have hbind : ∀ n, Statement.parse (settingText x e) = .ok (.assignment x n) →
      (∀ t, n.staticType? = some t → t = type) →
      (∃ w, first.2 = .ok (.value w)) ∧ one = second ∨
        ∃ e, first.2 = .error e ∧ one.2 = .error e := fun n hn hagrees =>
    perform_of_bind (execute_definition_quiet hx ht hn hagrees l)
  -- a definition that succeeds was parsed, so its static type is the written one
  have hforward : one.2 = .ok (.value v) →
      ((∃ w, first.2 = .ok (.value w)) ∧ one = second) ∧ ¬ Aliased ⟨⟨l, 0⟩, m⟩ x type e := by
    intro hone
    obtain ⟨k, -, hk, -⟩ := exists_of_perform hone
    obtain ⟨n, hn, hdefinition⟩ := Statement.parse_assignment_of_definition hx ht hk
    have hagrees := Node.staticType?_of_definition hdefinition
    constructor
    · rcases hbind n hn hagrees with h | ⟨e, -, he⟩
      · exact h
      · rw [hone] at he
        cases he
    · rintro ⟨u, c, hliteral, -, -, hne⟩
      rw [hn] at hliteral
      cases hliteral
      exact hne (hagrees c.name rfl)
  refine ⟨⟨?_, ?_⟩, fun hone => (hforward hone).1.2⟩
  · intro hone
    obtain ⟨⟨hfirst, heq⟩, halias⟩ := hforward hone
    exact ⟨hfirst, heq ▸ hone, halias⟩
  · rintro ⟨⟨w, hw⟩, hsecond, halias⟩
    obtain ⟨-, m₁, -, hrun, hfirst⟩ := exists_of_perform hw
    obtain ⟨k, m₂, hk, hrun', -⟩ := exists_of_perform hsecond
    obtain ⟨n, rfl, -⟩ := Statement.parse_definition_of_assignment isMutable hx ht hk
    rw [hfirst] at hrun'
    have hagrees : ∀ t, n.staticType? = some t → t = type := by
      intro t hstatic
      -- a literal of another type name succeeds only under an alias
      by_contra hne
      obtain ⟨u, c, rfl, rfl, hc, hlookup⟩ :=
        exists_literal_of_execute hx ht hk hstatic hrun hrun'
      exact halias ⟨u, c, hk, hc, hlookup, hne⟩
    rcases hbind n hk hagrees with ⟨-, heq⟩ | ⟨e, he, -⟩
    · rw [heq]
      exact hsecond
    · rw [hw] at he
      cases he

/-- A session with its trace dropped, from the log and from all that is to come. -/
def muted (s : Session) : Session :=
  ⟨quiet s.settings, s.machine.sift fun e => !e.isTrace⟩

theorem parallel_muted (s : Session) :
    Parallel (fun e => !e.isTrace) 0 s.settings.verbosity s.muted s :=
  ⟨rfl, rfl, rfl, rfl⟩

/-- **A definition agrees with its two statements**, whatever the session, the
names, the keyword and the text behind the equals sign, but for one thing: the text
must not be a literal whose class the type stands for by another name.  The
definition has a value exactly if both statements have one, the second the same,
and that is so; and then all that is left behind is the same, but for the trace: two
lines are read instead of one.  In a session without trace it is the same altogether.
A literal of a class with another name than the type is refused, and nothing is
changed. -/
theorem definition_expands (s : Session) (hx : Token.IsName x) (ht : Token.IsName type)
    (isMutable : Bool) (e : String) :
    let one := s.perform (.execute (settingText (declarationText isMutable x type) e))
    let first := s.perform (.execute (declarationText isMutable x type))
    let second := first.1.perform (.execute (settingText x e))
    (∀ v, one.2 = .ok (.value v) ↔
      (∃ w, first.2 = .ok (.value w)) ∧ second.2 = .ok (.value v) ∧ ¬ s.Aliased x type e) ∧
    (∀ v, one.2 = .ok (.value v) →
      one.1.machine.sift (fun e => !e.isTrace) = second.1.machine.sift fun e => !e.isTrace) ∧
    (∀ v, s.settings.verbosity = 0 → one.2 = .ok (.value v) → one = second) ∧
    ∀ n t, Statement.parse (settingText x e) = .ok (.assignment x n) →
      n.staticType? = some t → t ≠ type → one = (s, .error (.failure (.clash type t))) := by
  intro one first second
  have hscreen := screens_not_isTrace s.settings.verbosity
  -- the session without a trace runs in parallel, step by step
  obtain ⟨hone, hones⟩ := (parallel_muted s).perform hscreen
    (.execute (settingText (declarationText isMutable x type) e))
  obtain ⟨hfirst, hfirsts⟩ := (parallel_muted s).perform hscreen
    (.execute (declarationText isMutable x type))
  obtain ⟨hsecond, hseconds⟩ := hfirsts.perform hscreen (.execute (settingText x e))
  have hquiet := definition_expands_quiet (s := s.muted) rfl hx ht isMutable e
  refine ⟨fun v => ?_, fun v hv => ?_, fun v hs => ?_, fun n t hn hstatic hne => ?_⟩
  · have hiff := (hquiet v).1
    rw [hone, hfirst, hsecond] at hiff
    exact hiff
  · -- the machines are equal once the trace is sifted
    rw [← hones.machine, ← hseconds.machine, (hquiet v).2 (hone.trans hv)]
  · exact (definition_expands_quiet hs hx ht isMutable e v).2
  · -- the clash is found by the parser, before anything runs
    obtain ⟨_, ⟨⟩, hdefinition⟩ := Statement.parse_definition_of_assignment isMutable hx ht hn
    rw [Node.definition_of_clash hstatic hne] at hdefinition
    exact perform_of_parse_error hdefinition

/-- Without trace, a line that is parsed is run as its node. -/
theorem perform_execute_quiet {s : Session} (hs : s.settings.verbosity = 0) {source : String}
    {n : Node} (h : Statement.parse source = .ok n) :
    s.perform (.execute source) = s.perform (.run n) := by
  obtain ⟨⟨l, _⟩, m⟩ := s
  obtain rfl : _ = 0 := hs
  have haction : action ⟨l, 0⟩ (.execute source) = action ⟨l, 0⟩ (.run n) := by
    show Answer.value <$> Run.execute ⟨l, 0⟩ source = Answer.value <$> Run.node ⟨l, 0⟩ n
    rw [execute_quiet h, node_quiet]
  simp only [perform, settingsAfter, haction]

end Session

end AnyHost

namespace Session

open Statement (settingText declarationText)

/-- A value that is read: both forms take the same line of the input. -/
theorem definition_expands_of_read :
    let s := standard {} ["a", "b"]
    let one := s.perform (.execute (settingText (declarationText false "x" "Str") "read()"))
    let first := s.perform (.execute (declarationText false "x" "Str"))
    let second := first.1.perform (.execute (settingText "x" "read()"))
    Token.IsName "x" ∧ Token.IsName "Str" ∧ one.2 = .ok (.value (.str "a")) ∧
      one.1.machine.sift (fun e => !e.isTrace) = second.1.machine.sift fun e => !e.isTrace := by
  have hx : Token.IsName "x" := by decide
  have ht : Token.IsName "Str" := by decide
  have hdeclaration := Statement.parse_declarationText false hx ht
  have hassignment : Statement.parse (settingText "x" "read()")
      = .ok (.assignment "x" (.call "read" [])) := by cbv
  have halias : ¬ (standard {} ["a", "b"]).Aliased "x" "Str" "read()" := by
    rintro ⟨v, c, hliteral, -⟩
    rw [hassignment] at hliteral
    cases hliteral
  have hexpands := definition_expands (standard {} ["a", "b"]) hx ht false "read()"
  dsimp only at hexpands ⊢
  obtain ⟨hvalue, hmachine, -, -⟩ := hexpands
  have hone := (hvalue (.str "a")).mpr (by
    rw [perform_execute_quiet rfl hdeclaration, perform_execute_quiet rfl hassignment]
    exact ⟨⟨.symbol "x", rfl⟩, rfl, halias⟩)
  exact ⟨hx, ht, hone, hmachine _ hone⟩

/-- At verbosity 1 the two forms leave different traces. -/
example :
    let s := standard ⟨.english, 1⟩ []
    let one := s.perform (.execute "val x: Int = 1")
    let first := s.perform (.execute "val x: Int")
    let second := first.1.perform (.execute "x = 1")
    one.1.machine.events.toList.length = 1 ∧ second.1.machine.events.toList.length = 2 := by
  decide +kernel

/-- The two forms differ on a literal of a class that the type names by another
name: `T` stands for `Bool`. -/
theorem definition_differs_by_alias :
    let s := ((standard {} []).perform (.execute "val T: Class = Bool")).1
    let one := s.perform (.execute "val x: T = true")
    let first := s.perform (.execute "val x: T")
    let second := first.1.perform (.execute "x = true")
    s.Reachable ∧ one.2 = .error (.failure (.clash "T" "Bool")) ∧
      ¬ (one.2 = .ok (.value (.bool true)) ↔
        (∃ w, first.2 = .ok (.value w)) ∧ second.2 = .ok (.value (.bool true))) := by
  have halias : Statement.parse "val T: Class = Bool"
      = .ok (.block [.declaration "T" "Class" false, .assignment "T" (.identifier "Bool")]) := by
    cbv
  have hclash : Statement.parse "val x: T = true"
      = .error (.failure (.clash "T" "Bool")) := by cbv
  have hdeclaration : Statement.parse "val x: T" = .ok (.declaration "x" "T" false) := by cbv
  have hassignment : Statement.parse "x = true"
      = .ok (.assignment "x" (.literal (some (.bool true)) "Bool")) := by cbv
  dsimp only
  rw [perform_execute_quiet rfl halias, perform_of_parse_error hclash,
    perform_execute_quiet rfl hdeclaration, perform_execute_quiet rfl hassignment]
  -- the single line clashes, and the two lines succeed
  refine ⟨(reachable_standard {} []).performed _, rfl, fun hiff => ?_⟩
  cases hiff.mpr ⟨⟨.symbol "x", rfl⟩, rfl⟩

end Session

end LineScript
