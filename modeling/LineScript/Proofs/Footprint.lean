/-
LineScript/Proofs/Footprint.lean

What a statement leaves in the store.

A statement has at most one name as its target: the name that it declares,
defines or assigns.  Evaluation takes nothing back, so the question is what a
statement that fails leaves behind:

* phrases become expressions, and expressions leave the store alone;
* a declaration makes its change at the end, and so does an assignment, since
  a value that was assigned has a class and can be printed;
* a definition declares its name first.  If its value is a literal nothing can
  go wrong after that: the type is the class of the literal, which is still
  bound to itself, and the new name has no value.  Otherwise the type must have
  been written, and the name may be left declared and unset.

So a failed statement changes nothing, or leaves the `Residue` of a definition.
-/
import LineScript.Proofs.Soundness

namespace LineScript

open Run Store

/-! ### Expressions -/

/-- Nodes that do not declare, assign or join statements. -/
inductive Node.IsExpression : Node → Prop
  | literal (v : Option Value) (type : String) : IsExpression (.literal v type)
  | identifier (x : String) : IsExpression (.identifier x)
  | call (f : String) {ns : List Node} : (∀ n ∈ ns, IsExpression n) → IsExpression (.call f ns)

theorem Node.still_evaluateAll [Host] (s : Settings) {ns : List Node}
    (h : ∀ n ∈ ns, Along Eq (n.evaluate s)) : Along Eq (evaluateAll s ns) := by
  induction ns with
  | nil => exact still_pure []
  | cons n ns ih =>
    rw [evaluateAll]
    have hn := h n List.mem_cons_self
    have hns := ih fun k hk => h k (List.mem_cons_of_mem n hk)
    exact hn.bind fun v => hns.bind fun vs => still_pure (v :: vs)

/-- Evaluating an expression leaves the store alone. -/
theorem Node.IsExpression.still_evaluate [Host] (s : Settings) {n : Node} (h : n.IsExpression) :
    Along Eq (n.evaluate s) := by
  induction h with
  | literal v type =>
    rw [evaluate]
    exact still_pure _
  | identifier x =>
    rw [evaluate]
    exact still_look _
  | @call f ns _ ih =>
    intro m
    rw [store_final_call]
    exact still_evaluateAll s ih m

/-- The class of the values that literals of a kind have. -/
def LiteralKind.classOf : LiteralKind → Class
  | integer => .int
  | decimal => .float
  | text => .str
  | symbol => .symbol
  | true | false => .bool
  | null => .any

/-- A literal is read as a value of the class of its kind, with that class for a
type. -/
theorem LiteralKind.read_eq_literal [Text.CharacterNames] {k : LiteralKind} {text : String}
    {n : Node} (h : k.read text = .ok n) :
    ∃ v, n = .literal (some v) k.classOf.name ∧ v.classOf = .ok k.classOf := by
  cases k with
  -- a sign and digits that fit the range
  | integer =>
    replace h : readInteger text = .ok n := h
    unfold readInteger at h
    dsimp only at h
    split at h
    · cases h
    · split at h
      · next w _ =>
        cases h
        exact ⟨.int w, rfl, rfl⟩
      · cases h
  | decimal =>
    replace h : readDecimal text = .ok n := h
    unfold readDecimal at h
    dsimp only at h
    split at h
    · cases h
      exact ⟨_, rfl, rfl⟩
    · cases h
  | text =>
    replace h : readText text = .ok n := h
    unfold readText at h
    split at h
    · next cs _ =>
      cases h
      exact ⟨_, rfl, rfl⟩
    · cases h
  -- the other kinds are read without fail
  | symbol =>
    cases h
    exact ⟨_, rfl, rfl⟩
  | true =>
    cases h
    exact ⟨_, rfl, rfl⟩
  | false =>
    cases h
    exact ⟨_, rfl, rfl⟩
  | null =>
    cases h
    exact ⟨.null, rfl, rfl⟩

/-- The values of literals have the class that the literal gives for a type. -/
theorem LiteralKind.read_eq_ok [Text.CharacterNames] {k : LiteralKind} {text : String} {n : Node}
    (h : k.read text = .ok n) :
    ∃ v c, n = .literal (some v) c.name ∧ v.classOf = .ok c := by
  obtain ⟨v, hn, hv⟩ := read_eq_literal h
  exact ⟨v, k.classOf, hn, hv⟩

namespace Phrase

variable [Text.CharacterNames]

/-- Whether a phrase is a literal. -/
def isLiteral : Phrase → Bool
  | literal _ _ => true
  | reference _ | call _ _ => false

mutual

/-- Phrases become expressions. -/
theorem isExpression_of_toNode : (p : Phrase) → {n : Node} → p.toNode = .ok n → n.IsExpression
  | literal k text, n, h => by
    obtain ⟨v, c, rfl, -⟩ := LiteralKind.read_eq_ok h
    exact .literal _ _
  | reference x, n, h => by
    cases h
    exact .identifier x
  | call f ps, n, h => by
    rw [toNode] at h
    rcases hns : toNodes ps with e | ns
    · rw [hns] at h
      cases h
    · rw [hns] at h
      cases h
      exact .call f (isExpression_of_toNodes ps hns)

theorem isExpression_of_toNodes :
    (ps : List Phrase) → {ns : List Node} → toNodes ps = .ok ns → ∀ n ∈ ns, n.IsExpression
  | [], ns, h => by
    cases h
    simp
  | p :: ps, ns, h => by
    rw [toNodes] at h
    rcases hn : p.toNode with e | n
    · rw [hn] at h
      cases h
    · rcases hns : toNodes ps with e | ns
      · rw [hn, hns] at h
        cases h
      · rw [hn, hns] at h
        cases h
        intro k hk
        rcases List.mem_cons.mp hk with rfl | hk
        · exact isExpression_of_toNode p hn
        · exact isExpression_of_toNodes ps hns k hk

end

/-- Only literals have a static type, and it is the class of their value. -/
theorem toNode_cases {p : Phrase} {n : Node} (h : p.toNode = .ok n) :
    (p.isLiteral = false ∧ n.staticType? = none) ∨
    ∃ v c, n = .literal (some v) c.name ∧ v.classOf = .ok c := by
  cases p with
  | literal k text => exact .inr (LiteralKind.read_eq_ok h)
  | reference x =>
    cases h
    exact .inl ⟨rfl, rfl⟩
  | call f ps =>
    rw [toNode] at h
    rcases hns : toNodes ps with e | ns
    · rw [hns] at h
      cases h
    · rw [hns] at h
      cases h
      exact .inl ⟨rfl, rfl⟩

end Phrase

/-! ### Results of runs -/

/-- A value with a class can be printed. -/
theorem Value.exists_printed {v : Value} {c : Class} (h : v.classOf = .ok c) (l : Language) :
    ∃ text, v.printed l = .ok text := by
  cases v with
  | foreign d => cases h
  | _ => exact ⟨_, rfl⟩

namespace Run

section Binds

variable {σ α β : Type} {r : EStateM Fault σ α} {f : α → EStateM Fault σ β} {a : α} {e : Fault}
  {m m' : σ}

theorem bind_of_ok (h : r m = .ok a m') : (r >>= f) m = f a m' := by
  simp only [Bind.bind, EStateM.bind, h]

theorem bind_of_error (h : r m = .error e m') : (r >>= f) m = .error e m' := by
  simp only [Bind.bind, EStateM.bind, h]

end Binds

variable [Host]
variable {α : Type} {a : α} {e : Fault}

theorem ofExcept_of_ok {x : Except Fault α} (h : x = .ok a) (m : Machine) :
    ofExcept x m = .ok a m := by
  rw [h]
  rfl

theorem ofExcept_of_error {x : Except Fault α} (h : x = .error e) (m : Machine) :
    ofExcept x m = .error e m := by
  rw [h]
  rfl

theorem look_of_ok {g : Store → Except Fault α} (h : g m.store = .ok a) :
    look g m = .ok a m := by
  simp only [look, h]

theorem look_of_error {g : Store → Except Fault α} (h : g m.store = .error e) :
    look g m = .error e m := by
  simp only [look, h]

/-- Lines of the trace can always be logged. -/
theorem exists_trace (s : Settings) (level : Nat) (text : String) (m : Machine) :
    ∃ m', trace s level text m = .ok () m' ∧ m'.store = m.store := by
  unfold trace
  split
  · exact ⟨_, rfl, rfl⟩
  · exact ⟨m, rfl, rfl⟩

/-- A value with a class can be shown at the end of a statement. -/
theorem exists_conclude (s : Settings) {v : Value} {c : Class} (h : v.classOf = .ok c)
    (m : Machine) : ∃ m', conclude s v m = .ok v m' ∧ m'.store = m.store := by
  obtain ⟨text, htext⟩ := Value.exists_printed h s.language
  obtain ⟨m', hm', hstore⟩ := exists_trace s 2 ("=> " ++ text ++ " :" ++ c.name) m
  refine ⟨m', ?_, hstore⟩
  unfold conclude
  rw [htext, h]
  show (trace s 2 ("=> " ++ text ++ " :" ++ c.name) >>= fun _ => pure v) m = _
  rw [bind_of_ok hm']
  rfl

end Run

namespace Node

variable [Host]
variable {m : Machine} {x : String}

/-- A declaration changes the store or fails. -/
theorem evaluate_declaration (s : Settings) (x type : String) (b : Bool) (m : Machine) :
    (∃ e, (declaration x type b).evaluate s m = .error e m) ∨
    ∃ m', (declaration x type b).evaluate s m = .ok (.symbol x) m' ∧
      m.store.declare x type b = .ok m'.store := by
  rw [evaluate]
  rcases hd : m.store.declare x type b with e | t
  · left
    refine ⟨e, bind_of_error ?_⟩
    simp only [update, hd]
  · right
    have hupdate : update (·.declare x type b) m = .ok () { m with store := t } := by
      simp only [update, hd]
    obtain ⟨m', hm', hstore⟩ := exists_trace s 2 (declarationLine x type b) { m with store := t }
    refine ⟨m', ?_, by rw [hstore]⟩
    rw [bind_of_ok hupdate, bind_of_ok hm']
    rfl

/-- An assignment succeeds if its value and the change do: the value has a
class, so it can be printed. -/
theorem evaluate_assignment_of_ok {s : Settings} {n : Node} {v : Value} {m' : Machine}
    {t : Store} (hn : n.evaluate s m = .ok v m') (ht : m'.store.assign x v = .ok t) :
    ∃ m'', (assignment x n).evaluate s m = .ok v m'' ∧ m''.store = t := by
  obtain ⟨y, -, -, hc, -⟩ := assign_eq_ok ht
  obtain ⟨text, htext⟩ := Value.exists_printed hc s.language
  have hupdate : update (·.assign x v) m' = .ok () { m' with store := t } := by
    simp only [update, ht]
  obtain ⟨m'', hm'', hstore⟩ := exists_trace s 2 (assignmentLine x text) { m' with store := t }
  refine ⟨m'', ?_, hstore⟩
  rw [evaluate, bind_of_ok hn, bind_of_ok hupdate, htext]
  show (trace s 2 (assignmentLine x text) >>= fun _ => pure v) { m' with store := t } = _
  rw [bind_of_ok hm'']
  rfl

/-- An assignment of an expression changes the store or fails. -/
theorem evaluate_assignment (s : Settings) (x : String) {n : Node} (hn : n.IsExpression)
    (m : Machine) :
    (∃ e m', (assignment x n).evaluate s m = .error e m' ∧ m'.store = m.store) ∨
    ∃ v m', (assignment x n).evaluate s m = .ok v m' ∧
      m.store.assign x v = .ok m'.store := by
  -- the value leaves the store alone, so the change starts from the old store
  have hstill := hn.still_evaluate s m
  unfold final at hstill
  rcases hv : n.evaluate s m with ⟨v, m'⟩ | ⟨e, m'⟩
  · rw [hv] at hstill
    rcases ht : m'.store.assign x v with e | t
    · left
      refine ⟨e, m', ?_, hstill.symm⟩
      rw [evaluate, bind_of_ok hv]
      apply bind_of_error
      simp only [update, ht]
    · right
      obtain ⟨m'', hm'', rfl⟩ := evaluate_assignment_of_ok hv ht
      refine ⟨v, m'', hm'', ?_⟩
      rw [← ht]
      exact congrArg (assign · x v) hstill
  · left
    rw [hv] at hstill
    refine ⟨e, m', ?_, hstill.symm⟩
    rw [evaluate, bind_of_error hv]

theorem evaluate_pair (s : Settings) (n k : Node) :
    (block [n, k]).evaluate s = n.evaluate s >>= fun _ => k.evaluate s := by
  simp only [evaluate, evaluateBlock, bind_pure]

/-- The type of a definition was written, or is the class of a literal. -/
theorem definition_eq_ok {x : String} {type : Option String} {b : Bool} {p : Phrase} {n k : Node}
    (hn : p.toNode = .ok n) (h : definition x type b n = .ok k) :
    (∃ t, type = some t ∧ p.isLiteral = false ∧ k = block [declaration x t b, assignment x n]) ∨
    ∃ v c, n = literal (some v) c.name ∧ v.classOf = .ok c ∧
      k = block [declaration x c.name b, assignment x n] := by
  unfold definition at h
  rcases hd : definitionType x type n with e | t
  · rw [hd] at h
    cases h
  · rw [hd] at h
    cases h
    unfold definitionType at hd
    rcases Phrase.toNode_cases hn with ⟨hp, hstatic⟩ | ⟨v, c, rfl, hc⟩
    · -- what is no literal has no static type, so one is written
      left
      rw [hstatic] at hd
      rcases type with - | t'
      · cases hd
      · cases hd
        exact ⟨t, rfl, hp, rfl⟩
    · -- a literal brings its class, and a written type must be that class
      right
      refine ⟨v, c, rfl, hc, ?_⟩
      have ht : t = c.name := by
        rcases type with - | t' <;> dsimp only [staticType?] at hd <;> split at hd
        · cases hd
        · cases hd
          rfl
        · next hct =>
          cases hd
          exact hct.symm
        · cases hd
      rw [ht]

end Node

/-! ### Sentences -/

namespace Sentence

/-- The name that a sentence declares, defines or assigns. -/
def target? : Sentence → Option String
  | declaration _ x _ | definition _ x _ _ | assignment x _ => some x
  | expression _ => none

/-- What a definition that was not finished leaves behind: its name, new and
without a value, if the type was written and the value is no literal. -/
inductive Residue : Sentence → Store → Store → Prop
  | declared {b : Bool} {x type : String} {p : Phrase} {s : Store} {c : Class} :
    p.isLiteral = false → s.isDefined x = false → s.lookupClass? type = some c →
    Residue (definition b x (some type) p) s { s with symbols := s.symbols.insert x ⟨x, c, b⟩ }

section Residue

variable {w : Sentence} {x : String} {s : Store}

theorem Residue.sameAt {t : Store} (h : w.Residue s t) (hw : w.target? = some x) {z : String}
    (hz : z ≠ x) : SameAt s t z := by
  rcases h with ⟨-, -, -⟩
  cases hw
  exact sameAt_declared hz _

theorem Residue.get {t : Store} (h : w.Residue s t) (hs : s.Coherent) (hw : w.target? = some x) :
    t.get x = .error (.failure (.unset x)) := by
  rcases h with @⟨b, y, type, p, s, c, -, hx, hc⟩
  cases hw
  have hd : s.declare x type b = .ok { s with symbols := s.symbols.insert x ⟨x, c, b⟩ } := by
    rw [declare_of_absent (isDefined_eq_false_iff.mp hx), resolveType_eq_ok_iff.mpr hc]
    rfl
  exact hs.get_of_declare hd

end Residue

variable [Host]

/-- A result of a sentence with target `x`, starting from the store `s`: either
a value with a class, and no other name has changed, or a fault, and nothing
has changed but for a residue. -/
def Leaves (w : Sentence) (x : String) (s : Store) : EStateM.Result Fault Machine Value → Prop
  | .ok v m => (∃ c, v.classOf = .ok c) ∧ ∀ z, z ≠ x → SameAt s m.store z
  | .error _ m => m.store = s ∨ w.Residue s m.store

variable {w : Sentence} {x : String} {s : Store}

/-- Whatever its result, a sentence with a target leaves other names alone. -/
theorem Leaves.sameAt {r : Run Value} {m : Machine} (h : w.Leaves x s (r m))
    (hw : w.target? = some x) {z : String} (hz : z ≠ x) : SameAt s (r.final m).store z := by
  unfold final
  rcases hr : r m with ⟨v, m'⟩ | ⟨e, m'⟩
  · rw [hr] at h
    exact h.2 z hz
  · rw [hr] at h
    rcases h with h | h
    · rw [show m'.store = s from h]
      exact SameAt.refl s z
    · exact h.sameAt hw hz

theorem leaves_declaration (σ : Settings) (b : Bool) (x type : String) (m : Machine) :
    (declaration b x type).Leaves x m.store ((Node.declaration x type b).evaluate σ m) := by
  rcases Node.evaluate_declaration σ x type b m with ⟨e, he⟩ | ⟨m', hm', hd⟩
  · rw [he]
    exact .inl rfl
  · rw [hm']
    exact ⟨⟨.symbol, rfl⟩, fun z hz => sameAt_of_declare hd hz⟩

theorem leaves_assignment (σ : Settings) (x : String) (p : Phrase) {n : Node}
    (hn : n.IsExpression) {m : Machine} (h : m.store.Coherent) :
    (assignment x p).Leaves x m.store ((Node.assignment x n).evaluate σ m) := by
  rcases Node.evaluate_assignment σ x hn m with ⟨e, m', he, hstore⟩ | ⟨v, m', hm', ht⟩
  · rw [he]
    exact .inl hstore
  · rw [hm']
    obtain ⟨y, -, -, hc, -⟩ := assign_eq_ok ht
    exact ⟨⟨y.declared, hc⟩, fun z hz => h.sameAt_of_assign ht hz⟩

theorem leaves_defined {type : String} {b : Bool} {v : Value} {m' m'' : Machine}
    (h : s.Coherent) (hd : s.declare x type b = .ok m'.store)
    (ht : m'.store.assign x v = .ok m''.store) : w.Leaves x s (.ok v m'') := by
  have h' : m'.store.Coherent := (evolves_of_declare hd).coherent h
  obtain ⟨y, -, -, hc, -⟩ := assign_eq_ok ht
  refine ⟨⟨y.declared, hc⟩, ?_⟩
  intro z hz
  exact (sameAt_of_declare hd hz).trans (h'.sameAt_of_assign ht hz)

/-- A definition whose type was written may end after its declaration. -/
theorem leaves_definition (σ : Settings) (b : Bool) (x type : String) {p : Phrase}
    (hp : p.isLiteral = false) {n : Node} (hn : n.IsExpression) {m : Machine}
    (h : m.store.Coherent) :
    (definition b x (some type) p).Leaves x m.store
      ((Node.block [.declaration x type b, .assignment x n]).evaluate σ m) := by
  rw [Node.evaluate_pair]
  rcases Node.evaluate_declaration σ x type b m with ⟨e, he⟩ | ⟨m', hm', hd⟩
  · rw [bind_of_error he]
    exact .inl rfl
  · rw [bind_of_ok hm']
    rcases Node.evaluate_assignment σ x hn m' with ⟨e, m'', he, hstore⟩ | ⟨v, m'', hm'', ht⟩
    · -- no value came of it, and the name stays declared
      rw [he]
      right
      obtain ⟨hx, c, hc, hdeclared⟩ := declare_eq_ok hd
      rw [hstore, hdeclared]
      exact .declared hp (isDefined_eq_false_iff.mpr hx) (resolveType_eq_ok_iff.mp hc)
    · rw [hm'']
      exact leaves_defined h hd ht

/-- A definition by a literal succeeds once its name is declared. -/
theorem leaves_literalDefinition (w : Sentence) (σ : Settings) (b : Bool) (x : String) {v : Value}
    {c : Class} (hc : v.classOf = .ok c) {m : Machine} (h : m.store.Coherent)
    (hr : m.store.Rooted) :
    w.Leaves x m.store ((Node.block [.declaration x c.name b,
      .assignment x (.literal (some v) c.name)]).evaluate σ m) := by
  rw [Node.evaluate_pair]
  rcases Node.evaluate_declaration σ x c.name b m with ⟨e, he⟩ | ⟨m', hm', hd⟩
  · rw [bind_of_error he]
    exact .inl rfl
  · rw [bind_of_ok hm']
    obtain ⟨hx, c', hc', hdeclared⟩ := declare_eq_ok hd
    -- the type is still bound to the class of the value
    rw [hr.resolveType_classOf hc, Except.ok.injEq] at hc'
    subst hc'
    have ht := h.assign_declared (m := b) hx hc
    rw [← hdeclared] at ht
    have hv : (Node.literal (some v) c.name).evaluate σ m' = .ok v m' := by
      rw [Node.evaluate]
      rfl
    obtain ⟨m'', hm'', hstore⟩ := Node.evaluate_assignment_of_ok hv ht
    rw [hm'']
    rw [← hstore] at ht
    exact leaves_defined h hd ht

/-- The evaluation of a sentence with a target. -/
theorem leaves_evaluate (σ : Settings) {n : Node} (hw : w.target? = some x)
    (hn : w.toNode = .ok n) {m : Machine} (h : m.store.Coherent) (hr : m.store.Rooted) :
    w.Leaves x m.store (n.evaluate σ m) := by
  cases w with
  | declaration b y type =>
    cases hw
    cases hn
    exact leaves_declaration σ b x type m
  | definition b y type p =>
    cases hw
    rw [toNode] at hn
    rcases hk : p.toNode with e | k
    · rw [hk] at hn
      cases hn
    · rw [hk] at hn
      have hexpr := p.isExpression_of_toNode hk
      -- the class of the value comes from the text or from the literal
      rcases Node.definition_eq_ok hk hn with ⟨t, rfl, hp, rfl⟩ | ⟨v, c, rfl, hc, rfl⟩
      · exact leaves_definition σ b x t hp hexpr h
      · exact leaves_literalDefinition _ σ b x hc h hr
  | assignment y p =>
    cases hw
    rw [toNode] at hn
    rcases hk : p.toNode with e | k
    · rw [hk] at hn
      cases hn
    · rw [hk] at hn
      cases hn
      exact leaves_assignment σ x p (p.isExpression_of_toNode hk) h
  | expression p => cases hw

/-- Showing the outcome of a sentence changes nothing. -/
theorem Leaves.node {σ : Settings} {n : Node} {m : Machine} (h : w.Leaves x s (n.evaluate σ m)) :
    w.Leaves x s (Run.node σ n m) := by
  unfold Run.node
  rcases hr : n.evaluate σ m with ⟨v, m'⟩ | ⟨f | c, m'⟩
  · -- a value: showing it leaves the store alone
    rw [hr] at h
    obtain ⟨⟨c, hc⟩, hsame⟩ := h
    obtain ⟨m'', hm'', hstore⟩ := exists_conclude σ hc m'
    dsimp only
    rw [hm'']
    refine ⟨⟨c, hc⟩, ?_⟩
    rw [hstore]
    exact hsame
  · -- a failure: so does logging it
    rw [hr] at h
    obtain ⟨m'', hm'', hstore⟩ := exists_trace σ 1 (failureLine f) m'
    dsimp only
    rw [hm'']
    show m''.store = s ∨ w.Residue s m''.store
    rw [hstore]
    exact h
  · -- a crash is passed on as it is
    rw [hr] at h
    exact h

end Sentence

/-! ### Source lines -/

/-- The sentence that a source line was read as. -/
theorem Statement.exists_sentence [Text.CharacterNames] {source : String} {n : Node}
    (h : parse source = .ok n) :
    ∃ w, sentence (Text.trim source.toList) = .ok w ∧ w.toNode = .ok n := by
  unfold parse parseTrimmed at h
  split at h
  · cases h
  · rcases hw : sentence (Text.trim source.toList) with f | w
    · rw [hw] at h
      cases h
    · rw [hw] at h
      exact ⟨w, rfl, h⟩

theorem Run.read_of_parse_error [Host] (σ : Settings) {source : String} {e : Fault}
    (h : Statement.parse source = .error e) (m : Machine) : Run.read σ source m = .error e m := by
  rw [Run.read, h]
  rfl

/-- A line that was parsed is read, or cannot be shown in the trace. -/
theorem Run.read_of_parse_ok [Host] (σ : Settings) {source : String} {n : Node}
    (h : Statement.parse source = .ok n) (m : Machine) :
    (∃ e, Run.read σ source m = .error e m) ∨
    ∃ m', Run.read σ source m = .ok n m' ∧ m'.store = m.store := by
  rw [Run.read, h]
  rcases hf : n.debugForm σ.language with e | form
  · left
    refine ⟨e, ?_⟩
    show (ofExcept (n.debugForm σ.language) >>= fun form => _) m = _
    rw [hf]
    rfl
  · right
    obtain ⟨m', hm', hstore⟩ := exists_trace σ 1 ("READ: " ++ form) m
    refine ⟨m', ?_, hstore⟩
    show (ofExcept (n.debugForm σ.language) >>= fun form => _) m = _
    rw [hf]
    show (trace σ 1 ("READ: " ++ form) >>= fun _ => pure n) m = _
    rw [bind_of_ok hm']
    rfl

theorem Run.still_execute [Host] (σ : Settings) {source : String} {n : Node}
    (h : Statement.parse source = .ok n) (hn : n.IsExpression) :
    Along Eq (Run.execute σ source) := by
  intro m
  unfold Run.execute
  rw [final_bind]
  rcases Run.read_of_parse_ok σ h m with ⟨e, he⟩ | ⟨m', hm', hstore⟩
  · rw [he]
  · rw [hm', ← hstore]
    dsimp only
    rw [store_final_node]
    exact hn.still_evaluate σ m'

/-- The execution of a source line whose sentence has a target. -/
theorem Sentence.leaves_execute [Host] (σ : Settings) {source : String} {n : Node} {w : Sentence}
    {x : String} (hn : Statement.parse source = .ok n) (hw : w.target? = some x)
    (hwn : w.toNode = .ok n) {m : Machine} (h : m.store.Coherent) (hr : m.store.Rooted) :
    w.Leaves x m.store (Run.execute σ source m) := by
  unfold Run.execute
  rcases Run.read_of_parse_ok σ hn m with ⟨e, he⟩ | ⟨m', hm', hstore⟩
  · rw [bind_of_error he]
    exact .inl rfl
  · rw [bind_of_ok hm']
    rw [← hstore] at h hr ⊢
    exact (leaves_evaluate σ hw hwn h hr).node

namespace Session

theorem perform_execute [Host] (s : Session) (source : String) :
    s.perform (.execute source) = match Run.execute s.settings source s.machine with
      | .ok v m => (⟨s.settings, m⟩, .ok (.value v))
      | .error e m => (⟨s.settings, m⟩, .error e) := by
  unfold perform
  rw [action]
  simp only [Functor.map, EStateM.map]
  rcases Run.execute s.settings source s.machine with ⟨v, m⟩ | ⟨e, m⟩ <;> rfl

/-- **The footprint of a source line.**  A line that cannot be parsed changes
nothing, and neither does an expression.  Any other line leaves all names but
its target alone; and if it fails, it changes nothing, or it leaves the residue
of a definition, whose target is then declared and unset. -/
theorem execute_footprint [Host] {s : Session} (h : s.Reachable) (source : String) :
    let before := s.machine.store
    let after := (s.perform (.execute source)).1.machine.store
    let answer := (s.perform (.execute source)).2
    (∀ e, Statement.parse source = .error e → after = before) ∧
    ∀ n, Statement.parse source = .ok n →
      ∃ w, Statement.sentence (Text.trim source.toList) = .ok w ∧ w.toNode = .ok n ∧
        (w.target? = none → after = before) ∧
        ∀ x, w.target? = some x →
          (∀ z, z ≠ x → SameAt before after z) ∧
          ∀ e, answer = .error e → after = before ∨
            w.Residue before after ∧ after.get x = .error (.failure (.unset x)) := by
  intro before after answer
  have hafter : after = ((Run.execute s.settings source).final s.machine).store := by
    show (s.perform (.execute source)).1.machine.store = _
    rw [perform_execute, final]
    rcases Run.execute s.settings source s.machine with ⟨v, m⟩ | ⟨e, m⟩ <;> rfl
  refine ⟨?_, ?_⟩
  · intro e he
    rw [hafter, final, Run.execute]
    rw [bind_of_error (Run.read_of_parse_error s.settings he s.machine)]
  · intro n hn
    obtain ⟨w, hw, hwn⟩ := Statement.exists_sentence hn
    refine ⟨w, hw, hwn, ?_, ?_⟩
    · intro hnone
      -- expressions are the only sentences without a target
      cases w with
      | expression p =>
        have hexpr := p.isExpression_of_toNode hwn
        rw [hafter]
        exact (still_execute s.settings hn hexpr s.machine).symm
      | _ => cases hnone
    · intro x hx
      have hleaves := Sentence.leaves_execute s.settings hn hx hwn h.coherent h.rooted
      refine ⟨?_, ?_⟩
      · intro z hz
        rw [hafter]
        exact hleaves.sameAt hx hz
      · intro e he
        rw [hafter, final]
        rcases hr : Run.execute s.settings source s.machine with ⟨v, m⟩ | ⟨e', m⟩
        · replace he : (s.perform (.execute source)).2 = .error e := he
          rw [perform_execute, hr] at he
          cases he
        · rw [hr] at hleaves
          rcases hleaves with hsame | hres
          · exact .inl hsame
          · exact .inr ⟨hres, hres.get h.coherent hx⟩

/-- A definition by a name that is not there: it fails, and its own name is
left without a value. -/
theorem execute_footprint_of_unknown_value :
    let s := standard {} []
    let source := "val x: Int = y"
    let after := (s.perform (.execute source)).1.machine.store
    s.Reachable ∧ Statement.parse source
        = .ok (.block [.declaration "x" "Int" false, .assignment "x" (.identifier "y")]) ∧
      (s.perform (.execute source)).2 = .error (.failure (.undefined "y")) ∧
      after.get "x" = .error (.failure (.unset "x")) ∧
      ∀ z, z ≠ "x" → SameAt s.machine.store after z := by
  have hreach := reachable_standard {} []
  -- the scan is evaluated by the kernel, and what follows it by unfolding
  have hscan : Token.scan (Text.trim "val x: Int = y".toList)
      = ⟨[⟨.val, "val", 1⟩, ⟨.name, "x", 5⟩, ⟨.colon, ":", 6⟩, ⟨.name, "Int", 8⟩,
          ⟨.equals, "=", 12⟩, ⟨.name, "y", 14⟩], none⟩ := by decide +kernel
  have hsentence : Statement.sentence (Text.trim "val x: Int = y".toList)
      = .ok (.definition false "x" (some "Int") (.reference "y")) := by
    unfold Statement.sentence
    rw [hscan]
    rfl
  have hparse : Statement.parse "val x: Int = y"
      = .ok (.block [.declaration "x" "Int" false, .assignment "x" (.identifier "y")]) := by
    unfold Statement.parse Statement.parseTrimmed
    rw [if_neg (by decide +kernel), hsentence]
    rfl
  have hrun : ∃ m,
      Run.execute {} "val x: Int = y" (standard {} []).machine
        = .error (.failure (.undefined "y")) m ∧
      m.store.get "x" = .error (.failure (.unset "x")) := by
    unfold Run.execute Run.read
    rw [hparse]
    exact ⟨_, rfl, rfl⟩
  obtain ⟨m, hm, hget⟩ := hrun
  obtain ⟨w, hw, -, -, hx⟩ := (execute_footprint hreach "val x: Int = y").2 _ hparse
  rw [hsentence] at hw
  cases hw
  refine ⟨hreach, hparse, ?_, ?_, (hx "x" rfl).1⟩
  · rw [perform_execute, show Run.execute (standard {} []).settings _ _ = _ from hm]
  · rw [perform_execute, show Run.execute (standard {} []).settings _ _ = _ from hm]
    exact hget

end Session

end LineScript
