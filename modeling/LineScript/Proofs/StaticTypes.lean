/-
LineScript/Proofs/StaticTypes.lean

The static type of a node is the class of its value.

The static type is found without evaluating, and the value by evaluating, with
declarations and assignments on the way.  They agree for every node whose
literals carry the class of what they stand for (`Node.Tagged`), because only
three kinds of node have a static type of their own: a literal, a declaration,
which gives a symbol, and the empty block, which gives `null`.  An assignment
and a block hand on what their last part gives.

A definition declares its name with that type.  Three facts make its assignment
fit once the initial value is there:

* a static type is the name of a built-in class, which is still bound to itself;
* the initial value has that class;
* whatever the initial value did to the store, the new name has kept its symbol.

What may still go wrong is that the initial value has set the name itself, and
the name takes one value only.
-/
import LineScript.Proofs.Footprint

namespace LineScript

open Run Store

/-! ### Tagged nodes -/

namespace Node

/-- Nodes whose literals carry the class of the value that they stand for. -/
inductive Tagged : Node → Prop
  | literal {v : Option Value} {c : Class} : (literalValue v).classOf = .ok c →
    Tagged (literal v c.name)
  | identifier (x : String) : Tagged (identifier x)
  | declaration (x type : String) (isMutable : Bool) : Tagged (declaration x type isMutable)
  | assignment (x : String) {n : Node} : Tagged n → Tagged (assignment x n)
  | block {ns : List Node} : (∀ n ∈ ns, Tagged n) → Tagged (block ns)
  | call (f : String) {ns : List Node} : (∀ n ∈ ns, Tagged n) → Tagged (call f ns)
  | unknown : Tagged unknown

/-- The static type of statements is that of the last one. -/
theorem lastStaticType?_concat (ns : List Node) (n : Node) :
    lastStaticType? (ns ++ [n]) = n.staticType? := by
  induction ns with
  | nil => rw [List.nil_append, lastStaticType?]
  | cons k ns ih =>
    rcases ns with - | ⟨k', ns⟩
    · rw [List.cons_append, List.nil_append, lastStaticType?, lastStaticType?]
    · rw [List.cons_append, List.cons_append, lastStaticType?]
      exact ih

/-- Static types are names of built-in classes. -/
theorem Tagged.exists_builtin {n : Node} (h : n.Tagged) {type : String}
    (ht : n.staticType? = some type) : ∃ c ∈ Class.builtin, c.name = type := by
  induction h with
  | literal hc =>
    cases ht
    exact ⟨_, mem_builtin_of_classOf hc, rfl⟩
  | declaration =>
    cases ht
    exact ⟨.symbol, by decide, rfl⟩
  | assignment _ _ ih => exact ih ht
  | @block ns _ ih =>
    rw [staticType?] at ht
    -- the type of a block is that of its last node
    rcases List.eq_nil_or_concat ns with rfl | ⟨init, k, rfl⟩
    · cases ht
      exact ⟨.any, by decide, rfl⟩
    · rw [List.concat_eq_append, lastStaticType?_concat] at ht
      exact ih k (by simp) ht
  | identifier => cases ht
  | call => cases ht
  | unknown => cases ht

end Node

/-! ### Values -/

/-- A result of two runs, the second after the first, comes from a result of
the first. -/
theorem Run.exists_ok_of_bind [Host] {α β : Type} {r : Run α} {f : α → Run β} {m m' : Machine}
    {b : β} (h : (r >>= f) m = .ok b m') : ∃ a m₁, r m = .ok a m₁ ∧ f a m₁ = .ok b m' := by
  rcases hr : r m with ⟨a, m₁⟩ | ⟨e, m₁⟩
  · rw [bind_of_ok hr] at h
    exact ⟨a, m₁, rfl, h⟩
  · rw [bind_of_error hr] at h
    cases h

namespace Node

variable [Host]
variable {σ : Settings} {m m' : Machine} {v : Value}

/-- The value of an assignment is the value that is assigned. -/
theorem evaluate_of_assignment {x : String} {n : Node}
    (h : (assignment x n).evaluate σ m = .ok v m') : ∃ m₁, n.evaluate σ m = .ok v m₁ := by
  rw [evaluate] at h
  obtain ⟨w, m₁, hn, h⟩ := exists_ok_of_bind h
  obtain ⟨-, m₂, -, h⟩ := exists_ok_of_bind h
  obtain ⟨text, m₃, -, h⟩ := exists_ok_of_bind h
  obtain ⟨-, m₄, -, ⟨⟩⟩ := exists_ok_of_bind h
  exact ⟨m₁, hn⟩

/-- The value of statements is the value of the last one, evaluated wherever
the others lead. -/
theorem evaluate_of_block {last : Value} {ns : List Node} {n : Node}
    (h : evaluateBlock σ last (ns ++ [n]) m = .ok v m') : ∃ m₁, n.evaluate σ m₁ = .ok v m' := by
  induction ns generalizing last m with
  | nil =>
    rw [List.nil_append, evaluateBlock] at h
    obtain ⟨w, m₁, hn, ⟨⟩⟩ := exists_ok_of_bind h
    exact ⟨m, hn⟩
  | cons k ns ih =>
    rw [List.cons_append, evaluateBlock] at h
    obtain ⟨w, m₁, -, h⟩ := exists_ok_of_bind h
    exact ih h

/-- **The value of a tagged node has its static type for a class**, whatever
the machine that it is evaluated on. -/
theorem Tagged.classOf_evaluate {n : Node} (h : n.Tagged) {type : String}
    (ht : n.staticType? = some type) (hv : n.evaluate σ m = .ok v m') :
    ∃ c, v.classOf = .ok c ∧ c.name = type := by
  induction h generalizing m v m' with
  | literal hc =>
    cases ht
    rw [evaluate] at hv
    cases hv
    exact ⟨_, hc, rfl⟩
  | declaration x t b =>
    cases ht
    rcases evaluate_declaration σ x t b m with ⟨e, he⟩ | ⟨m₁, hm₁, -⟩
    · rw [he] at hv
      cases hv
    · rw [hm₁] at hv
      cases hv
      exact ⟨.symbol, rfl, rfl⟩
  | assignment x _ ih =>
    obtain ⟨m₁, hn⟩ := evaluate_of_assignment hv
    exact ih ht hn
  | @block ns _ ih =>
    rw [staticType?] at ht
    rw [evaluate] at hv
    -- the value of a block is that of its last node
    rcases List.eq_nil_or_concat ns with rfl | ⟨init, k, rfl⟩
    · cases ht
      cases hv
      exact ⟨.any, rfl, rfl⟩
    · rw [List.concat_eq_append] at ht hv
      rw [lastStaticType?_concat] at ht
      obtain ⟨m₁, hk⟩ := evaluate_of_block hv
      exact ih k (by simp) ht hk
  | identifier => cases ht
  | call => cases ht
  | unknown => cases ht

end Node

/-! ### Definitions -/

/-- A definition whose initial value has a static type declares its name with
that type, whether it was written or not. -/
theorem Node.definition_of_staticType {x type : String} {written : Option String} {b : Bool}
    {n k : Node} (ht : n.staticType? = some type) (hk : definition x written b n = .ok k) :
    k = block [declaration x type b, assignment x n] := by
  unfold definition definitionType at hk
  rw [ht] at hk
  rcases written with - | t
  · dsimp only at hk
    split at hk <;> cases hk
    rfl
  · dsimp only at hk
    split at hk <;> cases hk
    next heq => rw [heq]

/-- A new name can be declared with a built-in class. -/
theorem Store.Rooted.declare_builtin {s : Store} (h : s.Rooted) {c : Class}
    (hc : c ∈ Class.builtin) {x : String} (hx : s.symbols.find? x = none) (b : Bool) :
    s.declare x c.name b = .ok { s with symbols := s.symbols.insert x ⟨x, c, b⟩ } := by
  have hlookup : s.lookupClass? c.name = some c :=
    lookupClass?_eq_some_iff.mpr (get_eq_ok_iff.mpr ⟨_, h c hc⟩)
  rw [declare_of_absent hx, resolveType_eq_ok_iff.mpr hlookup]
  rfl

/-- A declaration succeeds if the change does. -/
theorem Node.evaluate_declaration_of_ok [Host] (σ : Settings) {m : Machine} {x type : String}
    {b : Bool} {t : Store} (hd : m.store.declare x type b = .ok t) :
    ∃ m', (declaration x type b).evaluate σ m = .ok (.symbol x) m' ∧ m'.store = t := by
  have hupdate : update (·.declare x type b) m = .ok () { m with store := t } := by
    simp only [update, hd]
  obtain ⟨m', hm', hstore⟩ := exists_trace σ 2 (declarationLine x type b) { m with store := t }
  refine ⟨m', ?_, hstore⟩
  rw [evaluate, bind_of_ok hupdate, bind_of_ok hm']
  rfl

/-- What an assignment to a name does when the value has the declared class: it
fails only if the name is set and takes one value. -/
theorem Store.assign_of_fit {s : Store} {x : String} {y : Symbol} {v : Value}
    (hy : s.symbols.find? x = some y) (hc : v.classOf = .ok y.declared) :
    (∃ t, s.assign x v = .ok t) ∨
      y.isMutable = false ∧ (∃ w, s.get x = .ok w) ∧
        s.assign x v = .error (.failure (.immutable x)) := by
  rw [assign_of_symbol hy, hc]
  split
  · next hset =>
    obtain ⟨w, hw⟩ := Option.isSome_iff_exists.mp hset.1
    exact .inr ⟨hset.2, ⟨w, get_eq_ok_iff.mpr ⟨y, hy, hw⟩⟩, rfl⟩
  · exact .inl ⟨_, if_pos rfl⟩

namespace Node

variable [Host]
variable {σ : Settings} {m m' : Machine} {x : String}

/-- An assignment whose value cannot be found fails as the value does. -/
theorem evaluate_assignment_of_error {n : Node} {e : Fault} (hn : n.evaluate σ m = .error e m') :
    (assignment x n).evaluate σ m = .error e m' := by
  rw [evaluate, bind_of_error hn]

/-- An assignment that the store refuses fails as the store does. -/
theorem evaluate_assignment_of_refused {n : Node} {v : Value} {e : Fault}
    (hn : n.evaluate σ m = .ok v m') (ha : m'.store.assign x v = .error e) :
    (assignment x n).evaluate σ m = .error e m' := by
  rw [evaluate, bind_of_ok hn]
  apply bind_of_error
  simp only [update, ha]

/-- The assignment of a tagged value to a name of its static type fails only if
the value does, or if finding the value has set the name and it takes one
value. -/
theorem Tagged.evaluate_assignment {n : Node} (h : n.Tagged) {c : Class}
    (ht : n.staticType? = some c.name) (hm : m.store.Coherent) {b : Bool}
    (hx : m.store.symbols.find? x = some ⟨x, c, b⟩) {v : Value}
    (hv : n.evaluate σ m = .ok v m') :
    (∃ m'', (Node.assignment x n).evaluate σ m = .ok v m'' ∧ m''.store.get x = .ok v) ∨
      b = false ∧ (∃ w, m'.store.get x = .ok w) ∧
        (Node.assignment x n).evaluate σ m = .error (.failure (.immutable x)) m' := by
  -- whatever the evaluation did, the name has kept its symbol
  have hkeeps : Keeps m.store m'.store := by
    have hevolves := n.evolves_evaluate σ m
    rw [final, hv] at hevolves
    exact hevolves.keeps hm
  have hfit : v.classOf = .ok c := by
    obtain ⟨⟨name⟩, hc, rfl⟩ := h.classOf_evaluate ht hv
    exact hc
  rcases assign_of_fit (hkeeps.symbol hx) hfit with ⟨t, hassign⟩ | ⟨hb, hset, hassign⟩
  · obtain ⟨m'', hm'', rfl⟩ := evaluate_assignment_of_ok hv hassign
    exact .inl ⟨m'', hm'', get_of_assign hassign⟩
  · exact .inr ⟨hb, hset, evaluate_assignment_of_refused hv hassign⟩

end Node

namespace Session

/-- **Static types are sound.**  If the literals of a node carry the class of
what they stand for and the node has a static type, its value has a class of
that name.  So every definition by such a node that the static check lets pass
gets past its declaration, for a name that is not declared; and once the initial
value is there, the definition succeeds, unless the initial value itself has set
the name and the name takes one value. -/
theorem staticType_sound [Host] {s : Session} (h : s.Reachable) (σ : Settings) {n : Node}
    (hn : n.Tagged) {type : String} (ht : n.staticType? = some type) :
    (∀ v m, n.evaluate σ s.machine = .ok v m → ∃ c, v.classOf = .ok c ∧ c.name = type) ∧
    ∀ (x : String) (written : Option String) (isMutable : Bool) (k : Node),
      s.machine.store.isDefined x = false →
      Node.definition x written isMutable n = .ok k →
      k = .block [.declaration x type isMutable, .assignment x n] ∧
      ∃ m, (Node.declaration x type isMutable).evaluate σ s.machine = .ok (.symbol x) m ∧
        (∀ e m', n.evaluate σ m = .error e m' → k.evaluate σ s.machine = .error e m') ∧
        ∀ v m', n.evaluate σ m = .ok v m' →
          (∃ m'', k.evaluate σ s.machine = .ok v m'' ∧ m''.store.get x = .ok v) ∨
          isMutable = false ∧ (∃ w, m'.store.get x = .ok w) ∧
            k.evaluate σ s.machine = .error (.failure (.immutable x)) m' := by
  refine ⟨fun v m hv => hn.classOf_evaluate ht hv, ?_⟩
  intro x written isMutable k hx hk
  have hx := isDefined_eq_false_iff.mp hx
  obtain ⟨c, hc, rfl⟩ := hn.exists_builtin ht
  obtain rfl := Node.definition_of_staticType ht hk
  refine ⟨rfl, ?_⟩
  have hdeclare := h.rooted.declare_builtin hc hx isMutable
  obtain ⟨m, hm, hstore⟩ := Node.evaluate_declaration_of_ok σ hdeclare
  have hsymbol : m.store.symbols.find? x = some ⟨x, c, isMutable⟩ := by
    rw [hstore]
    exact Table.find?_insert_self _ _ _
  -- the declaration comes first, and the value is evaluated behind it
  have hcoherent : m.store.Coherent := by
    rw [hstore]
    exact (evolves_of_declare hdeclare).coherent h.coherent
  refine ⟨m, hm, ?_, ?_⟩
  · -- the value fails, and so does the definition
    intro e m' he
    rw [Node.evaluate_pair, bind_of_ok hm]
    exact Node.evaluate_assignment_of_error he
  · -- it has a value, which is assigned unless the initializer has set the name
    intro v m' hv
    rw [Node.evaluate_pair, bind_of_ok hm]
    exact hn.evaluate_assignment ht hcoherent hsymbol hv

/-- A mutable name whose initial value, of static type `Int`, sets the name
itself before it gives its value. -/
theorem staticType_sound_of_self_setting :
    let s := standard {} []
    let n : Node := .block [.assignment "x" (.literal (some (.int 1)) "Int"),
      .literal (some (.int 2)) "Int"]
    s.Reachable ∧ n.Tagged ∧ n.staticType? = some "Int" ∧
      ∃ k m, Node.definition "x" none true n = .ok k ∧
        k.evaluate {} s.machine = .ok (.int 2) m ∧ m.store.get "x" = .ok (.int 2) := by
  intro s n
  have hs : s.Reachable := reachable_standard {} []
  have hn : n.Tagged := by
    refine .block (List.forall_mem_cons.mpr ⟨.assignment "x" ?_, List.forall_mem_singleton.mpr ?_⟩)
    · exact .literal (c := .int) rfl
    · exact .literal (c := .int) rfl
  have ht : n.staticType? = some "Int" := rfl
  obtain ⟨-, m, hm, -, hvalue⟩ := (staticType_sound hs {} hn ht).2 "x" none true _ rfl rfl
  obtain ⟨m', hm'⟩ : ∃ m', n.evaluate {} m = .ok (.int 2) m' := by
    cases hm
    exact ⟨_, rfl⟩
  rcases hvalue _ m' hm' with ⟨m'', hk, hget⟩ | ⟨⟨⟩, -⟩
  exact ⟨hs, hn, ht, _, m'', rfl, hk, hget⟩

end Session

end LineScript
