/-
LineScript/Proofs/FirstValues.lean

A name that gets its first value at once.

`declareAndAssign` declares a name with the class of a value and then assigns
the value to it.  If the second step failed, nothing would take the first one
back, and the name would be left declared and unset.  It cannot fail:

* the class of a value is bound to itself under its own name, whatever a session
  has done (`Store.Rooted`), so that the declaration finds exactly that class;
* a name that is new has no value yet (`Store.Coherent`), so that the assignment
  is not refused either, be the name mutable or not.

The store after it is therefore `Store.enter`, the old one with one more name, or
it is the old store.  A definition by a literal without a written type becomes
the same two steps as nodes, and comes to the same (`Node.evaluate_firstValue`).
-/
import LineScript.Proofs.StaticTypes

namespace LineScript

open Run

/-! ### Entering a name -/

namespace Store

variable {s : Store} {y : Symbol} {v : Value} {z : String}

/-- The store with one more name, which holds a value. -/
def enter (s : Store) (y : Symbol) (v : Value) : Store :=
  ⟨s.symbols.insert y.name y, s.values.insert y v⟩

theorem getSymbol_enter (s : Store) (y : Symbol) (v : Value) :
    (s.enter y v).getSymbol y.name = .ok y :=
  getSymbol_eq_ok_iff.mpr (Table.find?_insert_self _ _ _)

theorem get_enter (s : Store) (y : Symbol) (v : Value) : (s.enter y v).get y.name = .ok v :=
  get_eq_ok_iff.mpr ⟨y, Table.find?_insert_self _ _ _, Table.find?_insert_self _ _ _⟩

/-- Entering a name leaves the other names alone. -/
theorem Coherent.sameAt_enter (h : s.Coherent) (y : Symbol) (v : Value) (hz : z ≠ y.name) :
    SameAt s (s.enter y v) z := by
  apply sameAt_of_find?
  · exact Table.find?_insert_of_ne _ hz y
  · intro b hb
    -- the symbol of another name has that other name
    have hne : b ≠ y := by
      rintro rfl
      exact hz (h.named hb).symm
    exact Table.find?_insert_of_ne _ hne v

/-- A name that is unset behind an entry was so before it. -/
theorem Coherent.unset_of_enter (h : s.Coherent) {y : Symbol} {v : Value}
    (hz : (s.enter y v).get z = .error (.failure (.unset z))) :
    s.get z = .error (.failure (.unset z)) := by
  by_cases hzy : z = y.name
  · subst hzy
    rw [get_enter] at hz
    cases hz
  · rw [← (h.sameAt_enter y v hzy).2, hz]

end Store

/-! ### The same two steps as nodes -/

namespace Node

variable {v : Value} {c : Class}

/-- Declare a name with a class, and give it a first value. -/
def firstValue (x : String) (c : Class) (isMutable : Bool) (v : Value) : Node :=
  .block [.declaration x c.name isMutable, .assignment x (.literal (some v) c.name)]

/-- The literal of a value carries the class of the value. -/
theorem ofValue_of_classOf (hc : v.classOf = .ok c) :
    ofValue v = .ok (.literal (some v) c.name) := by
  cases v with
  | foreign d => cases hc
  | _ =>
    cases hc
    rfl

/-- A definition by a literal that is not `null` needs no type. -/
theorem definition_literal (hc : v.classOf = .ok c) (hv : v ≠ .null) (x : String)
    (isMutable : Bool) :
    definition x none isMutable (.literal (some v) c.name)
      = .ok (firstValue x c isMutable v) := by
  have hany : c.name ≠ Class.any.name := by
    intro hname
    obtain rfl : c = .any := congrArg Class.mk hname
    exact hv (Store.eq_null_of_classOf hc)
  simp only [definition, definitionType, staticType?, if_neg hany]
  rfl

variable [Host]

/-- A first value is entered if the name is new; otherwise nothing is done. -/
theorem evaluate_firstValue (σ : Settings) {m : Machine} (hm : m.store.Coherent)
    (hr : m.store.Rooted) (hc : v.classOf = .ok c) (x : String) (isMutable : Bool) :
    (m.store.isDefined x = false →
      ∃ m', (firstValue x c isMutable v).evaluate σ m = .ok v m' ∧
        m'.store = m.store.enter ⟨x, c, isMutable⟩ v) ∧
    (m.store.isDefined x = true →
      (firstValue x c isMutable v).evaluate σ m = .error (.failure (.taken x)) m) := by
  rw [firstValue, evaluate_pair]
  constructor
  · -- the declaration makes the symbol, and the assignment sets it
    intro hx
    have hx := Store.isDefined_eq_false_iff.mp hx
    have hdeclare := hr.declare_builtin (Store.mem_builtin_of_classOf hc) hx isMutable
    obtain ⟨m', hm', hstore⟩ := evaluate_declaration_of_ok σ hdeclare
    have hassign := hm.assign_declared (m := isMutable) hx hc
    rw [← hstore] at hassign
    have hliteral : (literal (some v) c.name).evaluate σ m' = .ok v m' := by
      rw [evaluate]
      rfl
    rw [bind_of_ok hm']
    exact evaluate_assignment_of_ok hliteral hassign
  · -- the declaration is refused, so nothing is assigned
    intro hx
    have hdeclare : m.store.declare x c.name isMutable = .error (.failure (.taken x)) := by
      rw [Store.declare, if_pos hx]
    rw [evaluate]
    apply bind_of_error
    apply bind_of_error
    simp only [update, hdeclare]

end Node

/-- Running a node that has a value gives the value, and changes the store as
evaluating the node does. -/
theorem Run.node_of_ok [Host] (σ : Settings) {n : Node} {m m' : Machine} {v : Value} {c : Class}
    (hn : n.evaluate σ m = .ok v m') (hc : v.classOf = .ok c) :
    ∃ m'', Run.node σ n m = .ok v m'' ∧ m''.store = m'.store := by
  obtain ⟨m'', hm'', hstore⟩ := exists_conclude σ hc m'
  refine ⟨m'', ?_, hstore⟩
  rw [Run.node, hn]
  exact hm''

/-- Running a node that fails gives the failure, and changes the store as
evaluating the node does. -/
theorem Run.node_of_failure [Host] (σ : Settings) {n : Node} {m m' : Machine} {f : Failure}
    (hn : n.evaluate σ m = .error (.failure f) m') :
    ∃ m'', Run.node σ n m = .error (.failure f) m'' ∧ m''.store = m'.store := by
  obtain ⟨m'', hm'', hstore⟩ := exists_trace σ 1 (failureLine f) m'
  refine ⟨m'', ?_, hstore⟩
  rw [Run.node, hn]
  simp only [hm'']

/-! ### Steps of a session -/

namespace Session

section AnyHost

variable [Host]

variable {s : Session} {step : Step}

/-- A session with another store. -/
def withStore (s : Session) (t : Store) : Session :=
  ⟨s.settings, { s.machine with store := t }⟩

@[simp] theorem store_withStore (s : Session) (t : Store) :
    (s.withStore t).machine.store = t := rfl

/-- A step that makes changes to the store up to the first that fails. -/
theorem perform_updateAll {f : Store → Store × Except Fault Unit} {a : Answer}
    (hsettings : settingsAfter s.settings step = s.settings)
    (haction : action s.settings step = do Run.updateAll f; return a) :
    s.perform step
      = (s.withStore (f s.machine.store).1, (f s.machine.store).2.map fun _ => a) := by
  unfold perform
  rw [haction, hsettings]
  simp only [Bind.bind, EStateM.bind, updateAll]
  rcases f s.machine.store with ⟨t, e | u⟩ <;> rfl

theorem perform_declareAndAssign_of_defined {x : String}
    (hx : s.machine.store.isDefined x = true) (v : Value) (isMutable : Bool) :
    s.perform (.declareAndAssign x v isMutable) = (s, .error (.failure (.taken x))) := by
  rw [perform_updateAll rfl rfl, Store.declareAndAssign, if_pos hx]
  rfl

/-- What the step does to a name that is not declared. -/
theorem Reachable.perform_declareAndAssign (h : s.Reachable) {x : String}
    (hx : s.machine.store.isDefined x = false) (v : Value) (isMutable : Bool) :
    s.perform (.declareAndAssign x v isMutable) = match v.classOf with
      | .ok c => (s.withStore (s.machine.store.enter ⟨x, c, isMutable⟩ v), .ok (.value v))
      | .error e => (s, .error e) := by
  have hx := Store.isDefined_eq_false_iff.mp hx
  rw [perform_updateAll rfl rfl, Store.declareAndAssign_of_absent h.coherent h.rooted hx]
  rcases v.classOf with e | c <;> rfl

/-- A name that is unset behind the step was so before it. -/
theorem Reachable.unset_of_declareAndAssign (h : s.Reachable) {x z : String} {v : Value}
    {isMutable : Bool}
    (hz : (s.perform (.declareAndAssign x v isMutable)).1.machine.store.get z
      = .error (.failure (.unset z))) :
    s.machine.store.get z = .error (.failure (.unset z)) := by
  rcases hx : s.machine.store.isDefined x with - | -
  · rw [h.perform_declareAndAssign hx] at hz
    rcases hc : v.classOf with e | c
    · rw [hc] at hz
      exact hz
    · rw [hc] at hz
      exact h.coherent.unset_of_enter hz
  · rw [perform_declareAndAssign_of_defined hx] at hz
    exact hz

/-- A step that does a run and answers with its value. -/
theorem perform_value {r : Run Value} (hsettings : settingsAfter s.settings step = s.settings)
    (haction : action s.settings step = Answer.value <$> r) :
    s.perform step = match r s.machine with
      | .ok v m => (⟨s.settings, m⟩, .ok (.value v))
      | .error e m => (⟨s.settings, m⟩, .error e) := by
  unfold perform
  rw [haction, hsettings]
  simp only [Functor.map, EStateM.map]
  rcases r s.machine with ⟨v, m⟩ | ⟨e, m⟩ <;> rfl

/-- Evaluating a first value, with a trace or without, answers as the one step
does and leaves the same store. -/
theorem Reachable.perform_firstValue (h : s.Reachable) {v : Value} {c : Class}
    (hc : v.classOf = .ok c) (x : String) (isMutable : Bool) :
    let n := Node.firstValue x c isMutable v
    let done := s.perform (.declareAndAssign x v isMutable)
    ∀ step ∈ [Step.evaluate n, .run n],
      (s.perform step).2 = done.2 ∧
      (s.perform step).1.machine.store = done.1.machine.store := by
  intro n done
  have hn : ∀ σ, _ := fun σ =>
    Node.evaluate_firstValue σ h.coherent h.rooted hc x isMutable
  have hevaluate : s.perform (.evaluate n) = _ := perform_value rfl rfl
  have hrun : s.perform (.run n) = _ := perform_value rfl rfl
  rw [List.forall_mem_cons, List.forall_mem_singleton]
  rcases hx : s.machine.store.isDefined x with - | -
  · -- the name is new: both ways enter it with its value
    have hdone : done = _ := h.perform_declareAndAssign hx v isMutable
    rw [hc] at hdone
    obtain ⟨m, hm, hstore⟩ := (hn (quiet s.settings)).1 hx
    obtain ⟨m', hm', hstore'⟩ := (hn s.settings).1 hx
    obtain ⟨m'', hm'', hstore''⟩ := Run.node_of_ok s.settings hm' hc
    rw [hm] at hevaluate
    rw [hm''] at hrun
    rw [hdone, hevaluate, hrun]
    exact ⟨⟨rfl, hstore⟩, rfl, hstore''.trans hstore'⟩
  · -- the name is taken: both ways fail as they start
    have hdone : done = _ := perform_declareAndAssign_of_defined hx v isMutable
    obtain ⟨m'', hm'', hstore''⟩ := Run.node_of_failure s.settings ((hn s.settings).2 hx)
    rw [(hn (quiet s.settings)).2 hx] at hevaluate
    rw [hm''] at hrun
    rw [hdone, hevaluate, hrun]
    exact ⟨⟨rfl, rfl⟩, rfl, hstore''⟩

/-- **A first value is given at once or not at all.**  Declaring and assigning in
one step succeeds exactly if the name is not declared; the store then has one
more name, of the class of the value and with that value, and all else is as it
was.  A name that is declared is refused, and so is what is no value, and
nothing is changed.  No name is ever left unset by it.  For a value other than
`null` the definition by its literal gives the same answer or failure, and the
same store. -/
theorem declareAndAssign_atomic (h : s.Reachable) (x : String) (v : Value)
    (isMutable : Bool) :
    let before := s.machine.store
    let done := s.perform (.declareAndAssign x v isMutable)
    let after := done.1.machine.store
    (∀ c, v.classOf = .ok c →
      (done.2 = .ok (.value v) ↔ before.isDefined x = false) ∧
      (before.isDefined x = false →
        after = before.enter ⟨x, c, isMutable⟩ v ∧
        after.getSymbol x = .ok ⟨x, c, isMutable⟩ ∧ after.get x = .ok v ∧
        ∀ z, z ≠ x → Store.SameAt before after z)) ∧
    (before.isDefined x = true → done = (s, .error (.failure (.taken x)))) ∧
    ((∀ c, v.classOf ≠ .ok c) → ∃ e, done = (s, .error e)) ∧
    (∀ z, after.get z = .error (.failure (.unset z)) →
      before.get z = .error (.failure (.unset z))) ∧
    ∀ c, v.classOf = .ok c → v ≠ .null →
      ∃ n k, Node.ofValue v = .ok n ∧ Node.definition x none isMutable n = .ok k ∧
        ∀ step ∈ [Step.evaluate k, .run k],
          (s.perform step).2 = done.2 ∧ (s.perform step).1.machine.store = after := by
  intro before done after
  have htaken : before.isDefined x = true → done = (s, .error (.failure (.taken x))) :=
    fun hx => perform_declareAndAssign_of_defined hx v isMutable
  have hnew : ∀ c, v.classOf = .ok c → before.isDefined x = false →
      done = (s.withStore (before.enter ⟨x, c, isMutable⟩ v), .ok (.value v)) := by
    intro c hc hx
    have hdone : done = _ := h.perform_declareAndAssign hx v isMutable
    rw [hdone, hc]
  -- a value of no class is refused, under a new name or under a taken one
  have hforeign : (∀ c, v.classOf ≠ .ok c) → ∃ e, done = (s, .error e) := by
    intro hv
    rcases hx : before.isDefined x with - | -
    · have hdone : done = _ := h.perform_declareAndAssign hx v isMutable
      rcases hc : v.classOf with e | c
      · rw [hc] at hdone
        exact ⟨e, hdone⟩
      · exact absurd hc (hv c)
    · exact ⟨_, htaken hx⟩
  refine ⟨fun c hc => ⟨⟨?_, ?_⟩, ?_⟩, htaken, hforeign,
    fun z hz => h.unset_of_declareAndAssign hz, ?_⟩
  · -- success means that the name was new
    intro hdone
    rcases hx : before.isDefined x with - | -
    · rfl
    · rw [htaken hx] at hdone
      cases hdone
  · intro hx
    rw [hnew c hc hx]
  · intro hx
    have hafter : after = before.enter ⟨x, c, isMutable⟩ v := by
      show done.1.machine.store = _
      rw [hnew c hc hx, store_withStore]
    rw [hafter]
    exact ⟨rfl, Store.getSymbol_enter _ _ _, Store.get_enter _ _ _,
      fun z hz => h.coherent.sameAt_enter _ _ hz⟩
  · -- the block that the definition desugars to does the same
    intro c hc hv
    exact ⟨_, _, Node.ofValue_of_classOf hc, Node.definition_literal hc hv x isMutable,
      h.perform_firstValue hc x isMutable⟩

end AnyHost

/-- A text for a new name, in a session where a variable has held the class of
texts and holds another one now. -/
theorem declareAndAssign_atomic_of_text :
    let s := (standard {} []).performAll
      [.declareAndAssign "T" (.ofClass .str) true, .assign "T" (.ofClass .int)]
    let done := s.perform (.declareAndAssign "x" (.str "a") false)
    s.Reachable ∧ s.machine.store.get "T" = .ok (.ofClass .int) ∧
      done.2 = .ok (.value (.str "a")) ∧
      done.1.machine.store.getSymbol "x" = .ok ⟨"x", .str, false⟩ ∧
      ∃ n k, Node.ofValue (.str "a") = .ok n ∧ Node.definition "x" none false n = .ok k ∧
        (s.perform (.evaluate k)).1.machine.store = done.1.machine.store := by
  intro s done
  have hs : s.Reachable := (reachable_standard {} []).performAll _
  obtain ⟨hvalue, -, -, -, hdefinition⟩ := declareAndAssign_atomic hs "x" (.str "a") false
  obtain ⟨hdone, hentry⟩ := hvalue .str rfl
  obtain ⟨n, k, hn, hk, hsteps⟩ := hdefinition .str rfl (by simp)
  exact ⟨hs, rfl, hdone.mpr rfl, (hentry rfl).2.1, n, k, hn, hk,
    (hsteps _ List.mem_cons_self).2⟩

end Session

end LineScript
