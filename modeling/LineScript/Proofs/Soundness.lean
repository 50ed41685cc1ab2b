/-
LineScript/Proofs/Soundness.lean

Every store that a session can reach is sound.

A session may be given any functions, and then declare, assign, register,
evaluate and execute in any order, with failures in between.  At every moment
each symbol stands under its own name, each value belongs to the symbol that
its name has now and has the class which that symbol declares, and the
built-in classes are still bound to themselves (`Store.Sound`).

The proof has two parts.  Coherence holds of the empty store and of all that
evolves from it.  That the built-in classes are bound (`Store.Rooted`) is read
off the first store of a session, and stays because they are immutable.
-/
import LineScript.Proofs.Coherence
import LineScript.Proofs.Runs

namespace LineScript

namespace Store

variable {s t : Store}

/-! ### The built-in classes -/

/-- The symbol of a built-in class. -/
def classSymbol (c : Class) : Symbol :=
  ⟨c.name, .classes, false⟩

/-- The built-in classes are bound to themselves. -/
def Rooted (s : Store) : Prop :=
  ∀ c ∈ Class.builtin, s.symbols.find? c.name = some (classSymbol c) ∧
    s.values.find? (classSymbol c) = some (.ofClass c)

theorem rooted_withClasses : Rooted withClasses := by
  intro c hc
  simp only [Class.builtin, List.mem_cons, List.not_mem_nil, or_false] at hc
  rcases hc with rfl | rfl | rfl | rfl | rfl | rfl | rfl | rfl | rfl <;> exact ⟨rfl, rfl⟩

theorem Keeps.rooted (h : Keeps s t) (hs : s.Rooted) : t.Rooted := by
  intro c hc
  obtain ⟨hy, hv⟩ := hs c hc
  exact ⟨h.symbol hy, h.fixed rfl hv⟩

theorem coherent_withClasses : Coherent withClasses :=
  (evolves_registerClasses empty Class.builtin).coherent coherent_empty

/-- The class of a value is a built-in class. -/
theorem mem_builtin_of_classOf {v : Value} {c : Class} (h : v.classOf = .ok c) :
    c ∈ Class.builtin := by
  cases v <;> simp only [Value.classOf, Except.ok.injEq, reduceCtorEq] at h <;> subst h <;> decide

theorem eq_null_of_classOf {v : Value} (h : v.classOf = .ok .any) : v = .null := by
  cases v <;>
    simp [Value.classOf, Class.any, Class.int, Class.float, Class.bool, Class.str, Class.symbol,
      Class.classes, Class.function, Class.error] at h ⊢

theorem Rooted.get_classOf (h : s.Rooted) {v : Value} {c : Class} (hc : v.classOf = .ok c) :
    s.get c.name = .ok (.ofClass c) :=
  get_eq_ok_iff.mpr ⟨classSymbol c, h c (mem_builtin_of_classOf hc)⟩

theorem Rooted.resolveType_classOf (h : s.Rooted) {v : Value} {c : Class}
    (hc : v.classOf = .ok c) : s.resolveType c.name = .ok c :=
  resolveType_eq_ok_iff.mpr (lookupClass?_eq_some_iff.mpr (h.get_classOf hc))

/-- The class of a value is bound under its name, so declaring a name with it
and then assigning the value always succeeds. -/
theorem declareAndAssign_of_absent (h : s.Coherent) (hr : s.Rooted) {x : String}
    (hx : s.symbols.find? x = none) (v : Value) (m : Bool) :
    s.declareAndAssign x v m = match v.classOf with
      | .error e => (s, .error e)
      | .ok c => (⟨s.symbols.insert x ⟨x, c, m⟩, s.values.insert ⟨x, c, m⟩ v⟩, .ok ()) := by
  rw [declareAndAssign, if_neg (by simp [isDefined_eq_false_iff.mpr hx])]
  rcases hc : v.classOf with e | c
  · rfl
  · dsimp only
    rw [declare_of_absent hx, hr.resolveType_classOf hc]
    dsimp only [Except.map]
    rw [h.assign_declared hx hc]

/-! ### Sound stores -/

/-- A store in which every value is where it belongs. -/
structure Sound (s : Store) : Prop where
  /-- No name has two symbols, and no symbol has two values. -/
  distinct : s.symbols.Distinct ∧ s.values.Distinct
  /-- Every symbol stands under its own name. -/
  named : ∀ e ∈ s.symbols.entries, e.2.name = e.1
  /-- Every symbol with a value is the one that its name has. -/
  owned : ∀ y ∈ s.values.keys, s.symbols.find? y.name = some y
  /-- Every value has a class, and it is the declared one. -/
  typed : ∀ e ∈ s.values.entries, e.2.classOf = .ok e.1.declared
  /-- A name of class `Any` holds nothing but `null`. -/
  null_of_any : ∀ e ∈ s.values.entries, e.1.declared = .any → e.2 = .null
  /-- A name of a class that no value has holds nothing. -/
  unset_of_empty : ∀ y : Symbol, (∀ v : Value, v.classOf ≠ .ok y.declared) → y ∉ s.values.keys
  /-- Every built-in class is bound to itself, immutably. -/
  builtin : ∀ c ∈ Class.builtin, s.getSymbol c.name = .ok ⟨c.name, .classes, false⟩ ∧
    s.get c.name = .ok (.ofClass c)

theorem Coherent.sound (h : s.Coherent) (hr : s.Rooted) : s.Sound where
  distinct := ⟨h.symbols_distinct, h.values_distinct⟩
  named := by
    rintro ⟨x, y⟩ he
    exact h.named ((Table.mem_entries_iff h.symbols_distinct).mp he)
  owned := by
    intro y hy
    obtain ⟨v, hv⟩ := (Table.mem_keys_iff h.values_distinct).mp hy
    exact h.owned hv
  typed := by
    rintro ⟨y, v⟩ he
    exact h.typed ((Table.mem_entries_iff h.values_distinct).mp he)
  null_of_any := by
    rintro ⟨y, v⟩ he hany
    have hv := h.typed ((Table.mem_entries_iff h.values_distinct).mp he)
    -- only null has the class `Any`
    rw [show y.declared = Class.any from hany] at hv
    exact eq_null_of_classOf hv
  unset_of_empty := by
    intro y hy hk
    obtain ⟨v, hv⟩ := (Table.mem_keys_iff h.values_distinct).mp hk
    exact hy v (h.typed hv)
  builtin := by
    intro c hc
    obtain ⟨hy, hv⟩ := hr c hc
    exact ⟨getSymbol_eq_ok_iff.mpr hy, get_eq_ok_iff.mpr ⟨_, hy, hv⟩⟩

end Store

/-! ### Reachable sessions -/

namespace Session

section AnyHost

variable [Host]

theorem Reachable.evolves {s : Session} (h : s.Reachable) :
    Store.Evolves Store.withClasses s.machine.store := by
  induction h with
  | @created settings functions input s hs =>
    have hfs := Store.evolves_registerFunctions Store.withClasses functions
    rw [show Store.withClasses.registerFunctions functions = _ from store_of_create hs] at hfs
    exact hfs
  | performed step _ ih => exact ih.trans (evolves_perform _ step)

theorem Reachable.coherent {s : Session} (h : s.Reachable) : s.machine.store.Coherent :=
  h.evolves.coherent Store.coherent_withClasses

theorem Reachable.rooted {s : Session} (h : s.Reachable) : s.machine.store.Rooted :=
  (h.evolves.keeps Store.coherent_withClasses).rooted Store.rooted_withClasses

theorem reachable_standard (settings : Settings) (input : List String) :
    (standard settings input).Reachable :=
  .created (show create settings Function.standard input = .ok (standard settings input) from rfl)

/-- **Soundness of the store.**  Whatever functions a session is given, and
whatever steps it takes, successful or not, its store is sound. -/
theorem store_sound {s : Session} (h : s.Reachable) : s.machine.store.Sound :=
  h.coherent.sound h.rooted

end AnyHost

/-- A run in which two of four steps fail: a value of the wrong class, and a
second value for an immutable name. -/
theorem store_sound_after_failures :
    let s := (standard {} []).performAll
      [.declare "x" "Int" false, .assign "x" (.str "one"), .assign "x" (.int 1),
        .assign "x" (.int 2)]
    s.Reachable ∧ s.machine.store.get "x" = .ok (.int 1) ∧ s.machine.store.Sound :=
  have h := (reachable_standard {} []).performAll _
  ⟨h, rfl, store_sound h⟩

end Session

end LineScript
