/-
LineScript/Proofs/Changes.lean

What can happen to a store.

There are three kinds of change, given by `Change` with the conditions under
which each is made:

* a new name is declared and holds nothing yet;
* a declared name that is unset or mutable gets a value of its class;
* a new name is bound to a value for good.

Every operation is a sequence of changes, also one that fails on the way
(`Evolves`).  What holds after every change therefore holds after every
operation, and later modules never look into an operation again.
-/
import LineScript.Store
import Mathlib.Logic.Relation
import Mathlib.Order.Defs.Unbundled

namespace LineScript

/-! ### Values that are classes -/

theorem Value.asClass?_eq_some_iff {v : Value} {c : Class} :
    v.asClass? = some c ↔ v = .ofClass c := by
  cases v <;> simp [asClass?]

namespace Store

variable {s t : Store} {x : String} {y : Symbol} {v : Value}

/-! ### Looking up -/

theorem isDefined_eq_false_iff : s.isDefined x = false ↔ s.symbols.find? x = none := by
  rw [isDefined, Table.contains, Option.isSome_eq_false_iff, Option.isNone_iff_eq_none]

theorem isDefined_of_symbol (h : s.symbols.find? x = some y) : s.isDefined x = true := by
  rw [isDefined, Table.contains, h]
  rfl

theorem getSymbol_eq_ok_iff : s.getSymbol x = .ok y ↔ s.symbols.find? x = some y := by
  unfold getSymbol
  rcases s.symbols.find? x with - | z <;> simp

theorem getSymbol_of_absent (h : s.symbols.find? x = none) :
    s.getSymbol x = .error (.failure (.undefined x)) := by
  rw [getSymbol, h]

/-- What a declared name gives. -/
theorem get_of_symbol (h : s.symbols.find? x = some y) :
    s.get x = match s.values.find? y with
      | some v => .ok v
      | none => .error (.failure (.unset x)) := by
  rw [get, getSymbol_eq_ok_iff.mpr h]
  simp only [bind, Except.bind]
  rcases s.values.find? y with - | w <;> rfl

theorem get_of_absent (h : s.symbols.find? x = none) :
    s.get x = .error (.failure (.undefined x)) := by
  rw [get, getSymbol_of_absent h]
  rfl

theorem get_eq_ok_iff :
    s.get x = .ok v ↔ ∃ y, s.symbols.find? x = some y ∧ s.values.find? y = some v := by
  rcases hy : s.symbols.find? x with - | y
  · rw [get_of_absent hy]
    simp
  · rw [get_of_symbol hy]
    rcases hw : s.values.find? y with - | w <;> simp [hw]

theorem lookupClass?_eq_some_iff {c : Class} :
    s.lookupClass? x = some c ↔ s.get x = .ok (.ofClass c) := by
  rw [get_eq_ok_iff]
  simp [lookupClass?, Option.bind_eq_some_iff, Value.asClass?_eq_some_iff]

theorem resolveType_eq_ok_iff {c : Class} :
    s.resolveType x = .ok c ↔ s.lookupClass? x = some c := by
  rw [lookupClass?_eq_some_iff, get_eq_ok_iff, ← Option.bind_eq_some_iff, resolveType]
  rcases (s.symbols.find? x).bind s.values.find? with - | v
  · simp
  · rcases v with - | - | - | - | - | - | - | - | - | - <;>
      simp [Value.asClass?, Value.classOf, bind, Except.bind, throw, throwThe, MonadExceptOf.throw]

/-! ### Declaring, assigning, registering -/

theorem declare_of_absent (h : s.symbols.find? x = none) (type : String) (m : Bool) :
    s.declare x type m = (s.resolveType type).map fun c =>
      { s with symbols := s.symbols.insert x ⟨x, c, m⟩ } := by
  rw [declare, if_neg (by simp [isDefined_eq_false_iff.mpr h])]
  rcases s.resolveType type with e | c <;> rfl

theorem declare_of_symbol (h : s.symbols.find? x = some y) (type : String) (m : Bool) :
    s.declare x type m = .error (.failure (.taken x)) := by
  rw [declare, if_pos (isDefined_of_symbol h)]

theorem declare_eq_ok {type : String} {m : Bool} (h : s.declare x type m = .ok t) :
    s.symbols.find? x = none ∧
      ∃ c, s.resolveType type = .ok c ∧
        t = { s with symbols := s.symbols.insert x ⟨x, c, m⟩ } := by
  rcases hx : s.symbols.find? x with - | y
  · rw [declare_of_absent hx] at h
    rcases hc : s.resolveType type with e | c
    · rw [hc] at h
      cases h
    · rw [hc] at h
      cases h
      exact ⟨rfl, c, rfl, rfl⟩
  · rw [declare_of_symbol hx] at h
    cases h

theorem assign_of_absent (h : s.symbols.find? x = none) (v : Value) :
    s.assign x v = .error (.failure (.undefined x)) := by
  rw [assign, getSymbol_of_absent h]
  rfl

/-- What an assignment to a declared name does. -/
theorem assign_of_symbol (h : s.symbols.find? x = some y) (v : Value) :
    s.assign x v =
      if (s.values.find? y).isSome ∧ y.isMutable = false then .error (.failure (.immutable x))
      else match v.classOf with
        | .error e => .error e
        | .ok c =>
          if y.declared = c then .ok { s with values := s.values.insert y v }
          else .error (.failure (.unexpected x y.declared.name c.name)) := by
  rw [assign, getSymbol_eq_ok_iff.mpr h]
  simp only [bind, Except.bind, Table.contains, Bool.and_eq_true, Bool.not_eq_true', Class.fits_iff]
  split
  · rfl
  · rcases v.classOf with e | c <;> rfl

theorem assign_eq_ok (h : s.assign x v = .ok t) :
    ∃ y, s.symbols.find? x = some y ∧ (s.values.find? y = none ∨ y.isMutable = true) ∧
      v.classOf = .ok y.declared ∧ t = { s with values := s.values.insert y v } := by
  rcases hy : s.symbols.find? x with - | y
  · rw [assign_of_absent hy] at h
    cases h
  · rw [assign_of_symbol hy] at h
    split at h
    · -- the symbol is immutable and has its value
      cases h
    · next hset =>
      split at h
      · -- the value has no class
        cases h
      · next c hc =>
        split at h
        · next hfit =>
          cases h
          refine ⟨y, rfl, ?_, by rw [hc, hfit], rfl⟩
          rcases hv : s.values.find? y with - | w
          · exact .inl rfl
          · rw [hv] at hset
            exact .inr (by simpa using hset)
        · -- the class is not the declared one
          cases h

theorem get_of_assign (h : s.assign x v = .ok t) : t.get x = .ok v := by
  obtain ⟨y, hy, -, -, rfl⟩ := assign_eq_ok h
  exact get_eq_ok_iff.mpr ⟨y, hy, Table.find?_insert_self _ _ _⟩

theorem declareAndAssign_of_symbol (h : s.symbols.find? x = some y) (v : Value) (m : Bool) :
    s.declareAndAssign x v m = (s, .error (.failure (.taken x))) := by
  rw [declareAndAssign, if_pos (isDefined_of_symbol h)]

theorem declareAndAssign_eq_ok {m : Bool} (h : s.declareAndAssign x v m = (t, .ok ())) :
    s.symbols.find? x = none ∧
      ∃ c r, v.classOf = .ok c ∧ s.declare x c.name m = .ok r ∧ r.assign x v = .ok t := by
  unfold declareAndAssign at h
  split at h
  · cases h
  · split at h
    · cases h
    · next c hc =>
      split at h
      · cases h
      · next r hr =>
        split at h
        · cases h
        · next u hu =>
          cases h
          exact ⟨(declare_eq_ok hr).1, c, r, hc, hr, hu⟩

/-- Registering a new name binds it. -/
theorem register_of_absent (h : s.symbols.find? x = none) (v : Value) :
    s.register x v = v.classOf.map fun c =>
      ⟨s.symbols.insert x ⟨x, c, false⟩, s.values.insert ⟨x, c, false⟩ v⟩ := by
  rw [register, h]
  rcases v.classOf with e | c <;> rfl

/-- Registering a declared name changes nothing. -/
theorem register_of_symbol (h : s.symbols.find? x = some y) (v : Value) :
    s.register x v = match s.values.find? y with
      | some w => if w.equal v then .ok s else .error (.failure (.taken x))
      | none => .error (.failure (.taken x)) := by
  unfold register
  split
  · next z hz =>
    obtain rfl : y = z := Option.some.inj (h.symm.trans hz)
    rcases s.values.find? y with - | w <;> rfl
  · next hz =>
    rw [h] at hz
    cases hz

theorem register_eq_ok (h : s.register x v = .ok t) :
    (∃ w, s.get x = .ok w ∧ w.equal v = true ∧ t = s) ∨
      ∃ c, s.symbols.find? x = none ∧ v.classOf = .ok c ∧
        t = ⟨s.symbols.insert x ⟨x, c, false⟩, s.values.insert ⟨x, c, false⟩ v⟩ := by
  rcases hy : s.symbols.find? x with - | y
  · -- a new name is entered with its value
    rw [register_of_absent hy] at h
    rcases hc : v.classOf with e | c
    · rw [hc] at h
      cases h
    · rw [hc] at h
      cases h
      exact .inr ⟨c, rfl, rfl, rfl⟩
  · -- a held name must hold the same value
    rw [register_of_symbol hy] at h
    split at h
    · next w hw =>
      split at h
      · next heq =>
        cases h
        exact .inl ⟨w, get_eq_ok_iff.mpr ⟨y, hy, hw⟩, heq, rfl⟩
      · cases h
    · cases h

/-! ### Changes -/

/-- One change of a store. -/
inductive Change : Store → Store → Prop
  | declared {s : Store} {x : String} (c : Class) (m : Bool) :
      s.symbols.find? x = none →
      Change s { s with symbols := s.symbols.insert x ⟨x, c, m⟩ }
  | assigned {s : Store} {x : String} {y : Symbol} {v : Value} :
      s.symbols.find? x = some y → s.values.find? y = none ∨ y.isMutable = true →
      v.classOf = .ok y.declared →
      Change s { s with values := s.values.insert y v }
  | bound {s : Store} {x : String} {c : Class} {v : Value} :
      s.symbols.find? x = none → v.classOf = .ok c →
      Change s ⟨s.symbols.insert x ⟨x, c, false⟩, s.values.insert ⟨x, c, false⟩ v⟩

/-- Some changes, one after the other. -/
def Evolves : Store → Store → Prop :=
  Relation.ReflTransGen Change

theorem Evolves.refl (s : Store) : Evolves s s :=
  Relation.ReflTransGen.refl

theorem Evolves.trans {r s t : Store} (h : Evolves r s) (h' : Evolves s t) : Evolves r t :=
  Relation.ReflTransGen.trans h h'

instance : IsTrans Store Evolves :=
  ⟨fun _ _ _ => Evolves.trans⟩

theorem Change.evolves (h : Change s t) : Evolves s t :=
  Relation.ReflTransGen.single h

/-! ### Operations make changes -/

theorem evolves_of_declare {type : String} {m : Bool} (h : s.declare x type m = .ok t) :
    Evolves s t := by
  obtain ⟨hx, c, -, rfl⟩ := declare_eq_ok h
  exact (Change.declared c m hx).evolves

theorem evolves_of_assign (h : s.assign x v = .ok t) : Evolves s t := by
  obtain ⟨y, hy, hset, hc, rfl⟩ := assign_eq_ok h
  exact (Change.assigned hy hset hc).evolves

theorem evolves_of_register (h : s.register x v = .ok t) : Evolves s t := by
  obtain ⟨-, -, -, rfl⟩ | ⟨c, hx, hc, rfl⟩ := register_eq_ok h
  · exact Evolves.refl t
  · exact (Change.bound hx hc).evolves

theorem evolves_declareAndAssign (s : Store) (x : String) (v : Value) (m : Bool) :
    Evolves s (s.declareAndAssign x v m).1 := by
  unfold declareAndAssign
  split
  · exact Evolves.refl s
  · split
    · exact Evolves.refl s
    · split
      · exact Evolves.refl s
      · next t hd =>
        split
        · exact evolves_of_declare hd
        · next u ha => exact (evolves_of_declare hd).trans (evolves_of_assign ha)

theorem evolves_registerClasses (s : Store) (cs : List Class) :
    Evolves s (s.registerClasses cs).1 := by
  induction cs generalizing s with
  | nil => exact Evolves.refl s
  | cons c cs ih =>
    unfold registerClasses
    split
    · next t ht => exact (evolves_of_register ht).trans (ih t)
    · exact Evolves.refl s

theorem registerFunction_eq_ok {f : Function} (h : s.registerFunction f = .ok t) :
    s.checkClasses f.signature.mentioned = .ok () ∧
      s.register f.signature.name f.toValue = .ok t := by
  unfold registerFunction at h
  rcases hc : s.checkClasses f.signature.mentioned with e | u
  · rw [hc] at h
    cases h
  · rw [hc] at h
    exact ⟨rfl, h⟩

theorem evolves_registerFunctions (s : Store) (fs : List Function) :
    Evolves s (s.registerFunctions fs).1 := by
  induction fs generalizing s with
  | nil => exact Evolves.refl s
  | cons f fs ih =>
    unfold registerFunctions
    split
    · next t ht => exact (evolves_of_register (registerFunction_eq_ok ht).2).trans (ih t)
    · exact Evolves.refl s

end Store

end LineScript
