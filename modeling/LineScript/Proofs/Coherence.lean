/-
LineScript/Proofs/Coherence.lean

The two tables of a store fit together, and what is bound stays bound.

`Coherent` is the invariant that makes the values, which are found by symbol,
belong to names: a symbol stands under its own name, only the symbol that a
name has can have a value, and the value has the declared class.  `Keeps s t`
says that `t` takes back nothing that `s` has settled:

* the symbol of a name stays;
* a name that is set stays set;
* an immutable name that is set keeps its value.

Each change preserves the first and gives the second, which needs the first: a
name that is bound anew must not find an old value under its symbol.  Both
carry over to any number of changes.

Under coherence one change concerns one name: `SameAt s t z` says that the name
`z` stands for the same in both stores, and it holds of every name but the one
that is declared or assigned.
-/
import LineScript.Proofs.Changes
import LineScript.Proofs.Entries

namespace LineScript.Store

variable {s t : Store} {x : String} {y : Symbol} {v : Value}

/-! ### Coherence -/

/-- Symbols and values fit together. -/
structure Coherent (s : Store) : Prop where
  symbols_distinct : s.symbols.Distinct
  values_distinct : s.values.Distinct
  named : ∀ {x y}, s.symbols.find? x = some y → y.name = x
  owned : ∀ {y v}, s.values.find? y = some v → s.symbols.find? y.name = some y
  typed : ∀ {y v}, s.values.find? y = some v → v.classOf = .ok y.declared

theorem coherent_empty : Coherent empty where
  symbols_distinct := Table.distinct_empty
  values_distinct := Table.distinct_empty
  named := fun h => by cases h
  owned := fun h => by cases h
  typed := fun h => by cases h

/-- No value waits for a name that is not declared. -/
theorem Coherent.unset_of_absent (h : s.Coherent) (hy : s.symbols.find? y.name = none) :
    s.values.find? y = none := by
  rcases hv : s.values.find? y with - | v
  · rfl
  · rw [h.owned hv] at hy
    cases hy

theorem Coherent.declared (h : s.Coherent) (c : Class) (m : Bool)
    (hx : s.symbols.find? x = none) :
    Coherent { s with symbols := s.symbols.insert x ⟨x, c, m⟩ } where
  symbols_distinct := h.symbols_distinct.insert _ _
  values_distinct := h.values_distinct
  named := by
    intro z y hz
    rw [Table.find?_insert] at hz
    split at hz
    · next hzx =>
      cases hz
      exact hzx.symm
    · exact h.named hz
  owned := by
    intro y v hv
    have hy := h.owned hv
    -- `x` has no symbol yet, so no value is owned by it
    have hne : y.name ≠ x := by
      rintro rfl
      rw [hx] at hy
      cases hy
    rw [Table.find?_insert_of_ne _ hne]
    exact hy
  typed := h.typed

theorem Coherent.assigned (h : s.Coherent) (hy : s.symbols.find? x = some y)
    (hc : v.classOf = .ok y.declared) :
    Coherent { s with values := s.values.insert y v } where
  symbols_distinct := h.symbols_distinct
  values_distinct := h.values_distinct.insert _ _
  named := h.named
  owned := by
    intro z w hw
    rw [Table.find?_insert] at hw
    split at hw
    · -- `z` is the symbol that is set
      next hzy =>
      rw [hzy, h.named hy]
      exact hy
    · exact h.owned hw
  typed := by
    intro z w hw
    rw [Table.find?_insert] at hw
    split at hw
    · next hzy =>
      cases hw
      rw [hzy]
      exact hc
    · exact h.typed hw

/-! ### Other names -/

/-- Two stores in which a name stands for the same. -/
def SameAt (s t : Store) (z : String) : Prop :=
  t.getSymbol z = s.getSymbol z ∧ t.get z = s.get z

theorem SameAt.refl (s : Store) (z : String) : SameAt s s z :=
  ⟨rfl, rfl⟩

theorem SameAt.trans {r s t : Store} {z : String} (h : SameAt r s z) (h' : SameAt s t z) :
    SameAt r t z :=
  ⟨h'.1.trans h.1, h'.2.trans h.2⟩

/-- A name stands for the same if it has the same symbol, and that symbol the
same value. -/
theorem sameAt_of_find? {z : String} (hs : t.symbols.find? z = s.symbols.find? z)
    (hv : ∀ b, s.symbols.find? z = some b → t.values.find? b = s.values.find? b) :
    SameAt s t z := by
  refine ⟨by rw [getSymbol, hs, getSymbol], ?_⟩
  rcases hb : s.symbols.find? z with - | b
  · rw [get_of_absent hb, get_of_absent (hs.trans hb)]
  · rw [get_of_symbol hb, get_of_symbol (hs.trans hb), hv b hb]

theorem sameAt_declared {z : String} (hz : z ≠ x) (y : Symbol) :
    SameAt s { s with symbols := s.symbols.insert x y } z :=
  sameAt_of_find? (Table.find?_insert_of_ne _ hz y) fun _ _ => rfl

/-- Other names have other symbols. -/
theorem Coherent.symbol_ne (h : s.Coherent) {z : String} {b : Symbol}
    (hb : s.symbols.find? z = some b) (hy : s.symbols.find? x = some y) (hz : z ≠ x) :
    b ≠ y := by
  rintro rfl
  exact hz ((h.named hb).symm.trans (h.named hy))

theorem Coherent.sameAt_assigned (h : s.Coherent) (hy : s.symbols.find? x = some y)
    {z : String} (hz : z ≠ x) (v : Value) :
    SameAt s { s with values := s.values.insert y v } z := by
  refine sameAt_of_find? (t := { s with values := s.values.insert y v }) rfl ?_
  intro b hb
  exact Table.find?_insert_of_ne _ (h.symbol_ne hb hy hz) v

theorem sameAt_of_declare {type : String} {m : Bool} (ht : s.declare x type m = .ok t)
    {z : String} (hz : z ≠ x) : SameAt s t z := by
  obtain ⟨-, c, -, rfl⟩ := declare_eq_ok ht
  exact sameAt_declared hz _

theorem Coherent.sameAt_of_assign (h : s.Coherent) (ht : s.assign x v = .ok t) {z : String}
    (hz : z ≠ x) : SameAt s t z := by
  obtain ⟨y, hy, -, -, rfl⟩ := assign_eq_ok ht
  exact h.sameAt_assigned hy hz v

/-- A name that was just declared has no value. -/
theorem Coherent.get_of_declare (h : s.Coherent) {type : String} {m : Bool}
    (ht : s.declare x type m = .ok t) : t.get x = .error (.failure (.unset x)) := by
  obtain ⟨hx, c, -, rfl⟩ := declare_eq_ok ht
  have hunset : s.values.find? ⟨x, c, m⟩ = none := h.unset_of_absent hx
  rw [get_of_symbol (Table.find?_insert_self _ _ _)]
  rw [hunset]

/-- A name that was just declared takes a value of its class. -/
theorem Coherent.assign_declared (h : s.Coherent) (hx : s.symbols.find? x = none) {c : Class}
    {m : Bool} (hc : v.classOf = .ok c) :
    assign { s with symbols := s.symbols.insert x ⟨x, c, m⟩ } x v
      = .ok ⟨s.symbols.insert x ⟨x, c, m⟩, s.values.insert ⟨x, c, m⟩ v⟩ := by
  have hself : (s.symbols.insert x ⟨x, c, m⟩).find? x = some ⟨x, c, m⟩ :=
    Table.find?_insert_self _ _ _
  have hunset : s.values.find? ⟨x, c, m⟩ = none := h.unset_of_absent hx
  rw [assign_of_symbol hself, hc]
  simp [hunset]

/-! ### Changes preserve coherence -/

theorem Change.coherent (hst : Change s t) (h : s.Coherent) : t.Coherent := by
  cases hst with
  | declared c m hx => exact h.declared c m hx
  | assigned hy _ hc => exact h.assigned hy hc
  | bound hx hc =>
    -- a new name is bound by declaring it and giving it its value
    exact (h.declared _ false hx).assigned (Table.find?_insert_self _ _ _) hc

theorem Evolves.coherent (hst : Evolves s t) (h : s.Coherent) : t.Coherent := by
  induction hst with
  | refl => exact h
  | tail _ hstep ih => exact hstep.coherent ih

/-! ### What is settled stays so -/

/-- `t` keeps what is settled in `s`. -/
structure Keeps (s t : Store) : Prop where
  symbol : ∀ {x y}, s.symbols.find? x = some y → t.symbols.find? x = some y
  set : ∀ {y v}, s.values.find? y = some v → ∃ w, t.values.find? y = some w
  fixed : ∀ {y v}, y.isMutable = false → s.values.find? y = some v →
    t.values.find? y = some v

theorem Keeps.refl (s : Store) : Keeps s s :=
  ⟨fun h => h, fun h => ⟨_, h⟩, fun _ h => h⟩

theorem Keeps.trans {r s t : Store} (h : Keeps r s) (h' : Keeps s t) : Keeps r t where
  symbol := fun hy => h'.symbol (h.symbol hy)
  set := fun hv => by
    obtain ⟨w, hw⟩ := h.set hv
    exact h'.set hw
  fixed := fun hm hv => h'.fixed hm (h.fixed hm hv)

theorem keeps_declared (c : Class) (m : Bool) (hx : s.symbols.find? x = none) :
    Keeps s { s with symbols := s.symbols.insert x ⟨x, c, m⟩ } where
  symbol := by
    intro z y hy
    have hne : z ≠ x := by
      rintro rfl
      rw [hx] at hy
      cases hy
    rw [Table.find?_insert_of_ne _ hne]
    exact hy
  set := fun hv => ⟨_, hv⟩
  fixed := fun _ hv => hv

theorem keeps_assigned (hset : s.values.find? y = none ∨ y.isMutable = true) :
    Keeps s { s with values := s.values.insert y v } where
  symbol := fun h => h
  set := fun hw => Table.exists_find?_insert hw y v
  fixed := by
    intro z w hm hw
    -- an immutable symbol that is set takes no value
    have hz : z ≠ y := by
      rintro rfl
      rcases hset with h | h
      · rw [h] at hw
        cases hw
      · rw [h] at hm
        cases hm
    rw [Table.find?_insert_of_ne _ hz]
    exact hw

theorem Change.keeps (hst : Change s t) (h : s.Coherent) : Keeps s t := by
  cases hst with
  | declared c m hx => exact keeps_declared c m hx
  | assigned hy hset _ => exact keeps_assigned hset
  | bound hx hc =>
    exact (keeps_declared _ false hx).trans (keeps_assigned (.inl (h.unset_of_absent hx)))

theorem Evolves.keeps (hst : Evolves s t) (h : s.Coherent) : Keeps s t := by
  induction hst with
  | refl => exact Keeps.refl s
  | tail hsr hstep ih => exact ih.trans (hstep.keeps (Evolves.coherent hsr h))

end LineScript.Store
