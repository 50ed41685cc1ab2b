/-
LineScript/Proofs/Registration.lean

Registering classes and functions: once is enough, and the order is free.

Registering goes through a list and binds each name that is new.  A name that is
declared must hold the same already, and functions are the same if their
signatures are; so everything here is said of values apart from the bodies of
functions (`Value.outline`).

What a successful registration comes to is told by `Registered s es t`, which
never mentions the order of the entries `es`:

* a name that was declared stands for what it stood for;
* a name that is new is immutable, and is one of `es`;
* every entry of `es` is borne by `t`.

One registration has this form (`registered_of_register`), and two of them one
after the other have it again (`Registered.trans`).  Two stores that come from
one store in this way by the same entries are alike, and whether there is such a
store at all depends on the entries as a set (`exists_registerAll_iff`).

The classes that a function mentions are looked up before it is registered, in a
store to which the functions before it have been added.  That makes no
difference: a function is no class, so adding it neither binds a class nor
covers one (`Registered.lookupClass?_eq`).
-/
import LineScript.Proofs.FirstValues

namespace LineScript

/-! ### Values apart from bodies -/

namespace Value

variable {v w : Value}

/-- A value, with the body of a function left out. -/
def outline : Value → Value
  | function s _ => function s .nothing
  | v => v

/-- The values that are registered. -/
inductive IsBuiltin : Value → Prop
  | ofClass (c : Class) : IsBuiltin (.ofClass c)
  | function (s : Signature) (b : Native) : IsBuiltin (.function s b)

theorem classOf_outline (v : Value) : v.outline.classOf = v.classOf := by
  cases v <;> rfl

theorem asClass?_outline (v : Value) : v.outline.asClass? = v.asClass? := by
  cases v <;> rfl

/-- Values are equal to a class or a function if they have its outline. -/
theorem IsBuiltin.equal_iff (hv : v.IsBuiltin) : w.equal v = true ↔ w.outline = v.outline := by
  cases hv <;> cases w <;> simp [equal, outline]

theorem IsBuiltin.exists_classOf (hv : v.IsBuiltin) : ∃ c, v.classOf = .ok c := by
  cases hv <;> exact ⟨_, rfl⟩

end Value

/-- The name and the value under which a class is registered. -/
def Class.entry (c : Class) : String × Value :=
  (c.name, .ofClass c)

/-- The name and the value under which a function is registered. -/
def Function.entry (f : Function) : String × Value :=
  (f.signature.name, f.toValue)

namespace Store

variable {r s t u : Store} {x z : String} {y : Symbol} {v w : Value}

/-! ### What names hold -/

theorem isDefined_eq_true_iff : s.isDefined x = true ↔ ∃ y, s.getSymbol x = .ok y := by
  simp only [isDefined, Table.contains, Option.isSome_iff_exists, getSymbol_eq_ok_iff]

theorem SameAt.isDefined_eq (h : SameAt s t z) : t.isDefined z = s.isDefined z := by
  rw [Bool.eq_iff_iff, isDefined_eq_true_iff, isDefined_eq_true_iff, h.1]

/-- The name `x` holds `v`, up to the body of a function. -/
def Bears (s : Store) (x : String) (v : Value) : Prop :=
  ∃ w, s.get x = .ok w ∧ w.outline = v.outline

theorem Bears.isDefined (h : s.Bears x v) : s.isDefined x = true := by
  obtain ⟨w, hw, -⟩ := h
  obtain ⟨y, hy, -⟩ := get_eq_ok_iff.mp hw
  exact isDefined_of_symbol hy

theorem Bears.of_sameAt (h : s.Bears x v) (hst : SameAt s t x) : t.Bears x v := by
  obtain ⟨w, hw, hout⟩ := h
  exact ⟨w, hst.2.trans hw, hout⟩

/-- A name bears one value only. -/
theorem Bears.outline_eq (h : s.Bears x v) (h' : s.Bears x w) : v.outline = w.outline := by
  obtain ⟨a, ha, hv⟩ := h
  obtain ⟨b, hb, hw⟩ := h'
  rw [ha] at hb
  cases hb
  exact hv.symm.trans hw

/-- Registering succeeds on a name that bears the value, and does nothing, and on
a name that is new, and enters it. -/
theorem register_eq_ok_iff (hv : v.IsBuiltin) {c : Class} (hc : v.classOf = .ok c) :
    s.register x v = .ok t ↔
      s.Bears x v ∧ t = s ∨ s.isDefined x = false ∧ t = s.enter ⟨x, c, false⟩ v := by
  rcases hy : s.symbols.find? x with - | y
  · -- a new name bears nothing
    have hnew : s.isDefined x = false := isDefined_eq_false_iff.mpr hy
    have hnot : ¬ s.Bears x v := by
      intro h
      rw [h.isDefined] at hnew
      cases hnew
    rw [register_of_absent hy, hc]
    simp only [Except.map, Except.ok.injEq, hnew, hnot, false_and, true_and, false_or]
    exact eq_comm
  · -- a name that is held is never entered
    have hold : s.isDefined x = true := isDefined_of_symbol hy
    have hbears : s.Bears x v ↔ ∃ w, s.values.find? y = some w ∧ w.equal v = true := by
      simp only [Bears, get_eq_ok_iff, hy, Option.some.injEq, exists_eq_left', hv.equal_iff]
    rw [register_of_symbol hy, hbears]
    rcases s.values.find? y with - | w
    · simp [hold]
    · by_cases heq : w.equal v = true
      · simp only [heq, if_true, Except.ok.injEq, Option.some.injEq, exists_eq_left', hold,
          true_and, reduceCtorEq, false_and, or_false]
        exact eq_comm
      · simp [hold, heq]

/-! ### What registering comes to -/

/-- The store `t` is `s` with the entries `es` registered, in whatever order. -/
structure Registered (s : Store) (es : List (String × Value)) (t : Store) : Prop where
  /-- What was declared stands for what it stood for. -/
  kept : ∀ {z}, s.isDefined z = true → SameAt s t z
  /-- No other names are declared. -/
  absent : ∀ {z}, s.isDefined z = false → (∀ e ∈ es, e.1 ≠ z) → t.isDefined z = false
  /-- What is new is immutable. -/
  fixed : ∀ {z y}, s.isDefined z = false → t.getSymbol z = .ok y → y.isMutable = false
  /-- Every entry is there. -/
  borne : ∀ e ∈ es, t.Bears e.1 e.2

variable {es es' : List (String × Value)}

theorem Registered.refl (s : Store) : Registered s [] s where
  kept := fun _ => SameAt.refl s _
  absent := fun hz _ => hz
  fixed := by
    intro z y hz hy
    rw [isDefined_eq_true_iff.mpr ⟨y, hy⟩] at hz
    cases hz
  borne := fun e he => absurd he List.not_mem_nil

/-- **Registering one entry.** -/
theorem registered_of_register (h : s.Coherent) (hv : v.IsBuiltin)
    (ht : s.register x v = .ok t) : Registered s [(x, v)] t := by
  obtain ⟨c, hc⟩ := hv.exists_classOf
  rcases (register_eq_ok_iff hv hc).mp ht with ⟨hbears, rfl⟩ | ⟨hnew, rfl⟩
  · -- the name bears the value already, and nothing changes
    have hrefl := Registered.refl t
    exact ⟨hrefl.kept, fun hz _ => hz, hrefl.fixed, List.forall_mem_singleton.mpr hbears⟩
  · -- the name is entered, and all others are as they were
    have hsame : ∀ {z}, z ≠ x → SameAt s (s.enter ⟨x, c, false⟩ v) z :=
      fun hz => h.sameAt_enter _ _ hz
    refine ⟨?_, ?_, ?_, ?_⟩
    · intro z hz
      apply hsame
      rintro rfl
      rw [hz] at hnew
      cases hnew
    · intro z hz hne
      rw [(hsame (Ne.symm (hne _ List.mem_cons_self))).isDefined_eq]
      exact hz
    · intro z y hz hy
      by_cases hzx : z = x
      · subst hzx
        rw [show (s.enter ⟨z, c, false⟩ v).getSymbol z = _ from getSymbol_enter _ _ _] at hy
        cases hy
        rfl
      · rw [← (hsame hzx).isDefined_eq, isDefined_eq_true_iff.mpr ⟨y, hy⟩] at hz
        cases hz
    · rw [List.forall_mem_singleton]
      exact ⟨v, get_enter _ _ _, rfl⟩

/-- **Registering some entries, and then others.** -/
theorem Registered.trans (h : Registered r es s) (h' : Registered s es' t) :
    Registered r (es ++ es') t := by
  -- what the first entries have declared is kept by the others
  have hkept : ∀ {z}, s.isDefined z = true → SameAt s t z := h'.kept
  refine ⟨?_, ?_, ?_, ?_⟩
  · intro z hz
    have hrs := h.kept hz
    exact hrs.trans (hkept (hrs.isDefined_eq.trans hz))
  · intro z hz hne
    rw [List.forall_mem_append] at hne
    exact h'.absent (h.absent hz hne.1) hne.2
  · intro z y hz hy
    rcases hs : s.isDefined z with - | -
    · exact h'.fixed hs hy
    · exact h.fixed hz ((hkept hs).1.symm.trans hy)
  · rw [List.forall_mem_append]
    refine ⟨fun e he => ?_, h'.borne⟩
    have hbears := h.borne e he
    exact hbears.of_sameAt (hkept hbears.isDefined)

/-! ### Registering a list -/

/-- Register entries one after the other. -/
def registerAll : Store → List (String × Value) → Except Fault Store
  | s, [] => .ok s
  | s, e :: es => (s.register e.1 e.2).bind fun t => t.registerAll es

theorem registerAll_cons_eq_ok_iff {e : String × Value} :
    s.registerAll (e :: es) = .ok t ↔
      ∃ r, s.register e.1 e.2 = .ok r ∧ r.registerAll es = .ok t := by
  rw [registerAll]
  rcases s.register e.1 e.2 with f | r <;> simp [Except.bind]

theorem coherent_of_registerAll (h : s.Coherent) (ht : s.registerAll es = .ok t) :
    t.Coherent := by
  induction es generalizing s with
  | nil =>
    cases ht
    exact h
  | cons e es ih =>
    obtain ⟨r, hr, hrest⟩ := registerAll_cons_eq_ok_iff.mp ht
    exact ih ((evolves_of_register hr).coherent h) hrest

theorem registered_of_registerAll (h : s.Coherent) (hes : ∀ e ∈ es, e.2.IsBuiltin)
    (ht : s.registerAll es = .ok t) : Registered s es t := by
  induction es generalizing s with
  | nil =>
    cases ht
    exact Registered.refl t
  | cons e es ih =>
    rw [List.forall_mem_cons] at hes
    obtain ⟨r, hr, hrest⟩ := registerAll_cons_eq_ok_iff.mp ht
    have hfirst := registered_of_register h hes.1 hr
    exact hfirst.trans (ih ((evolves_of_register hr).coherent h) hes.2 hrest)

/-- Entries that are there can be registered, and change nothing. -/
theorem registerAll_of_borne (hes : ∀ e ∈ es, e.2.IsBuiltin)
    (h : ∀ e ∈ es, s.Bears e.1 e.2) : s.registerAll es = .ok s := by
  induction es with
  | nil => rfl
  | cons e es ih =>
    rw [List.forall_mem_cons] at hes h
    obtain ⟨c, hc⟩ := hes.1.exists_classOf
    have hregister := (register_eq_ok_iff hes.1 hc).mpr (.inl ⟨h.1, rfl⟩)
    exact registerAll_cons_eq_ok_iff.mpr ⟨s, hregister, ih hes.2 h.2⟩

/-- Entries that clash neither with what is declared nor with each other. -/
structure Admits (s : Store) (es : List (String × Value)) : Prop where
  held : ∀ e ∈ es, s.isDefined e.1 = true → s.Bears e.1 e.2
  agree : ∀ e ∈ es, ∀ e' ∈ es, e.1 = e'.1 → e.2.outline = e'.2.outline

theorem Registered.admits (h : Registered s es t) : s.Admits es where
  held := by
    intro e he hdefined
    have hsame := h.kept hdefined
    exact (h.borne e he).of_sameAt ⟨hsame.1.symm, hsame.2.symm⟩
  agree := by
    intro e he e' he' hname
    have hbears := h.borne e' he'
    rw [← hname] at hbears
    exact (h.borne e he).outline_eq hbears

theorem Admits.of_mem (h : s.Admits es) (hes : ∀ e ∈ es', e ∈ es) : s.Admits es' where
  held := fun e he => h.held e (hes e he)
  agree := fun e he e' he' => h.agree e (hes e he) e' (hes e' he')

/-- Behind the first entry the others can still be registered. -/
theorem Admits.of_cons {e : String × Value} (h : s.Admits (e :: es))
    (hr : Registered s [e] r) : r.Admits es where
  held := by
    intro e' he' hdefined
    have hmem : e' ∈ e :: es := List.mem_cons_of_mem e he'
    rcases hs : s.isDefined e'.1 with - | -
    · -- the name was declared by the first entry, which agrees with this one
      have hname : e.1 = e'.1 := by
        by_contra hne
        rw [hr.absent hs (List.forall_mem_singleton.mpr hne)] at hdefined
        cases hdefined
      obtain ⟨w, hw, hout⟩ := hr.borne e List.mem_cons_self
      rw [hname] at hw
      exact ⟨w, hw, hout.trans (h.agree e List.mem_cons_self e' hmem hname)⟩
    · exact (h.held e' hmem hs).of_sameAt (hr.kept hs)
  agree := fun e he e' he' => h.agree e (List.mem_cons_of_mem _ he) e' (List.mem_cons_of_mem _ he')

/-- **Entries can be registered exactly if they do not clash.** -/
theorem exists_registerAll_iff (h : s.Coherent) (hes : ∀ e ∈ es, e.2.IsBuiltin) :
    (∃ t, s.registerAll es = .ok t) ↔ s.Admits es := by
  constructor
  · rintro ⟨t, ht⟩
    exact (registered_of_registerAll h hes ht).admits
  · intro hadmits
    induction es generalizing s with
    | nil => exact ⟨s, rfl⟩
    | cons e es ih =>
      rw [List.forall_mem_cons] at hes
      obtain ⟨c, hc⟩ := hes.1.exists_classOf
      -- the first entry goes through, since the list is admitted
      obtain ⟨r, hr⟩ : ∃ r, s.register e.1 e.2 = .ok r := by
        simp only [register_eq_ok_iff hes.1 hc]
        rcases hs : s.isDefined e.1 with - | -
        · exact ⟨_, .inr ⟨rfl, rfl⟩⟩
        · exact ⟨s, .inl ⟨hadmits.held e List.mem_cons_self hs, rfl⟩⟩
      have hfirst := registered_of_register h hes.1 hr
      obtain ⟨t, ht⟩ := ih ((evolves_of_register hr).coherent h) hes.2 (hadmits.of_cons hfirst)
      exact ⟨t, registerAll_cons_eq_ok_iff.mpr ⟨r, hr, ht⟩⟩

/-! ### Stores that are alike -/

/-- The same symbols and the same values, up to the bodies of functions and the
order of the entries. -/
structure Alike (s t : Store) : Prop where
  symbols : ∀ x, s.symbols.find? x = t.symbols.find? x
  values : ∀ y, (s.values.find? y).map Value.outline = (t.values.find? y).map Value.outline

/-- The value of a symbol is the value of its name. -/
theorem Coherent.values_eq (h : s.Coherent) (y : Symbol) :
    s.values.find? y
      = if s.symbols.find? y.name = some y then (s.get y.name).toOption else none := by
  rcases hv : s.values.find? y with - | v
  · split
    · next hy =>
      rw [get_of_symbol hy, hv]
      rfl
    · rfl
  · have hy := h.owned hv
    rw [if_pos hy, get_of_symbol hy, hv]
    rfl

/-- Coherent stores are alike if every name stands for the same. -/
theorem alike_of_names (hs : s.Coherent) (ht : t.Coherent)
    (h : ∀ z, s.getSymbol z = t.getSymbol z ∧
      (s.get z).toOption.map Value.outline = (t.get z).toOption.map Value.outline) :
    Alike s t := by
  have hsymbols : ∀ x, s.symbols.find? x = t.symbols.find? x := by
    intro x
    apply Option.ext
    intro y
    rw [← getSymbol_eq_ok_iff, ← getSymbol_eq_ok_iff, (h x).1]
  refine ⟨hsymbols, ?_⟩
  intro y
  rw [hs.values_eq, ht.values_eq, hsymbols]
  split
  · exact (h y.name).2
  · rfl

/-- The symbol of a name that is new and bears a value. -/
theorem Registered.getSymbol_eq (h : Registered s es t) (ht : t.Coherent)
    (hz : s.isDefined z = false) (hbears : t.Bears z v) {c : Class} (hc : v.classOf = .ok c) :
    t.getSymbol z = .ok ⟨z, c, false⟩ := by
  obtain ⟨w, hw, hout⟩ := hbears
  obtain ⟨⟨name, declared, isMutable⟩, hy, hv⟩ := get_eq_ok_iff.mp hw
  have hsymbol := getSymbol_eq_ok_iff.mpr hy
  -- coherence gives the name and the class
  have hname := ht.named hy
  have hclass := ht.typed hv
  have hfixed := h.fixed hz hsymbol
  rw [← Value.classOf_outline, hout, Value.classOf_outline, hc] at hclass
  cases hclass
  dsimp only at hname hfixed
  rw [hsymbol, hname, hfixed]

/-- **The same entries, registered in whatever order, give stores that are alike.** -/
theorem Registered.alike (h : Registered s es t) (h' : Registered s es' u) (ht : t.Coherent)
    (hu : u.Coherent) (hbuiltin : ∀ e ∈ es, e.2.IsBuiltin) (hes : ∀ e, e ∈ es ↔ e ∈ es') :
    Alike t u := by
  apply alike_of_names ht hu
  intro z
  rcases hz : s.isDefined z with - | -
  · by_cases hmem : ∃ e ∈ es, e.1 = z
    · -- an entry of both lists, so both stores bear it
      obtain ⟨e, he, rfl⟩ := hmem
      have hbears := h.borne e he
      have hbears' := h'.borne e ((hes e).mp he)
      obtain ⟨c, hc⟩ := (hbuiltin e he).exists_classOf
      rw [h.getSymbol_eq ht hz hbears hc, h'.getSymbol_eq hu hz hbears' hc]
      obtain ⟨w, hw, hout⟩ := hbears
      obtain ⟨w', hw', hout'⟩ := hbears'
      rw [hw, hw']
      exact ⟨rfl, congrArg some (hout.trans hout'.symm)⟩
    · -- no entry of either
      have hne : ∀ e ∈ es, e.1 ≠ z := fun e he hname => hmem ⟨e, he, hname⟩
      have hnot := isDefined_eq_false_iff.mp (h.absent hz hne)
      have hnot' := isDefined_eq_false_iff.mp
        (h'.absent hz fun e he => hne e ((hes e).mpr he))
      rw [getSymbol_of_absent hnot, getSymbol_of_absent hnot', get_of_absent hnot,
        get_of_absent hnot']
      exact ⟨rfl, rfl⟩
  · -- both stores have kept what was there
    obtain ⟨hsymbol, hvalue⟩ := h.kept hz
    obtain ⟨hsymbol', hvalue'⟩ := h'.kept hz
    rw [hsymbol, hsymbol', hvalue, hvalue']
    exact ⟨rfl, rfl⟩

/-! ### Classes and functions -/

/-- Whether the classes of a function are known. -/
def Knows (s : Store) (f : Function) : Prop :=
  ∀ c ∈ f.signature.mentioned, s.lookupClass? c.name = some c

theorem checkClasses_eq_ok_iff {cs : List Class} :
    s.checkClasses cs = .ok () ↔ ∀ c ∈ cs, s.lookupClass? c.name = some c := by
  induction cs with
  | nil => simp [checkClasses]
  | cons c cs ih =>
    rw [checkClasses, List.forall_mem_cons]
    split
    · next hc => simp only [hc, true_and, ih]
    · next hc => simp only [hc, false_and, reduceCtorEq]

/-- Registering values that are no classes does not change which classes are known. -/
theorem Registered.lookupClass?_eq (h : Registered s es t)
    (hes : ∀ e ∈ es, e.2.asClass? = none) (x : String) :
    t.lookupClass? x = s.lookupClass? x := by
  apply Option.ext
  intro c
  rw [lookupClass?_eq_some_iff, lookupClass?_eq_some_iff]
  rcases hx : s.isDefined x with - | -
  · -- the name is new: before, it holds nothing, and after, at most one of the entries
    rw [get_of_absent (isDefined_eq_false_iff.mp hx)]
    refine ⟨fun hc => ?_, fun hc => by cases hc⟩
    by_cases hmem : ∃ e ∈ es, e.1 = x
    · obtain ⟨e, he, rfl⟩ := hmem
      have hclass := hes e he
      rw [← Value.asClass?_outline, (h.borne e he).outline_eq ⟨_, hc, rfl⟩] at hclass
      cases hclass
    · have hnot := h.absent hx fun e he hname => hmem ⟨e, he, hname⟩
      rw [get_of_absent (isDefined_eq_false_iff.mp hnot)] at hc
      cases hc
  · rw [(h.kept hx).2]

theorem registerClasses_eq_ok_iff {cs : List Class} :
    s.registerClasses cs = (t, .ok ()) ↔
      s.registerAll (cs.map Class.entry) = .ok t := by
  induction cs generalizing s with
  | nil => simp [registerClasses, registerAll]
  | cons c cs ih =>
    rw [registerClasses, List.map_cons, registerAll_cons_eq_ok_iff]
    show _ ↔ ∃ r, s.register c.name (.ofClass c) = .ok r ∧ _
    rcases s.register c.name (.ofClass c) with e | r
    · simp
    · simp [ih]

theorem registerFunction_eq_ok_iff {f : Function} :
    s.registerFunction f = .ok t ↔ s.Knows f ∧ s.register f.signature.name f.toValue = .ok t := by
  rw [Knows, ← checkClasses_eq_ok_iff]
  refine ⟨registerFunction_eq_ok, ?_⟩
  rintro ⟨hclasses, hregister⟩
  rw [registerFunction, hclasses]
  exact hregister

/-- What is asked of the classes can be asked before anything is registered. -/
theorem registerFunctions_eq_ok_iff (h : s.Coherent) {fs : List Function} :
    s.registerFunctions fs = (t, .ok ()) ↔
      (∀ f ∈ fs, s.Knows f) ∧ s.registerAll (fs.map Function.entry) = .ok t := by
  induction fs generalizing s with
  | nil => simp [registerFunctions, registerAll]
  | cons f fs ih =>
    rw [registerFunctions, List.map_cons, registerAll_cons_eq_ok_iff, List.forall_mem_cons]
    rcases hf : s.registerFunction f with e | r
    · have hnot : ∀ r, ¬ (s.Knows f ∧ s.register f.signature.name f.toValue = .ok r) := by
        intro r hr
        rw [registerFunction_eq_ok_iff.mpr hr] at hf
        cases hf
      simp only [Prod.mk.injEq, reduceCtorEq, and_false, false_iff]
      rintro ⟨⟨hknows, -⟩, r, hr, -⟩
      exact hnot r ⟨hknows, hr⟩
    · obtain ⟨hknows, hr⟩ := registerFunction_eq_ok_iff.mp hf
      have hfirst := registered_of_register h (.function _ _) hr
      -- the first function is no class
      have hsame : ∀ g, r.Knows g ↔ s.Knows g := by
        intro g
        simp only [Knows, hfirst.lookupClass?_eq (List.forall_mem_singleton.mpr rfl)]
      show _ ↔ _ ∧ ∃ r, s.register f.signature.name f.toValue = .ok r ∧ _
      simp only [ih ((evolves_of_register hr).coherent h), hsame, hknows, hr, true_and,
        Except.ok.injEq, exists_eq_left']

/-! ### Once, and in any order -/

/-- What it means that going through a list with `g` can be done again, and in
another order; `same` tells which members of the lists count as one. -/
structure OnceInAnyOrder {α : Type} (g : Store → List α → Store × Except Fault Unit)
    (same : α → α → Prop) (s : Store) : Prop where
  /-- Doing it again succeeds and changes nothing. -/
  again : ∀ as bs t, g s as = (t, .ok ()) → (∀ b ∈ bs, ∃ a ∈ as, same a b) →
    g t bs = (t, .ok ())
  /-- In another order it succeeds as well. -/
  perm : ∀ as bs, as.Perm bs → ((∃ t, g s as = (t, .ok ())) ↔ ∃ u, g s bs = (u, .ok ()))
  /-- In another order it comes to the same. -/
  alike : ∀ as bs t u, as.Perm bs → g s as = (t, .ok ()) → g s bs = (u, .ok ()) → Alike t u

/-- The names and values of a list can be registered once and in any order, and so
can the list itself if it asks nothing but what registering does not change. -/
theorem onceInAnyOrder_of_entries {α : Type} {g : Store → List α → Store × Except Fault Unit}
    {same : α → α → Prop} (entry : α → String × Value) (asks : Store → α → Prop)
    (hg : ∀ {s t as}, s.Coherent →
      (g s as = (t, .ok ()) ↔ (∀ a ∈ as, asks s a) ∧ s.registerAll (as.map entry) = .ok t))
    (hasks : ∀ {s t} {as : List α} {a}, Registered s (as.map entry) t → asks s a → asks t a)
    (hbuiltin : ∀ a, (entry a).2.IsBuiltin)
    (hsame : ∀ {a b}, same a b →
      (entry a).1 = (entry b).1 ∧ (entry a).2.outline = (entry b).2.outline ∧
        ∀ {s}, asks s a → asks s b)
    (h : s.Coherent) : OnceInAnyOrder g same s := by
  have hentries : ∀ as : List α, ∀ e ∈ as.map entry, e.2.IsBuiltin := by
    intro as e he
    obtain ⟨a, -, rfl⟩ := List.mem_map.mp he
    exact hbuiltin a
  have hmem : ∀ {as bs : List α}, as.Perm bs → ∀ e, e ∈ as.map entry ↔ e ∈ bs.map entry :=
    fun hperm e => (hperm.map entry).mem_iff
  refine ⟨?_, ?_, ?_⟩
  · -- what is registered again is borne already
    intro as bs t hfirst hagain
    obtain ⟨hasked, ht⟩ := (hg h).mp hfirst
    have hregistered := registered_of_registerAll h (hentries as) ht
    refine (hg (coherent_of_registerAll h ht)).mpr ⟨?_, ?_⟩
    · intro b hb
      obtain ⟨a, ha, hab⟩ := hagain b hb
      exact hasks hregistered ((hsame hab).2.2 (hasked a ha))
    · apply registerAll_of_borne (hentries bs)
      intro e he
      obtain ⟨b, hb, rfl⟩ := List.mem_map.mp he
      obtain ⟨a, ha, hab⟩ := hagain b hb
      obtain ⟨hname, hout, -⟩ := hsame hab
      obtain ⟨w, hw, hwa⟩ := hregistered.borne _ (List.mem_map_of_mem ha)
      exact ⟨w, hname ▸ hw, hwa.trans hout⟩
  · -- being admitted does not hang on the order
    intro as bs hperm
    have hadmits : s.Admits (as.map entry) ↔ s.Admits (bs.map entry) := by
      constructor
      · exact fun ha => ha.of_mem fun e he => (hmem hperm e).mpr he
      · exact fun hb => hb.of_mem fun e he => (hmem hperm e).mp he
    simp only [hg h, exists_and_left, exists_registerAll_iff h (hentries _), hadmits,
      hperm.mem_iff]
  · -- and neither does what is borne in the end
    intro as bs t u hperm hfirst hother
    have ht := ((hg h).mp hfirst).2
    have hu := ((hg h).mp hother).2
    exact (registered_of_registerAll h (hentries as) ht).alike
      (registered_of_registerAll h (hentries bs) hu) (coherent_of_registerAll h ht)
      (coherent_of_registerAll h hu) (hentries as) (hmem hperm)

end Store

namespace Session

section AnyHost

variable [Host]

variable {s : Session}

/-- **Registering once is enough, and the order is free.**  In whatever a session
has come to: functions that have been registered can be registered again, with
whatever bodies, and the store is left exactly as it was, so that the bodies that
came first are kept; in another order they are registered if they were in the
first, and the stores are alike.  So it is with classes. -/
theorem registration_onceInAnyOrder (h : s.Reachable) :
    Store.OnceInAnyOrder Store.registerFunctions (fun f g => f.signature = g.signature)
      s.machine.store ∧
    Store.OnceInAnyOrder Store.registerClasses (fun c d => c = d) s.machine.store := by
  constructor
  · -- functions, which ask for the classes they name
    apply Store.onceInAnyOrder_of_entries Function.entry Store.Knows
    · exact fun h => Store.registerFunctions_eq_ok_iff h
    · intro s t fs f hregistered hknows c hc
      rw [hregistered.lookupClass?_eq, hknows c hc]
      intro e he
      obtain ⟨g, -, rfl⟩ := List.mem_map.mp he
      rfl
    · exact fun f => .function _ _
    · intro f g hfg
      refine ⟨congrArg Signature.name hfg, congrArg (Value.function · .nothing) hfg, ?_⟩
      intro s hknows
      rw [Store.Knows, ← hfg]
      exact hknows
    · exact h.coherent
  · -- classes, which ask for nothing
    apply Store.onceInAnyOrder_of_entries Class.entry fun _ _ => True
    · intro s t cs _
      rw [Store.registerClasses_eq_ok_iff]
      simp
    · exact fun _ _ => trivial
    · exact fun c => .ofClass c
    · rintro c d rfl
      exact ⟨rfl, rfl, id⟩
    · exact h.coherent

end AnyHost

/-- Two functions of which one comes twice, with another body, where a variable
holds the first of them already. -/
theorem registration_onceInAnyOrder_of_held :
    let f : Function := ⟨⟨"f", [.int], some .str⟩, .text⟩
    let f' : Function := ⟨⟨"f", [.int], some .str⟩, .print⟩
    let g : Function := ⟨⟨"g", [.any], none⟩, .nothing⟩
    let s := (standard {} []).performAll [.declareAndAssign "f" f.toValue true]
    let done := s.machine.store.registerFunctions [f', g, f]
    s.Reachable ∧ done.2 = .ok () ∧ done.1.get "f" = .ok f.toValue ∧
      done.1.registerFunctions [f', g, f] = done ∧
      ∃ u, s.machine.store.registerFunctions [g, f, f'] = (u, .ok ()) ∧
        Store.Alike done.1 u := by
  intro f f' g s done
  have hs : s.Reachable := (reachable_standard {} []).performAll _
  have hperm : ([f'] ++ [g, f]).Perm ([g, f] ++ [f']) := List.perm_append_comm
  have hdone : s.machine.store.registerFunctions [f', g, f] = (done.1, .ok ()) := rfl
  obtain ⟨hagain, horder, halike⟩ := (registration_onceInAnyOrder hs).1
  obtain ⟨u, hu⟩ := (horder _ _ hperm).mp ⟨_, hdone⟩
  exact ⟨hs, rfl, rfl, hagain _ _ _ hdone fun b hb => ⟨b, hb, rfl⟩, u, hu,
    halike _ _ _ _ hperm hdone hu⟩

end Session

end LineScript
