/-
LineScript/Proofs/Permanence.lean

Bindings are permanent, and immutable names are written once.

Once a name has a symbol it has that symbol for ever, once it is set it stays
set, and once an immutable name holds a value it holds that value for ever.
All three are `Store.Keeps` along a run.

To say that at most one assignment to an immutable name ever succeeds, the
assignments that succeed are counted: `Node.assignmentsMade` follows the
evaluation of a node, also of one that fails in the end, and adds one whenever
the store takes a value for the name.  With `filled` one for a name that is
set and zero for one that is not,

    assignmentsMade + filled before ≤ filled after

holds for every node and every step as long as the name is not mutable.  The
two sides add up along a run, and `filled` is at most one.
-/
import LineScript.Proofs.Soundness

namespace LineScript

namespace Store

variable {s t : Store} {x : String} {y : Symbol} {v : Value}

/-! ### Names that are set -/

theorem Keeps.getSymbol (h : Keeps s t) (hy : s.getSymbol x = .ok y) :
    t.getSymbol x = .ok y :=
  getSymbol_eq_ok_iff.mpr (h.symbol (getSymbol_eq_ok_iff.mp hy))

theorem Keeps.get (h : Keeps s t) (hv : s.get x = .ok v) : ∃ w, t.get x = .ok w := by
  obtain ⟨y, hy, hv⟩ := get_eq_ok_iff.mp hv
  obtain ⟨w, hw⟩ := h.set hv
  exact ⟨w, get_eq_ok_iff.mpr ⟨y, h.symbol hy, hw⟩⟩

theorem Keeps.get_fixed (h : Keeps s t) (hy : s.getSymbol x = .ok y) (hm : y.isMutable = false)
    (hv : s.get x = .ok v) : t.get x = .ok v := by
  obtain ⟨z, hz, hv⟩ := get_eq_ok_iff.mp hv
  obtain rfl : y = z := Option.some.inj ((getSymbol_eq_ok_iff.mp hy).symm.trans hz)
  exact get_eq_ok_iff.mpr ⟨y, h.symbol hz, h.fixed hm hv⟩

theorem assign_of_fixed (hy : s.getSymbol x = .ok y) (hm : y.isMutable = false)
    (hv : s.get x = .ok v) (w : Value) : s.assign x w = .error (.failure (.immutable x)) := by
  have hy' := getSymbol_eq_ok_iff.mp hy
  obtain ⟨z, hz, hv⟩ := get_eq_ok_iff.mp hv
  obtain rfl : y = z := Option.some.inj (hy'.symm.trans hz)
  rw [assign_of_symbol hy', if_pos ⟨by rw [hv]; rfl, hm⟩]

/-- One for a name that is set, and zero for one that is not. -/
def filled (s : Store) (x : String) : Nat :=
  if (s.get x).isOk then 1 else 0

theorem filled_le_one (s : Store) (x : String) : s.filled x ≤ 1 := by
  unfold filled
  split <;> omega

theorem filled_of_get (h : s.get x = .ok v) : s.filled x = 1 := by
  rw [filled, h]
  rfl

theorem Keeps.filled_le (h : Keeps s t) (x : String) : s.filled x ≤ t.filled x := by
  rcases hv : s.get x with e | v
  · have : s.filled x = 0 := by rw [filled, hv]; rfl
    omega
  · obtain ⟨w, hw⟩ := h.get hv
    have := filled_of_get hv
    have := filled_of_get hw
    omega

/-- A name that is not mutable: its symbol, if it has one, is immutable. -/
def Immutable (s : Store) (x : String) : Prop :=
  ∀ y, s.getSymbol x = .ok y → y.isMutable = false

theorem Keeps.immutable (h : Keeps s t) (ht : t.Immutable x) : s.Immutable x :=
  fun y hy => ht y (h.getSymbol hy)

/-! ### The names of a new session -/

/-- Every declared name is immutable and set. -/
def Settled (s : Store) : Prop :=
  ∀ x y, s.symbols.find? x = some y → y.isMutable = false ∧ ∃ v, s.values.find? y = some v

theorem Settled.register (h : s.Settled) (hr : s.register x v = .ok t) : t.Settled := by
  obtain ⟨-, -, -, rfl⟩ | ⟨c, hx, hc, rfl⟩ := register_eq_ok hr
  · exact h
  · intro z y hy
    have hy' : (s.symbols.insert x ⟨x, c, false⟩).find? z = some y := hy
    rw [Table.find?_insert] at hy'
    split at hy'
    · cases hy'
      exact ⟨rfl, v, Table.find?_insert_self _ _ _⟩
    · obtain ⟨hm, w, hw⟩ := h z y hy'
      exact ⟨hm, Table.exists_find?_insert hw _ v⟩

theorem Settled.registerClasses (h : s.Settled) (cs : List Class) :
    (s.registerClasses cs).1.Settled := by
  induction cs generalizing s with
  | nil => exact h
  | cons c cs ih =>
    unfold Store.registerClasses
    split
    · next t ht => exact ih (h.register ht)
    · exact h

theorem Settled.registerFunctions (h : s.Settled) (fs : List Function) :
    (s.registerFunctions fs).1.Settled := by
  induction fs generalizing s with
  | nil => exact h
  | cons f fs ih =>
    unfold Store.registerFunctions
    split
    · next t ht => exact ih (h.register (registerFunction_eq_ok ht).2)
    · exact h

theorem settled_withClasses : withClasses.Settled := by
  have hempty : Settled empty := by
    intro x y hy
    cases hy
  exact hempty.registerClasses Class.builtin

theorem exists_symbol_of_register (h : s.register x v = .ok t) :
    ∃ y, t.symbols.find? x = some y := by
  obtain ⟨w, hw, -, rfl⟩ | ⟨c, -, -, rfl⟩ := register_eq_ok h
  · obtain ⟨y, hy, -⟩ := get_eq_ok_iff.mp hw
    exact ⟨y, hy⟩
  · exact ⟨_, Table.find?_insert_self _ _ _⟩

/-- Functions that could be registered are declared. -/
theorem exists_symbol_of_registerFunctions {fs : List Function} (hc : s.Coherent)
    (h : s.registerFunctions fs = (t, .ok ())) {f : Function} (hf : f ∈ fs) :
    ∃ y, t.symbols.find? f.signature.name = some y := by
  induction fs generalizing s with
  | nil => cases hf
  | cons g fs ih =>
    unfold Store.registerFunctions at h
    split at h
    · next r hr =>
      have hreg := (registerFunction_eq_ok hr).2
      have hcr := (evolves_of_register hreg).coherent hc
      rcases List.mem_cons.mp hf with rfl | hf
      · obtain ⟨y, hy⟩ := exists_symbol_of_register hreg
        have hk := (evolves_registerFunctions r fs).keeps hcr
        rw [h] at hk
        exact ⟨y, hk.symbol hy⟩
      · exact ih hcr h hf
    · cases h

/-! ### Counting assignments -/

/-- One for an assignment that succeeds and is to `x`, zero for others. -/
def assignmentMade (s : Store) (x z : String) (v : Value) : Nat :=
  if z = x ∧ (s.assign z v).isOk then 1 else 0

theorem assignmentMade_of_error {z : String} {e : Fault} (h : s.assign z v = .error e) :
    s.assignmentMade x z v = 0 := by
  rw [assignmentMade, h, if_neg]
  rintro ⟨-, hok⟩
  cases hok

theorem assignmentMade_add_filled_le {z : String} (h : s.assign z v = .ok t)
    (him : t.Immutable x) : s.assignmentMade x z v + s.filled x ≤ t.filled x := by
  obtain ⟨y, hy, hset, hc, rfl⟩ := assign_eq_ok h
  have hk : Keeps s { s with values := s.values.insert y v } := keeps_assigned hset
  by_cases hz : z = x
  · subst hz
    -- the name is immutable, so it was not set before
    have hm : y.isMutable = false := him y (getSymbol_eq_ok_iff.mpr hy)
    have hunset : s.values.find? y = none := by
      rcases hset with h | h
      · exact h
      · rw [hm] at h
        cases h
    have hbefore : s.filled z = 0 := by
      rw [filled, get_of_symbol hy, hunset]
      rfl
    have hafter : filled { s with values := s.values.insert y v } z = 1 :=
      filled_of_get (get_eq_ok_iff.mpr ⟨y, hy, Table.find?_insert_self _ _ _⟩)
    rw [hbefore, hafter, assignmentMade]
    split <;> omega
  · have h0 : s.assignmentMade x z v = 0 := by
      rw [assignmentMade, if_neg]
      rintro ⟨h, -⟩
      exact hz h
    have := hk.filled_le x
    omega

end Store

open Run
open Store (Coherent Keeps Immutable)

namespace Node

variable [Host]

mutual

/-- How many assignments to `x` succeed while a node is evaluated. -/
def assignmentsMade (s : Settings) (x : String) : Node → Machine → Nat
  | assignment z n, m =>
    assignmentsMade s x n m +
      match n.evaluate s m with
      | .ok v m => m.store.assignmentMade x z v
      | .error _ _ => 0
  | block ns, m => assignmentsMadeInAll s x ns m
  | call _ ns, m => assignmentsMadeInAll s x ns m
  | literal _ _, _ | identifier _, _ | declaration _ _ _, _ | unknown, _ => 0

/-- The same for nodes that are evaluated one after the other. -/
def assignmentsMadeInAll (s : Settings) (x : String) : List Node → Machine → Nat
  | [], _ => 0
  | n :: ns, m =>
    assignmentsMade s x n m +
      match n.evaluate s m with
      | .ok _ m => assignmentsMadeInAll s x ns m
      | .error _ _ => 0

end

theorem keeps_evaluate (s : Settings) (n : Node) {m : Machine} (h : m.store.Coherent) :
    Keeps m.store ((n.evaluate s).final m).store :=
  (n.evolves_evaluate s m).keeps h

theorem coherent_evaluate (s : Settings) (n : Node) {m : Machine} (h : m.store.Coherent) :
    ((n.evaluate s).final m).store.Coherent :=
  (n.evolves_evaluate s m).coherent h

mutual

/-- A node that is evaluated writes to an immutable name only while the name
is not set. -/
theorem assignmentsMade_add_filled_le (s : Settings) (x : String) :
    (n : Node) → (m : Machine) → m.store.Coherent →
      ((n.evaluate s).final m).store.Immutable x →
      n.assignmentsMade s x m + m.store.filled x ≤ ((n.evaluate s).final m).store.filled x
  | assignment z n, m, hc, him => by
    have hn := assignmentsMade_add_filled_le s x n m hc
    have hcn := coherent_evaluate s n hc
    rw [store_final_assignment] at him ⊢
    rw [assignmentsMade]
    unfold final at hn hcn
    rcases hev : n.evaluate s m with ⟨v, m'⟩ | ⟨e, m'⟩
    · rw [hev] at hn hcn him
      dsimp only at hn hcn him ⊢
      -- the store after the value is the one that takes it, or refuses it
      rcases ha : m'.store.assign z v with e | t
      · rw [ha] at him
        have h0 := Store.assignmentMade_of_error (x := x) ha
        have := hn him
        dsimp only
        omega
      · rw [ha] at him
        have hk : Keeps m'.store t := (Store.evolves_of_assign ha).keeps hcn
        have := hn (hk.immutable him)
        have := Store.assignmentMade_add_filled_le ha him
        dsimp only
        omega
    · rw [hev] at hn him
      exact hn him
  | block ns, m, hc, him => by
    rw [evaluate] at him ⊢
    rw [assignmentsMade]
    exact assignmentsMadeInAll_add_filled_le s x .null ns m hc him
  | call f ns, m, hc, him => by
    rw [store_final_call, final_evaluateAll s .null] at him ⊢
    rw [assignmentsMade]
    exact assignmentsMadeInAll_add_filled_le s x .null ns m hc him
  | literal v t, m, hc, _ => by
    rw [assignmentsMade, Nat.zero_add]
    exact (keeps_evaluate s _ hc).filled_le x
  | identifier z, m, hc, _ => by
    rw [assignmentsMade, Nat.zero_add]
    exact (keeps_evaluate s _ hc).filled_le x
  | declaration z t mu, m, hc, _ => by
    rw [assignmentsMade, Nat.zero_add]
    exact (keeps_evaluate s _ hc).filled_le x
  | unknown, m, hc, _ => by
    rw [assignmentsMade, Nat.zero_add]
    exact (keeps_evaluate s _ hc).filled_le x

theorem assignmentsMadeInAll_add_filled_le (s : Settings) (x : String) (last : Value) :
    (ns : List Node) → (m : Machine) → m.store.Coherent →
      ((evaluateBlock s last ns).final m).store.Immutable x →
      assignmentsMadeInAll s x ns m + m.store.filled x
        ≤ ((evaluateBlock s last ns).final m).store.filled x
  | [], m, _, _ => by
    rw [assignmentsMadeInAll, Nat.zero_add]
    exact Nat.le_refl _
  | n :: ns, m, hc, him => by
    have hn := assignmentsMade_add_filled_le s x n m hc
    have hcn := coherent_evaluate s n hc
    rw [evaluateBlock, final_bind] at him ⊢
    rw [assignmentsMadeInAll]
    unfold final at hn hcn
    rcases hev : n.evaluate s m with ⟨v, m'⟩ | ⟨e, m'⟩
    · rw [hev] at hn hcn him
      dsimp only at hn hcn him ⊢
      -- the name is immutable after the rest, hence also before it
      have hrest := assignmentsMadeInAll_add_filled_le s x v ns m' hcn him
      have hk := (evolves_evaluateBlock s v ns m').keeps hcn
      have := hn (hk.immutable him)
      omega
    · rw [hev] at hn him
      exact hn him

end

end Node

/-! ### Steps and runs -/

namespace Session

section AnyHost

variable [Host]

/-- How many assignments to `x` succeed while a source line is executed. -/
def sourceAssignments (s : Settings) (x source : String) (m : Machine) : Nat :=
  match Run.read s source m with
  | .ok n m => n.assignmentsMade s x m
  | .error _ _ => 0

/-- How many assignments to `x` succeed in a step. -/
def stepAssignments (s : Session) (x : String) : Step → Nat
  | .execute source => sourceAssignments s.settings x source s.machine
  | .executeLine source =>
    sourceAssignments s.settings x (s.machine.store.completeLine source) s.machine
  | .run n => n.assignmentsMade s.settings x s.machine
  | .evaluate n => n.assignmentsMade (quiet s.settings) x s.machine
  | .assign z v => s.machine.store.assignmentMade x z v
  | .declareAndAssign z v m =>
    if z = x ∧ (s.machine.store.declareAndAssign z v m).2.isOk then 1 else 0
  | _ => 0

/-- How many assignments to `x` succeed in a run. -/
def assignmentsMade (s : Session) (x : String) : List Step → Nat
  | [] => 0
  | step :: steps => s.stepAssignments x step + (s.perform step).1.assignmentsMade x steps

theorem sourceAssignments_add_filled_le (s : Settings) (x source : String) {m : Machine}
    (hc : m.store.Coherent) (him : ((Run.execute s source).final m).store.Immutable x) :
    sourceAssignments s x source m + m.store.filled x
      ≤ ((Run.execute s source).final m).store.filled x := by
  have hread := still_read s source m
  rw [Run.execute, final_bind] at him ⊢
  unfold sourceAssignments
  unfold final at hread
  rcases h : Run.read s source m with ⟨n, m'⟩ | ⟨e, m'⟩
  · rw [h] at hread him
    dsimp only at hread him ⊢
    rw [store_final_node] at him ⊢
    rw [hread] at hc ⊢
    exact n.assignmentsMade_add_filled_le s x m' hc him
  · rw [h] at hread
    have h0 : 0 + m.store.filled x = m'.store.filled x := by rw [hread, Nat.zero_add]
    exact Nat.le_of_eq h0

/-- A step writes to an immutable name only while the name is not set. -/
theorem stepAssignments_add_filled_le {s : Session} (hc : s.machine.store.Coherent)
    (x : String) (step : Step) (him : (s.perform step).1.machine.store.Immutable x) :
    s.stepAssignments x step + s.machine.store.filled x
      ≤ (s.perform step).1.machine.store.filled x := by
  have hk : Keeps s.machine.store (s.perform step).1.machine.store :=
    (evolves_perform s step).keeps hc
  have hrest : s.stepAssignments x step = 0 →
      s.stepAssignments x step + s.machine.store.filled x
        ≤ (s.perform step).1.machine.store.filled x := by
    intro h0
    have := hk.filled_le x
    omega
  rw [machine_perform] at him hrest ⊢
  cases step with
  | execute source =>
    rw [action, final_map] at him ⊢
    exact sourceAssignments_add_filled_le s.settings x source hc him
  | executeLine source =>
    rw [action, final_bind] at him ⊢
    dsimp only [look] at him ⊢
    rw [final_map] at him ⊢
    exact sourceAssignments_add_filled_le s.settings x _ hc him
  | run n =>
    rw [action, final_map, store_final_node] at him ⊢
    exact n.assignmentsMade_add_filled_le s.settings x s.machine hc him
  | evaluate n =>
    rw [action, final_map] at him ⊢
    exact n.assignmentsMade_add_filled_le (quiet s.settings) x s.machine hc him
  | assign z v =>
    rcases ha : s.machine.store.assign z v with e | t
    · exact hrest (Store.assignmentMade_of_error ha)
    · rw [action, store_final_update _ fun _ => still_pure _] at him ⊢
      rw [ha] at him ⊢
      exact Store.assignmentMade_add_filled_le ha him
  | declareAndAssign z v m =>
    rw [action, store_final_updateAll _ fun _ => still_pure _] at hrest ⊢
    by_cases hz : z = x ∧ (s.machine.store.declareAndAssign z v m).2.isOk
    · -- the name was not declared before, and holds the value now
      obtain ⟨rfl, hok⟩ := hz
      rcases hd : s.machine.store.declareAndAssign z v m with ⟨t, e | u⟩
      · rw [hd] at hok
        cases hok
      · obtain ⟨hx, c, r, -, -, ha⟩ := Store.declareAndAssign_eq_ok hd
        have hbefore : s.machine.store.filled z = 0 := by
          rw [Store.filled, Store.get_of_absent hx]
          rfl
        have hafter : t.filled z = 1 := Store.filled_of_get (Store.get_of_assign ha)
        have hstep : s.stepAssignments z (.declareAndAssign z v m) = 1 := if_pos ⟨rfl, by
          rw [hd]
          rfl⟩
        dsimp only
        omega
    · exact hrest (if_neg hz)
  | declare _ _ _ => exact hrest rfl
  | get _ => exact hrest rfl
  | getFunction _ => exact hrest rfl
  | getSymbol _ => exact hrest rfl
  | lookupClass _ => exact hrest rfl
  | isDefined _ => exact hrest rfl
  | call _ _ => exact hrest rfl
  | registerFunctions _ => exact hrest rfl
  | registerClasses _ => exact hrest rfl
  | setLanguage _ => exact hrest rfl

theorem assignmentsMade_add_filled_le {s : Session} (hc : s.machine.store.Coherent)
    (x : String) (steps : List Step) (him : (s.performAll steps).machine.store.Immutable x) :
    s.assignmentsMade x steps + s.machine.store.filled x
      ≤ (s.performAll steps).machine.store.filled x := by
  induction steps generalizing s with
  | nil =>
    rw [assignmentsMade, Nat.zero_add]
    exact Nat.le_refl _
  | cons step steps ih =>
    have hc' := (evolves_perform s step).coherent hc
    have hk := (evolves_performAll (s.perform step).1 steps).keeps hc'
    have hrest := ih hc' him
    have hstep := stepAssignments_add_filled_le hc x step (hk.immutable him)
    rw [assignmentsMade]
    show _ ≤ ((s.perform step).1.performAll steps).machine.store.filled x
    omega

theorem assignmentsMade_le_one {s : Session} (hc : s.machine.store.Coherent) {x : String}
    {steps : List Step} (him : (s.performAll steps).machine.store.Immutable x) :
    s.assignmentsMade x steps ≤ 1 := by
  have := assignmentsMade_add_filled_le hc x steps him
  have := (s.performAll steps).machine.store.filled_le_one x
  omega

theorem assignmentsMade_eq_zero {s : Session} (hc : s.machine.store.Coherent) {x : String}
    {steps : List Step} (him : (s.performAll steps).machine.store.Immutable x) {v : Value}
    (hv : s.machine.store.get x = .ok v) : s.assignmentsMade x steps = 0 := by
  have := assignmentsMade_add_filled_le hc x steps him
  have := (s.performAll steps).machine.store.filled_le_one x
  have := Store.filled_of_get hv
  omega

/-- The built-in classes and the functions of a new session are immutable and
set. -/
theorem fixed_of_create {settings : Settings} {functions : List Function}
    {input : List String} {s : Session} (hs : create settings functions input = .ok s)
    {x : String}
    (hx : x ∈ Class.builtin.map (·.name) ++ functions.map (·.signature.name)) :
    ∃ y v, s.machine.store.getSymbol x = .ok y ∧ y.isMutable = false ∧
      s.machine.store.get x = .ok v := by
  have hfs : Store.withClasses.registerFunctions functions = (s.machine.store, .ok ()) :=
    store_of_create hs
  have hsettled : s.machine.store.Settled := by
    have h := Store.settled_withClasses.registerFunctions functions
    rw [hfs] at h
    exact h
  have hy : ∃ y, s.machine.store.symbols.find? x = some y := by
    -- built-in classes are rooted, and functions are registered behind them
    rcases List.mem_append.mp hx with hx | hx
    · obtain ⟨c, hc, rfl⟩ := List.mem_map.mp hx
      exact ⟨_, ((Reachable.created hs).rooted c hc).1⟩
    · obtain ⟨f, hf, rfl⟩ := List.mem_map.mp hx
      exact Store.exists_symbol_of_registerFunctions Store.coherent_withClasses hfs hf
  obtain ⟨y, hy⟩ := hy
  obtain ⟨hm, v, hv⟩ := hsettled x y hy
  exact ⟨y, v, Store.getSymbol_eq_ok_iff.mpr hy, hm, Store.get_eq_ok_iff.mpr ⟨y, hy, hv⟩⟩

/-- **Bindings are permanent.**  Between any two moments of a session, the
symbol of a name stays, a name that is set stays set, and an immutable name
that is set keeps its value and refuses every other.  In a whole run at most
one assignment to an immutable name succeeds, and none once the name is set;
for the built-in classes and the functions of the session that is from the
start. -/
theorem bindings_permanent {settings : Settings} {functions : List Function}
    {input : List String} {s : Session} (hs : create settings functions input = .ok s)
    (earlier later : List Step) (x : String) :
    let before := (s.performAll earlier).machine.store
    let after := (s.performAll (earlier ++ later)).machine.store
    (∀ y, before.getSymbol x = .ok y → after.getSymbol x = .ok y) ∧
    (∀ v, before.get x = .ok v → ∃ w, after.get x = .ok w) ∧
    (∀ y v, before.getSymbol x = .ok y → y.isMutable = false → before.get x = .ok v →
      after.get x = .ok v ∧ ∀ w, after.assign x w = .error (.failure (.immutable x))) ∧
    (∀ y, after.getSymbol x = .ok y → y.isMutable = false →
      s.assignmentsMade x (earlier ++ later) ≤ 1 ∧
      ∀ v, before.get x = .ok v → (s.performAll earlier).assignmentsMade x later = 0) ∧
    (x ∈ Class.builtin.map (·.name) ++ functions.map (·.signature.name) →
      ∃ v, s.machine.store.get x = .ok v ∧ before.get x = .ok v ∧ after.get x = .ok v ∧
        s.assignmentsMade x (earlier ++ later) = 0) := by
  have hr : s.Reachable := .created hs
  have hc := (hr.performAll earlier).coherent
  have hk : Keeps (s.performAll earlier).machine.store
      (s.performAll (earlier ++ later)).machine.store := by
    rw [performAll_append]
    exact (evolves_performAll _ later).keeps hc
  -- a symbol found in the end makes the name immutable all along
  have him : ∀ {y}, (s.performAll (earlier ++ later)).machine.store.getSymbol x = .ok y →
      y.isMutable = false → (s.performAll (earlier ++ later)).machine.store.Immutable x := by
    intro y hy hm z hz
    rw [hy] at hz
    cases hz
    exact hm
  refine ⟨fun y => hk.getSymbol, fun v => hk.get, ?_, ?_, ?_⟩
  · intro y v hy hm hv
    have hv' := hk.get_fixed hy hm hv
    exact ⟨hv', Store.assign_of_fixed (hk.getSymbol hy) hm hv'⟩
  · intro y hy hm
    refine ⟨assignmentsMade_le_one hr.coherent (him hy hm), ?_⟩
    intro v hv
    have hlater := him hy hm
    rw [performAll_append] at hlater
    exact assignmentsMade_eq_zero hc hlater hv
  · intro hx
    obtain ⟨y, v, hy, hm, hv⟩ := fixed_of_create hs hx
    have hk₀ := (evolves_performAll s earlier).keeps hr.coherent
    have hy' := hk.getSymbol (hk₀.getSymbol hy)
    exact ⟨v, hv, hk₀.get_fixed hy hm hv,
      hk.get_fixed (hk₀.getSymbol hy) hm (hk₀.get_fixed hy hm hv),
      assignmentsMade_eq_zero hr.coherent (him hy' hm) hv⟩

end AnyHost

/-- A name declared with a class that a variable holds keeps that class when
the variable is given another, and takes one value. -/
theorem bindings_permanent_after_retyping :
    let s := standard {} []
    let earlier : List Step :=
      [.declare "T" "Class" true, .assign "T" (.ofClass .int), .declare "x" "T" false]
    let later : List Step :=
      [.assign "T" (.ofClass .str), .assign "x" (.int 1), .assign "x" (.int 2)]
    create {} Function.standard [] = .ok s ∧
      (s.performAll earlier).machine.store.getSymbol "x" = .ok ⟨"x", .int, false⟩ ∧
      (s.performAll (earlier ++ later)).machine.store.getSymbol "x" = .ok ⟨"x", .int, false⟩ ∧
      s.assignmentsMade "x" (earlier ++ later) ≤ 1 := by
  intro s earlier later
  have hs : create {} Function.standard [] = .ok s := rfl
  have hy : (s.performAll earlier).machine.store.getSymbol "x" = .ok ⟨"x", .int, false⟩ := rfl
  obtain ⟨hsymbol, -, -, honce, -⟩ := bindings_permanent hs earlier later "x"
  exact ⟨hs, hy, hsymbol _ hy, (honce _ (hsymbol _ hy) rfl).1⟩

end Session

end LineScript
