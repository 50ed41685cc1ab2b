/-
LineScript/Proofs/Ledger.lean

The store as one table.

A store finds symbols by name and values by symbol.  Seen from outside it is
simpler: a name stands for a declared class, for whether it is mutable, and
for a value if it has one.  A `Ledger` is a table of just that, with the
operations one would write for it at once:

* a declaration adds an entry without a value;
* an assignment writes the value into the entry;
* a name that is bound at once is entered with its value.

`Store.view` forgets the symbols.  Every operation on a reachable store gives
the answer, or the fault, that the ledger gives, and leaves a store whose view
is the new ledger.  Coherence is what makes this true: without it a new name
could find a value left under its symbol, and an assignment could reach the
value of another name.
-/
import LineScript.Proofs.Soundness

namespace LineScript

/-! ### Ledgers -/

/-- What a name stands for. -/
structure Binding where
  declared : Class
  isMutable : Bool
  value : Option Value

/-- The names and what they stand for. -/
structure Ledger where
  bindings : Table String Binding

namespace Ledger

/-- Whether a name is declared. -/
def isDefined (l : Ledger) (x : String) : Bool :=
  l.bindings.contains x

/-- The class and the mutability of a declared name. -/
def getSymbol (l : Ledger) (x : String) : Except Fault Symbol :=
  match l.bindings.find? x with
  | some b => .ok ⟨x, b.declared, b.isMutable⟩
  | none => .error (.failure (.undefined x))

/-- The value of a name. -/
def get (l : Ledger) (x : String) : Except Fault Value :=
  match l.bindings.find? x with
  | some ⟨_, _, some v⟩ => .ok v
  | some ⟨_, _, none⟩ => .error (.failure (.unset x))
  | none => .error (.failure (.undefined x))

/-- The function that a name holds. -/
def getFunction (l : Ledger) (x : String) : Except Fault Function :=
  match l.get x with
  | .ok (.function s b) => .ok ⟨s, b⟩
  | .ok v =>
    match v.classOf with
    | .ok c => .error (.failure (.unexpected x Class.function.name c.name))
    | .error e => .error e
  | .error e => .error e

/-- The class that a name holds, if it holds one. -/
def lookupClass? (l : Ledger) (x : String) : Option Class :=
  match l.get x with
  | .ok (.ofClass c) => some c
  | _ => none

/-- Add a name without a value, of the class that `type` holds. -/
def declare (l : Ledger) (x type : String) (isMutable : Bool) : Except Fault Ledger :=
  if l.isDefined x then .error (.failure (.taken x))
  else
    match l.get type with
    | .ok (.ofClass c) => .ok ⟨l.bindings.insert x ⟨c, isMutable, none⟩⟩
    | .ok _ => .error (.failure (.noClass type))
    | .error _ => .error (.failure (.noType type))

/-- Write a value into the entry of a name. -/
def assign (l : Ledger) (x : String) (v : Value) : Except Fault Ledger :=
  match l.bindings.find? x with
  | none => .error (.failure (.undefined x))
  | some b =>
    if b.value.isSome ∧ b.isMutable = false then .error (.failure (.immutable x))
    else
      match v.classOf with
      | .error e => .error e
      | .ok c =>
        if b.declared = c then .ok ⟨l.bindings.insert x { b with value := some v }⟩
        else .error (.failure (.unexpected x b.declared.name c.name))

/-- Add a name with a value, of the class that the value has. -/
def enter (l : Ledger) (x : String) (v : Value) (isMutable : Bool) : Except Fault Ledger :=
  match v.classOf with
  | .ok c => .ok ⟨l.bindings.insert x ⟨c, isMutable, some v⟩⟩
  | .error e => .error e

/-- Bind a name that is not declared. -/
def declareAndAssign (l : Ledger) (x : String) (v : Value) (isMutable : Bool) :
    Except Fault Ledger :=
  if l.isDefined x then .error (.failure (.taken x)) else l.enter x v isMutable

/-- Bind a name for good; a name that holds an equal value is left alone. -/
def register (l : Ledger) (x : String) (v : Value) : Except Fault Ledger :=
  match l.get x with
  | .ok w => if w.equal v then .ok l else .error (.failure (.taken x))
  | .error _ => l.declareAndAssign x v false

/-- Register a function, unless a class that it mentions is not bound to
itself. -/
def registerFunction (l : Ledger) (f : Function) : Except Fault Ledger :=
  match f.signature.mentioned.find? fun c => l.lookupClass? c.name ≠ some c with
  | some c => .error (.failure (.noClass c.name))
  | none => l.register f.signature.name f.toValue

/-- Make changes one after the other, up to the first that fails. -/
def upTo {α : Type} (change : Ledger → α → Except Fault Ledger) (l : Ledger) :
    List α → Ledger × Except Fault Unit
  | [] => (l, .ok ())
  | a :: rest =>
    match change l a with
    | .ok l => upTo change l rest
    | .error e => (l, .error e)

/-- The operations on names. -/
inductive Operation where
  | declare (name type : String) (isMutable : Bool)
  | assign (name : String) (v : Value)
  | declareAndAssign (name : String) (v : Value) (isMutable : Bool)
  | get (name : String)
  | getSymbol (name : String)
  | getFunction (name : String)
  | lookupClass (name : String)
  | isDefined (name : String)
  | registerClasses (cs : List Class)
  | registerFunctions (fs : List Function)

/-- The step of a session that does an operation. -/
def Operation.step : Operation → Step
  | declare x t m => .declare x t m
  | assign x v => .assign x v
  | declareAndAssign x v m => .declareAndAssign x v m
  | get x => .get x
  | getSymbol x => .getSymbol x
  | getFunction x => .getFunction x
  | lookupClass x => .lookupClass x
  | isDefined x => .isDefined x
  | registerClasses cs => .registerClasses cs
  | registerFunctions fs => .registerFunctions fs

/-- A change that failed leaves the ledger as it was. -/
def settle (l : Ledger) (a : Answer) : Except Fault Ledger → Ledger × Except Fault Answer
  | .ok changed => (changed, .ok a)
  | .error e => (l, .error e)

/-- Do an operation. -/
def perform (l : Ledger) : Operation → Ledger × Except Fault Answer
  | .declare x t m => l.settle (.value (.symbol x)) (l.declare x t m)
  | .assign x v => l.settle (.value v) (l.assign x v)
  | .declareAndAssign x v m => l.settle (.value v) (l.declareAndAssign x v m)
  | .get x => (l, (l.get x).map .value)
  | .getSymbol x => (l, (l.getSymbol x).map .symbol)
  | .getFunction x => (l, (l.getFunction x).map fun f => .value f.toValue)
  | .lookupClass x => (l, .ok (.class? (l.lookupClass? x)))
  | .isDefined x => (l, .ok (.truth (l.isDefined x)))
  | .registerClasses cs =>
    (l.upTo (fun l c => l.register c.name (.ofClass c)) cs).map id (·.map fun _ => .done)
  | .registerFunctions fs =>
    (l.upTo registerFunction fs).map id (·.map fun _ => .done)

/-- Do operations in order, and keep their answers. -/
def performAll (l : Ledger) : List Operation → Ledger × List (Except Fault Answer)
  | [] => (l, [])
  | op :: ops => ((l.perform op).1.performAll ops).map id ((l.perform op).2 :: ·)

end Ledger

/-! ### The view of a store -/

namespace Store

variable {s t : Store} {x : String} {y : Symbol} {v : Value}

/-- What a symbol stands for. -/
def binding (s : Store) (y : Symbol) : Binding :=
  ⟨y.declared, y.isMutable, s.values.find? y⟩

/-- The store as one table. -/
def view (s : Store) : Ledger :=
  ⟨s.symbols.mapValues fun _ => s.binding⟩

theorem find?_view (s : Store) (x : String) :
    s.view.bindings.find? x = (s.symbols.find? x).map s.binding :=
  Table.find?_mapValues _ _ _

/-! ### Looking up in the view -/

theorem isDefined_view (s : Store) (x : String) : s.view.isDefined x = s.isDefined x :=
  Table.contains_mapValues _ _ _

theorem getSymbol_view (h : s.Coherent) (x : String) : s.view.getSymbol x = s.getSymbol x := by
  rw [Ledger.getSymbol, find?_view, getSymbol]
  rcases hy : s.symbols.find? x with - | y
  · rfl
  · obtain rfl := h.named hy
    rfl

theorem get_view (s : Store) (x : String) : s.view.get x = s.get x := by
  rw [Ledger.get, find?_view]
  rcases hy : s.symbols.find? x with - | y
  · rw [get_of_absent hy]
    rfl
  · rw [get_of_symbol hy]
    rw [Option.map_some, binding]
    rcases s.values.find? y with - | v <;> rfl

theorem getFunction_view (s : Store) (x : String) :
    s.view.getFunction x = s.getFunction x := by
  rw [Ledger.getFunction, get_view, getFunction]
  rcases s.get x with e | v
  · rfl
  · cases v <;> rfl

theorem lookupClass?_view (s : Store) (x : String) :
    s.view.lookupClass? x = s.lookupClass? x := by
  rw [Ledger.lookupClass?, get_view]
  rcases hv : s.get x with e | v
  · rcases hc : s.lookupClass? x with - | c
    · rfl
    · rw [lookupClass?_eq_some_iff, hv] at hc
      cases hc
  · rcases hc : s.lookupClass? x with - | c
    · cases v with
      | ofClass c =>
        rw [lookupClass?_eq_some_iff.mpr hv] at hc
        cases hc
      | _ => rfl
    · rw [lookupClass?_eq_some_iff, hv] at hc
      cases hc
      rfl

/-! ### Changes in the view -/

/-- A new symbol finds no value, so the new entry has none. -/
theorem view_declared (h : s.Coherent) (hx : s.symbols.find? x = none) (c : Class) (m : Bool) :
    view { s with symbols := s.symbols.insert x ⟨x, c, m⟩ }
      = ⟨s.view.bindings.insert x ⟨c, m, none⟩⟩ := by
  have hunset : s.values.find? ⟨x, c, m⟩ = none := h.unset_of_absent hx
  have hentry : s.binding ⟨x, c, m⟩ = ⟨c, m, none⟩ := by rw [binding, hunset]
  rw [← hentry]
  exact congrArg Ledger.mk (Table.mapValues_insert _ _ _ _)

/-- The symbols of other names differ, so no other entry changes. -/
theorem view_assigned (h : s.Coherent) (hy : s.symbols.find? x = some y) (v : Value) :
    view { s with values := s.values.insert y v }
      = ⟨s.view.bindings.insert x { s.binding y with value := some v }⟩ := by
  have hentry : binding { s with values := s.values.insert y v } y
      = { s.binding y with value := some v } := by
    rw [binding, Table.find?_insert_self, binding]
  have hother : ∀ z b, z ≠ x → s.symbols.find? z = some b →
      binding { s with values := s.values.insert y v } b = s.binding b := by
    intro z b hz hb
    rw [binding, Table.find?_insert_of_ne _ (h.symbol_ne hb hy hz), binding]
  rw [← hentry]
  exact congrArg Ledger.mk (Table.mapValues_update h.symbols_distinct hy hother)

theorem view_bound (h : s.Coherent) (hx : s.symbols.find? x = none) (c : Class) (m : Bool)
    (v : Value) :
    view ⟨s.symbols.insert x ⟨x, c, m⟩, s.values.insert ⟨x, c, m⟩ v⟩
      = ⟨s.view.bindings.insert x ⟨c, m, some v⟩⟩ := by
  have h' := h.declared c m hx
  have hself : (s.symbols.insert x ⟨x, c, m⟩).find? x = some ⟨x, c, m⟩ :=
    Table.find?_insert_self _ _ _
  -- the entry is made without a value and overwritten at once
  have ha := view_assigned h' hself v
  rw [view_declared h hx c m, Table.insert_insert] at ha
  exact ha

/-! ### Operations in the view -/

theorem declare_view (h : s.Coherent) (x type : String) (m : Bool) :
    (s.declare x type m).map view = s.view.declare x type m := by
  rw [Ledger.declare, isDefined_view, get_view]
  rcases hx : s.symbols.find? x with - | y
  · rw [declare_of_absent hx, isDefined_eq_false_iff.mpr hx, resolveType]
    rcases hy : s.symbols.find? type with - | y
    · rw [get_of_absent hy]
      rfl
    · rw [get_of_symbol hy, Option.bind_some]
      rcases hv : s.values.find? y with - | v
      · rfl
      · -- the value has a class, so a type that is no class is refused as such
        have hc := h.typed hv
        cases v with
        | ofClass c => exact congrArg Except.ok (view_declared h hx c m)
        | foreign d => cases hc
        | _ => rfl
  · rw [declare_of_symbol hx, isDefined_of_symbol hx]
    rfl

theorem assign_view (h : s.Coherent) (x : String) (v : Value) :
    (s.assign x v).map view = s.view.assign x v := by
  rw [Ledger.assign, find?_view]
  rcases hy : s.symbols.find? x with - | y
  · rw [assign_of_absent hy]
    rfl
  · rw [assign_of_symbol hy, Option.map_some]
    show _ = if (s.values.find? y).isSome ∧ y.isMutable = false then _ else _
    split
    · rfl
    · rcases v.classOf with e | c
      · rfl
      · show Except.map view (if y.declared = c then _ else _) = if y.declared = c then _ else _
        split
        · exact congrArg Except.ok (view_assigned h hy v)
        · rfl

theorem declareAndAssign_view (h : s.Coherent) (hr : s.Rooted) (x : String) (v : Value)
    (m : Bool) :
    Prod.map view id (s.declareAndAssign x v m) = match s.view.declareAndAssign x v m with
      | .ok l => (l, .ok ())
      | .error e => (s.view, .error e) := by
  rw [Ledger.declareAndAssign, isDefined_view]
  rcases hx : s.symbols.find? x with - | y
  · rw [declareAndAssign_of_absent h hr hx, isDefined_eq_false_iff.mpr hx, Ledger.enter]
    rcases v.classOf with e | c
    · rfl
    · exact congrArg (·, Except.ok ()) (view_bound h hx c m v)
  · rw [declareAndAssign_of_symbol hx, isDefined_of_symbol hx]
    rfl

theorem register_view (h : s.Coherent) (x : String) (v : Value) :
    (s.register x v).map view = s.view.register x v := by
  rw [Ledger.register, get_view, Ledger.declareAndAssign, isDefined_view]
  rcases hx : s.symbols.find? x with - | y
  · rw [register_of_absent hx, get_of_absent hx, isDefined_eq_false_iff.mpr hx, Ledger.enter]
    rcases v.classOf with e | c
    · rfl
    · exact congrArg Except.ok (view_bound h hx c false v)
  · rw [register_of_symbol hx, get_of_symbol hx, isDefined_of_symbol hx]
    rcases s.values.find? y with - | w
    · rfl
    · show Except.map view (if w.equal v = true then _ else _) = if w.equal v = true then _ else _
      split <;> rfl

theorem checkClasses_view (s : Store) (cs : List Class) :
    s.checkClasses cs = match cs.find? fun c => s.view.lookupClass? c.name ≠ some c with
      | some c => .error (.failure (.noClass c.name))
      | none => .ok () := by
  induction cs with
  | nil => rfl
  | cons c cs ih =>
    rw [checkClasses, List.find?_cons, lookupClass?_view]
    by_cases hc : s.lookupClass? c.name = some c
    · simp [hc, ih]
    · simp [hc]

theorem registerFunction_view (h : s.Coherent) (f : Function) :
    (s.registerFunction f).map view = s.view.registerFunction f := by
  rw [registerFunction, Ledger.registerFunction, checkClasses_view]
  rcases f.signature.mentioned.find? fun c => s.view.lookupClass? c.name ≠ some c with - | c
  · exact register_view h f.signature.name f.toValue
  · rfl

/-- Changes up to the first that fails, seen in the view. -/
theorem upTo_view {α : Type} {change : Ledger → α → Except Fault Ledger}
    {f : Store → α → Except Fault Store} {g : Store → List α → Store × Except Fault Unit}
    (hnil : ∀ s, g s [] = (s, .ok ()))
    (hcons : ∀ s a rest, g s (a :: rest) = match f s a with
      | .ok t => g t rest
      | .error e => (s, .error e))
    (hf : ∀ {s} a, s.Coherent → (f s a).map view = change s.view a)
    (hcoh : ∀ {s t a}, s.Coherent → f s a = .ok t → t.Coherent)
    (h : s.Coherent) (as : List α) :
    Prod.map view id (g s as) = s.view.upTo change as := by
  induction as generalizing s with
  | nil =>
    rw [hnil, Ledger.upTo]
    rfl
  | cons a rest ih =>
    rw [hcons, Ledger.upTo, ← hf a h]
    rcases ht : f s a with e | t
    · rfl
    · -- the next change starts from a coherent store again
      exact ih (hcoh h ht)

theorem registerClasses_view (h : s.Coherent) (cs : List Class) :
    Prod.map view id (s.registerClasses cs)
      = s.view.upTo (fun l c => l.register c.name (.ofClass c)) cs :=
  upTo_view (f := fun s c => s.register c.name (.ofClass c)) (fun _ => rfl) (fun _ _ _ => rfl)
    (fun c h => register_view h c.name (.ofClass c))
    (fun h ht => (evolves_of_register ht).coherent h) h cs

theorem registerFunctions_view (h : s.Coherent) (fs : List Function) :
    Prod.map view id (s.registerFunctions fs) = s.view.upTo Ledger.registerFunction fs :=
  upTo_view (fun _ => rfl) (fun _ _ _ => rfl) (fun f h => registerFunction_view h f)
    (fun h ht => (evolves_of_register (registerFunction_eq_ok ht).2).coherent h) h fs

end Store

/-! ### Sessions and their ledgers -/

namespace Session

open Run

section AnyHost

variable [Host]

variable {s : Session} {step : Step}

/-- The store of a session as one table. -/
def ledger (s : Session) : Ledger :=
  s.machine.store.view

/-- A step that makes one change, or fails. -/
theorem perform_of_update {f : Store → Except Fault Store} {a : Answer}
    (h : action s.settings step = do Run.update f; return a) :
    Prod.map ledger id (s.perform step)
      = s.ledger.settle a ((f s.machine.store).map Store.view) := by
  unfold perform
  rw [h]
  simp only [Bind.bind, EStateM.bind, update]
  rcases f s.machine.store with e | t <;> rfl

/-- A step that makes changes up to the first that fails. -/
theorem perform_of_updateAll {f : Store → Store × Except Fault Unit} {a : Answer}
    (h : action s.settings step = do Run.updateAll f; return a) :
    Prod.map ledger id (s.perform step)
      = (Prod.map Store.view id (f s.machine.store)).map id (·.map fun _ => a) := by
  unfold perform
  rw [h]
  simp only [Bind.bind, EStateM.bind, updateAll]
  rcases f s.machine.store with ⟨t, e | u⟩ <;> rfl

/-- A step that looks something up. -/
theorem perform_of_look {α : Type} {f : Store → Except Fault α} {g : α → Answer}
    (h : action s.settings step = g <$> Run.look f) :
    Prod.map ledger id (s.perform step) = (s.ledger, (f s.machine.store).map g) := by
  unfold perform
  rw [h]
  simp only [Functor.map, EStateM.map, look]
  rcases f s.machine.store with e | a <;> rfl

/-- An operation on a session is the operation on its ledger. -/
theorem Reachable.perform_ledger (h : s.Reachable) (op : Ledger.Operation) :
    Prod.map ledger id (s.perform op.step) = s.ledger.perform op := by
  have hc := h.coherent
  have hr := h.rooted
  cases op with
  -- a change succeeds or fails on both sides alike
  | declare x t m =>
    rw [perform_of_update rfl, Store.declare_view hc]
    rfl
  | assign x v =>
    rw [perform_of_update rfl, Store.assign_view hc]
    rfl
  | declareAndAssign x v m =>
    rw [perform_of_updateAll rfl, Store.declareAndAssign_view hc hr]
    show _ = s.ledger.settle _ (s.ledger.declareAndAssign x v m)
    show Prod.map _ _ (match s.ledger.declareAndAssign x v m with | .ok l => _ | .error e => _) = _
    rcases s.ledger.declareAndAssign x v m with e | l <;> rfl
  -- what is looked up is read off the view
  | get x =>
    rw [perform_of_look rfl, ← Store.get_view]
    rfl
  | getSymbol x =>
    rw [perform_of_look rfl, ← Store.getSymbol_view hc]
    rfl
  | getFunction x =>
    rw [perform_of_look (bind_pure_comp _ _), ← Store.getFunction_view]
    rfl
  | lookupClass x =>
    rw [perform_of_look rfl, ← Store.lookupClass?_view]
    rfl
  | isDefined x =>
    rw [perform_of_look rfl, ← Store.isDefined_view]
    rfl
  | registerClasses cs =>
    rw [perform_of_updateAll rfl, Store.registerClasses_view hc]
    rfl
  | registerFunctions fs =>
    rw [perform_of_updateAll rfl, Store.registerFunctions_view hc]
    rfl

/-- The answers to steps that are done in order. -/
def answers (s : Session) : List Step → List (Except Fault Answer)
  | [] => []
  | step :: steps => (s.perform step).2 :: (s.perform step).1.answers steps

/-- Operations on a session are the operations on its ledger. -/
theorem Reachable.performAll_ledger (h : s.Reachable) (ops : List Ledger.Operation) :
    ((s.performAll (ops.map Ledger.Operation.step)).ledger,
      s.answers (ops.map Ledger.Operation.step)) = s.ledger.performAll ops := by
  induction ops generalizing s with
  | nil => rfl
  | cons op ops ih =>
    -- the session after the step is reachable, whatever the step answers
    have hop := h.perform_ledger op
    have hops := ih (h.performed op.step)
    rw [Ledger.performAll, ← hop]
    exact congrArg (Prod.map id ((s.perform op.step).2 :: ·)) hops

/-- **The store refines the ledger.**  On a reachable session every operation
answers, or fails, as it does on the ledger, and the new store is seen as the
new ledger; and so do operations in any number.  In particular a name that was
just declared has no value, and an assignment reaches no other name. -/
theorem store_refines_ledger (h : s.Reachable) :
    (∀ op : Ledger.Operation,
      (s.perform op.step).2 = (s.ledger.perform op).2 ∧
      (s.perform op.step).1.ledger = (s.ledger.perform op).1) ∧
    (∀ ops : List Ledger.Operation,
      s.answers (ops.map Ledger.Operation.step) = (s.ledger.performAll ops).2 ∧
      (s.performAll (ops.map Ledger.Operation.step)).ledger = (s.ledger.performAll ops).1) ∧
    (∀ x type m t, s.machine.store.declare x type m = .ok t →
      t.get x = .error (.failure (.unset x))) ∧
    (∀ x v t, s.machine.store.assign x v = .ok t →
      ∀ z, z ≠ x → Store.SameAt s.machine.store t z) := by
  refine ⟨?_, ?_, ?_, ?_⟩
  · intro op
    have hop := h.perform_ledger op
    exact ⟨congrArg Prod.snd hop, congrArg Prod.fst hop⟩
  · intro ops
    have hops := h.performAll_ledger ops
    exact ⟨congrArg Prod.snd hops, congrArg Prod.fst hops⟩
  · -- a fresh declaration has no value
    intro x type m t ht
    exact h.coherent.get_of_declare ht
  · intro x v t ht z hz
    exact h.coherent.sameAt_of_assign ht hz

end AnyHost

/-- A name is declared, is unset until it gets a value, and then takes no
other; like a name that is unknown, it is no type. -/
theorem store_refines_ledger_on_script :
    let s := standard {} []
    let ops : List Ledger.Operation :=
      [.declare "x" "Int" false, .get "x", .assign "x" (.int 1), .assign "x" (.int 2),
        .declare "y" "x" true, .declare "y" "z" true, .get "x"]
    s.Reachable ∧ s.answers (ops.map Ledger.Operation.step) =
      [.ok (.value (.symbol "x")), .error (.failure (.unset "x")), .ok (.value (.int 1)),
        .error (.failure (.immutable "x")), .error (.failure (.noClass "x")),
        .error (.failure (.noType "z")), .ok (.value (.int 1))] :=
  have h := reachable_standard {} []
  ⟨h, ((store_refines_ledger h).2.1 _).1⟩

end Session

end LineScript
