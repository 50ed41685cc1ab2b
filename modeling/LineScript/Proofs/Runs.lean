/-
LineScript/Proofs/Runs.lean

What a run does to the store, and what a session can reach.

`Run.Along R r` says that the run `r` takes every store to one that `R`
relates to it, whether the run ends with a result or with a fault.  Two
relations matter:

* `Eq`: the run leaves the store alone, as the bodies of functions and the
  evaluation of expressions do;
* `Store.Evolves`: the run makes changes to it, as the evaluation of every
  node and every step of a session do.

Since a run keeps what it has done before a fault, both are proved rule by
rule and composed by `Along.bind`; no case of a fault is ever looked at again.
-/
import LineScript.Proofs.Changes
import LineScript.Session

namespace LineScript

open Store (Evolves)

variable [Host]

/-! ### Runs along a relation -/

namespace Run

variable {α β : Type} {R : Store → Store → Prop}

/-- The machine in which a run ends, with a result or with a fault. -/
def final (r : Run α) (m : Machine) : Machine :=
  match r m with
  | .ok _ m => m
  | .error _ m => m

/-- A run that takes every store to a related one. -/
def Along (R : Store → Store → Prop) (r : Run α) : Prop :=
  ∀ m, R m.store (r.final m).store

/-- A run after another starts where the other ended, if that gave a result. -/
theorem final_bind (r : Run α) (f : α → Run β) (m : Machine) :
    (r >>= f).final m = match r m with
      | .ok a m => (f a).final m
      | .error _ m => m := by
  simp only [final, Bind.bind, EStateM.bind]
  rcases r m with ⟨a, m'⟩ | ⟨e, m'⟩ <;> rfl

theorem Along.bind [IsTrans Store R] {r : Run α} {f : α → Run β} (hr : Along R r)
    (hf : ∀ a, Along R (f a)) : Along R (r >>= f) := by
  intro m
  have hm := hr m
  rw [final_bind]
  rw [final] at hm
  rcases h : r m with ⟨a, m'⟩ | ⟨e, m'⟩
  · rw [h] at hm
    exact trans_of R hm (hf a m')
  · rw [h] at hm
    exact hm

theorem final_map (r : Run α) (f : α → β) (m : Machine) : (f <$> r).final m = r.final m := by
  simp only [final, Functor.map, EStateM.map]
  rcases r m with ⟨a, m'⟩ | ⟨e, m'⟩ <;> rfl

theorem Along.map {r : Run α} (hr : Along R r) (f : α → β) : Along R (f <$> r) := by
  intro m
  rw [final_map]
  exact hr m

/-! ### Runs that leave the store alone -/

theorem still_pure (a : α) : Along Eq (pure a : Run α) :=
  fun _ => rfl

theorem still_throw (e : Fault) : Along Eq (throw e : Run α) :=
  fun _ => rfl

theorem still_ofExcept (x : Except Fault α) : Along Eq (ofExcept x) := by
  intro m
  rcases x with e | a <;> rfl

theorem still_look (f : Store → Except Fault α) : Along Eq (look f) := by
  intro m
  unfold final look
  rcases f m.store with e | a <;> rfl

theorem still_emit (e : Event) : Along Eq (emit e) :=
  fun _ => rfl

theorem still_trace (s : Settings) (level : Nat) (text : String) :
    Along Eq (trace s level text) := by
  unfold trace
  split
  · exact still_emit _
  · exact still_pure ()

theorem still_nextLine : Along Eq nextLine :=
  fun _ => rfl

theorem still_count (counter : Nat) : Along Eq (count counter) :=
  fun _ => rfl

theorem still_memory : Along Eq memory :=
  fun _ => rfl

theorem still_remember (memory : Host.Memory) : Along Eq (remember memory) :=
  fun _ => rfl

/-! ### Runs that change the store -/

/-- What a change does to the store, when nothing else does. -/
theorem store_final_update (f : Store → Except Fault Store) {g : Unit → Run α}
    (hg : ∀ u, Along Eq (g u)) (m : Machine) :
    ((update f >>= g).final m).store = match f m.store with
      | .ok t => t
      | .error _ => m.store := by
  rw [final_bind, update]
  rcases f m.store with e | t
  · rfl
  · exact (hg () _).symm

theorem store_final_updateAll (f : Store → Store × Except Fault Unit) {g : Unit → Run α}
    (hg : ∀ u, Along Eq (g u)) (m : Machine) :
    ((updateAll f >>= g).final m).store = (f m.store).1 := by
  rw [final_bind, updateAll]
  rcases f m.store with ⟨t, e | u⟩
  · rfl
  · exact (hg () _).symm

theorem evolves_update {f : Store → Except Fault Store}
    (hf : ∀ {s t}, f s = .ok t → Evolves s t) : Along Evolves (update f) := by
  intro m
  unfold final update
  rcases h : f m.store with e | t
  · exact Evolves.refl _
  · exact hf h

theorem evolves_updateAll {f : Store → Store × Except Fault Unit}
    (hf : ∀ s, Evolves s (f s).1) : Along Evolves (updateAll f) := by
  intro m
  have hm := hf m.store
  unfold final updateAll
  rcases h : f m.store with ⟨s, e | u⟩ <;>
  · rw [h] at hm
    exact hm

theorem Along.evolves {r : Run α} (h : Along Eq r) : Along Evolves r := by
  intro m
  rw [← h m]
  exact Evolves.refl _

end Run

/-! ### Functions -/

open Run

theorem still_nthArgument (args : List Value) (index : Nat) :
    Along Eq (nthArgument args index) := by
  unfold nthArgument
  split
  · exact still_pure _
  · exact still_throw _

/-- The script of a function of the host leaves the store alone. -/
theorem Script.still_run (p : Script Host.Memory) : Along Eq p.run := by
  induction p with
  | finish outcome remembered => exact (still_remember _).bind fun _ => still_ofExcept _
  | print text _ ih => exact (still_emit _).bind fun _ => ih
  | read _ ih => exact still_nextLine.bind ih

/-- The body of a function leaves the store alone. -/
theorem Native.still_run (s : Settings) (args : List Value) (body : Native) :
    Along Eq (body.run s args) := by
  cases body with
  | print =>
    exact (still_nthArgument args 0).bind fun v => (still_ofExcept _).bind fun text =>
      (still_emit _).bind fun _ => still_pure _
  | read => exact still_nextLine.bind fun _ => still_pure _
  | classOf =>
    exact (still_nthArgument args 0).bind fun v => (still_ofExcept _).bind fun _ =>
      still_pure _
  | text =>
    exact (still_nthArgument args 0).bind fun v => (still_ofExcept _).bind fun _ =>
      still_pure _
  | nothing => exact still_pure _
  | constant v => exact still_pure v
  | argument i => exact still_nthArgument args i
  | tick counter => exact (still_count counter).bind fun _ => still_ofExcept _
  | sum => exact still_ofExcept _
  | host name => exact still_memory.bind fun _ => Script.still_run _

theorem Function.still_call (s : Settings) (f : Function) (args : List Value) :
    Along Eq (f.call s args) := by
  refine (still_ofExcept _).bind fun classes => ?_
  split
  · exact Native.still_run s args f.body
  · exact still_throw _

/-! ### Nodes -/

namespace Node

mutual

/-- Evaluating a node makes changes to the store. -/
theorem evolves_evaluate (s : Settings) : (n : Node) → Along Evolves (n.evaluate s)
  | literal v t => (still_pure _).evolves
  | identifier x => (still_look _).evolves
  | declaration x t m => by
    rw [evaluate]
    refine (evolves_update Store.evolves_of_declare).bind fun _ => ?_
    exact ((still_trace s 2 _).bind fun _ => still_pure _).evolves
  -- one change of the store, behind the value and in front of the trace
  | assignment x n => by
    rw [evaluate]
    refine (evolves_evaluate s n).bind fun v => ?_
    refine (evolves_update Store.evolves_of_assign).bind fun _ => ?_
    exact ((still_ofExcept _).bind fun _ => (still_trace s 2 _).bind fun _ =>
      still_pure _).evolves
  | block ns => by
    rw [evaluate]
    exact evolves_evaluateBlock s .null ns
  | call f ns => by
    rw [evaluate]
    refine (evolves_evaluateAll s ns).bind fun vs => ?_
    exact ((still_look _).bind fun g => (still_ofExcept _).bind fun _ =>
      (still_trace s 3 _).bind fun _ => Function.still_call s g vs).evolves
  | unknown => (still_throw _).evolves

theorem evolves_evaluateBlock (s : Settings) (last : Value) :
    (ns : List Node) → Along Evolves (evaluateBlock s last ns)
  | [] => (still_pure last).evolves
  | n :: ns => by
    rw [evaluateBlock]
    exact (evolves_evaluate s n).bind fun v => evolves_evaluateBlock s v ns

theorem evolves_evaluateAll (s : Settings) :
    (ns : List Node) → Along Evolves (evaluateAll s ns)
  | [] => (still_pure []).evolves
  | n :: ns => by
    rw [evaluateAll]
    exact (evolves_evaluate s n).bind fun v =>
      (evolves_evaluateAll s ns).bind fun vs => (still_pure _).evolves

end

/-- What an assignment does to the store, after its value is evaluated. -/
theorem store_final_assignment (s : Settings) (x : String) (n : Node) (m : Machine) :
    (((assignment x n).evaluate s).final m).store
      = match n.evaluate s m with
        | .ok v m => match m.store.assign x v with
          | .ok t => t
          | .error _ => m.store
        | .error _ m => m.store := by
  rw [evaluate, final_bind]
  rcases n.evaluate s m with ⟨v, m'⟩ | ⟨e, m'⟩
  · exact store_final_update _ (fun _ => (still_ofExcept _).bind fun _ =>
      (still_trace s 2 _).bind fun _ => still_pure _) m'
  · rfl

/-- Arguments are evaluated in the order of statements. -/
theorem final_evaluateAll (s : Settings) (last : Value) (ns : List Node) (m : Machine) :
    (evaluateAll s ns).final m = (evaluateBlock s last ns).final m := by
  induction ns generalizing last m with
  | nil => rfl
  | cons n ns ih =>
    rw [evaluateAll, evaluateBlock, final_bind, final_bind]
    rcases n.evaluate s m with ⟨v, m'⟩ | ⟨e, m'⟩
    · dsimp only
      rw [← ih v, final_bind, final]
      rcases evaluateAll s ns m' with ⟨vs, m''⟩ | ⟨e, m''⟩ <;> rfl
    · rfl

/-- What a call does to the store, its arguments do. -/
theorem store_final_call (s : Settings) (f : String) (ns : List Node) (m : Machine) :
    (((call f ns).evaluate s).final m).store = ((evaluateAll s ns).final m).store := by
  have hrest : ∀ vs : List Value, Along Eq (do
      let g ← Run.look (·.getFunction f)
      let texts ← Run.ofExcept (vs.mapM (·.printed s.language))
      Run.trace s 3 (callLine f texts)
      g.call s vs) := fun vs => (still_look _).bind fun g => (still_ofExcept _).bind fun _ =>
    (still_trace s 3 _).bind fun _ => Function.still_call s g vs
  rw [evaluate, final_bind, final]
  rcases evaluateAll s ns m with ⟨vs, m'⟩ | ⟨e, m'⟩
  · exact (hrest vs m').symm
  · rfl

end Node

/-! ### Sessions -/

theorem Run.still_read (s : Settings) (source : String) : Along Eq (Run.read s source) :=
  (still_ofExcept _).bind fun _ => (still_ofExcept _).bind fun _ =>
    (still_trace s 1 _).bind fun _ => still_pure _

theorem Run.still_conclude (s : Settings) (v : Value) : Along Eq (Run.conclude s v) :=
  (still_ofExcept _).bind fun _ => (still_ofExcept _).bind fun _ =>
    (still_trace s 2 _).bind fun _ => still_pure _

/-- Running a node changes the store as evaluating it does. -/
theorem Run.store_final_node (s : Settings) (n : Node) (m : Machine) :
    ((Run.node s n).final m).store = ((n.evaluate s).final m).store := by
  unfold final Run.node
  rcases n.evaluate s m with ⟨v, m'⟩ | ⟨f | c, m'⟩
  · exact (still_conclude s v m').symm
  · have ht := still_trace s 1 (failureLine f) m'
    unfold final at ht
    dsimp only
    rcases h : trace s 1 (failureLine f) m' with ⟨u, m''⟩ | ⟨e, m''⟩ <;>
    · rw [h] at ht
      exact ht.symm
  · rfl

theorem Run.evolves_node (s : Settings) (n : Node) : Along Evolves (Run.node s n) := by
  intro m
  rw [store_final_node]
  exact n.evolves_evaluate s m

theorem Run.evolves_execute (s : Settings) (source : String) :
    Along Evolves (Run.execute s source) :=
  (still_read s source).evolves.bind fun n => evolves_node s n

namespace Session

/-- Every step makes changes to the store. -/
theorem evolves_action (s : Settings) (step : Step) : Along Evolves (action s step) := by
  cases step with
  | execute source => exact (evolves_execute s source).map _
  | executeLine source =>
    exact (still_look _).evolves.bind fun line => (evolves_execute s line).map _
  | run n => exact (evolves_node s n).map _
  | evaluate n => exact (n.evolves_evaluate (quiet s)).map _
  | declare x t m =>
    exact (evolves_update Store.evolves_of_declare).bind fun _ => (still_pure _).evolves
  | assign x v =>
    exact (evolves_update Store.evolves_of_assign).bind fun _ => (still_pure _).evolves
  | declareAndAssign x v m =>
    exact (evolves_updateAll fun t => t.evolves_declareAndAssign x v m).bind fun _ =>
      (still_pure _).evolves
  -- looking up and calling leave the store alone
  | get x => exact ((still_look _).map _).evolves
  | getFunction x => exact ((still_look _).bind fun _ => still_pure _).evolves
  | getSymbol x => exact ((still_look _).map _).evolves
  | lookupClass x => exact ((still_look _).map _).evolves
  | isDefined x => exact ((still_look _).map _).evolves
  | call x args =>
    exact ((still_look _).bind fun f => (Function.still_call s f args).map _).evolves
  | registerFunctions fs =>
    exact (evolves_updateAll fun t => t.evolves_registerFunctions fs).bind fun _ =>
      (still_pure _).evolves
  | registerClasses cs =>
    exact (evolves_updateAll fun t => t.evolves_registerClasses cs).bind fun _ =>
      (still_pure _).evolves
  | setLanguage l => exact (still_pure _).evolves

theorem machine_perform (s : Session) (step : Step) :
    (s.perform step).1.machine = (action s.settings step).final s.machine := by
  unfold perform final
  rcases action s.settings step s.machine with ⟨a, m⟩ | ⟨e, m⟩ <;> rfl

theorem evolves_perform (s : Session) (step : Step) :
    Evolves s.machine.store (s.perform step).1.machine.store := by
  rw [machine_perform]
  exact evolves_action s.settings step s.machine

/-- Do steps in order, whatever their outcomes. -/
def performAll (s : Session) : List Step → Session
  | [] => s
  | step :: steps => (s.perform step).1.performAll steps

theorem performAll_append (s : Session) (steps more : List Step) :
    s.performAll (steps ++ more) = (s.performAll steps).performAll more := by
  induction steps generalizing s with
  | nil => rfl
  | cons step steps ih => exact ih _

theorem evolves_performAll (s : Session) (steps : List Step) :
    Evolves s.machine.store (s.performAll steps).machine.store := by
  induction steps generalizing s with
  | nil => exact Evolves.refl _
  | cons step steps ih => exact (evolves_perform s step).trans (ih _)

/-- A session that some steps lead to from a new one. -/
inductive Reachable : Session → Prop
  | created {settings : Settings} {functions : List Function} {input : List String}
      {s : Session} : create settings functions input = .ok s → Reachable s
  | performed {s : Session} (step : Step) : Reachable s → Reachable (s.perform step).1

theorem Reachable.performAll {s : Session} (h : s.Reachable) (steps : List Step) :
    (s.performAll steps).Reachable := by
  induction steps generalizing s with
  | nil => exact h
  | cons step steps ih => exact ih (h.performed step)

/-- The store of a new session. -/
theorem store_of_create {settings : Settings} {functions : List Function}
    {input : List String} {s : Session} (h : create settings functions input = .ok s) :
    Store.seeded functions = (s.machine.store, .ok ()) := by
  unfold create at h
  rcases hs : Store.seeded functions with ⟨t, e | u⟩
  · rw [hs] at h
    cases h
  · rw [hs] at h
    cases h
    rfl

end Session

end LineScript
