/-
LineScript/Proofs/Watching.lean

Watching which functions are run.

Evaluation does not tell which functions it runs, so it is watched: `Node.watch`
evaluates as `Node.evaluate` does, step for step, and notes an invocation wherever
the body of a function is about to be run.  Without the notes the two are the same
(`Node.erases_watch`), so the notes tell which bodies an evaluation runs, on which
arguments and at which machines (`Node.invocations`).

A step of a session evaluates one node, or calls one function, or does neither; its
invocations are told from that (`Session.invocations`).
-/
import LineScript.Proofs.Footprint

namespace LineScript

/-- Whether a body is a function of the host. -/
def Native.isHost : Native → Bool
  | host _ => true
  | _ => false

variable [Host]

/-! ### Watching -/

/-- The body of a function, about to be run for a call. -/
structure Invocation where
  /-- The name that is called. -/
  name : String
  /-- The arguments as they are written, if they are. -/
  operands : List Node
  /-- The machine when the call is reached, before its arguments. -/
  start : Machine
  function : Function
  arguments : List Value
  /-- The machine when the body is run. -/
  before : Machine

namespace Invocation

/-- The call that an invocation is made for. -/
def site (i : Invocation) : Node :=
  .call i.name i.operands

/-- What comes of running the body. -/
def result (s : Settings) (i : Invocation) : EStateM.Result Fault Machine Value :=
  i.function.body.run s i.arguments i.before

end Invocation

/-- A machine, and the invocations made on the way to it. -/
structure Watched where
  machine : Machine
  made : List Invocation

/-- A computation on a machine that notes the invocations it makes. -/
abbrev Watch (α : Type) := EStateM Fault Watched α

namespace Watch

variable {α β : Type}

/-- A run in which nothing is noted. -/
def lift (r : Run α) : Watch α := fun w =>
  match r w.machine with
  | .ok a m => .ok a ⟨m, w.made⟩
  | .error e m => .error e ⟨m, w.made⟩

/-- The machine as it is. -/
def machine : Watch Machine := fun w => .ok w.machine w

/-- Note an invocation. -/
def note (i : Invocation) : Watch Unit := fun w => .ok () ⟨w.machine, w.made ++ [i]⟩

end Watch

/-- Call a function, as `Function.call` does. -/
def Function.watch (s : Settings) (f : Function) (name : String) (operands : List Node)
    (start : Machine) (args : List Value) : Watch Value := do
  let classes ← Watch.lift (Run.ofExcept (classesOf args))
  if f.signature.admits classes then
    let before ← Watch.machine
    Watch.note ⟨name, operands, start, f, args, before⟩
    Watch.lift (f.body.run s args)
  else
    throw (.failure (.misfit f.signature.name f.signature.inputText
      (Text.commaSeparated (classes.map (·.name)))))

namespace Node

mutual

/-- Evaluate a node, as `evaluate` does. -/
def watch (s : Settings) : Node → Watch Value
  | literal v _ => pure (literalValue v)
  | identifier x => Watch.lift (Run.look (·.get x))
  | declaration x t m => do
    Watch.lift (Run.update (·.declare x t m))
    Watch.lift (Run.trace s 2 (declarationLine x t m))
    return .symbol x
  | assignment x n => do
    let v ← watch s n
    Watch.lift (Run.update (·.assign x v))
    let text ← Watch.lift (Run.ofExcept (v.printed s.language))
    Watch.lift (Run.trace s 2 (assignmentLine x text))
    return v
  | block ns => watchBlock s .null ns
  | call f ns => do
    let start ← Watch.machine
    let vs ← watchAll s ns
    let g ← Watch.lift (Run.look (·.getFunction f))
    let texts ← Watch.lift (Run.ofExcept (vs.mapM (·.printed s.language)))
    Watch.lift (Run.trace s 3 (callLine f texts))
    g.watch s f ns start vs
  | unknown => throw (.crash .unknownNode)

/-- Evaluate statements in order, as `evaluateBlock` does. -/
def watchBlock (s : Settings) (last : Value) : List Node → Watch Value
  | [] => pure last
  | n :: ns => do
    let v ← watch s n
    watchBlock s v ns

/-- Evaluate expressions in order, as `evaluateAll` does. -/
def watchAll (s : Settings) : List Node → Watch (List Value)
  | [] => pure []
  | n :: ns => do
    let v ← watch s n
    let vs ← watchAll s ns
    return v :: vs

end

end Node

/-! ### Forgetting the notes -/

namespace Watch

variable {α β : Type}

/-- A result without the notes. -/
def forget : EStateM.Result Fault Watched α → EStateM.Result Fault Machine α
  | .ok a w => .ok a w.machine
  | .error e w => .error e w.machine

/-- The notes that were made up to a result. -/
def madeBy : EStateM.Result Fault Watched α → List Invocation
  | .ok _ w | .error _ w => w.made

/-- A computation that is a run but for the notes. -/
def Erases (x : Watch α) (r : Run α) : Prop :=
  ∀ w, forget (x w) = r w.machine

theorem erases_lift (r : Run α) : Erases (lift r) r := by
  intro w
  unfold lift
  rcases r w.machine with ⟨a, m⟩ | ⟨e, m⟩ <;> rfl

theorem erases_pure (a : α) : Erases (pure a) (pure a) := fun _ => rfl

theorem erases_throw (e : Fault) : Erases (throw e : Watch α) (throw e) := fun _ => rfl

theorem lift_of_ok {r : Run α} {w : Watched} {a : α} {m : Machine} (h : r w.machine = .ok a m) :
    lift r w = .ok a ⟨m, w.made⟩ := by
  simp only [lift, h]

theorem lift_of_error {r : Run α} {w : Watched} {e : Fault} {m : Machine}
    (h : r w.machine = .error e m) : lift r w = .error e ⟨m, w.made⟩ := by
  simp only [lift, h]

theorem Erases.bind {x : Watch α} {r : Run α} {f : α → Watch β} {g : α → Run β}
    (hx : Erases x r) (hf : ∀ a, Erases (f a) (g a)) : Erases (x >>= f) (r >>= g) := by
  intro w
  have h := hx w
  rcases hw : x w with ⟨a, w'⟩ | ⟨e, w'⟩
  · rw [hw] at h
    rw [Run.bind_of_ok hw, Run.bind_of_ok h.symm]
    exact hf a w'
  · rw [hw] at h
    rw [Run.bind_of_error hw, Run.bind_of_error h.symm]
    rfl

/-- Where the run fails, the watched computation fails in the same machine. -/
theorem Erases.eq_error_of_run {x : Watch α} {r : Run α} (hx : Erases x r) {w : Watched}
    {e : Fault} {m : Machine} (h : r w.machine = .error e m) :
    x w = .error e ⟨m, madeBy (x w)⟩ := by
  have hw := hx w
  rw [h] at hw
  rcases hr : x w with ⟨a, w'⟩ | ⟨e', w'⟩
  · rw [hr] at hw
    cases hw
  · rw [hr] at hw
    cases hw
    rfl

end Watch

open Watch (Erases forget madeBy)

theorem Function.erases_watch (s : Settings) (f : Function) (name : String)
    (operands : List Node) (start : Machine) (args : List Value) :
    Erases (f.watch s name operands start args) (f.call s args) := by
  refine (Watch.erases_lift _).bind fun classes => ?_
  split
  · -- looking at the machine and noting the invocation leave no trace
    exact fun w => Watch.erases_lift (f.body.run s args) _
  · exact Watch.erases_throw _

namespace Node

mutual

/-- **Watching changes nothing.** -/
theorem erases_watch (s : Settings) : (n : Node) → Erases (n.watch s) (n.evaluate s)
  | literal v t => by
    rw [watch, evaluate]
    exact Watch.erases_pure _
  | identifier x => by
    rw [watch, evaluate]
    exact Watch.erases_lift _
  | declaration x t m => by
    rw [watch, evaluate]
    exact (Watch.erases_lift _).bind fun _ => (Watch.erases_lift _).bind fun _ =>
      Watch.erases_pure _
  | assignment x n => by
    rw [watch, evaluate]
    exact (erases_watch s n).bind fun v => (Watch.erases_lift _).bind fun _ =>
      (Watch.erases_lift _).bind fun text => (Watch.erases_lift _).bind fun _ =>
      Watch.erases_pure v
  | block ns => by
    rw [watch, evaluate]
    exact erases_watchBlock s .null ns
  | call f ns => by
    rw [watch, evaluate]
    -- the invocation is noted with the machine as it was before the arguments
    intro w
    exact ((erases_watchAll s ns).bind fun vs => (Watch.erases_lift _).bind fun g =>
      (Watch.erases_lift _).bind fun texts => (Watch.erases_lift _).bind fun _ =>
      g.erases_watch s f ns w.machine vs) w
  | unknown => by
    rw [watch, evaluate]
    exact Watch.erases_throw _

theorem erases_watchBlock (s : Settings) (last : Value) :
    (ns : List Node) → Erases (watchBlock s last ns) (evaluateBlock s last ns)
  | [] => by
    rw [watchBlock, evaluateBlock]
    exact Watch.erases_pure last
  | n :: ns => by
    rw [watchBlock, evaluateBlock]
    exact (erases_watch s n).bind fun v => erases_watchBlock s v ns

theorem erases_watchAll (s : Settings) :
    (ns : List Node) → Erases (watchAll s ns) (evaluateAll s ns)
  | [] => by
    rw [watchAll, evaluateAll]
    exact Watch.erases_pure []
  | n :: ns => by
    rw [watchAll, evaluateAll]
    exact (erases_watch s n).bind fun v => (erases_watchAll s ns).bind fun vs =>
      Watch.erases_pure (v :: vs)

end

/-- The invocations that the evaluation of a node makes. -/
def invocations (s : Settings) (n : Node) (m : Machine) : List Invocation :=
  madeBy (n.watch s ⟨m, []⟩)

end Node

/-! ### Steps -/

/-- The invocations that come of a source line, if it can be read. -/
def Run.invocations (s : Settings) (source : String) (m : Machine) : List Invocation :=
  match Run.read s source m with
  | .ok n m => n.invocations s m
  | .error _ _ => []

/-- The steps that have the store do one thing, and evaluate and call nothing. -/
def Step.isOperation : Step → Bool
  | execute _ | executeLine _ | run _ | evaluate _ | call _ _ => false
  | _ => true

namespace Session

/-- The invocations that a step makes. -/
def invocations (s : Session) : Step → List Invocation
  | .execute source => Run.invocations s.settings source s.machine
  | .executeLine source =>
    Run.invocations s.settings (s.machine.store.completeLine source) s.machine
  | .run n => n.invocations s.settings s.machine
  | .evaluate n => n.invocations (quiet s.settings) s.machine
  | .call x args =>
    match s.machine.store.getFunction x with
    | .ok f => madeBy (f.watch s.settings x [] s.machine args ⟨s.machine, []⟩)
    | .error _ => []
  | _ => []

theorem invocations_of_isOperation (s : Session) {step : Step} (h : step.isOperation = true) :
    s.invocations step = [] := by
  cases step <;> first | rfl | cases h

end Session

end LineScript
