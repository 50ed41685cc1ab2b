/-
LineScript/Session.lean

Sessions: statements run one after the other on one machine.

A source line is read and then run.  Reading leaves the debug form of the
statement in the trace at level 1.  Running leaves the value and its class at
level 2, or, at level 1, the failure that ended it.

All that can be done to a session is listed in `Step`, and `Session.perform`
does it: it gives the session after the step, and an answer or a fault.
-/
import LineScript.Evaluation
import LineScript.Statement

namespace LineScript

variable [Host]

/-! ### Statements -/

namespace Run

/-- Read a source line. -/
def read (s : Settings) (source : String) : Run Node := do
  let n ← ofExcept (Statement.parse source)
  let form ← ofExcept (n.debugForm s.language)
  trace s 1 ("READ: " ++ form)
  return n

/-- The line of the trace for a failure. -/
def failureLine (f : Failure) : String :=
  "failed: " ++ f.kind.name ++ " " ++ Text.quotedList f.arguments

/-- Leave the value of a statement and its class in the trace. -/
def conclude (s : Settings) (v : Value) : Run Value := do
  let text ← ofExcept (v.printed s.language)
  let c ← ofExcept v.classOf
  trace s 2 ("=> " ++ text ++ " :" ++ c.name)
  return v

/-- Run a node, and leave its outcome in the trace. -/
def node (s : Settings) (n : Node) : Run Value := fun m =>
  match n.evaluate s m with
  | .ok v m => conclude s v m
  | .error (.failure f) m =>
    match trace s 1 (failureLine f) m with
    | .ok () m => .error (.failure f) m
    | .error e m => .error e m
  | .error (.crash c) m => .error (.crash c) m

/-- Read a source line and run it. -/
def execute (s : Settings) (source : String) : Run Value := do
  let n ← read s source
  node s n

end Run

/-- Put `var` in front of a line that assigns to an undeclared name. -/
def Store.completeLine (s : Store) (source : String) : String :=
  match Statement.assignmentTarget? source with
  | some x => if s.isDefined x then source else "var " ++ source
  | none => source

/-! ### Sessions -/

/-- A session: its settings, and its machine as it is now. -/
structure Session where
  settings : Settings
  machine : Machine

/-- What can be done to a session. -/
inductive Step where
  /-- Read a source line and run it. -/
  | execute (source : String)
  /-- The same, with `var` put in front where the console would do so. -/
  | executeLine (source : String)
  /-- Run a node. -/
  | run (n : Node)
  /-- Evaluate a node, without trace. -/
  | evaluate (n : Node)
  | declare (name type : String) (isMutable : Bool)
  | assign (name : String) (v : Value)
  | declareAndAssign (name : String) (v : Value) (isMutable : Bool)
  | get (name : String)
  | getFunction (name : String)
  | getSymbol (name : String)
  | lookupClass (name : String)
  | isDefined (name : String)
  /-- Call the function that a name holds. -/
  | call (name : String) (args : List Value)
  | registerFunctions (fs : List Function)
  | registerClasses (cs : List Class)
  | setLanguage (l : Language)

/-- What a step answers. -/
inductive Answer where
  | value (v : Value)
  | symbol (y : Symbol)
  | class? (c : Option Class)
  | truth (b : Bool)
  | done

namespace Session

/-- The settings under which nodes are evaluated without trace. -/
def quiet (s : Settings) : Settings :=
  { s with verbosity := 0 }

/-- What a step does to the machine, and its answer. -/
def action (s : Settings) : Step → Run Answer
  | .execute source => .value <$> Run.execute s source
  | .executeLine source => do
    let line ← Run.look fun t => .ok (t.completeLine source)
    .value <$> Run.execute s line
  | .run n => .value <$> Run.node s n
  | .evaluate n => .value <$> n.evaluate (quiet s)
  | .declare x t m => do
    Run.update (·.declare x t m)
    return .value (.symbol x)
  | .assign x v => do
    Run.update (·.assign x v)
    return .value v
  | .declareAndAssign x v m => do
    Run.updateAll (·.declareAndAssign x v m)
    return .value v
  | .get x => .value <$> Run.look (·.get x)
  | .getFunction x => do
    let f ← Run.look (·.getFunction x)
    return .value f.toValue
  | .getSymbol x => .symbol <$> Run.look (·.getSymbol x)
  | .lookupClass x => .class? <$> Run.look fun t => .ok (t.lookupClass? x)
  | .isDefined x => .truth <$> Run.look fun t => .ok (t.isDefined x)
  | .call x args => do
    let f ← Run.look (·.getFunction x)
    .value <$> f.call s args
  | .registerFunctions fs => do
    Run.updateAll (·.registerFunctions fs)
    return .done
  | .registerClasses cs => do
    Run.updateAll (·.registerClasses cs)
    return .done
  | .setLanguage _ => pure .done

/-- The settings after a step. -/
def settingsAfter (s : Settings) : Step → Settings
  | .setLanguage l => { s with language := l }
  | _ => s

/-- Do a step. -/
def perform (s : Session) (step : Step) : Session × Except Fault Answer :=
  let settings := settingsAfter s.settings step
  match action s.settings step s.machine with
  | .ok a m => (⟨settings, m⟩, .ok a)
  | .error e m => (⟨settings, m⟩, .error e)

/-- A new session with functions and lines of input, if the functions can be
registered. -/
def create (settings : Settings) (functions : List Function) (input : List String) :
    Except Fault Session :=
  match Store.seeded functions with
  | (store, .ok ()) => .ok ⟨settings, .fresh store input⟩
  | (_, .error e) => .error e

/-- A new session with the standard functions. -/
def standard (settings : Settings) (input : List String) : Session :=
  ⟨settings, .fresh .standard input⟩

end Session

end LineScript
