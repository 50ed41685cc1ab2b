/-
LineScript/Evaluation.lean

Evaluating nodes.

Every kind of node has one rule:

* a literal gives its value, an identifier what the name holds;
* a declaration gives the declared name as a symbol;
* an assignment gives the assigned value;
* a block evaluates its statements in order and gives the last value;
* a call evaluates its arguments from left to right, then looks the function
  up, then checks the arguments against the slots, and then runs the body.

The first fault ends the evaluation, and all that was done before it stays.
Declarations and assignments that succeed leave a line in the trace at level
2, and calls one at level 3, once their arguments and their function are
there.  The text of such a line is made whatever the verbosity.
-/
import LineScript.Machine
import LineScript.Node

namespace LineScript

variable [Host]

/-! ### Functions -/

/-- One of the arguments of a native function. -/
def nthArgument (args : List Value) (index : Nat) : Run Value :=
  match args[index]? with
  | some v => pure v
  | none => throw (.crash (.missingArgument index))

/-- The whole number that a value is, zero for others. -/
def Value.wholePart : Value → Int
  | .int n => n.toInt
  | _ => 0

/-- Follow the script of a function of the host. -/
def Script.run : Script Host.Memory → Run Value
  | finish outcome remembered => do
    Run.remember remembered
    Run.ofExcept outcome
  | print text rest => do
    Run.emit (.print text)
    rest.run
  | read rest => do
    let line ← Run.nextLine
    (rest line).run

/-- Run the body of a function. -/
def Native.run (s : Settings) (args : List Value) : Native → Run Value
  | print => do
    let v ← nthArgument args 0
    let text ← Run.ofExcept (v.displayed s.language)
    Run.emit (.print text)
    return .null
  | read => do
    let line ← Run.nextLine
    return .str (line.getD "")
  | classOf => do
    let v ← nthArgument args 0
    let c ← Run.ofExcept v.classOf
    return .ofClass c
  | text => do
    let v ← nthArgument args 0
    let t ← Run.ofExcept (v.printed s.language)
    return .str t
  | nothing => pure .null
  | constant v => pure v
  | argument i => nthArgument args i
  | tick counter => do
    let n ← Run.count counter
    Run.ofExcept (Value.ofInt n)
  | sum => Run.ofExcept (Value.ofInt (args.foldl (fun n v => n + v.wholePart) 0))
  | host name => do
    let memory ← Run.memory
    (Host.script name s.language args memory).run

/-- Call a function, if the arguments fit its slots. -/
def Function.call (s : Settings) (f : Function) (args : List Value) : Run Value := do
  let classes ← Run.ofExcept (classesOf args)
  if f.signature.admits classes then f.body.run s args
  else
    throw (.failure (.misfit f.signature.name f.signature.inputText
      (Text.commaSeparated (classes.map (·.name)))))

/-! ### Nodes -/

/-- The line of the trace for a declaration. -/
def declarationLine (name type : String) (isMutable : Bool) : String :=
  "declare " ++ name ++ ": " ++ type ++ " (" ++ (if isMutable then "var" else "val") ++ ")"

/-- The line of the trace for an assignment. -/
def assignmentLine (name text : String) : String :=
  "assign " ++ name ++ " = " ++ text

/-- The line of the trace for a call. -/
def callLine (function : String) (texts : List String) : String :=
  "call " ++ function ++ "(" ++ Text.commaSeparated texts ++ ")"

namespace Node

mutual

/-- Evaluate a node. -/
def evaluate (s : Settings) : Node → Run Value
  | literal v _ => pure (literalValue v)
  | identifier x => Run.look (·.get x)
  | declaration x t m => do
    Run.update (·.declare x t m)
    Run.trace s 2 (declarationLine x t m)
    return .symbol x
  | assignment x n => do
    let v ← evaluate s n
    Run.update (·.assign x v)
    let text ← Run.ofExcept (v.printed s.language)
    Run.trace s 2 (assignmentLine x text)
    return v
  | block ns => evaluateBlock s .null ns
  | call f ns => do
    let vs ← evaluateAll s ns
    let g ← Run.look (·.getFunction f)
    let texts ← Run.ofExcept (vs.mapM (·.printed s.language))
    Run.trace s 3 (callLine f texts)
    g.call s vs
  | unknown => throw (.crash .unknownNode)

/-- Evaluate statements in order, and give the last value, or `last` if there
is none. -/
def evaluateBlock (s : Settings) (last : Value) : List Node → Run Value
  | [] => pure last
  | n :: ns => do
    let v ← evaluate s n
    evaluateBlock s v ns

/-- Evaluate expressions in order, and give all their values. -/
def evaluateAll (s : Settings) : List Node → Run (List Value)
  | [] => pure []
  | n :: ns => do
    let v ← evaluate s n
    let vs ← evaluateAll s ns
    return v :: vs

end

end Node

end LineScript
