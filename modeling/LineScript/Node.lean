/-
LineScript/Node.lean

Nodes: statements and expressions, ready to be evaluated.

A node has a debug form, a notation in which every kind of node looks like a
call, and it may have a static type: the class name that its value is known to
have before it is evaluated.

* A literal carries its type; a literal without a value stands for `null`.
* An assignment has the type of what is assigned, a block that of its last
  statement, and the empty block that of `null`.
* A declaration gives the declared name as a symbol.
* Nothing is known of identifiers and calls.

`definition` joins a declaration and a first assignment into a block, after
checking that the declared type and the static type agree.
-/
import LineScript.Value

namespace LineScript

/-- A statement or an expression. -/
inductive Node where
  | literal (value : Option Value) (type : String)
  | identifier (name : String)
  | declaration (name type : String) (isMutable : Bool)
  | assignment (name : String) (value : Node)
  | block (statements : List Node)
  | call (function : String) (arguments : List Node)
  /-- A node that is none of these, which a host may hand in. -/
  | unknown

namespace Node

/-! ### Literals -/

/-- The value that a literal stands for. -/
def literalValue : Option Value → Value
  | some v => v
  | none => .null

/-- The literal of a value, with its class for a type.  A foreign datum is
turned into a value first, but for a list, which has no class. -/
def ofValue (v : Value) : Except Fault Node := do
  let v ←
    match v with
    | .foreign (.list items) => .ok (.foreign (.list items))
    | .foreign d => Value.ofForeign d
    | v => .ok v
  let c ← v.classOf
  return literal (some v) c.name

/-! ### Debug forms -/

mutual

/-- The debug form of a node. -/
def debugForm (l : Language) : Node → Except Fault String
  | literal v _ => (literalValue v).printed l
  | identifier x => .ok ("'" ++ x)
  | declaration x t m =>
    .ok ("declare('" ++ x ++ ",'" ++ t ++ "," ++ (if m then "true" else "false") ++ ")")
  | assignment x n => do
    let v ← debugForm l n
    return "assign('" ++ x ++ ", " ++ v ++ ")"
  | block ns => do
    let vs ← debugForms l ns
    return "\x7b" ++ String.intercalate "; " vs ++ "\x7d"
  | call f ns => do
    let vs ← debugForms l ns
    return f ++ "(" ++ String.intercalate "," vs ++ ")"
  | unknown => .error (.crash .unknownNode)

/-- The debug forms of several nodes, or the first fault among them. -/
def debugForms (l : Language) : List Node → Except Fault (List String)
  | [] => .ok []
  | n :: ns => do
    let v ← debugForm l n
    let vs ← debugForms l ns
    return v :: vs

end

/-! ### Static types -/

mutual

/-- The class name that the value of a node is known to have. -/
def staticType? : Node → Option String
  | literal _ t => some t
  | declaration _ _ _ => some Class.symbol.name
  | assignment _ n => staticType? n
  | block ns => lastStaticType? ns
  | identifier _ | call _ _ | unknown => none

/-- The static type of the last of several statements, and that of `null` if
there is none. -/
def lastStaticType? : List Node → Option String
  | [] => some Class.any.name
  | [n] => staticType? n
  | _ :: n :: ns => lastStaticType? (n :: ns)

end

/-! ### Definitions -/

/-- The type of a definition: the one that is written, which must not clash
with the static type of the initial value, or else that static type, which
must be there and not be `Any`. -/
def definitionType (name : String) (type : Option String) (value : Node) :
    Except Fault String :=
  match type, staticType? value with
  | none, none => .error (.failure (.notInferred name))
  | none, some t =>
    if t = Class.any.name then .error (.failure (.notInferred name)) else .ok t
  | some t, none => .ok t
  | some t, some inferred =>
    if inferred = t then .ok t else .error (.failure (.clash t inferred))

/-- Declare a name and give it a first value. -/
def definition (name : String) (type : Option String) (isMutable : Bool) (value : Node) :
    Except Fault Node := do
  let t ← definitionType name type value
  return block [declaration name t isMutable, assignment name value]

end Node

end LineScript
