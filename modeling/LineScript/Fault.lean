/-
LineScript/Fault.lean

Faults: the two ways in which an operation ends without a result.

* A *failure* is part of the language.  It has a message, the console reports
  it and goes on, and a program that fails ends with it.
* A *crash* is not.  It says that the host handed in something that is no
  value, or that a limit of the host was passed, and nothing handles it.
-/
import LineScript.Failure
import LineScript.Foreign

namespace LineScript

/-- The causes of a crash. -/
inductive Crash where
  /-- A foreign datum stands where a value is needed. -/
  | notAValue (d : Foreign)
  /-- A foreign datum of another kind stands where a whole number is
  needed. -/
  | notWhole (d : Foreign)
  /-- A whole number does not fit a word. -/
  | tooWide (n : Int)
  /-- A foreign datum has no counterpart among the values. -/
  | notConvertible (d : Foreign)
  /-- A node that is none of the known kinds. -/
  | unknownNode
  /-- A native function asks for an argument that it was not given. -/
  | missingArgument (index : Nat)
  /-- An integer literal has more digits than the host reads. -/
  | overlongInteger

/-- What the host says of a crash. -/
def Crash.message : Crash → String
  | notAValue d => "not a groLang value: " ++ d.written
  | notWhole d => "IntVal expects int, got " ++ d.kindName
  | tooWide n => toString n ++ " does not fit in 64 bits"
  | notConvertible d => "cannot convert " ++ d.kindName ++ " to a groLang value"
  | unknownNode => "unknown AST node Node()"
  | missingArgument _ => "list index out of range"
  | overlongInteger => "integer literal too long"

/-- Why an operation gave no result. -/
inductive Fault where
  | failure (f : Failure)
  | crash (c : Crash)

end LineScript
