/-
LineScript/Foreign.lean

Foreign data: what a host program may hand in where a value is expected.

A foreign datum is not a value of the language and has no class.  It can be
turned into a value, if it is simple enough, and it can be written down for
the message that refuses it.
-/
import LineScript.Number.Shortest
import LineScript.Text.Quoted

namespace LineScript

/-- A datum of the host: nothing, a truth value, a whole number of any size,
a floating-point number, a text, or a list. -/
inductive Foreign where
  | nothing
  | truth (b : Bool)
  | whole (n : Int)
  | real (x : Number.Binary64)
  | text (s : String)
  | list (items : List Foreign)

namespace Foreign

/-- The host's name for the kind of a datum. -/
def kindName : Foreign → String
  | nothing => "NoneType"
  | truth _ => "bool"
  | whole _ => "int"
  | real _ => "float"
  | text _ => "str"
  | list _ => "list"

mutual

/-- How the host writes a datum. -/
def written : Foreign → String
  | nothing => "None"
  | truth b => if b then "True" else "False"
  | whole n => toString n
  | real x => x.toText
  | text s => Text.quoted s
  | list items => "[" ++ Text.commaSeparated (allWritten items) ++ "]"

/-- How the host writes each of several data. -/
def allWritten : List Foreign → List String
  | [] => []
  | d :: ds => written d :: allWritten ds

end

/-- A truth value counts as the whole number zero or one. -/
def asWhole? : Foreign → Option Int
  | truth b => some (if b then 1 else 0)
  | whole n => some n
  | _ => none

mutual

/-- Equality of the host: numbers by what they denote, whatever their kind,
and all else by structure. -/
def equal : Foreign → Foreign → Bool
  | nothing, nothing => true
  | text s, text t => s == t
  | list xs, list ys => allEqual xs ys
  | real x, real y => x.equal y
  | real x, d =>
    match d.asWhole? with
    | some n => x.equalsInt n
    | none => false
  | c, real y =>
    match c.asWhole? with
    | some n => y.equalsInt n
    | none => false
  | c, d =>
    match c.asWhole?, d.asWhole? with
    | some m, some n => m == n
    | _, _ => false

/-- Lists are equal if they are so item by item. -/
def allEqual : List Foreign → List Foreign → Bool
  | [], [] => true
  | c :: cs, d :: ds => equal c d && allEqual cs ds
  | _, _ => false

end

end Foreign

end LineScript
