/-
LineScript/Value.lean

Values, the functions among them, and how they are written.

* Every value has a class (`classOf`); the class of `null` is `Any`, and the
  class of a class is `Class`, its own included.
* A function is a signature and a native body.  Two functions are equal if
  their signatures are; the bodies are not compared.
* The printed form of a value (`printed`) quotes texts and marks symbols, so
  that a literal reads back; the displayed form (`displayed`) shows a text as
  it is.

A host may also put a foreign datum in the place of a value.  It has no class
and no printed form, and asking for either is a crash.
-/
import LineScript.Class
import LineScript.Failure.Catalogue
import LineScript.Fault
import LineScript.Number.Word
import LineScript.Text.DoubleQuoted

namespace LineScript

/-! ### Types -/

/-- What a function takes and gives.  The output class is stated, not
checked. -/
structure Signature where
  name : String
  inputs : List Class
  output : Option Class
deriving DecidableEq

mutual

/-- A value of the language, or a foreign datum in the place of one. -/
inductive Value where
  | null
  | int (n : Int64)
  | float (x : Number.Binary64)
  | bool (b : Bool)
  | str (s : String)
  | symbol (name : String)
  | ofClass (c : Class)
  | function (signature : Signature) (body : Native)
  | error (f : Failure)
  | foreign (d : Foreign)

/-- The bodies that functions have. -/
inductive Native where
  /-- Writes its argument as a line of output. -/
  | print
  /-- Gives the next line of input. -/
  | read
  /-- Gives the class of its argument. -/
  | classOf
  /-- Gives the printed form of its argument as a text. -/
  | text
  /-- Gives `null`. -/
  | nothing
  /-- Gives always the same value. -/
  | constant (v : Value)
  /-- Gives one of its arguments back. -/
  | argument (index : Nat)
  /-- Counts its own calls; bodies with one counter count together. -/
  | tick (counter : Nat)
  /-- Adds its whole-number arguments. -/
  | sum
  /-- Does what the host says of the function with this name. -/
  | host (name : String)

end

/-- A function, apart from being a value. -/
structure Function where
  signature : Signature
  body : Native

namespace Signature

/-- The number of slots. -/
def arity (s : Signature) : Nat :=
  s.inputs.length

/-- The classes of the slots, as a message names them. -/
def inputText (s : Signature) : String :=
  Text.commaSeparated (s.inputs.map (·.name))

/-- All classes that a signature names. -/
def mentioned (s : Signature) : List Class :=
  s.inputs ++ s.output.toList

/-- Whether arguments of these classes fit the slots, one each. -/
def admits (s : Signature) (actual : List Class) : Bool :=
  s.inputs.length == actual.length && (s.inputs.zip actual).all fun p => p.1.fitsSlot p.2

end Signature

namespace Function

/-- A function as a value. -/
def toValue (f : Function) : Value :=
  .function f.signature f.body

/-- The functions that a session has unless it is given others. -/
def standard : List Function :=
  [⟨⟨"print", [.any], some .any⟩, .print⟩,
    ⟨⟨"read", [], some .str⟩, .read⟩,
    ⟨⟨"type", [.any], some .classes⟩, .classOf⟩,
    ⟨⟨"str", [.any], some .str⟩, .text⟩]

end Function

namespace Value

/-! ### Classes of values -/

/-- The class of a value; a foreign datum has none. -/
def classOf : Value → Except Fault Class
  | null => .ok .any
  | int _ => .ok .int
  | float _ => .ok .float
  | bool _ => .ok .bool
  | str _ => .ok .str
  | symbol _ => .ok .symbol
  | ofClass _ => .ok .classes
  | function _ _ => .ok .function
  | error _ => .ok .error
  | foreign d => .error (.crash (.notAValue d))

/-- The class that a value is, if it is one. -/
def asClass? : Value → Option Class
  | ofClass c => some c
  | _ => none

/-- The function that a value is, if it is one. -/
def asFunction? : Value → Option Function
  | function s b => some ⟨s, b⟩
  | _ => none

/-! ### Equality -/

/-- Equality of values: floating-point numbers as numbers, functions by
their signatures, all else by structure. -/
def equal : Value → Value → Bool
  | null, null => true
  | int m, int n => m == n
  | float x, float y => x.equal y
  | bool a, bool b => a == b
  | str s, str t => s == t
  | symbol s, symbol t => s == t
  | ofClass c, ofClass d => c == d
  | function s _, function t _ => s == t
  | error f, error g => f == g
  | foreign c, foreign d => c.equal d
  | _, _ => false

/-! ### Written forms -/

/-- The printed form of a value, which shows what kind of value it is. -/
def printed (l : Language) : Value → Except Fault String
  | null => .ok "null"
  | int n => .ok (toString n.toInt)
  | float x => .ok x.toText
  | bool b => .ok (if b then "true" else "false")
  | str s => .ok (Text.DoubleQuoted.encode s)
  | symbol s => .ok ("'" ++ s)
  | ofClass c => .ok ("Class(" ++ c.name ++ ")")
  | function s _ => .ok ("Function(name=" ++ s.name ++ ")")
  | error f => .ok ("Error(" ++ f.kind.name ++ ": " ++ f.message l ++ ")")
  | foreign d => .error (.crash (.notAValue d))

/-- The displayed form of a value: the printed form, but a text as it is. -/
def displayed (l : Language) : Value → Except Fault String
  | str s => .ok s
  | v => v.printed l

/-- The form in which the host sees those values that have one of their
own. -/
def hostForm? : Value → Option String
  | null => some "Null"
  | ofClass c => some ("Class(" ++ c.name ++ ")")
  | function s _ => some ("<builtin " ++ s.name ++ ">")
  | error f =>
    some ("Error(kind=" ++ f.kind.name ++ ", args=" ++ Text.quotedTuple f.arguments ++ ")")
  | _ => none

/-! ### From foreign data -/

/-- The value of a whole number, if it fits a word. -/
def ofInt (n : Int) : Except Fault Value :=
  match Number.toWord? n with
  | some w => .ok (.int w)
  | none => .error (.crash (.tooWide n))

/-- The value of a foreign whole number; no other kind of datum is taken for
one. -/
def ofWhole : Foreign → Except Fault Value
  | .whole n => ofInt n
  | d => .error (.crash (.notWhole d))

/-- The value that a foreign datum stands for. -/
def ofForeign : Foreign → Except Fault Value
  | .nothing => .ok null
  | .truth b => .ok (bool b)
  | .whole n => ofInt n
  | .real x => .ok (float x)
  | .text s => .ok (str s)
  | .list items => .error (.crash (.notConvertible (.list items)))

end Value

/-- The classes of several values, or the fault of the first that has
none. -/
def classesOf (vs : List Value) : Except Fault (List Class) :=
  vs.mapM Value.classOf

end LineScript
