/-
LineScript/Phrase.lean

Phrases: expressions as they are written, with literals still as text.

Reading the literals of a phrase gives a node.  They are read from left to
right, and the first that cannot be read decides the outcome:

* an integer must fit 64 bits, and one of more than 4300 digits is a crash;
* a decimal must not round to infinity;
* a text must be a well-formed literal, whose escapes name characters that the
  host has names for.
-/
import LineScript.Node
import LineScript.Token

namespace LineScript

variable [Text.CharacterNames]

/-! ### Literals -/

/-- The most digits of an integer literal that the host reads. -/
def digitLimit : Nat := 4300

namespace LiteralKind

/-- The whole number that an integer literal denotes, given without
underscores. -/
def integerValue (digits : List Char) : Int :=
  Number.Decimal.readInt digits

/-- Read an integer literal. -/
def readInteger (text : String) : Except Fault Node :=
  let cs := text.toList.filter (· != '_')
  if digitLimit < (cs.filter Number.isDigit).length then .error (.crash .overlongInteger)
  else
    match Number.toWord? (integerValue cs) with
    | some w => .ok (.literal (some (.int w)) Class.int.name)
    | none => .error (.failure (.badStatement ("integer " ++ text ++ " out of range")))

/-- Read a decimal literal. -/
def readDecimal (text : String) : Except Fault Node :=
  let x := Number.Binary64.ofDecimal (Number.Decimal.read (text.toList.filter (· != '_')))
  if x.isFinite then .ok (.literal (some (.float x)) Class.float.name)
  else .error (.failure (.badStatement ("decimal " ++ text ++ " out of range")))

/-- Read a text literal. -/
def readText (text : String) : Except Fault Node :=
  match Text.DoubleQuoted.decode? text.toList with
  | some cs => .ok (.literal (some (.str (String.ofList cs))) Class.str.name)
  | none => .error (.failure (.badStatement ("invalid escape in " ++ text)))

/-- Read a literal of a kind. -/
def read (text : String) : LiteralKind → Except Fault Node
  | integer => readInteger text
  | decimal => readDecimal text
  | LiteralKind.text => readText text
  | symbol =>
    .ok (.literal (some (.symbol (String.ofList (text.toList.drop 1)))) Class.symbol.name)
  | true => .ok (.literal (some (.bool Bool.true)) Class.bool.name)
  | false => .ok (.literal (some (.bool Bool.false)) Class.bool.name)
  | null => .ok (.literal (some .null) Class.any.name)

end LiteralKind

/-! ### Phrases -/

/-- An expression as it is written. -/
inductive Phrase where
  | literal (kind : LiteralKind) (text : String)
  | reference (name : String)
  | call (function : String) (arguments : List Phrase)

namespace Phrase

mutual

/-- The node of a phrase, if its literals can be read. -/
def toNode : Phrase → Except Fault Node
  | literal k t => k.read t
  | reference x => .ok (.identifier x)
  | call f ps => do
    let ns ← toNodes ps
    return .call f ns

/-- The nodes of several phrases, read from left to right. -/
def toNodes : List Phrase → Except Fault (List Node)
  | [] => .ok []
  | p :: ps => do
    let n ← toNode p
    let ns ← toNodes ps
    return n :: ns

end

end Phrase

end LineScript
