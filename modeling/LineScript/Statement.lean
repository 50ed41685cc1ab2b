/-
LineScript/Statement.lean

From a line of source text to a node.

The blanks around a statement are dropped, the rest is cut into tokens, the
tokens are read as a sentence, and the sentence becomes a node.  Failures come
in that order: a text that is no sentence is refused before its literals are
looked at, and a bad literal before a clash of types.

`assignmentTarget?` is a quick look at a line: the name that it assigns, if it
looks like an assignment at all.  It does not read the rest of the line.
-/
import LineScript.Sentence.Progress
import LineScript.Text.Blank
import LineScript.Token.Scan

namespace LineScript.Statement

variable [Text.CharacterNames]

/-! ### Parsing -/

/-- The sentence of a trimmed text. -/
def sentence (cs : List Char) : Except Failure Sentence :=
  let s := Token.scan cs
  Sentence.ofTokens s.tokens s.stuck

/-- The node of a trimmed text. -/
def parseTrimmed (cs : List Char) : Except Fault Node :=
  if cs.isEmpty then .error (.failure (.badStatement "empty statement"))
  else
    match sentence cs with
    | .ok s => s.toNode
    | .error f => .error (.failure f)

/-- The node of a statement. -/
def parse (source : String) : Except Fault Node :=
  parseTrimmed (Text.trim source.toList)

/-! ### Assignments at a glance -/

/-- Whether a text starts with one equals sign and not with two. -/
def startsWithEquals : List Char → Bool
  | '=' :: '=' :: _ => false
  | '=' :: _ => true
  | _ => false

/-- The name that a line of the form `name = …` assigns, with blanks around
the name; `val` and `var` are no such names. -/
def assignmentTarget? (source : String) : Option String :=
  let cs := Text.trimStart source.toList
  let name := Token.word cs
  if name ≠ [] ∧ startsWithEquals (Text.trimStart (cs.drop name.length)) ∧
      Token.Kind.ofWord name ≠ .val ∧ Token.Kind.ofWord name ≠ .var then
    some (String.ofList name)
  else none

end LineScript.Statement
