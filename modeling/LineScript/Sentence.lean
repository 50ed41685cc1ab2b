/-
LineScript/Sentence.lean

Sentences: statements as they are written.

There are four forms: a declaration, a definition (a declaration with an
initial value, whose type may be left out), an assignment, and an expression
alone.  The node of a sentence is made after the literals in it have been
read, so a bad literal comes before a clash of types.
-/
import LineScript.Phrase

namespace LineScript

/-- A statement as it is written. -/
inductive Sentence where
  | declaration (isMutable : Bool) (name type : String)
  | definition (isMutable : Bool) (name : String) (type : Option String) (value : Phrase)
  | assignment (name : String) (value : Phrase)
  | expression (value : Phrase)

namespace Sentence

variable [Text.CharacterNames]

/-- The node of a sentence. -/
def toNode : Sentence → Except Fault Node
  | declaration m x t => .ok (.declaration x t m)
  | definition m x t p => do
    let n ← p.toNode
    Node.definition x t m n
  | assignment x p => do
    let n ← p.toNode
    return .assignment x n
  | expression p => p.toNode

end Sentence

end LineScript
