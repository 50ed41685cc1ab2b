/-
LineScript/Program.lean

Programs: texts of one statement a line.

A line of blanks only and a line whose first character that is not blank is
`#` are passed over; all others are statements, and keep the number of their
line.  Running a program executes its statements in order up to the first
fault, and gives the last value.
-/
import LineScript.Session
import LineScript.Text.Lines

namespace LineScript.Program

variable [Host]

/-! ### Lines -/

/-- A line that holds no statement. -/
def isInert (line : List Char) : Bool :=
  match Text.trimStart line with
  | [] => true
  | c :: _ => c == '#'

/-- The lines of a text with their numbers, counted from one. -/
def numbered (source : String) : List (Nat × List Char) :=
  (Text.splitLines source.toList).zipIdx 1 |>.map fun p => (p.2, p.1)

/-- The statements of a program with the numbers of their lines. -/
def statements (source : String) : List (Nat × String) :=
  ((numbered source).filter fun p => !isInert p.2).map fun p => (p.1, String.ofList p.2)

/-! ### Running -/

/-- Execute statements in order, and give the last value, or `last` if there
is none. -/
def runStatements (s : Settings) (last : Value) : List (Nat × String) → Run Value
  | [] => pure last
  | p :: ps => do
    let v ← Run.execute s p.2
    runStatements s v ps

/-- Run a program on a machine. -/
def run (s : Settings) (source : String) : Run Value :=
  runStatements s .null (statements source)

/-- Run a program in a new standard session. -/
def runFresh (s : Settings) (source : String) (input : List String) :
    EStateM.Result Fault Machine Value :=
  run s source (.fresh .standard input)

end LineScript.Program
