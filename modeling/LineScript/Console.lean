/-
LineScript/Console.lean

The console: a dialogue of one line at a time.

The console asks for a line and reacts to it, until it is told to quit, is
interrupted, or gets no more lines:

* a line that starts with a colon is a command: `:q` quits, `:h` shows the
  help, and every other one is passed over;
* a line of blanks only is passed over;
* every other line is a statement.  It is completed with `var` if it assigns
  to an undeclared name, read, and run; the reply is its value, or the failure
  that came of reading or running it.

The lines come from a list of their own, in which an interrupt may stand, or
from the input that the program reads too.  In both cases a dialogue uses up
one line for every reaction, so it cannot last longer than there are lines.
-/
import LineScript.Program

namespace LineScript

variable [Host]

/-- Where the console takes its lines from. -/
inductive Supply where
  /-- Its own lines, with `none` for an interrupt. -/
  | own (lines : List (Option String))
  /-- The input of the machine. -/
  | shared

/-- The console between two lines. -/
structure Console where
  machine : Machine
  supply : Supply

/-- A computation on a console. -/
abbrev Dialogue (α : Type) := EStateM Fault Console α

namespace Console

/-! ### Texts -/

/-- The name and version of the language. -/
def versionText : String := "groLang 0.1"

/-- The two lines that open a dialogue. -/
def welcome : List String :=
  ["Welcome to " ++ versionText ++ " REPL", "type :h for help, :q to quit"]

/-- The line that closes a dialogue. -/
def farewell : String := "groLang terminated"

/-- The help. -/
def help : String :=
  String.intercalate "\n"
    ["Statements:",
      "  val x: Int          declare an immutable variable",
      "  var x: Int          declare a mutable variable",
      "  val x = 3           declare and assign, the type is inferred",
      "  x = 4               assign (an unknown name is declared with var)",
      "  print(x)            call a built-in function",
      "Built-in functions: print(Any), read(), type(Any), str(Any)",
      "Commands:",
      "  :h                  show this help",
      "  :q                  quit"]

/-! ### Reacting to a statement -/

/-- The reply to a failure. -/
def complaint (s : Settings) (stage : String) (f : Failure) : Event :=
  .reply (stage ++ " ERROR: " ++ f.message s.language)

/-- Show the debug form of a statement, if the console echoes. -/
def showForm (s : Settings) (echo : Bool) (n : Node) : Run Unit :=
  if echo then do
    let form ← Run.ofExcept (n.debugForm s.language)
    Run.emit (.reply ("READ: " ++ form))
  else pure ()

/-- Run a statement that has been read, and reply with its value or its
failure. -/
def answer (s : Settings) (n : Node) : Run Unit := fun m =>
  match Run.node s n m with
  | .ok v m =>
    (do
      let text ← Run.ofExcept (v.printed s.language)
      Run.emit (.reply text) : Run Unit) m
  | .error (.failure f) m => Run.emit (complaint s "EVAL" f) m
  | .error (.crash c) m => .error (.crash c) m

/-- React to a line that holds a statement. -/
def react (s : Settings) (echo : Bool) (line : String) : Run Unit := fun m =>
  match Run.read s (m.store.completeLine line) m with
  | .ok n m =>
    (do
      showForm s echo n
      answer s n : Run Unit) m
  | .error (.failure f) m => Run.emit (complaint s "READ" f) m
  | .error (.crash c) m => .error (.crash c) m

/-! ### The dialogue -/

/-- A computation on the machine of the console. -/
def onMachine {α : Type} (r : Run α) : Dialogue α := fun c =>
  match r c.machine with
  | .ok a m => .ok a { c with machine := m }
  | .error e m => .error e { c with machine := m }

/-- Take the next line; there is none at the end and at an interrupt. -/
def ask : Dialogue (Option String) := fun c =>
  match c.supply with
  | .own [] => .ok none c
  | .own (line :: lines) => .ok line { c with supply := .own lines }
  | .shared => onMachine Run.nextLine c

/-- What a line asks the console to do. -/
inductive Request where
  | quit
  | help
  | nothing
  | statement (line : String)

/-- Tell commands, blank lines and statements apart. -/
def request (line : String) : Request :=
  let cs := line.toList
  if cs.head? = some ':' then
    if Text.trim cs = [':', 'q'] then .quit
    else if Text.trim cs = [':', 'h'] then .help
    else .nothing
  else if Text.allBlank cs then .nothing
  else .statement line

/-- Ask and react, at most `limit` times. -/
def turns (s : Settings) (echo : Bool) : Nat → Dialogue Unit
  | 0 => pure ()
  | limit + 1 => do
    onMachine (Run.emit .prompt)
    match ← ask with
    | none => pure ()
    | some line =>
      match request line with
      | .quit => pure ()
      | .help => do
        onMachine (Run.emit (.reply help))
        turns s echo limit
      | .nothing => turns s echo limit
      | .statement line => do
        onMachine (react s echo line)
        turns s echo limit

/-- The number of lines that the console can still get. -/
def available (c : Console) : Nat :=
  match c.supply with
  | .own lines => lines.length
  | .shared => c.machine.input.length

/-- A whole dialogue. -/
def dialogue (s : Settings) (echo : Bool) : Dialogue Unit := fun c =>
  (do
    welcome.forM fun line => onMachine (Run.emit (.reply line))
    turns s echo (c.available + 1)
    onMachine (Run.emit (.reply farewell)) : Dialogue Unit) c

end Console

end LineScript
