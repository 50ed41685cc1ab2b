/-
LineScript/CommandLine.lean

The command line: programs and the console, from arguments to exit code.

Without a program, or with an empty name for one, the console starts; it
shares the standard input with the statements that read.  With a program, its
statements are run in order.  The first failure is reported with the number of
its line and ends the run.

The trace goes to the standard output, or to a file if one is named and the
verbosity is not zero.  That file is emptied before anything else is done,
even before the program is looked for.

A run is described by a `Report`, from which all texts can be read off: the
whole of it is a function of the arguments, the files and the lines of input.
-/
import LineScript.CommandLine.Options
import LineScript.CommandLine.Path
import LineScript.Console

namespace LineScript.CommandLine

variable [Host]

/-! ### Reports -/

/-- How a run ends. -/
inductive Exit where
  | success
  | failure
  | misuse
  | crash (c : Crash)

/-- The files that a run can see, by the plain form of their paths. -/
abbrev Files := Table String String

/-- A run, as it can be seen from outside. -/
structure Report where
  exit : Exit
  /-- What was shown and asked for. -/
  events : List Event
  /-- The file that took the trace. -/
  traceFile : Option String
  /-- The text on the standard error. -/
  complaint : String

namespace Report

/-- Whether an event goes to the standard output. -/
def isPublic (r : Report) (e : Event) : Bool :=
  r.traceFile.isNone || !e.isTrace

/-- The text on the standard output. -/
def output (r : Report) : String :=
  Event.transcript (r.events.filter r.isPublic)

/-- The text of the trace. -/
def traceText (r : Report) : String :=
  Event.transcript (r.events.filter Event.isTrace)

/-- The files after the run. -/
def filesAfter (r : Report) (files : Files) : Files :=
  match r.traceFile with
  | none => files
  | some path => files.insert path r.traceText

/-- The events that stay the same however the input goes on: those before the
first line that was asked for and did not come. -/
def settled (r : Report) : List Event :=
  r.events.takeWhile (· != .input none)

/-- Whether a line was asked for and did not come. -/
def isWaiting (r : Report) : Bool :=
  r.events.contains (.input none)

end Report

/-! ### Runs -/

/-- The usage, as the help shows it. -/
def usage : String :=
  "usage: [-h] [-v] [-d] [--lang EN|FR] [--debug-file FILE] [--version] [program]"

/-- The settings that options ask for. -/
def Options.settings (o : Options) : Settings :=
  ⟨o.language, o.verbosity⟩

/-- The file that takes the trace, if one is named and there is a trace. -/
def Options.openTrace (o : Options) : Option String :=
  match o.traceFile with
  | some path => if path ≠ "" ∧ 0 < o.verbosity then some (plainPath path) else none
  | none => none

/-- A failure in a line of a program. -/
def lineComplaint (s : Settings) (line : Nat) (f : Failure) : String :=
  "Error at line " ++ toString line ++ ": " ++ f.message s.language ++ "\n"

/-- Read and run one statement of a program. -/
def runStatement (s : Settings) (echo : Bool) (source : String) : Run Unit := do
  let n ← Run.read s source
  Console.showForm s echo n
  let _ ← Run.node s n

/-- Run statements in order.  Gives the machine in the end, how the run ended
and what it complained of. -/
def runStatements (s : Settings) (echo : Bool) :
    List (Nat × String) → Machine → Machine × Exit × String
  | [], m => (m, .success, "")
  | (line, source) :: ps, m =>
    match runStatement s echo source m with
    | .ok () m => runStatements s echo ps m
    | .error (.failure f) m => (m, .failure, lineComplaint s line f)
    | .error (.crash c) m => (m, .crash c, "")

/-- Run a program text. -/
def runProgram (o : Options) (text : String) (input : List String) : Report :=
  let source := String.ofList (Text.unifyLineEnds text.toList)
  let (m, exit, complaint) :=
    runStatements o.settings o.echo (Program.statements source) (.fresh .standard input)
  ⟨exit, m.events.toList, o.openTrace, complaint⟩

/-- Run the console. -/
def runConsole (o : Options) (input : List String) : Report :=
  let c : Console := ⟨.fresh .standard input, .shared⟩
  match Console.dialogue o.settings o.echo c with
  | .ok () c => ⟨.success, c.machine.events.toList, o.openTrace, ""⟩
  | .error (.failure _) c => ⟨.failure, c.machine.events.toList, o.openTrace, ""⟩
  | .error (.crash k) c => ⟨.crash k, c.machine.events.toList, o.openTrace, ""⟩

/-- Run what options ask for. -/
def start (o : Options) (files : Files) (input : List String) : Report :=
  match o.program with
  | none => runConsole o input
  | some "" => runConsole o input
  | some path =>
    let present :=
      match o.openTrace with
      | some trace => files.insert trace ""
      | none => files
    match present.find? (plainPath path) with
    | some text => runProgram o text input
    | none =>
      ⟨.failure, [], o.openTrace, "Error: file " ++ plainPath path ++ " not found\n"⟩

/-- Run a command line. -/
def run (arguments : List String) (files : Files) (input : List String) : Report :=
  match command arguments with
  | .start o => start o files input
  | .version => ⟨.success, [.reply Console.versionText], none, ""⟩
  | .help => ⟨.success, [.reply usage], none, ""⟩
  | .misuse => ⟨.misuse, [], none, usage ++ "\n"⟩

end LineScript.CommandLine
