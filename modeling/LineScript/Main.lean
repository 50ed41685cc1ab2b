/-
LineScript/Main.lean

The program at the terminal.

All that it does is decided by `CommandLine.run`, which is given the files and
the lines of input.  Here the program text is fetched, lines are read from the
terminal as the run asks for them, and what the run shows is written out.

A run that asks for a line which has not been typed yet is taken up again from
the start once the line is there.  The events before that request stay the
same, so only the later ones are written.
-/
import LineScript.CommandLine

namespace LineScript.CommandLine

/-- The text of the program that options name, if it can be read. -/
def fetchProgram (o : Options) : IO Files := do
  match o.program with
  | none => return .empty
  | some path =>
    try
      let text ← IO.FS.readFile path
      return Table.empty.insert (plainPath path) text
    catch _ => return .empty

/-- The files that a command line can see. -/
def fetchFiles (arguments : List String) : IO Files :=
  match command arguments with
  | .start o => fetchProgram o
  | _ => pure .empty

/-- Write the events that go to the standard output. -/
def put (r : Report) (events : List Event) : IO Unit := do
  let out ← IO.getStdout
  out.putStr (Event.transcript (events.filter r.isPublic))
  out.flush

/-- Run with the lines typed so far, and fetch more as long as they are asked
for.  The first `shown` events have been written. -/
partial def converse (run : List String → Report) (lines : List String) (shown : Nat) :
    IO Report := do
  let r := run lines
  if r.isWaiting then
    put r (r.settled.drop shown)
    let line ← (← IO.getStdin).getLine
    if line.isEmpty then
      put r (r.events.drop r.settled.length)
      return r
    else
      let typed := (Text.inputLines line.toList).map String.ofList
      converse run (lines ++ typed) r.settled.length
  else
    put r (r.events.drop shown)
    return r

/-- The exit code of a run. -/
def Exit.code : Exit → UInt32
  | .success => 0
  | .failure => 1
  | .misuse => 2
  | .crash _ => 3

end LineScript.CommandLine

open LineScript LineScript.CommandLine in
/-- Run the command line. -/
def main (arguments : List String) : IO UInt32 := do
  let files ← fetchFiles arguments
  let r ← converse (run arguments files) [] 0
  IO.eprint r.complaint
  if let .crash c := r.exit then IO.eprintln c.message
  if let some path := r.traceFile then IO.FS.writeFile path r.traceText
  return r.exit.code
