/-
LineScript/Event.lean

Events: what a session shows and what it asks for, in order.

All output goes through one log of events, so that the trace, the lines that
a program prints and the replies of the console keep their order, and can be
told apart and sent to different places.  A line of input that is asked for
leaves an event too, with the line that came or with nothing at the end of the
input.
-/

namespace LineScript

/-- Something that a session shows or asks for. -/
inductive Event where
  /-- A line printed by a program. -/
  | print (text : String)
  /-- A line of the trace, with the verbosity from which it is shown. -/
  | trace (level : Nat) (text : String)
  /-- A line from the console or the program runner itself. -/
  | reply (text : String)
  /-- The mark that the console waits for a line. -/
  | prompt
  /-- A line of input asked for, and the line that came. -/
  | input (line : Option String)
deriving DecidableEq

namespace Event

/-- The mark of the console. -/
def promptText : String := "> "

/-- A line of the trace. -/
def isTrace : Event → Bool
  | trace _ _ => true
  | _ => false

/-- The text that an event writes to the output. -/
def written : Event → String
  | print t | trace _ t | reply t => t ++ "\n"
  | prompt => promptText
  | input _ => ""

/-- The text of a line shown by a program or by the console. -/
def shown? : Event → Option String
  | print t | reply t => some t
  | _ => none

/-- The text that events write. -/
def transcript (es : List Event) : String :=
  String.join (es.map written)

end Event

end LineScript
