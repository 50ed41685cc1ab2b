/-
LineScript/Host.lean

The host: the program that the language is embedded in.

Two things are left to the host, and all that is proved holds with any host:

* the names of characters that text literals may use;
* functions of its own, which `Native.host` refers to by their names.

A function of the host is given its arguments, and the language of messages.
What it does is a `Script`: it may print lines and take lines of input, each
line that it takes may decide how it goes on, and in the end it gives a value or
a fault.  Between its calls the host remembers what it likes, for all its
functions together, so that a function may count its calls or depend on what
others were called with.  A script has no hold on the store.
-/
import LineScript.Value

namespace LineScript

/-- What a function of the host does in a call, from the first thing to the
last; `memory` is what a host can remember. -/
inductive Script (memory : Type) where
  /-- End, with a value or a fault, and with something to remember. -/
  | finish (outcome : Except Fault Value) (remembered : memory)
  /-- Print a line, and go on. -/
  | print (text : String) (rest : Script memory)
  /-- Take the next line of input, if there is one, and go on. -/
  | read (rest : Option String → Script memory)

/-- A host. -/
class Host extends Text.CharacterNames where
  /-- What can be remembered between calls. -/
  Memory : Type
  /-- What is remembered in a new session. -/
  start : Memory
  /-- The script of a function with a name, for the language of messages, the
  arguments, and what is remembered. -/
  script (name : String) : Language → List Value → Memory → Script Memory

/-- A host without names of characters and without functions of its own; it
gives `null` for every function that it is asked for. -/
instance Host.plain : Host where
  named? _ := none
  Memory := Unit
  start := ()
  script _ _ _ _ := .finish (.ok .null) ()

end LineScript
