/-
LineScript/Machine.lean

The machine: all that evaluation reads and changes.

A machine holds the store, the lines of input that have not been read, the
counters of native functions, the log of events, and what the host remembers.
A `Run` is a computation on a machine that ends with a result or a fault; the
machine as it is in the end is kept in both cases, because evaluation takes
nothing back.

What does not change during evaluation is in `Settings`: the language of
messages, and the verbosity, up to which lines of the trace are logged.
-/
import LineScript.Event
import LineScript.Host
import LineScript.Store

namespace LineScript

variable [Host]

/-- What evaluation is given and does not change. -/
structure Settings where
  language : Language := .english
  verbosity : Nat := 0

/-- What evaluation reads and changes. -/
structure Machine where
  store : Store
  input : List String
  counters : Table Nat Nat
  events : Array Event
  memory : Host.Memory

/-- A computation on a machine. -/
abbrev Run (α : Type) := EStateM Fault Machine α

namespace Machine

/-- A machine with a store and lines of input, about to start. -/
def fresh (store : Store) (input : List String) : Machine :=
  ⟨store, input, .empty, #[], Host.start⟩

end Machine

namespace Run

/-- A result or a fault that is already known. -/
def ofExcept {α : Type} : Except Fault α → Run α
  | .ok a => fun m => .ok a m
  | .error e => fun m => .error e m

/-- Look something up in the store. -/
def look {α : Type} (f : Store → Except Fault α) : Run α := fun m =>
  match f m.store with
  | .ok a => .ok a m
  | .error e => .error e m

/-- Change the store, if the change succeeds. -/
def update (f : Store → Except Fault Store) : Run Unit := fun m =>
  match f m.store with
  | .ok s => .ok () { m with store := s }
  | .error e => .error e m

/-- Change the store in several steps, keeping those that were made before a
fault. -/
def updateAll (f : Store → Store × Except Fault Unit) : Run Unit := fun m =>
  match f m.store with
  | (s, .ok ()) => .ok () { m with store := s }
  | (s, .error e) => .error e { m with store := s }

/-- Log an event. -/
def emit (e : Event) : Run Unit := fun m =>
  .ok () { m with events := m.events.push e }

/-- Log a line of the trace, if the verbosity reaches its level. -/
def trace (s : Settings) (level : Nat) (text : String) : Run Unit :=
  if level ≤ s.verbosity then emit (.trace level text) else pure ()

/-- Take the next line of input, if there is one. -/
def nextLine : Run (Option String) := fun m =>
  .ok m.input.head?
    { m with input := m.input.tail, events := m.events.push (.input m.input.head?) }

/-- Count up a counter, and give the new count. -/
def count (counter : Nat) : Run Nat := fun m =>
  let n := (m.counters.find? counter).getD 0 + 1
  .ok n { m with counters := m.counters.insert counter n }

/-- What the host remembers. -/
def memory : Run Host.Memory := fun m =>
  .ok m.memory m

/-- Have the host remember something else. -/
def remember (memory : Host.Memory) : Run Unit := fun m =>
  .ok () { m with memory := memory }

end Run

end LineScript
