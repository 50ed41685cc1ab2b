/-
LineScript/Proofs/Logs.lean

What a run adds to the log.

The log is written and never read.  So a run does on a machine what it does on
the same machine with an empty log, and puts what it logs there behind the log
that was there (`Run.Framed.final_eq`).  Two machines that differ in the log only
are therefore the same to every run, and a run is known by three things: its
outcome, the machine without log in which it ends, and what it adds to the log
(`Run.logged`).

What a run adds are lines that the program prints, lines of the trace, and lines
of input; and the lines of input are, in order, those that the machine has lost.

A source text is read and then run.  `Run.passage` keeps what becomes of it, apart
from its outcome: the debug form under which it was read, and what was logged
while it ran.  The three ways to go through a text (in a session, in a program, at
the console) log the same passage; they differ in whether the debug form is
shown, and in what comes behind.
-/
import LineScript.Console
import LineScript.Proofs.Lockstep
import LineScript.Proofs.Runs
import LineScript.Proofs.Safety

namespace LineScript

open Run

/-! ### Machines and their logs -/

namespace Event

/-- The line of input that an event hands out. -/
def handedOut? : Event → Option String
  | input line => line
  | _ => none

/-- The lines of input that events hand out, in order. -/
def handedOut (es : List Event) : List String :=
  es.filterMap handedOut?

/-- An event of a statement, and not of the console or the program runner. -/
def isOwn : Event → Bool
  | print _ | trace _ _ | input _ => true
  | reply _ | prompt => false

@[simp] theorem handedOut_append (es es' : List Event) :
    handedOut (es ++ es') = handedOut es ++ handedOut es' :=
  List.filterMap_append

@[simp] theorem handedOut_input (line : Option String) :
    handedOut [input line] = line.toList := by
  cases line <;> rfl

end Event

/-- What announces a statement: a line of the trace, and a line of the program
runner or the console if it echoes. -/
def heading (s : Settings) (echo : Bool) (form : String) : List Event :=
  (if 1 ≤ s.verbosity then [.trace 1 ("READ: " ++ form)] else []) ++
    if echo then [.reply ("READ: " ++ form)] else []

theorem handedOut_heading (s : Settings) (echo : Bool) (form : String) :
    Event.handedOut (heading s echo form) = [] := by
  unfold heading
  split <;> split <;> rfl

variable [Host]

namespace Machine

/-- A machine with an empty log. -/
def unlogged (m : Machine) : Machine :=
  { m with events := #[] }

/-- A machine with another log. -/
def relogged (m : Machine) (es : List Event) : Machine :=
  { m with events := es.toArray }

@[simp] theorem unlogged_unlogged (m : Machine) : m.unlogged.unlogged = m.unlogged := rfl

@[simp] theorem unlogged_relogged (m : Machine) (es : List Event) :
    (m.relogged es).unlogged = m.unlogged := rfl

@[simp] theorem relogged_relogged (m : Machine) (es es' : List Event) :
    (m.relogged es).relogged es' = m.relogged es' := rfl

@[simp] theorem toList_events_relogged (m : Machine) (es : List Event) :
    (m.relogged es).events.toList = es := rfl

@[simp] theorem relogged_self (m : Machine) : m.relogged m.events.toList = m := rfl

/-- Machines that differ in the log only are the same with the same log. -/
theorem relogged_eq_of_unlogged {m m' : Machine} (h : m.unlogged = m'.unlogged)
    (es : List Event) : m.relogged es = m'.relogged es := by
  show m.unlogged.relogged es = m'.unlogged.relogged es
  rw [h]

/-- A machine with more events in its log. -/
def extended (m : Machine) (es : List Event) : Machine :=
  m.relogged (m.events.toList ++ es)

@[simp] theorem toList_events_extended (m : Machine) (es : List Event) :
    (m.extended es).events.toList = m.events.toList ++ es := rfl

@[simp] theorem extended_relogged (m : Machine) (es es' : List Event) :
    (m.relogged es).extended es' = m.relogged (es ++ es') := rfl

@[simp] theorem extended_nil (m : Machine) : m.extended [] = m := by
  rw [extended, List.append_nil, relogged_self]

theorem extended_singleton (m : Machine) (e : Event) :
    m.extended [e] = { m with events := m.events.push e } := by
  have hpush : (m.events.toList ++ [e]).toArray = m.events.push e := by
    apply Array.toList_inj.1
    rw [Array.toList_push]
  rw [extended, relogged, hpush]

@[simp] theorem extended_extended (m : Machine) (es es' : List Event) :
    (m.extended es).extended es' = m.extended (es ++ es') := by
  simp [extended]

end Machine

/-! ### Runs that go on behind a log -/

/-- The first machine is the second, which has lost the lines that it has logged
of those it was given, with some events in front of its log. -/
structure Resumed (before : List Event) (given : List String) (m m' : Machine) : Prop where
  machine : m = m'.relogged (before ++ m'.events.toList)
  input : Event.handedOut m'.events.toList ++ m'.input = given
  own : ∀ e ∈ m'.events.toList, e.isOwn = true

section Resumed

variable {before : List Event} {given : List String}

theorem resumed_unlogged (m : Machine) : Resumed m.events.toList m.input m m.unlogged where
  machine := by
    show m = m.relogged (m.events.toList ++ [])
    rw [List.append_nil, Machine.relogged_self]
  input := rfl
  own := nofun

theorem inStep_emit_resumed {e : Event} (he : e.handedOut? = none) (hown : e.isOwn = true) :
    InStep (Resumed before given) (fun _ => True) (emit e) (emit e) := by
  rintro _ m' ⟨rfl, hinput, hm'⟩
  refine .ok trivial ⟨?_, ?_, ?_⟩
  · simp [Machine.relogged]
  · simpa [Event.handedOut, he] using hinput
  · simpa [hown, or_imp, forall_and] using hm'

theorem inStep_nextLine_resumed :
    InStep (Resumed before given) (fun _ => True) nextLine nextLine := by
  rintro _ ⟨store, input, counters, events, memory⟩ ⟨rfl, hinput, hown⟩
  refine .ok trivial ⟨?_, ?_, ?_⟩
  · simp [Machine.relogged]
  · -- the line that leaves the input stands last in the log
    rcases input with - | ⟨line, rest⟩
    · simpa using hinput
    · simpa using hinput
  · simpa [Event.isOwn, or_imp, forall_and] using hown

/-- The bodies of functions do not look at the log. -/
theorem sameToBodies_resumed : SameToBodies (Resumed before given) where
  print _ := inStep_emit_resumed rfl rfl
  nextLine := inStep_nextLine_resumed
  count := by
    rintro counter _ m' ⟨rfl, hinput, hown⟩
    exact .ok trivial ⟨rfl, hinput, hown⟩
  memory := by
    rintro _ m' ⟨rfl, hinput, hown⟩
    exact .ok trivial ⟨rfl, hinput, hown⟩
  remember := by
    rintro memory _ m' ⟨rfl, hinput, hown⟩
    exact .ok trivial ⟨rfl, hinput, hown⟩

/-- **A run goes on behind a log as it would without.** -/
theorem correspondence_resumed (s : Settings) :
    Correspondence s s (fun _ => True) (Resumed before given) where
  store := by
    rintro _ m' ⟨rfl, -, -⟩
    rfl
  holds _ := fun _ _ _ => trivial
  restore := by
    rintro _ m' t ⟨rfl, hinput, hown⟩ _
    exact ⟨rfl, hinput, hown⟩
  null := trivial
  symbol _ := trivial
  literal _ := trivial
  printed _ := rfl
  trace := by
    intro level text _
    unfold Run.trace
    split
    · exact inStep_emit_resumed rfl rfl
    · exact inStep_pure trivial
  call _ _ := inStep_call rfl sameToBodies_resumed _ _

end Resumed

namespace Run

variable {α β : Type} {r : Run α} {m m' : Machine}

/-- A run to which the log is nothing. -/
def Framed (r : Run α) : Prop :=
  ∀ before given, InStep (Resumed before given) (fun _ => True) r r

/-- How a run ends. -/
def outcome (r : Run α) (m : Machine) : Except Fault α :=
  match r m with
  | .ok a _ => .ok a
  | .error e _ => .error e

/-- What a run adds to the log. -/
def logged (r : Run α) (m : Machine) : List Event :=
  (r.final m.unlogged).events.toList

theorem outcome_of_ok {a : α} (h : r m = .ok a m') : r.outcome m = .ok a := by
  rw [outcome, h]

theorem outcome_of_error {e : Fault} (h : r m = .error e m') : r.outcome m = .error e := by
  rw [outcome, h]

theorem final_of_ok {a : α} (h : r m = .ok a m') : r.final m = m' := by
  rw [final, h]

theorem final_of_error {e : Fault} (h : r m = .error e m') : r.final m = m' := by
  rw [final, h]

theorem eq_ok_of_outcome {a : α} (h : r.outcome m = .ok a) : r m = .ok a (r.final m) := by
  rcases hr : r m with ⟨b, m₁⟩ | ⟨e, m₁⟩
  · rw [outcome_of_ok hr] at h
    cases h
    rw [final_of_ok hr]
  · rw [outcome_of_error hr] at h
    cases h

theorem eq_error_of_outcome {e : Fault} (h : r.outcome m = .error e) :
    r m = .error e (r.final m) := by
  rcases hr : r m with ⟨b, m₁⟩ | ⟨e', m₁⟩
  · rw [outcome_of_ok hr] at h
    cases h
  · rw [outcome_of_error hr] at h
    cases h
    rw [final_of_error hr]

namespace Framed

variable (h : Framed r)

include h

/-- All that is to be known of a run behind a log. -/
theorem resumes (m : Machine) :
    r.outcome m = r.outcome m.unlogged ∧
      Resumed m.events.toList m.input (r.final m) (r.final m.unlogged) := by
  obtain ⟨a, m₁, m₁', hr, hr', -, hm₁⟩ | ⟨e, m₁, m₁', hr, hr', hm₁⟩ :=
    (h _ _ m m.unlogged (resumed_unlogged m)).cases
  · rw [outcome_of_ok hr, outcome_of_ok hr', final_of_ok hr, final_of_ok hr']
    exact ⟨rfl, hm₁⟩
  · rw [outcome_of_error hr, outcome_of_error hr', final_of_error hr, final_of_error hr']
    exact ⟨rfl, hm₁⟩

/-- The log does not matter to how a run ends. -/
theorem outcome_eq (hm : m.unlogged = m'.unlogged) : r.outcome m = r.outcome m' := by
  rw [(h.resumes m).1, (h.resumes m').1, hm]

/-- A run ends on machines that differ in the log only, and adds the same to
each log. -/
theorem final_eq (hm : m.unlogged = m'.unlogged) :
    r.final m = (r.final m').relogged (m.events.toList ++ r.logged m') := by
  rw [(h.resumes m).2.machine, (h.resumes m').2.machine, hm]
  rfl

/-- The lines that a run logs are those that the machine loses. -/
theorem handedOut_logged (m : Machine) :
    Event.handedOut (r.logged m) ++ (r.final m).input = m.input := by
  rw [(h.resumes m).2.machine]
  exact (h.resumes m).2.input

theorem isOwn_logged (m : Machine) : ∀ e ∈ r.logged m, e.isOwn = true :=
  (h.resumes m).2.own

/-- What was logged before a run stays in front of what the run logs. -/
theorem final_extended (m : Machine) (es : List Event) :
    r.final (m.extended es) = (r.final m).relogged (m.events.toList ++ es ++ r.logged m) :=
  h.final_eq rfl

end Framed

theorem framed_node (s : Settings) (n : Node) : Framed (Run.node s n) :=
  fun _ _ => (correspondence_resumed s).inStep_node fun _ _ => trivial

theorem framed_execute (s : Settings) (source : String) : Framed (Run.execute s source) :=
  fun _ _ => (correspondence_resumed s).inStep_execute source

end Run

/-! ### Passages -/

/-- What becomes of a source text, apart from its outcome: the debug form under
which it is read, if it is, and what is logged while it runs. -/
structure Passage where
  form : Option String
  running : List Event

/-- What a passage leaves in the log. -/
def Passage.events (s : Settings) (echo : Bool) (p : Passage) : List Event :=
  match p.form with
  | some form => heading s echo form ++ p.running
  | none => []

namespace Run

/-- How a machine passes a source text. -/
def passage (s : Settings) (source : String) (m : Machine) : Passage :=
  match Statement.parse source with
  | .ok n => ⟨(n.debugForm s.language).toOption, (node s n).logged m⟩
  | .error _ => ⟨none, []⟩

variable {s : Settings} {source : String}

theorem passage_of_unlogged {m m' : Machine} (h : m.unlogged = m'.unlogged) :
    passage s source m = passage s source m' := by
  simp only [passage, logged, h]

theorem emit_eq (e : Event) (m : Machine) : emit e m = .ok () (m.extended [e]) := by
  rw [emit, Machine.extended_singleton]

theorem trace_eq (s : Settings) (level : Nat) (text : String) (m : Machine) :
    trace s level text m
      = .ok () (m.extended (if level ≤ s.verbosity then [.trace level text] else [])) := by
  unfold trace
  split
  · exact emit_eq _ m
  · rw [Machine.extended_nil]
    rfl

/-- What executing a text comes to if the text cannot be parsed. -/
theorem execute_of_parse_error (s : Settings) {e : Fault} (h : Statement.parse source = .error e)
    (m : Machine) :
    execute s source m = .error e m ∧ passage s source m = ⟨none, []⟩ := by
  refine ⟨bind_of_error (read_of_parse_error s h m), ?_⟩
  rw [passage, h]

/-- A text that is parsed has a debug form, which announces it. -/
theorem exists_form {n : Node} (h : Statement.parse source = .ok n) (s : Settings) :
    ∃ form, ∀ m,
      passage s source m = ⟨some form, (node s n).logged m⟩ ∧
      read s source m = .ok n (m.extended (heading s false form)) ∧
      ∀ echo, Console.showForm s echo n (m.extended (heading s false form))
        = .ok () (m.extended (heading s echo form)) := by
  obtain ⟨form, hform⟩ := (Statement.isStatement_of_parse h).exists_debugForm s.language
  refine ⟨form, fun m => ⟨?_, ?_, ?_⟩⟩
  · -- what a passage reports
    rw [passage, h]
    show (⟨(n.debugForm s.language).toOption, _⟩ : Passage) = _
    rw [hform]
    rfl
  · -- what reading logs
    rw [read, h]
    show (ofExcept (n.debugForm s.language) >>= fun form => _) m = _
    rw [hform]
    show (trace s 1 ("READ: " ++ form) >>= fun _ => pure n) m = _
    rw [bind_of_ok (trace_eq s 1 _ m)]
    simp [heading, pure, EStateM.pure]
  · -- what the console echoes
    intro echo
    cases echo with
    | false => rfl
    | true =>
      show (ofExcept (n.debugForm s.language) >>= fun form => _) _ = _
      rw [hform]
      show emit (.reply ("READ: " ++ form)) _ = _
      rw [emit_eq]
      simp [heading]

/-- **A text is passed in one way.**  Either it cannot be parsed, or it is read and
announced, and the node that was read then runs to the outcome and the machine of
an execution, but for the log. -/
theorem announce_cases (s : Settings) (echo : Bool) (source : String) (m : Machine) :
    (∃ e, Statement.parse source = .error e) ∨
    ∃ n m₀ m₁, Statement.parse source = .ok n ∧ read s source m = .ok n m₀ ∧
      Console.showForm s echo n m₀ = .ok () m₁ ∧
      (node s n).outcome m₁ = (execute s source).outcome m ∧
      (node s n).final m₁ = ((execute s source).final m).relogged
        (m.events.toList ++ (passage s source m).events s echo) := by
  rcases hn : Statement.parse source with e | n
  · exact .inl ⟨e, rfl⟩
  · obtain ⟨form, hform⟩ := exists_form hn s
    obtain ⟨hpassage, hread, hshow⟩ := hform m
    have hnode := framed_node s n
    -- reading logs the heading, and the node runs behind it
    have hexecute : execute s source m = node s n (m.extended (heading s false form)) :=
      bind_of_ok hread
    have houtcome : (execute s source).outcome m
        = (node s n).outcome (m.extended (heading s false form)) := by
      rw [outcome, hexecute, outcome]
    have hfinal : (execute s source).final m
        = (node s n).final (m.extended (heading s false form)) := by
      rw [final, hexecute, final]
    refine .inr ⟨n, _, _, rfl, hread, hshow echo, ?_, ?_⟩
    · rw [houtcome]
      exact hnode.outcome_eq rfl
    · rw [hfinal, hnode.final_extended, hnode.final_extended, hpassage, Passage.events,
        Machine.relogged_relogged, List.append_assoc]

/-- What executing a text logs. -/
theorem logged_execute (s : Settings) (source : String) (m : Machine) :
    (execute s source).logged m = (passage s source m).events s false := by
  rcases hn : Statement.parse source with e | n
  · obtain ⟨hexecute, hpassage⟩ := execute_of_parse_error s hn m.unlogged
    rw [logged, final_of_error hexecute, ← passage_of_unlogged m.unlogged_unlogged, hpassage]
    rfl
  · obtain ⟨form, hform⟩ := exists_form hn s
    obtain ⟨hpassage, hread, -⟩ := hform m.unlogged
    have hexecute : execute s source m.unlogged
        = node s n (m.unlogged.extended (heading s false form)) := bind_of_ok hread
    rw [logged, final, hexecute, ← final, (framed_node s n).final_extended,
      ← passage_of_unlogged m.unlogged_unlogged, hpassage]
    rfl

theorem isOwn_running (s : Settings) (source : String) (m : Machine) :
    ∀ e ∈ (passage s source m).running, e.isOwn = true := by
  unfold passage
  split
  · exact (framed_node s _).isOwn_logged m
  · nofun

/-- The lines of input that a passage hands out are those that the machine
loses. -/
theorem handedOut_passage (s : Settings) (echo : Bool) (source : String) (m : Machine) :
    Event.handedOut ((passage s source m).events s echo) ++ ((execute s source).final m).input
      = m.input := by
  have hecho : Event.handedOut ((passage s source m).events s echo)
      = Event.handedOut ((passage s source m).events s false) := by
    unfold Passage.events
    split
    · rw [Event.handedOut_append, Event.handedOut_append, handedOut_heading, handedOut_heading]
    · rfl
  rw [hecho, ← logged_execute]
  exact (framed_execute s source).handedOut_logged m

end Run

end LineScript
