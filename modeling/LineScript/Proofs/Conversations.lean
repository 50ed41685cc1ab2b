/-
LineScript/Proofs/Conversations.lean

The console as a fold of the session step.

A `Conversation` is said in terms of sessions alone.  It is a list of turns: a line
that does not quit is heard by a session, which goes on as it was, or, if the line
holds a statement, as after the step that runs the line; and the line gets its
response.  If the console shares its lines with the statements that read, then
every line that is heard is taken from the input of the session, where a statement
that reads takes its lines too.

A dialogue is such a conversation, up to the first line that quits, the first
interrupt or the last line, or to the first crash (`dialogue_is_conversation`).
The log has the turns one after the other, and nothing else between the welcome
and the farewell.
-/
import LineScript.CommandLine
import LineScript.Proofs.Logs

namespace LineScript

open Run

/-! ### What lines ask for -/

namespace Console

/-- A line that tells the console to quit. -/
def isQuit (line : String) : Bool :=
  line.toList.head? == some ':' && Text.trim line.toList == [':', 'q']

/-- A line that asks for the help. -/
def isHelp (line : String) : Bool :=
  line.toList.head? == some ':' && Text.trim line.toList == [':', 'h']

/-- A line that holds a statement: neither a command nor blank. -/
def isStatement (line : String) : Bool :=
  line.toList.head? != some ':' && !Text.allBlank line.toList

theorem request_eq (line : String) :
    request line =
      if isQuit line then .quit
      else if isHelp line then .help
      else if isStatement line then .statement line
      else .nothing := by
  unfold request isQuit isHelp isStatement
  by_cases hcolon : line.toList.head? = some ':'
  · simp [hcolon]
  · cases hblank : Text.allBlank line.toList <;> simp [hcolon, hblank]

theorem isStatement_of_isHelp {line : String} (h : isHelp line = true) :
    isStatement line = false := by
  rw [isHelp, Bool.and_eq_true, beq_iff_eq] at h
  simp [isStatement, h.1]

end Console

/-! ### Conversations -/

/-- The event of a line that the console takes from the input. -/
def handover (shared : Bool) (line : Option String) : List Event :=
  if shared then [.input line] else []

section AnyHost

variable [Host]

/-- A machine that has handed a line to the console, if the two share their
lines. -/
def Machine.given (shared : Bool) (m : Machine) : Machine :=
  if shared then { m with input := m.input.tail } else m

theorem Machine.given_extended (shared : Bool) (m : Machine) (es : List Event) :
    (m.extended es).given shared = (m.given shared).relogged (m.events.toList ++ es) := by
  cases shared <;> rfl

theorem Machine.unlogged_given {m m' : Machine} (h : m.unlogged = m'.unlogged) (shared : Bool) :
    (m.given shared).unlogged = (m'.given shared).unlogged := by
  cases shared with
  | false => exact h
  | true => exact congrArg (fun m => m.given true) h

namespace Session

/-- A session that has handed a line to the console. -/
def given (shared : Bool) (s : Session) : Session :=
  { s with machine := s.machine.given shared }

/-- The session after a line: a statement is completed and run. -/
def hear (s : Session) (line : String) : Session :=
  if Console.isStatement line then (s.perform (.executeLine line)).1 else s

/-- How a session passes a line. -/
def passage (s : Session) (line : String) : Passage :=
  Run.passage s.settings (s.machine.store.completeLine line) s.machine

/-- What closes the response to a statement: its value, or the failure that came
of reading or running it.  A crash is not answered. -/
inductive Closes (s : Session) (line : String) : List Event → Prop
  | value {v : Value} {text : String} : (s.perform (.executeLine line)).2 = .ok (.value v) →
    v.printed s.settings.language = .ok text → Closes s line [.reply text]
  | unread {f : Failure} :
    Statement.parse (s.machine.store.completeLine line) = .error (.failure f) →
    (s.perform (.executeLine line)).2 = .error (.failure f) →
    Closes s line [.reply ("READ ERROR: " ++ f.message s.settings.language)]
  | failed {n : Node} {f : Failure} :
    Statement.parse (s.machine.store.completeLine line) = .ok n →
    (s.perform (.executeLine line)).2 = .error (.failure f) →
    Closes s line [.reply ("EVAL ERROR: " ++ f.message s.settings.language)]
  | crashed {c : Crash} : (s.perform (.executeLine line)).2 = .error (.crash c) → Closes s line []

/-- What the console shows in response to a line. -/
inductive Responds (s : Session) (echo : Bool) (line : String) : List Event → Prop
  | statement {closing : List Event} : Console.isStatement line = true → s.Closes line closing →
    Responds s echo line ((s.passage line).events s.settings echo ++ closing)
  | help : Console.isHelp line = true → Responds s echo line [.reply Console.help]
  | nothing : Console.isStatement line = false → Console.isHelp line = false →
    Responds s echo line []

end Session

/-- A line that has been heard: the session that it found, and the response. -/
structure Turn where
  session : Session
  line : String
  response : List Event

namespace Turn

/-- The crash in which the line ended. -/
def crash? (t : Turn) : Option Crash :=
  if Console.isStatement t.line then
    match (t.session.perform (.executeLine t.line)).2 with
    | .error (.crash c) => some c
    | _ => none
  else none

/-- The lines that were used up: the line itself, and those that its statement
read, if it reads from the same place. -/
def lines (shared : Bool) (t : Turn) : List String :=
  t.line :: if shared then Event.handedOut t.response else []

end Turn

/-- What a turn leaves in the log. -/
def Turn.events (shared : Bool) (t : Turn) : List Event :=
  .prompt :: handover shared (some t.line) ++ t.response

/-- A fold of the session step over the lines that are heard. -/
inductive Conversation (echo shared : Bool) : Session → List Turn → Session → Prop
  | done (s : Session) : Conversation echo shared s [] s
  | turn {s s' : Session} {line : String} {response : List Event} {ts : List Turn} :
    Console.isQuit line = false → (shared = true → s.machine.input.head? = some line) →
    (s.given shared).Responds echo line response →
    Conversation echo shared ((s.given shared).hear line) ts s' →
    Conversation echo shared s (⟨s.given shared, line, response⟩ :: ts) s'

/-! ### Reacting to a statement -/

namespace Session

/-- The step that runs a line, as a run. -/
theorem perform_executeLine_eq (s : Session) (line : String) :
    let source := s.machine.store.completeLine line
    (s.perform (.executeLine line)).1
        = ⟨s.settings, (execute s.settings source).final s.machine⟩ ∧
      (s.perform (.executeLine line)).2
        = ((execute s.settings source).outcome s.machine).map .value := by
  intro source
  rw [perform_executeLine, perform_execute]
  rcases hr : execute s.settings source s.machine with ⟨v, m⟩ | ⟨e, m⟩
  · rw [final_of_ok hr, outcome_of_ok hr]
    exact ⟨rfl, rfl⟩
  · rw [final_of_error hr, outcome_of_error hr]
    exact ⟨rfl, rfl⟩

end Session

/-- The value of a statement has been shown in the trace, so it can be shown. -/
theorem Run.exists_printed_of_node {s : Settings} {n : Node} {v : Value} {m m' : Machine}
    (h : node s n m = .ok v m') : ∃ text, v.printed s.language = .ok text := by
  unfold node at h
  rcases hr : n.evaluate s m with ⟨w, m₁⟩ | ⟨f | c, m₁⟩
  · -- a node that ends with a value has printed it
    rw [hr] at h
    dsimp only at h
    rcases hprinted : w.printed s.language with e | text
    · rw [conclude, hprinted] at h
      cases h
    · rcases hclass : w.classOf with e | c
      · rw [conclude, hprinted, hclass] at h
        cases h
      · rw [conclude, hprinted, hclass] at h
        have htrace := trace_eq s 2 ("=> " ++ text ++ " :" ++ c.name) m₁
        replace h : (trace s 2 ("=> " ++ text ++ " :" ++ c.name) >>= fun _ => pure w) m₁
          = .ok v m' := h
        rw [bind_of_ok htrace] at h
        cases h
        exact ⟨text, hprinted⟩
  · rw [hr] at h
    dsimp only at h
    rw [trace_eq] at h
    cases h
  · rw [hr] at h
    cases h

namespace Console

/-- How a reaction ends if its statement ends so: failures are answered, and
crashes are not. -/
def reaction : Except Fault Answer → Except Fault Unit
  | .error (.crash c) => .error (.crash c)
  | _ => .ok ()

section React

variable {s : Settings} {line : String} {m m₀ m₁ : Machine} {n : Node}

theorem react_of_unread (echo : Bool) {f : Failure}
    (h : read s (m.store.completeLine line) m = .error (.failure f) m) :
    react s echo line m = .ok () (m.extended [complaint s "READ" f]) := by
  unfold react
  rw [h]
  exact emit_eq _ m

theorem react_of_crash (echo : Bool) {c : Crash}
    (h : read s (m.store.completeLine line) m = .error (.crash c) m) :
    react s echo line m = .error (.crash c) m := by
  unfold react
  rw [h]

theorem react_of_read {echo : Bool} (hread : read s (m.store.completeLine line) m = .ok n m₀)
    (hshow : showForm s echo n m₀ = .ok () m₁) : react s echo line m = answer s n m₁ := by
  unfold react
  rw [hread]
  exact bind_of_ok hshow

theorem answer_of_ok {v : Value} {text : String} (h : node s n m = .ok v m₁)
    (htext : v.printed s.language = .ok text) :
    answer s n m = .ok () (m₁.extended [.reply text]) := by
  unfold answer
  rw [h]
  show (ofExcept (v.printed s.language) >>= fun text => emit (.reply text)) m₁ = _
  rw [htext]
  exact emit_eq _ m₁

theorem answer_of_failure {f : Failure} (h : node s n m = .error (.failure f) m₁) :
    answer s n m = .ok () (m₁.extended [complaint s "EVAL" f]) := by
  unfold answer
  rw [h]
  exact emit_eq _ m₁

theorem answer_of_crash {c : Crash} (h : node s n m = .error (.crash c) m₁) :
    answer s n m = .error (.crash c) m₁ := by
  unfold answer
  rw [h]

end React

/-- **The console reacts to a statement** as the session step does, and shows its
passage and what closes it. -/
theorem react_cases (s : Session) (echo : Bool) (line : String) {m : Machine}
    (hm : m.unlogged = s.machine.unlogged) :
    ∃ closing, s.Closes line closing ∧
      (react s.settings echo line).outcome m = reaction (s.perform (.executeLine line)).2 ∧
      (react s.settings echo line).final m = (s.perform (.executeLine line)).1.machine.relogged
        (m.events.toList ++ ((s.passage line).events s.settings echo ++ closing)) := by
  obtain ⟨hsession, hanswer⟩ := s.perform_executeLine_eq line
  have hstore : m.store.completeLine line = s.machine.store.completeLine line :=
    congrArg (fun m => m.store.completeLine line) hm
  have hpassage : s.passage line = passage s.settings (m.store.completeLine line) m := by
    rw [hstore, passage_of_unlogged hm]
    rfl
  have hframed := framed_execute s.settings (s.machine.store.completeLine line)
  have hparse : ∀ {x : Except Fault Node}, Statement.parse (m.store.completeLine line) = x →
      Statement.parse (s.machine.store.completeLine line) = x := by
    rw [hstore]
    exact id
  rw [← hstore] at hsession hanswer hframed
  have hmachine : ∀ es, (s.perform (.executeLine line)).1.machine.relogged es
      = ((execute s.settings (m.store.completeLine line)).final m).relogged es := by
    intro es
    rw [hsession, hframed.final_eq hm, Machine.relogged_relogged]
  rw [← hframed.outcome_eq hm] at hanswer
  simp only [hpassage, hmachine]
  obtain ⟨e, he⟩ | ⟨n, m₀, m₁, hn, hread, hshow, houtcome, hfinal⟩ :=
    announce_cases s.settings echo (m.store.completeLine line) m
  · -- the line is not read, and the machine stays as it is
    obtain ⟨hexecute, hnone⟩ := execute_of_parse_error s.settings he m
    rw [outcome_of_error hexecute] at hanswer
    rw [hanswer, final_of_error hexecute, hnone]
    have hread := read_of_parse_error s.settings he m
    rcases e with f | c
    · have hreact := react_of_unread echo hread
      rw [outcome_of_ok hreact, final_of_ok hreact]
      exact ⟨_, .unread (hparse he) hanswer, rfl, rfl⟩
    · have hreact := react_of_crash echo hread
      rw [outcome_of_error hreact, final_of_error hreact]
      refine ⟨[], .crashed hanswer, rfl, ?_⟩
      show m = m.extended []
      rw [Machine.extended_nil]
  · have hreact := react_of_read hread hshow
    rw [← houtcome] at hanswer
    have happend : ∀ es, ((node s.settings n).final m₁).extended es
        = ((execute s.settings (m.store.completeLine line)).final m).relogged (m.events.toList ++
            ((passage s.settings (m.store.completeLine line) m).events s.settings echo ++ es)) := by
      intro es
      rw [hfinal, Machine.extended_relogged, List.append_assoc]
    rcases hnode : node s.settings n m₁ with ⟨v, m₂⟩ | ⟨f | c, m₂⟩
    · obtain ⟨text, htext⟩ := exists_printed_of_node hnode
      rw [answer_of_ok hnode htext] at hreact
      rw [outcome_of_ok hnode] at hanswer
      rw [final_of_ok hnode] at happend
      refine ⟨[.reply text], .value hanswer htext, ?_, ?_⟩
      · rw [outcome_of_ok hreact, hanswer]
        rfl
      · rw [final_of_ok hreact, happend]
    · rw [answer_of_failure hnode] at hreact
      rw [outcome_of_error hnode] at hanswer
      rw [final_of_error hnode] at happend
      refine ⟨[complaint s.settings "EVAL" f], .failed (hparse hn) hanswer, ?_, ?_⟩
      · rw [outcome_of_ok hreact, hanswer]
        rfl
      · rw [final_of_ok hreact, happend]
    · rw [answer_of_crash hnode] at hreact
      rw [outcome_of_error hnode] at hanswer
      rw [final_of_error hnode] at happend
      refine ⟨[], .crashed hanswer, ?_, ?_⟩
      · rw [outcome_of_error hreact, hanswer]
        rfl
      · rw [final_of_error hreact, ← happend, Machine.extended_nil]

/-- React to a line that does not quit. -/
def respond (s : Settings) (echo : Bool) (line : String) : Run Unit :=
  if isHelp line then emit (.reply help)
  else if isStatement line then react s echo line
  else pure ()

/-- **The console hears a line**: the session goes on, and the response is shown. -/
theorem respond_cases (s : Session) (echo : Bool) (line : String) {m : Machine}
    (hm : m.unlogged = s.machine.unlogged) :
    ∃ response, s.Responds echo line response ∧
      (respond s.settings echo line).outcome m
        = (Turn.crash? ⟨s, line, response⟩).elim (.ok ()) (fun c => .error (.crash c)) ∧
      (respond s.settings echo line).final m
        = (s.hear line).machine.relogged (m.events.toList ++ response) := by
  have hextended : ∀ es, m.extended es = s.machine.relogged (m.events.toList ++ es) :=
    fun es => Machine.relogged_eq_of_unlogged hm _
  unfold respond
  -- a line asks for help, or is a statement, or is neither
  by_cases hhelp : isHelp line = true
  · have hnot := isStatement_of_isHelp hhelp
    rw [if_pos hhelp]
    refine ⟨_, .help hhelp, ?_, ?_⟩
    · simp [Turn.crash?, hnot, outcome_of_ok (emit_eq _ m)]
    · simp [Session.hear, hnot, final_of_ok (emit_eq _ m), hextended]
  · rw [if_neg hhelp]
    by_cases hstatement : isStatement line = true
    · obtain ⟨closing, hcloses, houtcome, hfinal⟩ := react_cases s echo line hm
      rw [if_pos hstatement]
      refine ⟨_, .statement hstatement hcloses, ?_, ?_⟩
      · rw [houtcome, Turn.crash?, if_pos hstatement]
        rcases (s.perform (.executeLine line)).2 with (f | c) | a <;> rfl
      · rw [hfinal, Session.hear, if_pos hstatement]
    · have hnot : isStatement line = false := by simpa using hstatement
      rw [if_neg hstatement]
      refine ⟨[], .nothing hnot (by simpa using hhelp), ?_, ?_⟩
      · rw [Turn.crash?, if_neg hstatement]
        rfl
      · rw [Session.hear, if_neg hstatement, ← hextended, Machine.extended_nil]
        rfl

end Console

/-- The lines that a response hands out are those that the session loses. -/
theorem Session.Responds.handedOut {s : Session} {echo : Bool} {line : String}
    {response : List Event} (h : s.Responds echo line response) :
    Event.handedOut response ++ (s.hear line).machine.input = s.machine.input := by
  cases h with
  | @statement closing hstatement hcloses =>
    have hclosing : Event.handedOut closing = [] := by
      cases hcloses <;> rfl
    rw [Session.hear, if_pos hstatement, (s.perform_executeLine_eq line).1,
      Event.handedOut_append, hclosing, List.append_nil]
    exact handedOut_passage s.settings echo _ s.machine
  | help hhelp =>
    rw [Session.hear, if_neg (by simp [Console.isStatement_of_isHelp hhelp])]
    rfl
  | nothing hnot _ =>
    rw [Session.hear, if_neg (by simp [hnot])]
    rfl

theorem Session.settings_hear (s : Session) (line : String) :
    (s.hear line).settings = s.settings := by
  unfold Session.hear
  split
  · rw [(s.perform_executeLine_eq line).1]
  · rfl

/-! ### The loop of the console -/

namespace Console

/-- Whether the console takes its lines from the input. -/
def shared (c : Console) : Bool :=
  match c.supply with
  | .own _ => false
  | .shared => true

/-- The lines that the console can still get, with `none` for an interrupt. -/
def pending (c : Console) : List (Option String) :=
  match c.supply with
  | .own lines => lines
  | .shared => c.machine.input.map some

theorem available_eq (c : Console) : c.available = c.pending.length := by
  rcases c with ⟨m, lines | -⟩
  · rfl
  · exact (List.length_map _).symm

/-- Lines that the machine loses are lost to the console, if the two share them. -/
theorem pending_eq {c c' : Console} (hsupply : c'.supply = c.supply) {taken : List String}
    (hinput : taken ++ c'.machine.input = c.machine.input) :
    c.pending = (if c.shared then taken else []).map some ++ c'.pending := by
  obtain ⟨m, supply⟩ := c
  obtain ⟨m', supply'⟩ := c'
  obtain rfl : supply' = supply := hsupply
  rcases supply' with lines | -
  · rfl
  · show m.input.map some = taken.map some ++ m'.input.map some
    rw [← List.map_append]
    exact congrArg _ hinput.symm

section Steps

variable {α : Type} {c : Console} {a : α}

theorem onMachine_of_ok {r : Run α} (h : r.outcome c.machine = .ok a) :
    onMachine r c = .ok a { c with machine := r.final c.machine } := by
  rw [onMachine, eq_ok_of_outcome h]

theorem onMachine_of_error {r : Run α} {e : Fault} (h : r.outcome c.machine = .error e) :
    onMachine r c = .error e { c with machine := r.final c.machine } := by
  rw [onMachine, eq_error_of_outcome h]

theorem onMachine_emit (e : Event) (c : Console) :
    onMachine (emit e) c = .ok () { c with machine := c.machine.extended [e] } := by
  rw [onMachine, emit_eq]

end Steps

/-- What asking for a line comes to: `upcoming` has the line, or an interrupt, if
there is any of them. -/
theorem ask_cases (c : Console) :
    ∃ (upcoming : Option (Option String)) (c₁ : Console),
      ask c = .ok upcoming.join c₁ ∧ c₁.shared = c.shared ∧
      c.pending = upcoming.toList ++ c₁.pending ∧ (upcoming = none → c₁.pending = []) ∧
      (c.shared = true → c.machine.input.head? = upcoming.join) ∧
      c₁.machine = (c.machine.given c.shared).extended (handover c.shared upcoming.join) := by
  rcases c with ⟨⟨store, input, counters, events, memory⟩, (- | ⟨line, lines⟩) | -⟩
  · exact ⟨none, _, rfl, rfl, rfl, fun _ => rfl, nofun, (Machine.extended_nil _).symm⟩
  · exact ⟨some line, _, rfl, rfl, rfl, nofun, nofun, (Machine.extended_nil _).symm⟩
  · -- the console asks as a statement that reads does
    rcases input with - | ⟨line, rest⟩
    · exact ⟨none, ⟨⟨store, [], counters, events.push (.input none), memory⟩, .shared⟩, rfl, rfl,
        rfl, fun _ => rfl, fun _ => rfl,
        (Machine.extended_singleton ⟨store, [], counters, events, memory⟩ _).symm⟩
    · exact ⟨some (some line),
        ⟨⟨store, rest, counters, events.push (.input (some line)), memory⟩, .shared⟩, rfl, rfl, rfl,
        nofun, fun _ => rfl,
        (Machine.extended_singleton ⟨store, rest, counters, events, memory⟩ _).symm⟩

section Turns

variable {s : Settings} {echo : Bool} {limit : Nat} {c c₁ : Console}

/-- The dialogue ends where there is no line, and with a line that quits. -/
theorem turns_of_stop {line? : Option String}
    (h : ask { c with machine := c.machine.extended [.prompt] } = .ok line? c₁)
    (hstop : ∀ line, line? = some line → isQuit line = true) :
    turns s echo (limit + 1) c = .ok () c₁ := by
  rw [turns, bind_of_ok (onMachine_emit .prompt c), bind_of_ok h]
  rcases line? with - | line
  · rfl
  · have hquit : request line = .quit := by rw [request_eq, if_pos (hstop line rfl)]
    simp only [hquit]
    rfl

/-- Every other line is responded to, and then the dialogue goes on. -/
theorem turns_of_line {line : String}
    (h : ask { c with machine := c.machine.extended [.prompt] } = .ok (some line) c₁)
    (hline : isQuit line = false) :
    turns s echo (limit + 1) c
      = (onMachine (respond s echo line) >>= fun _ => turns s echo limit) c₁ := by
  rw [turns, bind_of_ok (onMachine_emit .prompt c), bind_of_ok h]
  have hrequest := request_eq line
  rw [hline, if_neg Bool.false_ne_true] at hrequest
  rw [respond]
  -- the loop tells the requests apart in the order that `respond` does
  by_cases hhelp : isHelp line = true
  · rw [if_pos hhelp] at hrequest
    simp only [hrequest, if_pos hhelp]
  · rw [if_neg hhelp] at hrequest
    by_cases hstatement : isStatement line = true
    · rw [if_pos hstatement] at hrequest
      simp only [hrequest, if_neg hhelp, if_pos hstatement]
    · rw [if_neg hstatement] at hrequest
      simp only [hrequest, if_neg hhelp, if_neg hstatement]
      rfl

end Turns

/-- How a dialogue on a console ends after some turns, with `opening` in front of
them in the log, and `closing` behind all.  It ends where no line is left
(`stop` is `none`), at an interrupt (`some none`) or at a line that quits; or it
ends with its last turn, in a crash.  The lines that are gone are those of the
turns and the one at which it stopped. -/
inductive Concludes (c : Console) (opening closing : List Event) (ts : List Turn) (s : Session) :
    EStateM.Result Fault Console Unit → Prop
  | ended {c' : Console} {stop : Option (Option String)} :
    c'.shared = c.shared → (stop = none → c'.pending = []) →
    (∀ line, stop = some (some line) → isQuit line = true) →
    (∀ t ∈ ts, t.crash? = none) →
    c.pending = (ts.flatMap (Turn.lines c.shared)).map some ++ stop.toList ++ c'.pending →
    c'.machine = (s.machine.given c.shared).relogged (c.machine.events.toList ++ opening ++
      ts.flatMap (Turn.events c.shared) ++ .prompt :: handover c.shared stop.join ++ closing) →
    Concludes c opening closing ts s (.ok () c')
  | crashed {c' : Console} {us : List Turn} {t : Turn} {k : Crash} :
    c'.shared = c.shared → ts = us ++ [t] → (∀ u ∈ us, u.crash? = none) → t.crash? = some k →
    c.pending = (ts.flatMap (Turn.lines c.shared)).map some ++ c'.pending →
    c'.machine = s.machine.relogged (c.machine.events.toList ++ opening ++
      ts.flatMap (Turn.events c.shared)) →
    Concludes c opening closing ts s (.error (.crash k) c')

section Run

variable {c c₁ : Console}

/-- A turn in front of a dialogue. -/
theorem Concludes.cons {t : Turn} {ts : List Turn} {s : Session}
    {r : EStateM.Result Fault Console Unit} (h : c₁.Concludes [] [] ts s r)
    (ht : t.crash? = none) (hshared : c₁.shared = c.shared)
    (hpending : c.pending = (t.lines c.shared).map some ++ c₁.pending)
    (hevents : c₁.machine.events.toList = c.machine.events.toList ++ t.events c.shared) :
    c.Concludes [] [] (t :: ts) s r := by
  cases h with
  -- the turn is put in front of those that ended the dialogue
  | ended hkind hend hquit hts hlines hmachine =>
    rw [hshared] at hkind hlines hmachine
    refine .ended hkind hend hquit ?_ ?_ ?_
    · rw [List.forall_mem_cons]
      exact ⟨ht, hts⟩
    · rw [hpending, hlines]
      simp
    · rw [hmachine, hevents]
      simp
  -- or in front of those that led to the crash
  | @crashed c' us u k hkind hlast hus hcrash hlines hmachine =>
    rw [hshared] at hkind hlines hmachine
    have hlast : t :: ts = (t :: us) ++ [u] := by rw [hlast, List.cons_append]
    refine .crashed hkind hlast ?_ hcrash ?_ ?_
    · rw [List.forall_mem_cons]
      exact ⟨ht, hus⟩
    · rw [hpending, hlines]
      simp
    · rw [hmachine, hevents]
      simp

/-- Asking for a line, behind the prompt. -/
theorem prompt_cases (s : Session) (c : Console) (hm : c.machine.unlogged = s.machine.unlogged) :
    ∃ (upcoming : Option (Option String)) (c₁ : Console),
      ask { c with machine := c.machine.extended [.prompt] } = .ok upcoming.join c₁ ∧
      c₁.shared = c.shared ∧ c.pending = upcoming.toList ++ c₁.pending ∧
      (upcoming = none → c₁.pending = []) ∧
      (c.shared = true → s.machine.input.head? = upcoming.join) ∧
      c₁.machine = (s.machine.given c.shared).relogged
        (c.machine.events.toList ++ .prompt :: handover c.shared upcoming.join) := by
  obtain ⟨upcoming, c₁, hask, hshared, hpending, hend, hinput, hmachine⟩ :=
    ask_cases { c with machine := c.machine.extended [.prompt] }
  refine ⟨upcoming, c₁, hask, hshared, hpending, hend, fun h => ?_, ?_⟩
  · exact (congrArg (fun m => m.input.head?) hm).symm.trans (hinput h)
  · rw [← Machine.relogged_eq_of_unlogged (Machine.unlogged_given hm c.shared), hmachine]
    show ((c.machine.extended [.prompt]).given c.shared).extended _ = _
    rw [Machine.given_extended, Machine.extended_relogged, List.append_assoc]
    rfl

/-- A turn, from the line that was asked for to the console that has responded. -/
theorem turn_cases (s : Session) (echo : Bool) {line : String} {c c₁ : Console}
    (hshared : c₁.shared = c.shared) (hpending : c.pending = some line :: c₁.pending)
    (hmachine : c₁.machine = (s.machine.given c.shared).relogged
      (c.machine.events.toList ++ .prompt :: handover c.shared (some line))) :
    ∃ response, (s.given c.shared).Responds echo line response ∧
      let t : Turn := ⟨s.given c.shared, line, response⟩
      let c₂ : Console := ⟨(respond s.settings echo line).final c₁.machine, c₁.supply⟩
      onMachine (respond s.settings echo line) c₁
        = t.crash?.elim (.ok () c₂) (fun k => .error (.crash k) c₂) ∧
      c.pending = (t.lines c.shared).map some ++ c₂.pending ∧
      c₂.machine = ((s.given c.shared).hear line).machine.relogged
        (c.machine.events.toList ++ t.events c.shared) := by
  -- the line is heard by the machine that the console has handed it to
  have hm₁ : c₁.machine.unlogged = (s.given c.shared).machine.unlogged := by
    rw [hmachine, Machine.unlogged_relogged]
    rfl
  obtain ⟨response, hresponse, houtcome, hfinal⟩ := respond_cases (s.given c.shared) echo line hm₁
  refine ⟨response, hresponse, ?_⟩
  intro t c₂
  have hmachine₂ : c₂.machine = ((s.given c.shared).hear line).machine.relogged
      (c.machine.events.toList ++ t.events c.shared) := by
    refine hfinal.trans ?_
    rw [hmachine, Machine.toList_events_relogged, List.append_assoc]
    rfl
  refine ⟨?_, ?_, hmachine₂⟩
  · rcases hcrash : t.crash? with - | k
    · rw [hcrash] at houtcome
      exact onMachine_of_ok houtcome
    · rw [hcrash] at houtcome
      exact onMachine_of_error houtcome
  · -- what the response has taken from the input is what is no longer pending
    have hhanded : Event.handedOut response ++ c₂.machine.input = c₁.machine.input := by
      rw [hmachine₂, hmachine]
      exact hresponse.handedOut
    have hsupply : c₂.supply = c₁.supply := rfl
    rw [hpending, pending_eq hsupply hhanded, hshared]
    rfl

/-- **The loop of the console is a conversation.**  The induction is on the number
of turns that it may take, which is more than there are lines. -/
theorem turns_concludes (echo : Bool) (limit : Nat) (s : Session) (c : Console)
    (hm : c.machine.unlogged = s.machine.unlogged) (hlimit : c.pending.length < limit) :
    ∃ ts s', Conversation echo c.shared s ts s' ∧
      c.Concludes [] [] ts s' (turns s.settings echo limit c) := by
  induction limit generalizing s c with
  | zero => omega
  | succ limit ih =>
    obtain ⟨upcoming, c₁, hask, hshared, hpending, hend, hinput, hmachine⟩ := prompt_cases s c hm
    by_cases hstop : ∀ line, upcoming.join = some line → isQuit line = true
    · refine ⟨[], s, .done s, ?_⟩
      rw [turns_of_stop hask hstop]
      refine .ended hshared hend ?_ nofun hpending ?_
      · rintro line rfl
        exact hstop line rfl
      · simpa using hmachine
    · -- a line is heard, and all the others come after it
      simp only [not_forall] at hstop
      obtain ⟨line, hline, hquit⟩ := hstop
      replace hquit : isQuit line = false := by simpa using hquit
      rw [hline] at hask hinput hmachine
      obtain rfl : upcoming = some (some line) := Option.join_eq_some_iff.1 hline
      obtain ⟨response, hresponse, hrespond, hpending₂, hmachine₂⟩ :=
        turn_cases s echo hshared hpending hmachine
      generalize hc₂ : (⟨(respond s.settings echo line).final c₁.machine, c₁.supply⟩ : Console)
        = c₂ at hrespond hpending₂ hmachine₂
      have hshared₂ : c₂.shared = c.shared := by
        rw [← hshared, ← hc₂]
        rfl
      have hconversation : ∀ {ts s'},
          Conversation echo c.shared ((s.given c.shared).hear line) ts s' →
          Conversation echo c.shared s (⟨s.given c.shared, line, response⟩ :: ts) s' :=
        .turn hquit hinput hresponse
      rw [turns_of_line hask hquit]
      rcases hcrash : Turn.crash? ⟨s.given c.shared, line, response⟩ with - | k
      · rw [hcrash] at hrespond
        have hm₂ : c₂.machine.unlogged = ((s.given c.shared).hear line).machine.unlogged := by
          rw [hmachine₂, Machine.unlogged_relogged]
        have hlimit₂ : c₂.pending.length < limit := by
          have hlength := congrArg List.length hpending₂
          simp only [Turn.lines, List.map_cons, List.length_append, List.length_cons] at hlength
          omega
        obtain ⟨ts, s', hts, hconcludes⟩ := ih ((s.given c.shared).hear line) c₂ hm₂ hlimit₂
        rw [Session.settings_hear] at hconcludes
        rw [hshared₂] at hts
        rw [bind_of_ok hrespond]
        refine ⟨_, s', hconversation hts, hconcludes.cons hcrash hshared₂ hpending₂ ?_⟩
        rw [hmachine₂, Machine.toList_events_relogged]
      · rw [hcrash] at hrespond
        rw [bind_of_error hrespond]
        refine ⟨_, _, hconversation (.done _),
          .crashed hshared₂ (List.nil_append _).symm nofun hcrash ?_ ?_⟩
        · simpa using hpending₂
        · simpa using hmachine₂

theorem replies_eq (lines : List String) (c : Console) :
    (lines.forM fun line => onMachine (emit (.reply line))) c
      = .ok () { c with machine := c.machine.extended (lines.map .reply) } := by
  induction lines generalizing c with
  | nil =>
    show EStateM.Result.ok () c = _
    rw [List.map_nil, Machine.extended_nil]
  | cons line lines ih =>
    show (onMachine (emit (.reply line)) >>= fun _ => lines.forM _) c = _
    rw [bind_of_ok (onMachine_emit _ c), ih, Machine.extended_extended]
    rfl

/-- **A dialogue is a conversation**, between two lines of welcome and a line of
farewell. -/
theorem dialogue_concludes (s : Settings) (echo : Bool) (c : Console) :
    ∃ ts s', Conversation echo c.shared ⟨s, c.machine⟩ ts s' ∧
      c.Concludes (welcome.map .reply) [.reply farewell] ts s' (dialogue s echo c) := by
  let c₀ : Console := { c with machine := c.machine.extended (welcome.map .reply) }
  have hlimit : c₀.pending.length < c.available + 1 := by
    rw [available_eq]
    exact Nat.lt_succ_self _
  obtain ⟨ts, s', hts, hconcludes⟩ := turns_concludes echo _ ⟨s, c.machine⟩ c₀ rfl hlimit
  -- the welcome is written first, and the turns start behind it
  have hdialogue : dialogue s echo c = (do
      turns s echo (c.available + 1)
      onMachine (emit (.reply farewell)) : Dialogue Unit) c₀ := bind_of_ok (replies_eq welcome c)
  refine ⟨ts, s', hts, ?_⟩
  rw [hdialogue]
  generalize hr : turns s echo (c.available + 1) c₀ = r at hconcludes
  cases hconcludes with
  -- the farewell is written when the turns have ended
  | ended hkind hend hquit hcrash hlines hmachine =>
    rw [bind_of_ok hr, onMachine_emit]
    refine .ended hkind hend hquit hcrash hlines ?_
    rw [hmachine]
    simp [c₀, Console.shared]
  -- a crash passes it by
  | crashed hkind hlast hus hcrash hlines hmachine =>
    rw [bind_of_error hr]
    refine .crashed hkind hlast hus hcrash hlines ?_
    rw [hmachine]
    simp [c₀, Console.shared]

theorem pending_of_shared (h : c.shared = true) : c.pending = c.machine.input.map some := by
  rcases c with ⟨m, lines | -⟩
  · cases h
  · rfl

theorem handedOut_turns (ts : List Turn) :
    Event.handedOut (ts.flatMap (Turn.events true)) = ts.flatMap (Turn.lines true) := by
  induction ts with
  | nil => rfl
  | cons t ts ih =>
    rw [List.flatMap_cons, List.flatMap_cons, Event.handedOut_append, ih]
    rfl

/-- What a dialogue takes from an input that it shares is what its log hands out. -/
theorem Concludes.handedOut {opening closing : List Event} {ts : List Turn} {s : Session}
    {r : EStateM.Result Fault Console Unit} (h : c.Concludes opening closing ts s r)
    (hshared : c.shared = true) (hopening : Event.handedOut opening = [])
    (hclosing : Event.handedOut closing = []) :
    ∃ c' es, (r = .ok () c' ∨ ∃ k, r = .error (.crash k) c' ∧ ∃ t ∈ ts, t.crash? = some k) ∧
      c'.machine.events.toList = c.machine.events.toList ++ es ∧
      c.machine.input = Event.handedOut es ++ c'.machine.input := by
  -- the interrupts are dropped from the lines; there are none
  have hsome : ∀ lines : List String, (lines.map some).filterMap id = lines := fun lines => by simp
  cases h with
  | @ended c' stop hkind hend hquit hcrash hlines hmachine =>
    rw [hshared] at hkind hlines hmachine
    rw [pending_of_shared hshared, pending_of_shared hkind] at hlines
    refine ⟨c', opening ++ ts.flatMap (Turn.events true) ++ .prompt :: handover true stop.join ++
      closing, .inl rfl, ?_, ?_⟩
    · rw [hmachine, Machine.toList_events_relogged]
      simp only [List.append_assoc]
    · have hprompt : Event.handedOut (.prompt :: handover true stop.join) = stop.join.toList :=
        Event.handedOut_input stop.join
      have hstop : stop.toList.filterMap id = stop.join.toList := by
        rcases stop with - | - | line <;> rfl
      have hinput := congrArg (List.filterMap id) hlines
      simp only [List.filterMap_append, hsome, hstop] at hinput
      rw [hinput, Event.handedOut_append, Event.handedOut_append, Event.handedOut_append, hopening,
        hclosing, handedOut_turns, hprompt, List.nil_append, List.append_nil]
  | @crashed c' us t k hkind hlast hus hcrash hlines hmachine =>
    rw [hshared] at hkind hlines hmachine
    rw [pending_of_shared hshared, pending_of_shared hkind] at hlines
    refine ⟨c', opening ++ ts.flatMap (Turn.events true), .inr ⟨k, rfl, t, ?_, hcrash⟩, ?_, ?_⟩
    · simp [hlast]
    · rw [hmachine, Machine.toList_events_relogged, List.append_assoc]
    · have hinput := congrArg (List.filterMap id) hlines
      simp only [List.filterMap_append, hsome] at hinput
      rw [hinput, Event.handedOut_append, hopening, handedOut_turns, List.nil_append]

end Run

end Console

/-! ### Turns -/

theorem Session.proper_hear {s : Session} (hs : s.machine.store.Proper) (line : String) :
    (s.hear line).machine.store.Proper := by
  unfold Session.hear
  split
  · rw [Session.perform_executeLine]
    exact (Session.perform_execute_cases hs _).1
  · exact hs

theorem Machine.store_given (shared : Bool) (m : Machine) : (m.given shared).store = m.store := by
  cases shared <;> rfl

namespace Conversation

variable {echo shared : Bool} {s s' : Session} {ts : List Turn}

/-- What sessions keep when they hand out a line and hear it holds at every turn. -/
theorem forall_session {P : Session → Prop} (h : Conversation echo shared s ts s')
    (hgiven : ∀ s, P s → P (s.given shared)) (hhear : ∀ s line, P s → P (s.hear line))
    (hs : P s) : ∀ t ∈ ts, P t.session := by
  induction h with
  | done => nofun
  | turn _ _ _ _ ih =>
    rw [List.forall_mem_cons]
    exact ⟨hgiven _ hs, ih (hhear _ _ (hgiven _ hs))⟩

theorem settings_eq (h : Conversation echo shared s ts s') :
    ∀ t ∈ ts, t.session.settings = s.settings :=
  h.forall_session (P := fun u => u.settings = s.settings) (fun _ hu => hu)
    (fun u line hu => (u.settings_hear line).trans hu) rfl

theorem proper (h : Conversation echo shared s ts s') (hs : s.machine.store.Proper) :
    ∀ t ∈ ts, t.session.machine.store.Proper := by
  refine h.forall_session (P := fun u => u.machine.store.Proper) (fun u hu => ?_)
    (fun u line hu => Session.proper_hear hu line) hs
  show (u.machine.given shared).store.Proper
  rw [Machine.store_given]
  exact hu

/-- The input of a session goes to the console, if the two share it, and to the
statements that read, in order. -/
theorem input_eq (h : Conversation echo shared s ts s') :
    s.machine.input = ts.flatMap (fun t => (if shared then [t.line] else []) ++
      Event.handedOut t.response) ++ s'.machine.input := by
  induction h with
  | done => rfl
  | @turn s s' line response ts _ hinput hresponse _ ih =>
    have hgiven : s.machine.input = (if shared then [line] else []) ++
        (s.given shared).machine.input := by
      cases shared with
      | false => rfl
      | true => exact (List.cons_head?_tail (hinput rfl)).symm
    rw [hgiven, ← hresponse.handedOut, ih]
    simp

end Conversation

/-- With a proper store, only an integer that is too long makes a line crash. -/
theorem Turn.crash_of_proper {t : Turn} {k : Crash} (ht : t.session.machine.store.Proper)
    (h : t.crash? = some k) : k = .overlongInteger ∧
      Statement.Overlong (t.session.machine.store.completeLine t.line) := by
  unfold Turn.crash? at h
  split at h
  · have hcases := (Session.perform_execute_cases ht
      (t.session.machine.store.completeLine t.line)).2
    rw [Session.perform_executeLine] at h
    rcases hcases with ⟨c, hparse, hcrash⟩ | ⟨-, hharmless⟩
    · rw [hcrash] at h
      cases h
      exact Statement.parse_eq_crash_iff.1 hparse
    · split at h
      · next heq =>
        rw [heq] at hharmless
        cases hharmless
      · cases h
  · cases h

/-- What running a line logs is its passage without the echo. -/
theorem Session.events_executeLine (s : Session) (line : String) :
    (s.perform (.executeLine line)).1.machine.events.toList
      = s.machine.events.toList ++ (s.passage line).events s.settings false := by
  rw [(s.perform_executeLine_eq line).1]
  dsimp only
  rw [(framed_execute s.settings _).final_eq rfl, Machine.toList_events_relogged, logged_execute]
  rfl

/-! ### The console on the command line -/

namespace CommandLine

/-- The report of a console: how the dialogue ends, and its log. -/
theorem runConsole_cases (o : Options) (input : List String) :
    let report := runConsole o input
    let c : Console := ⟨.fresh .standard input, .shared⟩
    ∃ c', (Console.dialogue o.settings o.echo c = .ok () c' ∧ report.exit = .success ∨
        Console.dialogue o.settings o.echo c = .error (.crash .overlongInteger) c' ∧
          report.exit = .crash .overlongInteger) ∧
      report.events = c'.machine.events.toList ∧
      input = Event.handedOut report.events ++ c'.machine.input := by
  intro report c
  obtain ⟨ts, s', hts, hconcludes⟩ := Console.dialogue_concludes o.settings o.echo c
  obtain ⟨c', es, hresult, hevents, hinput⟩ := hconcludes.handedOut rfl rfl rfl
  replace hevents : c'.machine.events.toList = es := hevents
  replace hinput : input = Event.handedOut es ++ c'.machine.input := hinput
  obtain hok | ⟨k, hcrash, t, ht, hk⟩ := hresult
  · -- the dialogue has ended
    have hreport : report = ⟨.success, c'.machine.events.toList, o.openTrace, ""⟩ := by
      show runConsole o input = _
      rw [runConsole, hok]
    rw [hreport, hevents]
    exact ⟨c', .inl ⟨hok, rfl⟩, hevents.symm, hinput⟩
  · -- it has crashed, which the standard store leaves one reason for
    obtain ⟨rfl, -⟩ := Turn.crash_of_proper (hts.proper Store.proper_standard t ht) hk
    have hreport : report
        = ⟨.crash .overlongInteger, c'.machine.events.toList, o.openTrace, ""⟩ := by
      show runConsole o input = _
      rw [runConsole, hcrash]
    rw [hreport, hevents]
    exact ⟨c', .inr ⟨hcrash, rfl⟩, hevents.symm, hinput⟩

end CommandLine

end AnyHost

open CommandLine Console

/-- **The console is a fold of the session step.**  From every console, a dialogue
hears lines in order up to the first that quits, the first interrupt, the end or a
crash, and takes none behind it.  A line that is a command or blank leaves the
session as it is, and every other one is completed and run as a step of the
session.  Its response is what that step logs, with its debug form in front if the
console echoes, and one reply; all that the step logs are lines that the statement
prints, traces or reads.  The farewell is the last thing that is logged, unless a
line crashes; and from a store of the language only an integer that is too long
makes it crash.  On the command line the lines of the log, those of the prompt and
those of statements that read, are in order a front part of the input. -/
theorem dialogue_is_conversation [Host] :
    (∀ (s : Settings) (echo : Bool) (c : Console), ∃ ts s',
      Conversation echo c.shared ⟨s, c.machine⟩ ts s' ∧
      c.Concludes (welcome.map .reply) [.reply farewell] ts s' (dialogue s echo c) ∧
      c.machine.input = ts.flatMap (fun t => (if c.shared then [t.line] else []) ++
        Event.handedOut t.response) ++ s'.machine.input ∧
      (∀ t ∈ ts, t.session.settings = s ∧
        (t.session.perform (.executeLine t.line)).1.machine.events.toList
          = t.session.machine.events.toList ++ (t.session.passage t.line).events s false ∧
        ∀ e ∈ (t.session.passage t.line).running, e.isOwn = true) ∧
      (c.machine.store.Proper → ∀ t ∈ ts, ∀ k, t.crash? = some k → k = .overlongInteger ∧
        Statement.Overlong (t.session.machine.store.completeLine t.line))) ∧
    ∀ (arguments : List String) (o : Options) (files : Files) (input : List String),
      command arguments = .start o → o.program = none ∨ o.program = some "" →
      let report := CommandLine.run arguments files input
      let c : Console := ⟨.fresh .standard input, .shared⟩
      ∃ c', (dialogue o.settings o.echo c = .ok () c' ∧ report.exit = .success ∨
          dialogue o.settings o.echo c = .error (.crash .overlongInteger) c' ∧
            report.exit = .crash .overlongInteger) ∧
        report.events = c'.machine.events.toList ∧
        input = Event.handedOut report.events ++ c'.machine.input := by
  constructor
  · -- a dialogue from any console
    intro s echo c
    obtain ⟨ts, s', hts, hconcludes⟩ := dialogue_concludes s echo c
    refine ⟨ts, s', hts, hconcludes, hts.input_eq, fun t ht => ?_, fun hproper t ht k hk => ?_⟩
    · have hsettings : t.session.settings = s := hts.settings_eq t ht
      refine ⟨hsettings, ?_, isOwn_running _ _ _⟩
      rw [← hsettings]
      exact t.session.events_executeLine t.line
    · exact Turn.crash_of_proper (hts.proper hproper t ht) hk
  · -- the command line, when no program is named
    intro arguments o files input hcommand hprogram
    have hrun : CommandLine.run arguments files input = runConsole o input := by
      rw [CommandLine.run, hcommand]
      show start o files input = _
      rcases hprogram with h | h
      · rw [start, h]
      · rw [start, h]
        rfl
    rw [hrun]
    exact runConsole_cases o input

/-- A statement that takes a line and prints it, one that fails, and a line behind
the one that quits. -/
theorem dialogue_is_conversation_of_reading :
    let input := ["print(read())", "a", "y", ":q", "b"]
    let report := CommandLine.run [] .empty input
    report.exit = .success ∧ Event.handedOut report.events = ["print(read())", "a", "y", ":q"] ∧
      .print "a" ∈ report.events ∧
      ∃ c', dialogue {} false ⟨.fresh .standard input, .shared⟩ = .ok () c' ∧
        c'.machine.input = ["b"] := by
  intro input report
  have hsuccess : (report.exit matches .success) = true := by decide +kernel
  have hlines : Event.handedOut report.events = ["print(read())", "a", "y", ":q"] := by
    decide +kernel
  have hprinted : .print "a" ∈ report.events := by decide +kernel
  obtain ⟨c', hresult, -, hinput⟩ := dialogue_is_conversation.2 [] {} .empty input rfl (.inl rfl)
  rcases hresult with ⟨hok, hexit⟩ | ⟨-, hexit⟩
  · refine ⟨hexit, hlines, hprinted, c', hok, ?_⟩
    have hsplit : ["print(read())", "a", "y", ":q"] ++ ["b"]
        = ["print(read())", "a", "y", ":q"] ++ c'.machine.input :=
      hinput.trans (congrArg (· ++ c'.machine.input) hlines)
    exact (List.append_cancel_left hsplit).symm
  · rw [show report.exit = .crash .overlongInteger from hexit] at hsuccess
    cases hsuccess

end LineScript
