/-
LineScript/Proofs/Tracing.lean

The trace can be turned up, down and away, and nothing else changes.

`Machine.sift keep` removes from the log what `keep` does not keep.  A screen
`Screens keep d d'` turns a log made at the verbosity `d'` into one made at `d`:
it keeps all that is no line of the trace, and of the lines of level 1, 2 and 3
it keeps those that are logged at `d`.  Four screens are used:

* `Event.isShownAt d`, from a verbosity down to a lower one;
* everything, between verbosities from 3 on;
* everything but the trace, from a verbosity down to zero;
* the levels 1 to 3, from a verbosity to itself: there are no others.

Under every screen the two verbosities are in step (`Screens.correspondence`),
with the machine of one side the sifted machine of the other.  From there it goes
up to steps of a session, turns of the console and statements of a program, and
to the command line, where the file of the trace takes the rest of the log.
-/
import LineScript.CommandLine
import LineScript.Proofs.Lockstep
import LineScript.Proofs.Runs
import Mathlib

namespace LineScript

open Run

/-! ### Reports -/

namespace CommandLine

theorem Report.output_of_none {r : Report} (h : r.traceFile = none) :
    r.output = Event.transcript r.events := by
  have hpublic : r.events.filter r.isPublic = r.events :=
    List.filter_eq_self.mpr fun e _ => by simp [Report.isPublic, h]
  rw [Report.output, hpublic]

theorem Report.output_of_some {r : Report} {path : String} (h : r.traceFile = some path) :
    r.output = Event.transcript (r.events.filter fun e => !e.isTrace) := by
  have hpublic : r.isPublic = fun e => !e.isTrace := by
    funext e
    simp [Report.isPublic, h]
  rw [Report.output, hpublic]

end CommandLine

/-! ### Screens -/

/-- Whether an event is logged at a verbosity. -/
def Event.isShownAt (verbosity : Nat) : Event → Bool
  | .trace level _ => level ≤ verbosity
  | _ => true

/-- A line of the trace of one of the levels in use, or no line of the trace. -/
def Event.isLevelled : Event → Bool
  | .trace level _ => 1 ≤ level && level ≤ 3
  | _ => true

/-- Of what is logged at the verbosity `d'`, `keep` leaves what is logged at
`d`. -/
structure Screens (keep : Event → Bool) (d d' : Nat) : Prop where
  plain : ∀ {e : Event}, e.isTrace = false → keep e = true
  trace : ∀ (level : Nat) (text : String), 1 ≤ level ∧ level ≤ 3 →
    (level ≤ d ↔ level ≤ d' ∧ keep (.trace level text) = true)

theorem screens_isShownAt {d d' : Nat} (h : d ≤ d') : Screens (Event.isShownAt d) d d' where
  plain {e} he := by cases e <;> first | rfl | cases he
  trace level text _ := by simp only [Event.isShownAt, decide_eq_true_eq]; omega

theorem screens_true {d d' : Nat} (h : d = d' ∨ 3 ≤ d ∧ 3 ≤ d') :
    Screens (fun _ => true) d d' where
  plain _ := rfl
  trace level text hlevel := by simp only [and_true]; omega

theorem screens_not_isTrace (d : Nat) : Screens (fun e => !e.isTrace) 0 d where
  plain he := by rw [he]; rfl
  trace level text hlevel := ⟨fun h => by omega, fun h => by cases h.2⟩

theorem screens_isLevelled (d : Nat) : Screens Event.isLevelled d d where
  plain {e} he := by cases e <;> first | rfl | cases he
  trace level text hlevel := by simp [Event.isLevelled, hlevel]

/-! ### Runs -/

section AnyHost

variable [Host]

/-- A machine with a part of its log removed. -/
def Machine.sift (keep : Event → Bool) (m : Machine) : Machine :=
  { m with events := m.events.filter keep }

theorem Machine.sift_true (m : Machine) : m.sift (fun _ => true) = m := by
  have hall : m.events.filter (fun _ => true) = m.events := Array.filter_eq_self.mpr fun _ _ => rfl
  rw [sift, hall]

/-- The first machine is the second, sifted. -/
def Sifted (keep : Event → Bool) (m m' : Machine) : Prop :=
  m = m'.sift keep

section Runs

variable {keep : Event → Bool} {d d' : Nat}

theorem sifted_fresh (store : Store) (input : List String) :
    Sifted keep (.fresh store input) (.fresh store input) := by
  simp [Sifted, Machine.sift, Machine.fresh]

theorem Sifted.toList_events {m m' : Machine} (h : Sifted keep m m') :
    m.events.toList = m'.events.toList.filter keep := by
  rw [show m = m'.sift keep from h]
  exact Array.toList_filter

/-- An event that is kept is logged on both sides. -/
theorem inStep_emit_of_kept {e : Event} (he : keep e = true) :
    InStep (Sifted keep) (fun _ => True) (emit e) (emit e) := by
  rintro _ m' rfl
  refine .ok trivial ?_
  simp only [Sifted, Machine.sift]
  rw [Array.filter_push_of_pos he (Array.size_push _)]

/-- An event that is not kept is logged on one side only. -/
theorem inStep_emit_of_dropped {e : Event} (he : keep e = false) :
    InStep (Sifted keep) (fun _ => True) (pure ()) (emit e) := by
  rintro _ m' rfl
  refine .ok trivial ?_
  simp only [Sifted, Machine.sift]
  rw [Array.filter_push_of_neg (by simp [he]) (Array.size_push _)]

namespace Screens

variable (h : Screens keep d d')

include h

theorem inStep_emit {e : Event} (he : e.isTrace = false) :
    InStep (Sifted keep) (fun _ => True) (emit e) (emit e) :=
  inStep_emit_of_kept (h.plain he)

theorem inStep_nextLine : InStep (Sifted keep) (fun _ => True) nextLine nextLine := by
  rintro _ m' rfl
  refine .ok trivial ?_
  have hkept : keep (.input m'.input.head?) = true := h.plain rfl
  simp only [Sifted, Machine.sift]
  rw [Array.filter_push_of_pos hkept (Array.size_push _)]

theorem inStep_trace (l : Language) (level : Nat) (text : String) (hlevel : 1 ≤ level ∧ level ≤ 3) :
    InStep (Sifted keep) (fun _ => True) (Run.trace ⟨l, d⟩ level text)
      (Run.trace ⟨l, d'⟩ level text) := by
  have hiff := h.trace level text hlevel
  unfold Run.trace
  by_cases hd : level ≤ d
  · obtain ⟨hd', hkept⟩ := hiff.mp hd
    rw [if_pos hd, if_pos hd']
    exact inStep_emit_of_kept hkept
  · rw [if_neg hd]
    split
    case isTrue hd' =>
      -- one side logs the line, and the screen drops it
      exact inStep_emit_of_dropped (Bool.eq_false_iff.mpr fun hkept => hd (hiff.mpr ⟨hd', hkept⟩))
    case isFalse => exact inStep_pure trivial

/-- The bodies of functions do not look at the log. -/
theorem sameToBodies : SameToBodies (Sifted keep) where
  print _ := h.inStep_emit rfl
  nextLine := h.inStep_nextLine
  count := by
    rintro counter _ m' rfl
    exact .ok trivial rfl
  memory := by
    rintro _ m' rfl
    exact .ok trivial rfl
  remember := by
    rintro memory _ m' rfl
    exact .ok trivial rfl

theorem inStep_call (l : Language) (f : Function) (args : List Value) :
    InStep (Sifted keep) (fun _ => True) (f.call ⟨l, d⟩ args) (f.call ⟨l, d'⟩ args) :=
  LineScript.inStep_call rfl h.sameToBodies f args

/-- **Two verbosities are in step**, with the machine of one side the sifted
machine of the other. -/
theorem correspondence (l : Language) :
    Correspondence ⟨l, d⟩ ⟨l, d'⟩ (fun _ => True) (Sifted keep) where
  store := by
    rintro _ m' rfl
    rfl
  holds _ := fun _ _ _ => trivial
  restore := by
    rintro _ m' t rfl _
    rfl
  null := trivial
  symbol _ := trivial
  literal _ := trivial
  printed _ := rfl
  trace := h.inStep_trace l
  call _ _ := h.inStep_call l _ _

end Screens

end Runs

/-! ### Sessions -/

namespace Session

variable {keep : Event → Bool} {d d' : Nat}

/-- Every step is in step. -/
theorem inStep_action (h : Screens keep d d') (l : Language) (step : Step) :
    InStep (Sifted keep) (fun _ => True) (action ⟨l, d⟩ step) (action ⟨l, d'⟩ step) := by
  have hc := h.correspondence l
  have hlook : ∀ {α : Type} (f : Store → Except Fault α),
      InStep (Sifted keep) (fun _ => True) (look f) (look f) :=
    fun f => hc.inStep_look fun _ _ _ _ => trivial
  have hupdate : ∀ f : Store → Except Fault Store,
      InStep (Sifted keep) (fun _ => True) (update f) (update f) :=
    fun f => hc.inStep_update fun _ _ _ _ _ _ _ => trivial
  have hupdateAll : ∀ f : Store → Store × Except Fault Unit,
      InStep (Sifted keep) (fun _ => True) (updateAll f) (updateAll f) :=
    fun f => hc.inStep_updateAll fun _ _ _ _ _ => trivial
  cases step with
  | execute source => exact (hc.inStep_execute source).map fun _ _ => trivial
  | executeLine source =>
    exact (hlook _).bind fun line _ => (hc.inStep_execute line).map fun _ _ => trivial
  | run n => exact (hc.inStep_node fun _ _ => trivial).map fun _ _ => trivial
  | evaluate n =>
    -- nothing is traced here, whatever the verbosity
    have hquiet : Screens keep 0 0 := ⟨h.plain, fun level _ hlevel => by omega⟩
    exact ((hquiet.correspondence l).inStep_evaluate n fun _ _ => trivial).map fun _ _ => trivial
  | declare x t m => exact (hupdate _).bind fun _ _ => inStep_pure trivial
  | assign x v => exact (hupdate _).bind fun _ _ => inStep_pure trivial
  | declareAndAssign x v m => exact (hupdateAll _).bind fun _ _ => inStep_pure trivial
  | get x => exact (hlook _).map fun _ _ => trivial
  | getFunction x => exact (hlook _).bind fun _ _ => inStep_pure trivial
  | getSymbol x => exact (hlook _).map fun _ _ => trivial
  | lookupClass x => exact (hlook _).map fun _ _ => trivial
  | isDefined x => exact (hlook _).map fun _ _ => trivial
  | call x args =>
    exact (hlook _).bind fun f _ => (h.inStep_call l f args).map fun _ _ => trivial
  | registerFunctions fs => exact (hupdateAll _).bind fun _ _ => inStep_pure trivial
  | registerClasses cs => exact (hupdateAll _).bind fun _ _ => inStep_pure trivial
  | setLanguage l => exact inStep_pure trivial

/-- Sessions that differ in the verbosity and in what is sifted from the log. -/
structure Parallel (keep : Event → Bool) (d d' : Nat) (s s' : Session) : Prop where
  language : s.settings.language = s'.settings.language
  lower : s.settings.verbosity = d
  upper : s'.settings.verbosity = d'
  machine : Sifted keep s.machine s'.machine

variable {s s' : Session}

/-- One step has one answer, and leads to such sessions again. -/
theorem Parallel.perform (h : Screens keep d d') (hs : Parallel keep d d' s s') (step : Step) :
    (s.perform step).2 = (s'.perform step).2 ∧
      Parallel keep d d' (s.perform step).1 (s'.perform step).1 := by
  obtain ⟨⟨l, _⟩, m⟩ := s
  obtain ⟨⟨_, _⟩, m'⟩ := s'
  obtain ⟨rfl, rfl, rfl, hm⟩ := hs
  -- a step may set the language, and leaves the verbosity alone
  have hlanguage : ∀ d d', (settingsAfter ⟨l, d⟩ step).language
      = (settingsAfter ⟨l, d'⟩ step).language := by
    intro d d'
    cases step <;> rfl
  have hverbosity : ∀ d, (settingsAfter ⟨l, d⟩ step).verbosity = d := by
    intro d
    cases step <;> rfl
  unfold Session.perform
  obtain ⟨a, m₁, m₁', hr, hr', -, hm₁⟩ | ⟨e, m₁, m₁', hr, hr', hm₁⟩ :=
    (inStep_action h l step m m' hm).cases <;>
  · simp only [hr, hr', true_and]
    exact ⟨hlanguage _ _, hverbosity _, hverbosity _, hm₁⟩

theorem Parallel.performAll (h : Screens keep d d') (hs : Parallel keep d d' s s')
    (steps : List Step) : Parallel keep d d' (s.performAll steps) (s'.performAll steps) := by
  induction steps generalizing s s' with
  | nil => exact hs
  | cons step steps ih => exact ih (hs.perform h step).2

/-- A step has one answer after any steps. -/
theorem Parallel.perform_performAll (h : Screens keep d d') (hs : Parallel keep d d' s s')
    (steps : List Step) (step : Step) :
    ((s.performAll steps).perform step).2 = ((s'.performAll steps).perform step).2 ∧
      Parallel keep d d' ((s.performAll steps).perform step).1
        ((s'.performAll steps).perform step).1 :=
  (hs.performAll h steps).perform h step

/-- New sessions differ in the verbosity only. -/
theorem parallel_create {l : Language} {functions : List Function} {input : List String}
    (hs : create ⟨l, d⟩ functions input = .ok s) (hs' : create ⟨l, d'⟩ functions input = .ok s') :
    Parallel keep d d' s s' := by
  unfold create at hs hs'
  split at hs
  case h_1 store hseeded =>
    rw [hseeded] at hs'
    cases hs
    cases hs'
    exact ⟨rfl, rfl, rfl, sifted_fresh store input⟩
  case h_2 => cases hs

end Session

/-! ### The console -/

namespace Console

variable {α : Type} {keep : Event → Bool} {d d' : Nat}

/-- Consoles that wait for the same lines, on a sifted machine and on the whole
one. -/
def Alongside (keep : Event → Bool) (c c' : Console) : Prop :=
  c.supply = c'.supply ∧ Sifted keep c.machine c'.machine

theorem inStep_onMachine {P : α → Prop} {r r' : Run α} (h : InStep (Sifted keep) P r r') :
    InStep (Alongside keep) P (onMachine r) (onMachine r') := by
  rintro c c' ⟨hsupply, hm⟩
  unfold onMachine
  obtain ⟨a, m, m', hr, hr', ha, hm⟩ | ⟨e, m, m', hr, hr', hm⟩ := (h _ _ hm).cases
  · rw [hr, hr']
    exact .ok ha ⟨hsupply, hm⟩
  · rw [hr, hr']
    exact .error ⟨hsupply, hm⟩

/-- A number of replies, one after the other. -/
theorem inStep_replies (h : Screens keep d d') (lines : List String) :
    InStep (Alongside keep) (fun _ => True)
      (lines.forM fun line => onMachine (emit (.reply line)))
      (lines.forM fun line => onMachine (emit (.reply line))) := by
  induction lines with
  | nil => exact inStep_pure trivial
  | cons line lines ih => exact (inStep_onMachine (h.inStep_emit rfl)).bind fun _ _ => ih

theorem inStep_ask (h : Screens keep d d') :
    InStep (Alongside keep) (fun _ => True) ask ask := by
  intro c c' hc
  obtain ⟨m, supply⟩ := c
  obtain ⟨m', supply'⟩ := c'
  obtain ⟨rfl, hm⟩ := hc
  rcases supply with (_ | ⟨line, lines⟩) | _
  · exact .ok trivial ⟨rfl, hm⟩
  · exact .ok trivial ⟨rfl, hm⟩
  · exact inStep_onMachine h.inStep_nextLine _ _ ⟨rfl, hm⟩

theorem inStep_showForm (h : Screens keep d d') (l : Language) (echo : Bool) (n : Node) :
    InStep (Sifted keep) (fun _ => True) (showForm ⟨l, d⟩ echo n) (showForm ⟨l, d'⟩ echo n) := by
  unfold showForm
  split
  · exact (inStep_ofExcept_any _).bind fun _ _ => h.inStep_emit rfl
  · exact inStep_pure trivial

theorem inStep_answer (h : Screens keep d d') (l : Language) (n : Node) :
    InStep (Sifted keep) (fun _ => True) (answer ⟨l, d⟩ n) (answer ⟨l, d'⟩ n) := by
  intro m m' hm
  unfold answer
  obtain ⟨v, m₁, m₁', hr, hr', -, hm₁⟩ | ⟨e, m₁, m₁', hr, hr', hm₁⟩ :=
    ((h.correspondence l).inStep_node (fun _ _ => trivial) m m' hm).cases
  · rw [hr, hr']
    exact (inStep_ofExcept_any (v.printed l)).bind (fun _ _ => h.inStep_emit rfl) m₁ m₁' hm₁
  · rw [hr, hr']
    rcases e with f | c
    · exact h.inStep_emit (e := complaint ⟨l, d⟩ "EVAL" f) rfl m₁ m₁' hm₁
    · exact .error hm₁

theorem inStep_react (h : Screens keep d d') (l : Language) (echo : Bool) (line : String) :
    InStep (Sifted keep) (fun _ => True) (react ⟨l, d⟩ echo line) (react ⟨l, d'⟩ echo line) := by
  intro m m' hm
  unfold react
  rw [(h.correspondence l).store hm]
  obtain ⟨n, m₁, m₁', hr, hr', -, hm₁⟩ | ⟨e, m₁, m₁', hr, hr', hm₁⟩ :=
    ((h.correspondence l).inStep_read (m.store.completeLine line) m m' hm).cases
  · rw [hr, hr']
    exact (inStep_showForm h l echo n).bind (fun _ _ => inStep_answer h l n) m₁ m₁' hm₁
  · rw [hr, hr']
    rcases e with f | c
    · exact h.inStep_emit (e := complaint ⟨l, d⟩ "READ" f) rfl m₁ m₁' hm₁
    · exact .error hm₁

theorem inStep_turns (h : Screens keep d d') (l : Language) (echo : Bool) (limit : Nat) :
    InStep (Alongside keep) (fun _ => True) (turns ⟨l, d⟩ echo limit)
      (turns ⟨l, d'⟩ echo limit) := by
  induction limit with
  | zero => exact inStep_pure trivial
  | succ limit ih =>
    rw [turns, turns]
    refine (inStep_onMachine (h.inStep_emit rfl)).bind fun _ _ => ?_
    refine (inStep_ask h).bind fun line? _ => ?_
    rcases line? with _ | line
    · exact inStep_pure trivial
    · dsimp only
      rcases request line with _ | _ | _ | line
      · exact inStep_pure trivial
      · exact (inStep_onMachine (h.inStep_emit rfl)).bind fun _ _ => ih
      · exact ih
      · exact (inStep_onMachine (inStep_react h l echo line)).bind fun _ _ => ih

/-- **A dialogue is in step.** -/
theorem inStep_dialogue (h : Screens keep d d') (l : Language) (echo : Bool) :
    InStep (Alongside keep) (fun _ => True) (dialogue ⟨l, d⟩ echo) (dialogue ⟨l, d'⟩ echo) := by
  intro c c' hc
  -- what is sifted from the log does not change the number of lines to come
  have havailable : c.available = c'.available := by
    unfold available
    rw [hc.1, hc.2]
    rfl
  unfold dialogue
  rw [havailable]
  exact ((inStep_replies h welcome).bind fun _ _ => (inStep_turns h l echo _).bind fun _ _ =>
    inStep_onMachine (h.inStep_emit rfl)) c c' hc

end Console

/-! ### The command line -/

namespace CommandLine

variable {keep : Event → Bool} {d d' : Nat}

/-- Reports of the same run, the first with a sifted log. -/
structure Report.Sifts (keep : Event → Bool) (r r' : Report) : Prop where
  exit : r.exit = r'.exit
  complaint : r.complaint = r'.complaint
  events : r.events = r'.events.filter keep

theorem inStep_runStatement (h : Screens keep d d') (l : Language) (echo : Bool)
    (source : String) :
    InStep (Sifted keep) (fun _ => True) (runStatement ⟨l, d⟩ echo source)
      (runStatement ⟨l, d'⟩ echo source) := by
  have hc := h.correspondence l
  exact (hc.inStep_read source).bind fun n _ =>
    (Console.inStep_showForm h l echo n).bind fun _ _ =>
      (hc.inStep_node fun _ _ => trivial).bind fun _ _ => inStep_pure trivial

/-- Statements end alike, and on machines of which one is sifted. -/
theorem sifted_runStatements (h : Screens keep d d') (l : Language) (echo : Bool)
    (ps : List (Nat × String)) {m m' : Machine} (hm : Sifted keep m m') :
    Sifted keep (runStatements ⟨l, d⟩ echo ps m).1 (runStatements ⟨l, d'⟩ echo ps m').1 ∧
      (runStatements ⟨l, d⟩ echo ps m).2 = (runStatements ⟨l, d'⟩ echo ps m').2 := by
  induction ps generalizing m m' with
  | nil => exact ⟨hm, rfl⟩
  | cons p ps ih =>
    obtain ⟨line, source⟩ := p
    unfold runStatements
    obtain ⟨_, m₁, m₁', hr, hr', -, hm₁⟩ | ⟨e, m₁, m₁', hr, hr', hm₁⟩ :=
      (inStep_runStatement h l echo source m m' hm).cases
    · rw [hr, hr']
      exact ih hm₁
    · rw [hr, hr']
      rcases e with f | c <;> exact ⟨hm₁, rfl⟩

section Options

variable {l : Language} {echo : Bool} {program file file' : Option String}

theorem runProgram_sifts (h : Screens keep d d') (text : String) (input : List String) :
    Report.Sifts keep (runProgram ⟨d, echo, l, file, program⟩ text input)
      (runProgram ⟨d', echo, l, file', program⟩ text input) := by
  unfold runProgram Options.settings
  dsimp only
  generalize Program.statements _ = ps
  obtain ⟨hm, hend⟩ := sifted_runStatements h l echo ps (sifted_fresh .standard input)
  generalize runStatements ⟨l, d⟩ echo ps _ = r at hm hend ⊢
  generalize runStatements ⟨l, d'⟩ echo ps _ = r' at hm hend ⊢
  exact ⟨congrArg (·.1) hend, congrArg (·.2) hend, hm.toList_events⟩

theorem runConsole_sifts (h : Screens keep d d') (input : List String) :
    Report.Sifts keep (runConsole ⟨d, echo, l, file, program⟩ input)
      (runConsole ⟨d', echo, l, file', program⟩ input) := by
  have hc : Console.Alongside keep ⟨.fresh .standard input, .shared⟩
      ⟨.fresh .standard input, .shared⟩ := ⟨rfl, sifted_fresh .standard input⟩
  unfold runConsole Options.settings
  dsimp only
  obtain ⟨_, c₁, c₁', hr, hr', -, hc₁⟩ | ⟨e, c₁, c₁', hr, hr', hc₁⟩ :=
    (Console.inStep_dialogue h l echo _ _ hc).cases
  · rw [hr, hr']
    exact ⟨rfl, rfl, hc₁.2.toList_events⟩
  · rw [hr, hr']
    rcases e with f | k <;> exact ⟨rfl, rfl, hc₁.2.toList_events⟩

end Options

/-- The trace does not go to the file of the program. -/
def Options.IsApart (o : Options) : Prop :=
  ∀ program file, o.program = some program → program ≠ "" → o.openTrace = some file →
    plainPath program ≠ file

/-- A program is run as it is found, if the trace goes elsewhere. -/
theorem start_of_program {o : Options} (ho : o.IsApart) {program : String}
    (hp : o.program = some program) (hne : program ≠ "") (files : Files) (input : List String) :
    start o files input = (files.find? (plainPath program)).elim
      ⟨.failure, [], o.openTrace, "Error: file " ++ plainPath program ++ " not found\n"⟩
      fun text => runProgram o text input := by
  unfold start
  rw [hp]
  split
  case h_1 heq => cases heq
  case h_2 heq => exact absurd (Option.some.inj heq) hne
  case h_3 heq =>
    cases heq
    -- opening the trace file does not touch the program
    rcases hfile : o.openTrace with _ | file
    · dsimp only
      rcases files.find? (plainPath program) with _ | text <;> rfl
    · dsimp only
      rw [Table.find?_insert_of_ne _ (ho program file hp hne hfile)]
      rcases files.find? (plainPath program) with _ | text <;> rfl

theorem start_sifts (h : Screens keep d d') {l : Language} {echo : Bool}
    {program file file' : Option String} (ho : Options.IsApart ⟨d, echo, l, file, program⟩)
    (ho' : Options.IsApart ⟨d', echo, l, file', program⟩) (files : Files) (input : List String) :
    Report.Sifts keep (start ⟨d, echo, l, file, program⟩ files input)
      (start ⟨d', echo, l, file', program⟩ files input) := by
  rcases program with _ | program
  · exact runConsole_sifts h input
  by_cases hne : program = ""
  · subst hne
    exact runConsole_sifts h input
  rw [start_of_program ho rfl hne, start_of_program ho' rfl hne]
  rcases files.find? (plainPath program) with _ | text
  · exact ⟨rfl, rfl, rfl⟩
  · exact runProgram_sifts h text input

theorem traceFile_start (o : Options) (files : Files) (input : List String) :
    (start o files input).traceFile = o.openTrace := by
  have hconsole : (runConsole o input).traceFile = o.openTrace := by
    unfold runConsole
    dsimp only
    split <;> rfl
  unfold start
  split
  case h_1 => exact hconsole
  case h_2 => exact hconsole
  case h_3 =>
    dsimp only
    split
    · unfold runProgram
      dsimp only
    · rfl

/-- With a file for the trace, all else is as without trace, and the file holds
the trace of a run that shows it. -/
theorem start_with_file {o : Options} {path : String} (hpath : o.openTrace = some path)
    (ho : o.IsApart) (files : Files) (input : List String) :
    let traced := start o files input
    let untraced := start { o with verbosity := 0, traceFile := none } files input
    let shown := start { o with traceFile := none } files input
    traced.output = untraced.output ∧ traced.exit = untraced.exit ∧
      traced.complaint = untraced.complaint ∧
      (traced.filesAfter files).find? path
        = some (Event.transcript (shown.events.filter Event.isTrace)) := by
  intro traced untraced shown
  have htraced : traced.traceFile = some path := by
    rw [← hpath]
    exact traceFile_start o files input
  have hnone : untraced.traceFile = none := traceFile_start _ files input
  have hapart : ∀ verbosity,
      Options.IsApart { o with verbosity := verbosity, traceFile := none } := by
    rintro verbosity program file - - ⟨⟩
  -- the run without a trace has what is left when the trace is sifted out
  have huntraced : Report.Sifts (fun e => !e.isTrace) untraced traced :=
    start_sifts (screens_not_isTrace o.verbosity) (hapart 0) ho files input
  have hshown : Report.Sifts (fun _ => true) shown traced :=
    start_sifts (screens_true (.inl rfl)) (hapart o.verbosity) ho files input
  refine ⟨?_, huntraced.exit.symm, huntraced.complaint.symm, ?_⟩
  · rw [Report.output_of_some htraced, Report.output_of_none hnone, huntraced.events]
  · have hevents : shown.events = traced.events := by
      rw [hshown.events, List.filter_true]
    unfold Report.filesAfter
    rw [htraced, hevents]
    exact Table.find?_insert_self _ _ _

end CommandLine

/-! ### Transparency -/

namespace Session

/-- The trace has lines of the levels 1, 2 and 3 only. -/
theorem Parallel.level_of_mem {d : Nat} {s : Session} (hs : Parallel Event.isLevelled d d s s)
    {level : Nat} {text : String} (h : .trace level text ∈ s.machine.events) :
    1 ≤ level ∧ level ≤ 3 := by
  have hkept : s.machine.events.filter Event.isLevelled = s.machine.events :=
    congrArg Machine.events hs.machine.symm
  have hlevel := Array.filter_eq_self.mp hkept _ h
  simpa [Event.isLevelled] using hlevel

end Session

open Session CommandLine

/-- **Tracing is transparent.**  Two sessions with the same functions and the same
input, at the verbosities `d ≤ d'`, do the same steps with the same answers, and
differ in the log only, where the lower has the lines of levels up to `d`; there
are the levels 1, 2 and 3, so from 3 on nothing differs.  A command line with a
file for the trace, other than that of the program, writes to the standard output
what it would write without trace, and to the file, in order, the lines of the
trace that it would else show. -/
theorem tracing_transparent :
    (∀ (l : Language) (functions : List Function) (input : List String) (d d' : Nat)
      (s s' : Session), d ≤ d' → create ⟨l, d⟩ functions input = .ok s →
      create ⟨l, d'⟩ functions input = .ok s' → ∀ (steps : List Step) (step : Step),
      let r := (s.performAll steps).perform step
      let r' := (s'.performAll steps).perform step
      r.2 = r'.2 ∧ r.1.machine = r'.1.machine.sift (Event.isShownAt d) ∧
        (∀ level text, .trace level text ∈ r'.1.machine.events → 1 ≤ level ∧ level ≤ 3) ∧
        (3 ≤ d → r.1.machine = r'.1.machine)) ∧
    ∀ (arguments : List String) (o : Options) (path : String) (files : Files)
      (input : List String), command arguments = .start o → o.traceFile = some path →
      path ≠ "" → 0 < o.verbosity →
      (∀ program, o.program = some program → program ≠ "" →
        plainPath program ≠ plainPath path) →
      let traced := run arguments files input
      let untraced := start { o with verbosity := 0, traceFile := none } files input
      let shown := start { o with traceFile := none } files input
      traced.output = untraced.output ∧ traced.exit = untraced.exit ∧
        traced.complaint = untraced.complaint ∧
        (traced.filesAfter files).find? (plainPath path)
          = some (Event.transcript (shown.events.filter Event.isTrace)) := by
  constructor
  · -- sessions of two verbosities, step by step
    intro l functions input d d' s s' hd hs hs' steps step r r'
    obtain ⟨hanswer, hsifted⟩ :=
      (parallel_create hs hs').perform_performAll (screens_isShownAt hd) steps step
    refine ⟨hanswer, hsifted.machine, fun level text hmem => ?_, fun hthree => ?_⟩
    · -- a session in parallel with itself: every line it traces has a level
      have hself := (parallel_create hs' hs').perform_performAll (screens_isLevelled d') steps step
      exact hself.2.level_of_mem hmem
    · -- from level three on nothing is sifted out
      have hscreen := screens_true (.inr ⟨hthree, hthree.trans hd⟩)
      have hall := ((parallel_create hs hs').perform_performAll hscreen steps step).2.machine
      rwa [Sifted, Machine.sift_true] at hall
  · -- the command line, with a file for the trace
    intro arguments o path files input ho hfile hne hverbosity hprogram
    have hopen : o.openTrace = some (plainPath path) := by
      unfold Options.openTrace
      rw [hfile]
      exact if_pos ⟨hne, hverbosity⟩
    have hapart : o.IsApart := by
      intro program file hp hpne hopen'
      rw [hopen] at hopen'
      cases hopen'
      exact hprogram program hp hpne
    have hrun : run arguments files input = start o files input := by
      unfold run
      rw [ho]
    rw [hrun]
    exact start_with_file hopen hapart files input

end AnyHost

/-- A host that takes a line in every call and prints it, and remembers whether it
has been called; the first call tells whether there was a line, and all others
give `null`. -/
@[reducible] def Host.echoing : Host where
  named? _ := none
  Memory := Bool
  start := false
  script _ _ _ called :=
    .read fun line => .print (line.getD "")
      (.finish (.ok (if called then .null else .bool line.isSome)) true)

open Session CommandLine in
/-- A function of the host, called twice at two verbosities; and a program that
prints, with its trace in a file. -/
theorem tracing_transparent_of_host :
    letI : Host := .echoing
    let functions : List Function := [⟨⟨"next", [], some .any⟩, .host "next"⟩]
    let s := fun d => (⟨⟨.english, d⟩, .fresh (Store.seeded functions).1 ["a"]⟩ : Session)
    let files : Files := Table.empty.insert "p" "print(null)"
    ((((s 5).performAll [.execute "next()"]).perform (.execute "next()")).2 = .ok (.value .null) ∧
      (((s 1).performAll [.execute "next()"]).perform (.execute "next()")).1.machine
        = (((s 5).performAll [.execute "next()"]).perform
            (.execute "next()")).1.machine.sift (Event.isShownAt 1)) ∧
    (run ["-v", "--debug-file", "t", "p"] files []).output = "null\n" ∧
      ((run ["-v", "--debug-file", "t", "p"] files []).filesAfter files).find? "t"
        = some "READ: print(null)\n" := by
  intro functions s files
  obtain ⟨hanswer, hmachine, -, -⟩ :=
    (@tracing_transparent .echoing).1 .english functions ["a"] 1 5 (s 1) (s 5) (by decide)
      rfl rfl [.execute "next()"] (.execute "next()")
  have hcommand : command ["-v", "--debug-file", "t", "p"]
      = .start ⟨1, false, .english, some "t", some "p"⟩ := by cbv
  have hpath : plainPath "t" = "t" := by cbv
  have hprogram : plainPath "p" = "p" := by cbv
  obtain ⟨houtput, -, -, hfile⟩ := (@tracing_transparent .echoing).2 _ _ "t" files [] hcommand rfl
    (by decide) (by decide) (by
      rintro _ ⟨⟩ -
      rw [hpath, hprogram]
      decide)
  rw [hpath] at hfile
  rw [← hanswer, houtput, hfile, Report.output_of_none (@traceFile_start .echoing _ files [])]
  refine ⟨⟨?_, hmachine⟩, ?_, ?_⟩
  · simp only [s, functions]
    cbv
  · simp only [files]
    cbv
  · simp only [files]
    cbv

end LineScript
