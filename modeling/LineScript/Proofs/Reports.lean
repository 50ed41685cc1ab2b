/-
LineScript/Proofs/Reports.lean

Programs on the command line.

The command line has its own loop over the statements of a program: it reads a
statement, shows its debug form if it is asked to, and runs it; and it fetches the
text with the carriage returns turned into line feeds.  The result is nevertheless
that of running the text as a program (`command_line_runs_program`).

A run is told by its visits, the statements that are reached, each with the machine
that it finds (`Program.visits`).  Every visit leaves its passage in the log, and
the last one may end the run; the number of its line then stands in the complaint.
-/
import LineScript.CommandLine
import LineScript.Proofs.Lines
import LineScript.Proofs.Logs
import LineScript.Proofs.Tracing

namespace LineScript

open Run

/-! ### Flags -/

namespace CommandLine

theorem classify_replicate (k : Nat) (as : List String) :
    classify (List.replicate k "-v" ++ as)
      = (classify as).map (List.replicate k (.cluster ['v']) ++ ·) := by
  induction k with
  | zero => simp
  | succ k ih =>
    have hone : classifyOne "-v" = some (.cluster ['v']) := rfl
    rw [List.replicate_succ, List.cons_append, classify, hone]
    show (classify (List.replicate k "-v" ++ as)).map _ = _
    rw [ih, Option.map_map]
    rfl

theorem interpret_replicate (k : Nat) (r : Reading) (as : List Argument) :
    interpret r (List.replicate k (.cluster ['v']) ++ as)
      = interpret { r with options.verbosity := r.options.verbosity + k } as := by
  induction k generalizing r with
  | zero => rfl
  | succ k ih =>
    show interpret { r with options.verbosity := r.options.verbosity + 1 }
      (List.replicate k (.cluster ['v']) ++ as) = _
    rw [ih, Nat.add_right_comm, Nat.add_assoc]

/-- The verbosity is the number of flags `-v` in front of a program. -/
theorem command_replicate (k : Nat) {word : String} (h : word.toList.head? ≠ some '-') :
    command (List.replicate k "-v" ++ [word]) = .start ⟨k, false, .english, none, some word⟩ ∧
      command (List.replicate k "-v" ++ ["-d", word])
        = .start ⟨k, true, .english, none, some word⟩ := by
  have hword : classifyOne word = some (.word word) := by
    unfold classifyOne
    split <;> simp_all
  have hclassify : classify [word] = some [.word word] := by
    rw [classify, hword]
    rfl
  have hecho : classify ["-d", word] = some [.cluster ['d'], .word word] := by
    rw [classify, hclassify]
    rfl
  constructor
  · rw [command, classify_replicate, hclassify]
    show interpret _ (List.replicate k (.cluster ['v']) ++ [.word word]) = _
    rw [interpret_replicate, Nat.zero_add]
    rfl
  · rw [command, classify_replicate, hecho]
    show interpret _ (List.replicate k (.cluster ['v']) ++ [.cluster ['d'], .word word]) = _
    rw [interpret_replicate, Nat.zero_add]
    rfl

end CommandLine

section AnyHost

variable [Host]

/-! ### Visits -/

/-- A statement of a program that is reached, with the machine that it finds. -/
structure Visit where
  line : Nat
  source : String
  machine : Machine

namespace Visit

/-- The statement, as it stands in the program. -/
def statement (v : Visit) : Nat × String :=
  (v.line, v.source)

/-- How the statement ends. -/
def outcome (s : Settings) (v : Visit) : Except Fault Value :=
  (execute s v.source).outcome v.machine

/-- What the statement leaves in the log. -/
def events (s : Settings) (echo : Bool) (v : Visit) : List Event :=
  (passage s v.source v.machine).events s echo

theorem events_of_parse_error (s : Settings) (echo : Bool) {v : Visit} {e : Fault}
    (h : Statement.parse v.source = .error e) : v.events s echo = [] := by
  rw [events, (execute_of_parse_error s h v.machine).2]
  rfl

/-- A statement that is parsed is announced before it runs. -/
theorem events_of_parse_ok (s : Settings) (echo : Bool) {v : Visit} {n : Node} {form : String}
    (h : Statement.parse v.source = .ok n) (hform : n.debugForm s.language = .ok form) :
    v.events s echo = heading s echo form ++ (node s n).logged v.machine := by
  rw [events, passage, h]
  show Passage.events s echo ⟨(n.debugForm s.language).toOption, _⟩ = _
  rw [hform]
  rfl

end Visit

namespace Program

/-- The visits of a run: all statements up to the first that ends in a fault. -/
def visits (s : Settings) : List (Nat × String) → Machine → List Visit
  | [], _ => []
  | (line, source) :: ps, m =>
    ⟨line, source, m⟩ ::
      match execute s source m with
      | .ok _ m' => visits s ps m'
      | .error _ _ => []

variable {s : Settings} {source : String} {m m' : Machine}

theorem visits_of_ok {v : Value} (h : execute s source m = .ok v m') (line : Nat)
    (ps : List (Nat × String)) :
    visits s ((line, source) :: ps) m = ⟨line, source, m⟩ :: visits s ps m' := by
  rw [visits, h]

theorem visits_of_error {e : Fault} (h : execute s source m = .error e m') (line : Nat)
    (ps : List (Nat × String)) :
    visits s ((line, source) :: ps) m = [⟨line, source, m⟩] := by
  rw [visits, h]

/-- A program logs what its visits leave. -/
theorem events_final_runStatements (s : Settings) (ps : List (Nat × String)) (last : Value)
    (m : Machine) :
    ((runStatements s last ps).final m).events.toList
      = m.events.toList ++ (visits s ps m).flatMap (Visit.events s false) := by
  induction ps generalizing last m with
  | nil =>
    show m.events.toList = m.events.toList ++ []
    rw [List.append_nil]
  -- the log of the first statement, and then that of the others or nothing
  | cons p ps ih =>
    have hlogged : ((execute s p.2).final m).events.toList
        = m.events.toList ++ Visit.events s false ⟨p.1, p.2, m⟩ := by
      rw [(framed_execute s p.2).final_eq rfl, Machine.toList_events_relogged, logged_execute]
      rfl
    rw [runStatements, final_bind]
    rcases hr : execute s p.2 m with ⟨v, m'⟩ | ⟨e, m'⟩
    · rw [final_of_ok hr] at hlogged
      rw [visits_of_ok hr, List.flatMap_cons, ih, hlogged, List.append_assoc]
    · rw [final_of_error hr] at hlogged
      rw [visits_of_error hr, List.flatMap_singleton, hlogged]

end Program

/-! ### The loop of the command line -/

namespace CommandLine

open Program (visits)

/-- A statement runs on the command line as it is executed, and leaves its
passage in the log. -/
theorem runStatement_cases (s : Settings) (echo : Bool) (source : String) (m : Machine) :
    (runStatement s echo source).outcome m = ((execute s source).outcome m).map (fun _ => ()) ∧
      (runStatement s echo source).final m = ((execute s source).final m).relogged
        (m.events.toList ++ (passage s source m).events s echo) := by
  obtain ⟨e, he⟩ | ⟨n, m₀, m₁, -, hread, hshow, houtcome, hfinal⟩ := announce_cases s echo source m
  · -- a statement that does not parse logs nothing
    obtain ⟨hexecute, hpassage⟩ := execute_of_parse_error s he m
    have hrun : runStatement s echo source m = .error e m :=
      bind_of_error (read_of_parse_error s he m)
    rw [outcome_of_error hrun, outcome_of_error hexecute, final_of_error hrun,
      final_of_error hexecute, hpassage]
    refine ⟨rfl, ?_⟩
    show m = m.extended []
    rw [Machine.extended_nil]
  · have hrun : runStatement s echo source m = (node s n >>= fun _ => pure ()) m₁ := by
      rw [runStatement, bind_of_ok hread, bind_of_ok hshow]
    rw [← houtcome, ← hfinal]
    -- the value is dropped, and an error is passed on
    rcases hnode : node s n m₁ with ⟨v, m₂⟩ | ⟨e, m₂⟩
    · rw [bind_of_ok hnode] at hrun
      rw [outcome_of_ok hrun, final_of_ok hrun, outcome_of_ok hnode, final_of_ok hnode]
      exact ⟨rfl, rfl⟩
    · rw [bind_of_error hnode] at hrun
      rw [outcome_of_error hrun, final_of_error hrun, outcome_of_error hnode,
        final_of_error hnode]
      exact ⟨rfl, rfl⟩

/-- How a run ends, and what it complains of, if a line ends in a fault. -/
def verdict (s : Settings) (line : Nat) : Fault → Exit × String
  | .failure f => (.failure, lineComplaint s line f)
  | .crash c => (.crash c, "")

/-- **The loop of the command line runs a program.**  It is on a machine that may
have another log, because it shows more. -/
theorem runStatements_cases (s : Settings) (echo : Bool) (ps : List (Nat × String)) (last : Value)
    {m m₁ : Machine} (h : m₁.unlogged = m.unlogged) :
    ∃ m', (runStatements s echo ps m₁).1 = m'.relogged
        (m₁.events.toList ++ (visits s ps m).flatMap (Visit.events s echo)) ∧
      ((∃ v, Program.runStatements s last ps m = .ok v m' ∧
          (runStatements s echo ps m₁).2 = (.success, "") ∧
          (visits s ps m).map Visit.statement = ps) ∨
        ∃ (e : Fault) (vs : List Visit) (v : Visit) (rest : List (Nat × String)),
          Program.runStatements s last ps m = .error e m' ∧
          (runStatements s echo ps m₁).2 = verdict s v.line e ∧
          visits s ps m = vs ++ [v] ∧
          ps = vs.map Visit.statement ++ v.statement :: rest ∧
          (∀ u ∈ vs, ∃ value, u.outcome s = .ok value) ∧ v.outcome s = .error e) := by
  induction ps generalizing last m m₁ with
  | nil =>
    refine ⟨m, ?_, .inl ⟨last, rfl, rfl, rfl⟩⟩
    show m₁ = m.relogged (m₁.events.toList ++ [])
    rw [List.append_nil, ← Machine.relogged_eq_of_unlogged h, Machine.relogged_self]
  | cons p ps ih =>
    obtain ⟨line, source⟩ := p
    obtain ⟨houtcome, hfinal⟩ := runStatement_cases s echo source m₁
    rw [(framed_execute s source).outcome_eq h] at houtcome
    rw [(framed_execute s source).final_eq h, Machine.relogged_relogged,
      passage_of_unlogged h] at hfinal
    rcases hr : execute s source m with ⟨v, m₂⟩ | ⟨e, m₂⟩
    · -- the statement succeeds, and the rest runs on machines that differ in the log only
      rw [outcome_of_ok hr] at houtcome
      rw [final_of_ok hr] at hfinal
      have hloop : runStatements s echo ((line, source) :: ps) m₁
          = runStatements s echo ps ((runStatement s echo source).final m₁) := by
        rw [runStatements, eq_ok_of_outcome houtcome]
      have hrun : Program.runStatements s last ((line, source) :: ps) m
          = Program.runStatements s v ps m₂ := bind_of_ok hr
      have hvisits := Program.visits_of_ok hr line ps
      have hm₂ : ((runStatement s echo source).final m₁).unlogged = m₂.unlogged := by
        rw [hfinal, Machine.unlogged_relogged]
      obtain ⟨m', hmachine, hcases⟩ := ih v hm₂
      rw [hloop, hrun, hvisits]
      refine ⟨m', ?_, ?_⟩
      · rw [hmachine, hfinal, Machine.toList_events_relogged, List.flatMap_cons,
          List.append_assoc]
        rfl
      · obtain ⟨w, hw, hsuccess, hall⟩ | ⟨e, vs, w, rest, he, hverdict, hvs, hps, hok, hw⟩ := hcases
        · refine .inl ⟨w, hw, hsuccess, ?_⟩
          rw [List.map_cons, hall]
          rfl
        · refine .inr ⟨e, ⟨line, source, m⟩ :: vs, w, rest, he, hverdict, ?_, ?_, ?_, hw⟩
          · rw [hvs, List.cons_append]
          · rw [hps]
            rfl
          · rw [List.forall_mem_cons]
            exact ⟨⟨v, outcome_of_ok hr⟩, hok⟩
    · rw [outcome_of_error hr] at houtcome
      rw [final_of_error hr] at hfinal
      have hloop : runStatements s echo ((line, source) :: ps) m₁
          = ((runStatement s echo source).final m₁, verdict s line e) := by
        rw [runStatements, eq_error_of_outcome houtcome]
        cases e <;> rfl
      have hrun : Program.runStatements s last ((line, source) :: ps) m = .error e m₂ :=
        bind_of_error hr
      rw [hloop, hrun, Program.visits_of_error hr line ps]
      refine ⟨m₂, ?_, .inr ⟨e, [], ⟨line, source, m⟩, ps, rfl, rfl, rfl, rfl,
        List.forall_mem_nil _, ?_⟩⟩
      · rw [hfinal, List.flatMap_singleton]
        rfl
      · exact outcome_of_error hr

theorem runProgram_eq (o : Options) (text : String) (input : List String) :
    runProgram o text input =
      let r := runStatements o.settings o.echo (Program.statements text) (.fresh .standard input)
      ⟨r.2.1, r.1.events.toList, o.openTrace, r.2.2⟩ := by
  rw [runProgram, Program.statements_unifyLineEnds]

/-- The report of a program has the events of its visits. -/
theorem events_runProgram (o : Options) (text : String) (input : List String) :
    (runProgram o text input).events
      = (visits o.settings (Program.statements text) (.fresh .standard input)).flatMap
          (Visit.events o.settings o.echo) := by
  obtain ⟨m', hmachine, -⟩ := runStatements_cases o.settings o.echo (Program.statements text) .null
    (m := .fresh .standard input) rfl
  rw [runProgram_eq]
  dsimp only
  rw [hmachine, Machine.toList_events_relogged]
  exact List.nil_append _

/-- The report of a program has the verdict on its last visit. -/
theorem runProgram_cases (o : Options) (text : String) (input : List String) :
    let s := o.settings
    let vs := visits s (Program.statements text) (.fresh .standard input)
    let report := runProgram o text input
    (∃ v m, Program.runFresh s text input = .ok v m ∧
      (report.exit, report.complaint) = (.success, "")) ∨
    ∃ (e : Fault) (m : Machine) (us : List Visit) (v : Visit) (rest : List (Nat × String)),
      Program.runFresh s text input = .error e m ∧
      (report.exit, report.complaint) = verdict s v.line e ∧
      vs = us ++ [v] ∧ Program.statements text = us.map Visit.statement ++ v.statement :: rest ∧
      (∀ u ∈ us, ∃ value, u.outcome s = .ok value) ∧ v.outcome s = .error e := by
  intro s vs report
  obtain ⟨m', -, hcases⟩ := runStatements_cases s o.echo (Program.statements text) .null
    (m := .fresh .standard input) rfl
  have hreport : (report.exit, report.complaint)
      = (runStatements s o.echo (Program.statements text) (.fresh .standard input)).2 := by
    show ((runProgram o text input).exit, (runProgram o text input).complaint) = _
    rw [runProgram_eq]
  rw [hreport, Program.runFresh, Program.run]
  obtain ⟨v, hv, hverdict, -⟩ | ⟨e, us, v, rest, he⟩ := hcases
  · exact .inl ⟨v, m', hv, hverdict⟩
  · exact .inr ⟨e, m', us, v, rest, he⟩

/-- The exit tells how running the program ends. -/
theorem exit_runProgram (o : Options) (text : String) (input : List String) :
    let exit := (runProgram o text input).exit
    let direct := Program.runFresh o.settings text input
    (exit = .success ↔ ∃ v m, direct = .ok v m) ∧
    (exit = .failure ↔ ∃ f m, direct = .error (.failure f) m) ∧
    ∀ c, exit = .crash c ↔ ∃ m, direct = .error (.crash c) m := by
  intro exit direct
  obtain ⟨v, m, hdirect, hverdict⟩ | ⟨f | c, m, us, v, rest, hdirect, hverdict, -⟩ :=
    runProgram_cases o text input
  all_goals
    have hexit : exit = _ := (Prod.mk.inj hverdict).1
    have hdirect : direct = _ := hdirect
    simp [hexit, hdirect]

/-- The complaint is about the first statement that fails. -/
theorem complaint_runProgram (o : Options) (text : String) (input : List String) :
    let s := o.settings
    let report := runProgram o text input
    let direct := Program.runFresh s text input
    (∀ f m, direct = .error (.failure f) m →
      ∃ (us : List Visit) (v : Visit) (rest : List (Nat × String)),
      visits s (Program.statements text) (.fresh .standard input) = us ++ [v] ∧
      Program.statements text = us.map Visit.statement ++ v.statement :: rest ∧
      (∀ u ∈ us, ∃ value, u.outcome s = .ok value) ∧ v.outcome s = .error (.failure f) ∧
      report.complaint = lineComplaint s v.line f) ∧
    ((∀ f m, direct ≠ .error (.failure f) m) → report.complaint = "") := by
  intro s report direct
  obtain ⟨v, m, hdirect, hverdict⟩ |
      ⟨f | c, m, us, v, rest, hdirect, hverdict, hvisits, hstatements, hok, hv⟩ :=
    runProgram_cases o text input
  all_goals
    have hcomplaint : report.complaint = _ := (Prod.mk.inj hverdict).2
    have hdirect : direct = _ := hdirect
    rw [hdirect]
  · exact ⟨nofun, fun _ => hcomplaint⟩
  · -- only a failure has a complaint
    refine ⟨?_, fun h => absurd rfl (h f m)⟩
    rintro f' m' ⟨⟩
    exact ⟨us, v, rest, hvisits, hstatements, hok, hv, hcomplaint⟩
  · exact ⟨nofun, fun _ => hcomplaint⟩

theorem run_of_program {arguments : List String} {o : Options} {path text : String}
    {files : Files} (hcommand : command arguments = .start o) (hprogram : o.program = some path)
    (hpath : path ≠ "") (hfile : files.find? (plainPath path) = some text)
    (htrace : o.openTrace = none) (input : List String) :
    run arguments files input = runProgram o text input := by
  have hapart : o.IsApart := by
    intro program file _ _ hopen
    rw [htrace] at hopen
    cases hopen
  rw [run, hcommand]
  show start o files input = _
  rw [start_of_program hapart hprogram hpath, hfile]
  rfl

end CommandLine

end AnyHost

open CommandLine

/-- **The command line runs a program.**  With a program that is found, and no file
for the trace, the run ends as running the text does: with success, a failure or a
crash.  A failure is reported with the number of the statement that failed; all
statements before it have succeeded, and none behind it has been reached.  The
standard output has what the program logs, with the debug form of each statement
that can be parsed put in front of what it logs as it runs, if the command line is
asked to.  The verbosity is the number of flags that ask for it. -/
theorem command_line_runs_program [Host] {arguments : List String} {o : Options}
    {path text : String}
    {files : Files} (hcommand : command arguments = .start o) (hprogram : o.program = some path)
    (hpath : path ≠ "") (hfile : files.find? (plainPath path) = some text)
    (htrace : o.openTrace = none) (input : List String) :
    let s := o.settings
    let report := CommandLine.run arguments files input
    let direct := Program.runFresh s text input
    let log := ((Program.run s text).final (.fresh .standard input)).events.toList
    let visits := Program.visits s (Program.statements text) (.fresh .standard input)
    (report.exit = .success ↔ ∃ v m, direct = .ok v m) ∧
    (report.exit = .failure ↔ ∃ f m, direct = .error (.failure f) m) ∧
    (∀ c, report.exit = .crash c ↔ ∃ m, direct = .error (.crash c) m) ∧
    (∀ f m, direct = .error (.failure f) m →
      ∃ (vs : List Visit) (v : Visit) (rest : List (Nat × String)),
      visits = vs ++ [v] ∧
      Program.statements text = vs.map Visit.statement ++ v.statement :: rest ∧
      (∀ u ∈ vs, ∃ value, u.outcome s = .ok value) ∧ v.outcome s = .error (.failure f) ∧
      report.complaint
        = "Error at line " ++ toString v.line ++ ": " ++ f.message s.language ++ "\n") ∧
    ((∀ f m, direct ≠ .error (.failure f) m) → report.complaint = "") ∧
    (o.echo = false → report.output = Event.transcript log) ∧
    log = visits.flatMap (Visit.events s false) ∧
    report.output = Event.transcript (visits.flatMap (Visit.events s o.echo)) ∧
    (∀ (v : Visit) (echo : Bool),
      (∀ e, Statement.parse v.source = .error e → v.events s echo = []) ∧
      ∀ n, Statement.parse v.source = .ok n → ∃ form, n.debugForm s.language = .ok form ∧
        v.events s echo = heading s echo form ++ (node s n).logged v.machine) ∧
    ∀ (k : Nat) (word : String), word.toList.head? ≠ some '-' →
      command (List.replicate k "-v" ++ [word]) = .start ⟨k, false, .english, none, some word⟩ ∧
      command (List.replicate k "-v" ++ ["-d", word])
        = .start ⟨k, true, .english, none, some word⟩ := by
  intro s report direct log visits
  have hreport : report = runProgram o text input :=
    run_of_program hcommand hprogram hpath hfile htrace input
  obtain ⟨hsuccess, hfailure, hcrash⟩ := exit_runProgram o text input
  obtain ⟨hfailed, hsilent⟩ := complaint_runProgram o text input
  have hlog : log = visits.flatMap (Visit.events s false) :=
    (Program.events_final_runStatements s (Program.statements text) .null _).trans
      (List.nil_append _)
  -- without a file for the trace all that is logged is written out
  have houtput : report.output = Event.transcript (visits.flatMap (Visit.events s o.echo)) := by
    have hnone : (runProgram o text input).traceFile = none := by
      rw [runProgram_eq]
      exact htrace
    rw [hreport, Report.output_of_none hnone, events_runProgram]
  rw [← hreport] at hsuccess hfailure hcrash hfailed hsilent
  refine ⟨hsuccess, hfailure, hcrash, hfailed, hsilent, ?_, hlog, houtput, ?_, ?_⟩
  · intro hecho
    rw [houtput, hlog, hecho]
  · refine fun v echo => ⟨fun e => Visit.events_of_parse_error s echo, fun n hn => ?_⟩
    obtain ⟨form, hform⟩ := (Statement.isStatement_of_parse hn).exists_debugForm s.language
    exact ⟨form, hform, Visit.events_of_parse_ok s echo hn hform⟩
  · exact fun k _ => command_replicate k

/-- A program with three kinds of line ends, whose second statement fails. -/
theorem command_line_runs_program_of_failure :
    let files : Files := Table.empty.insert "p" "print(null)\r\n\rx\n@"
    let report := CommandLine.run ["-v", "-d", "p"] files []
    report.exit = .failure ∧
      report.complaint = "Error at line 3: Variable 'x is not defined\n" ∧
      report.output = "READ: print(null)\nREAD: print(null)\nnull\n" ++
        "READ: 'x\nREAD: 'x\nfailed: NOT_DEFINED ['x']\n" := by
  intro files report
  let o : Options := ⟨1, true, .english, none, some "p"⟩
  let text := "print(null)\r\n\rx\n@"
  have hcommand : command ["-v", "-d", "p"] = .start o := by cbv
  have hfile : files.find? (plainPath "p") = some text := by cbv
  obtain ⟨-, hfailure, -, hcomplaint, -, -, -, houtput, -, -⟩ :=
    command_line_runs_program hcommand rfl (by decide) hfile rfl []
  -- the evaluator is run once; the theorem gives the rest
  have hfails : (Program.run o.settings text).outcome (.fresh .standard [])
      = .error (.failure (.undefined "x")) := by
    cbv
  have hdirect := eq_error_of_outcome hfails
  refine ⟨hfailure.2 ⟨_, _, hdirect⟩, ?_, ?_⟩
  · obtain ⟨us, v, rest, hvisits, -, -, -, hv⟩ := hcomplaint _ _ hdirect
    have hlines : (Program.visits o.settings (Program.statements text)
        (.fresh .standard [])).map Visit.line = [1, 3] := by
      decide +kernel
    rw [hvisits] at hlines
    have hline : v.line = 3 := by simpa using congrArg List.getLast? hlines
    rw [hv, hline]
    decide +kernel
  · rw [houtput]
    decide +kernel

end LineScript
