/-
LineScript/Proofs/Languages.lean

The language of messages has no say in what is computed.

Of all that a session shows while it runs, one thing depends on the language:
the written form of an error as a value.  A value is neutral if it is no error
and, where it is a function, has one of the four standard bodies.  The standard
functions give neutral values, whatever neutral values they are given, and
literals are neutral; so two languages are in step on one and the same machine,
as long as its store holds neutral values (`correspondence_languages`).  A
standard session starts with such a store.

The invariant comes with it: what is in step ends with neutral values and a
neutral store, and no error is ever among them.
-/
import LineScript.Proofs.Lockstep
import LineScript.Proofs.Safety

namespace LineScript

open Run

/-! ### Neutral values -/

/-- The bodies of the standard functions. -/
def Native.isStandard : Native → Bool
  | print | read | classOf | text => true
  | _ => false

/-- No error, and of the functions only those with a standard body. -/
def Value.isNeutral : Value → Bool
  | error _ => false
  | function _ body => body.isStandard
  | _ => true

namespace Value

variable {v : Value}

theorem printed_of_neutral (h : v.isNeutral) (l l' : Language) : v.printed l' = v.printed l := by
  cases v with
  | error f => cases h
  | _ => rfl

theorem displayed_of_neutral (h : v.isNeutral) (l l' : Language) :
    v.displayed l' = v.displayed l := by
  cases v with
  | error f => cases h
  | _ => rfl

theorem IsLiteral.isNeutral (h : v.IsLiteral) : v.isNeutral := by
  cases h <;> rfl

end Value

/-- A store of neutral values. -/
abbrev Store.Neutral (s : Store) : Prop :=
  s.Holds fun v => v.isNeutral

theorem Store.neutral_standard : Store.standard.Neutral := by
  have hall : ∀ e ∈ Store.standard.values.entries, e.2.isNeutral := by decide
  intro y v h
  exact hall _ (Table.mem_of_findIn h)

theorem Store.Neutral.get_ne_error {s : Store} (h : s.Neutral) (x : String) (f : Failure) :
    s.get x ≠ .ok (.error f) := by
  intro hget
  have hneutral := Store.Holds.get h hget
  cases hneutral

/-! ### Two languages in step -/

variable [Host]

/-- One machine on both sides, with a neutral store. -/
def Shared (m m' : Machine) : Prop :=
  m' = m ∧ m.store.Neutral

theorem inStep_emit_shared (e : Event) : InStep Shared (fun _ => True) (emit e) (emit e) := by
  rintro m _ ⟨rfl, hm⟩
  exact .ok trivial ⟨rfl, hm⟩

theorem inStep_nextLine_shared : InStep Shared (fun _ => True) nextLine nextLine := by
  rintro m _ ⟨rfl, hm⟩
  exact .ok trivial ⟨rfl, hm⟩

variable {l l' : Language} {d : Nat}

/-- A standard body turns neutral values into a neutral value. -/
theorem Native.inStep_run {args : List Value} (hargs : ∀ v ∈ args, v.isNeutral) {body : Native}
    (h : body.isStandard) :
    InStep Shared (fun v => v.isNeutral) (body.run ⟨l, d⟩ args) (body.run ⟨l', d⟩ args) := by
  have hargument := inStep_nthArgument (R := Shared) hargs 0
  cases body with
  | print =>
    refine hargument.bind fun v hv => ?_
    rw [Value.displayed_of_neutral hv l l']
    exact (inStep_ofExcept_any _).bind fun text _ =>
      (inStep_emit_shared _).bind fun _ _ => inStep_pure rfl
  | read => exact inStep_nextLine_shared.bind fun _ _ => inStep_pure rfl
  | classOf =>
    exact hargument.bind fun v _ => (inStep_ofExcept_any _).bind fun _ _ => inStep_pure rfl
  | text =>
    refine hargument.bind fun v hv => ?_
    rw [Value.printed_of_neutral hv l l']
    exact (inStep_ofExcept_any _).bind fun _ _ => inStep_pure rfl
  | _ => cases h

/-- **Two languages are in step**, on one machine with a neutral store. -/
theorem correspondence_languages (l l' : Language) (d : Nat) :
    Correspondence ⟨l, d⟩ ⟨l', d⟩ (fun v => v.isNeutral) Shared where
  store := fun hm => by rw [hm.1]
  holds := fun hm => hm.2
  restore := by
    rintro m _ t ⟨rfl, -⟩ ht
    exact ⟨rfl, ht⟩
  null := rfl
  symbol _ := rfl
  literal := Value.IsLiteral.isNeutral
  printed := fun hv => Value.printed_of_neutral hv l l'
  trace := by
    intro level text _
    unfold Run.trace
    dsimp only
    split
    · exact inStep_emit_shared _
    · exact inStep_pure trivial
  call := by
    intro f args hf hargs
    refine (inStep_ofExcept_any _).bind fun classes _ => ?_
    -- a function is called with the same classes, or refused for them
    split
    · exact Native.inStep_run hargs hf
    · exact inStep_throw _

/-! ### Programs and sessions -/

theorem shared_fresh (input : List String) :
    Shared (.fresh .standard input) (.fresh .standard input) :=
  ⟨rfl, Store.neutral_standard⟩

namespace Session

/-- Sessions that differ in the language only, with a neutral store. -/
structure Translated (s s' : Session) : Prop where
  verbosity : s'.settings.verbosity = s.settings.verbosity
  machine : Shared s.machine s'.machine

variable {s s' : Session}

/-- A line has one answer in both languages, and it is neutral. -/
theorem Translated.perform (h : Translated s s') (line : Line) :
    (s'.perform line.step).2 = (s.perform line.step).2 ∧
      (∀ v, (s.perform line.step).2 = .ok (.value v) → v.isNeutral) ∧
      Translated (s.perform line.step).1 (s'.perform line.step).1 := by
  obtain ⟨⟨l, _⟩, _⟩ := s
  obtain ⟨⟨l', d⟩, m⟩ := s'
  obtain ⟨rfl, rfl, hm⟩ := h
  rw [perform_line, perform_line, perform_execute, perform_execute]
  obtain ⟨v, m₁, _, hr, hr', hv, rfl, hm₁⟩ | ⟨e, m₁, _, hr, hr', rfl, hm₁⟩ :=
    ((correspondence_languages l l' d).inStep_execute (line.text m.store) m m ⟨rfl, hm⟩).cases
  · simp only [hr, hr']
    refine ⟨trivial, ?_, rfl, rfl, hm₁⟩
    rintro _ ⟨⟩
    exact hv
  · simp only [hr, hr']
    exact ⟨trivial, nofun, rfl, rfl, hm₁⟩

theorem Translated.performAll (h : Translated s s') (lines : List Line) :
    Translated (s.performAll (lines.map Line.step)) (s'.performAll (lines.map Line.step)) := by
  induction lines generalizing s s' with
  | nil => exact h
  | cons line lines ih => exact ih (h.perform line).2.2

theorem translated_standard (l l' : Language) (d : Nat) (input : List String) :
    Translated (standard ⟨l, d⟩ input) (standard ⟨l', d⟩ input) :=
  ⟨rfl, shared_fresh input⟩

/-- **The language of messages does not influence computation.**  A program gives
in every language the same value or the same fault, in the same machine: one
store, one rest of the input, one log, trace included.  So do source lines run one
after the other.  And neither a program nor a line ever gives an error as its
value, or leaves one in the store. -/
theorem language_irrelevant (l l' : Language) (d : Nat) (input : List String) :
    (∀ source, Program.runFresh ⟨l, d⟩ source input = Program.runFresh ⟨l', d⟩ source input ∧
      (∀ f m, Program.runFresh ⟨l, d⟩ source input ≠ .ok (.error f) m) ∧
      ∀ x f, ((Program.run ⟨l, d⟩ source).final (.fresh .standard input)).store.get x
        ≠ .ok (.error f)) ∧
    ∀ (lines : List Line) (line : Line),
      let r := ((standard ⟨l, d⟩ input).performAll (lines.map Line.step)).perform line.step
      let r' := ((standard ⟨l', d⟩ input).performAll (lines.map Line.step)).perform line.step
      r.2 = r'.2 ∧ r.1.machine = r'.1.machine ∧ (∀ f, r.2 ≠ .ok (.value (.error f))) ∧
        ∀ x f, r.1.machine.store.get x ≠ .ok (.error f) := by
  constructor
  · -- a program, from the standard store
    intro source
    have hnull : Value.null.isNeutral := rfl
    -- the statements run in step, from values and stores without errors
    have hrun := (correspondence_languages l l' d).inStep_runStatements
      (Program.statements source) hnull _ _ (shared_fresh input)
    unfold Program.runFresh Run.final Program.run
    obtain ⟨v, m, _, hr, hr', hv, rfl, hm⟩ | ⟨e, m, _, hr, hr', rfl, hm⟩ := hrun.cases
    · rw [hr, hr']
      refine ⟨rfl, ?_, Store.Neutral.get_ne_error hm⟩
      rintro f _ ⟨⟩
      cases hv
    · rw [hr, hr']
      exact ⟨rfl, nofun, Store.Neutral.get_ne_error hm⟩
  · -- a session, after any lines
    intro lines line r r'
    obtain ⟨hanswer, hneutral, -, hmachine, hstore⟩ :=
      ((translated_standard l l' d input).performAll lines).perform line
    refine ⟨hanswer.symm, hmachine.symm, ?_, Store.Neutral.get_ne_error hstore⟩
    intro f hf
    cases hneutral _ hf

end Session

end LineScript
