/-
LineScript/Proofs/Messages.lean

Every failure has the arguments that its message names.

A failure is complete if it has as many arguments as the message of its kind
has slots, in every language (`Failure.Complete`).  The slots of a message are
numbered from zero without a gap, so a complete failure has an argument for each
of them, and its message is the template with the arguments in the place of the
slots, whatever characters they hold.

That all failures are complete is a statement about the places where one is
made.  Each operation on values, on the store and on texts is gone through once
(`Worded`), and so is each run of which these are the parts (`Run.Worded`).

What a function of the host ends with is up to the host, and is passed on as it
is.  So evaluation is watched: a failure that it ends with is complete, or it is
what the last body that was run has ended with, and that body is one of the host
(`Passed`).  Operations of the store run no bodies, and the standard functions are
none of the host; their failures are complete without exception.
-/
import LineScript.Proofs.Languages
import LineScript.Proofs.Watching

namespace LineScript

/-! ### Templates -/

/-- A piece of a message, with arguments in the place of slots. -/
def Piece.substitute (argument : Nat → String) : Piece → String
  | text s => s
  | slot i => argument i

namespace Template

/-- A template with arguments in the place of slots. -/
def substitute (t : Template) (argument : Nat → String) : String :=
  String.join (t.map (Piece.substitute argument))

/-- The numbers of the slots, in the order in which they stand. -/
def slots (t : Template) : List Nat :=
  t.filterMap fun
    | .text _ => none
    | .slot i => some i

variable {t : Template} {arguments : List String}

/-- A template is written with a number in braces for each slot. -/
theorem written_eq_substitute (t : Template) :
    t.written = t.substitute fun i => "\x7b" ++ toString i ++ "\x7d" := by
  have hpiece : Piece.written = Piece.substitute fun i => "\x7b" ++ toString i ++ "\x7d" := by
    funext p
    cases p <;> rfl
  rw [written, hpiece]
  rfl

/-- If no slot lacks its argument, filling a template is substitution. -/
theorem fill?_of_slots (h : ∀ i ∈ t.slots, i < arguments.length) :
    t.fill? arguments = some (t.substitute fun i => arguments.getD i "") := by
  have hpieces : t.mapM (Piece.fill? arguments)
      = some (t.map (Piece.substitute fun i => arguments.getD i "")) := by
    induction t with
    | nil => rfl
    | cons p t ih =>
      have hp : Piece.fill? arguments p
          = some (Piece.substitute (fun i => arguments.getD i "") p) := by
        cases p with
        | text s => rfl
        | slot i =>
          have hi : i < arguments.length := h i (by simp [slots])
          simp [Piece.fill?, Piece.substitute, hi]
      have hrest : ∀ i ∈ slots t, i < arguments.length := by
        intro i hi
        refine h i ?_
        cases p <;> simp_all [slots]
      rw [List.mapM_cons, hp, ih hrest]
      rfl
  rw [fill?, hpieces]
  rfl

end Template

/-! ### Complete failures -/

namespace Failure

/-- As many arguments as the message has slots, in every language. -/
def Complete (f : Failure) : Prop :=
  ∀ l, f.arguments.length = (template l f.kind).arity

/-- The slots of every message are numbered from zero, without a gap. -/
theorem slots_template (l : Language) (k : Kind) :
    (template l k).slots = List.range (template l k).arity := by
  cases l <;> cases k <;> rfl

/-- The fixed texts of a message hold no braces, so all that stands in braces in
the written form of a template is a slot. -/
theorem not_mem_of_text_mem_template (l : Language) (k : Kind) {text : String}
    (h : .text text ∈ template l k) : '\x7b' ∉ text.toList ∧ '\x7d' ∉ text.toList := by
  have hall : (template l k).all (fun p =>
      (p.substitute fun _ => "").toList.all fun c => c != '\x7b' && c != '\x7d') = true := by
    cases l <;> cases k <;> decide
  have htext : text.toList.all (fun c => c != '\x7b' && c != '\x7d') = true :=
    List.all_eq_true.1 hall _ h
  constructor
  · intro hc
    exact absurd (List.all_eq_true.1 htext _ hc) (by decide)
  · intro hc
    exact absurd (List.all_eq_true.1 htext _ hc) (by decide)

/-- What is complete in one language is so in all. -/
theorem complete_of_english {f : Failure}
    (h : f.arguments.length = (template .english f.kind).arity) : f.Complete := by
  intro l
  rw [h]
  cases l with
  | english => rfl
  | french => cases f.kind <;> rfl

theorem ofMessageId?_messageId (k : Kind) : Kind.ofMessageId? k.messageId = some k := by
  cases k <;> decide

variable {f : Failure}

theorem Complete.slots (h : f.Complete) (l : Language) :
    (template l f.kind).slots = List.range f.arguments.length := by
  rw [slots_template, h l]

/-- The message of a complete failure is its template with its arguments. -/
theorem Complete.fill?_eq (h : f.Complete) (l : Language) :
    (template l f.kind).fill? f.arguments
      = some ((template l f.kind).substitute fun i => f.arguments.getD i "") := by
  refine Template.fill?_of_slots fun i hi => ?_
  rw [h.slots l] at hi
  exact List.mem_range.mp hi

theorem Complete.message_eq (h : f.Complete) (l : Language) :
    f.message l = (template l f.kind).substitute fun i => f.arguments.getD i "" := by
  rw [message, Template.fill, h.fill?_eq l]
  rfl

/-- A message that is looked up by its name is the one of the kind. -/
theorem messageNamed_messageId (l : Language) (f : Failure) :
    messageNamed l f.kind.messageId f.arguments = f.message l := by
  rw [messageNamed, ofMessageId?_messageId]
  rfl

end Failure

/-! ### Outcomes -/

/-- An outcome that, if it is a failure, is a complete one. -/
def Worded {α : Type} : Except Fault α → Prop
  | .error (.failure f) => f.Complete
  | _ => True

section Worded

variable {α β : Type} {x : Except Fault α}

theorem Worded.complete (h : Worded x) {f : Failure} (hx : x = .error (.failure f)) :
    f.Complete := by
  rw [hx] at h
  exact h

/-- A fault that is passed on, whatever else was to come. -/
theorem Worded.error (h : Worded x) {e : Fault} (hx : x = .error e) :
    Worded (.error e : Except Fault β) := by
  rw [hx] at h
  rcases e with f | c
  · exact h
  · trivial

theorem worded_ok (a : α) : Worded (.ok a : Except Fault α) :=
  trivial

theorem Worded.bind {g : α → Except Fault β} (hx : Worded x) (hg : ∀ a, Worded (g a)) :
    Worded (x >>= g) := by
  rcases x with (f | c) | a
  · exact hx
  · trivial
  · exact hg a

end Worded

namespace Value

theorem worded_classOf (v : Value) : Worded v.classOf := by
  cases v <;> trivial

theorem worded_printed (l : Language) (v : Value) : Worded (v.printed l) := by
  cases v <;> trivial

theorem worded_displayed (l : Language) (v : Value) : Worded (v.displayed l) := by
  cases v <;> trivial

theorem worded_ofInt (n : Int) : Worded (ofInt n) := by
  unfold ofInt
  split <;> trivial

theorem worded_printedAll (l : Language) (vs : List Value) :
    Worded (vs.mapM (·.printed l)) := by
  induction vs with
  | nil => trivial
  | cons v vs ih =>
    rw [List.mapM_cons]
    exact (v.worded_printed l).bind fun _ => ih.bind fun _ => trivial

theorem worded_classesOf (vs : List Value) : Worded (classesOf vs) := by
  induction vs with
  | nil => trivial
  | cons v vs ih =>
    rw [classesOf, List.mapM_cons]
    exact v.worded_classOf.bind fun _ => Worded.bind ih fun _ => trivial

end Value

/-! ### Texts -/

namespace Node

mutual

theorem worded_debugForm (l : Language) : (n : Node) → Worded (n.debugForm l)
  | .literal v _ => (literalValue v).worded_printed l
  | .identifier _ => trivial
  | .declaration _ _ _ => trivial
  | .assignment _ n => by
    rw [debugForm]
    exact (worded_debugForm l n).bind fun _ => trivial
  | .block ns => by
    rw [debugForm]
    exact (worded_debugForms l ns).bind fun _ => trivial
  | .call _ ns => by
    rw [debugForm]
    exact (worded_debugForms l ns).bind fun _ => trivial
  | .unknown => trivial

theorem worded_debugForms (l : Language) : (ns : List Node) → Worded (debugForms l ns)
  | [] => trivial
  | n :: ns => by
    rw [debugForms]
    exact (worded_debugForm l n).bind fun _ => (worded_debugForms l ns).bind fun _ => trivial

end

theorem worded_definitionType (x : String) (t : Option String) (n : Node) :
    Worded (definitionType x t n) := by
  unfold definitionType
  split
  · exact Failure.complete_of_english rfl
  · split
    · exact Failure.complete_of_english rfl
    · trivial
  · trivial
  · split
    · trivial
    · exact Failure.complete_of_english rfl

theorem worded_definition (x : String) (t : Option String) (isMutable : Bool) (n : Node) :
    Worded (definition x t isMutable n) :=
  (worded_definitionType x t n).bind fun _ => trivial

end Node

/-- Every failure of parsing is complete. -/
theorem Statement.worded_parse [Text.CharacterNames] (source : String) : Worded (parse source) := by
  rw [parse, parseTrimmed]
  split
  · exact Failure.complete_of_english rfl
  · split
    · next w _ =>
      -- past the grammar: a literal that is refused, or a type that does not fit
      rcases w.toNode_outcome with ⟨e, hfault, hw⟩ | ⟨-, ⟨n, hw⟩ | ⟨x, t, n, e, ht, hw⟩⟩
      · obtain ⟨l, -, hl⟩ := List.exists_of_findSome?_eq_some hfault
        obtain ⟨k, text, -, hread⟩ := Lexeme.fault?_eq_some_iff.mp hl
        rw [hw]
        rcases LiteralKind.read_eq_error hread with rfl | ⟨reason, rfl, -⟩
        · trivial
        · exact Failure.complete_of_english rfl
      · rw [hw]
        trivial
      · rw [hw]
        exact (Node.worded_definitionType x t n).error ht
    · next f hf =>
      obtain ⟨column, rfl | ⟨c, rfl⟩⟩ := sentence_eq_error hf
      · exact Failure.complete_of_english rfl
      · exact Failure.complete_of_english rfl

/-! ### The store -/

namespace Store

variable (s : Store)

theorem worded_getSymbol (x : String) : Worded (s.getSymbol x) := by
  unfold getSymbol
  split
  · trivial
  · exact Failure.complete_of_english rfl

theorem worded_get (x : String) : Worded (s.get x) := by
  refine (s.worded_getSymbol x).bind fun y => ?_
  split
  · trivial
  · exact Failure.complete_of_english rfl

theorem worded_getFunction (x : String) : Worded (s.getFunction x) := by
  refine (s.worded_get x).bind fun v => ?_
  split
  · trivial
  · exact v.worded_classOf.bind fun _ => Failure.complete_of_english rfl

theorem worded_resolveType (type : String) : Worded (s.resolveType type) := by
  unfold resolveType
  split
  · exact Failure.complete_of_english rfl
  · next v _ =>
    split
    · trivial
    · exact v.worded_classOf.bind fun _ => Failure.complete_of_english rfl

theorem worded_declare (x type : String) (isMutable : Bool) :
    Worded (s.declare x type isMutable) := by
  unfold declare
  split
  · exact Failure.complete_of_english rfl
  · exact (s.worded_resolveType type).bind fun _ => trivial

theorem worded_assign (x : String) (v : Value) : Worded (s.assign x v) := by
  refine (s.worded_getSymbol x).bind fun y => ?_
  split
  · exact Failure.complete_of_english rfl
  · refine v.worded_classOf.bind fun c => ?_
    split
    · trivial
    · exact Failure.complete_of_english rfl

theorem worded_declareAndAssign (x : String) (v : Value) (isMutable : Bool) :
    Worded (s.declareAndAssign x v isMutable).2 := by
  unfold declareAndAssign
  split
  · exact Failure.complete_of_english rfl
  · split
    · next e he => exact v.worded_classOf.error he
    · split
      · next e he => exact (s.worded_declare x _ isMutable).error he
      · next t _ =>
        split
        · next e he => exact (t.worded_assign x v).error he
        · trivial

theorem worded_register (x : String) (v : Value) : Worded (s.register x v) := by
  unfold register
  split
  · split
    · split
      · trivial
      · exact Failure.complete_of_english rfl
    · exact Failure.complete_of_english rfl
  · exact v.worded_classOf.bind fun _ => trivial

theorem worded_checkClasses (cs : List Class) : Worded (s.checkClasses cs) := by
  induction cs with
  | nil => trivial
  | cons c cs ih =>
    unfold checkClasses
    split
    · exact ih
    · exact Failure.complete_of_english rfl

theorem worded_registerFunction (f : Function) : Worded (s.registerFunction f) :=
  (s.worded_checkClasses _).bind fun _ => s.worded_register _ _

theorem worded_registerClasses (cs : List Class) : Worded (s.registerClasses cs).2 := by
  induction cs generalizing s with
  | nil => trivial
  | cons c cs ih =>
    unfold registerClasses
    split
    · next t _ => exact ih t
    · next e he => exact (s.worded_register _ _).error he

theorem worded_registerFunctions (fs : List Function) : Worded (s.registerFunctions fs).2 := by
  induction fs generalizing s with
  | nil => trivial
  | cons f fs ih =>
    unfold registerFunctions
    split
    · next t _ => exact ih t
    · next e he => exact (s.worded_registerFunction f).error he

/-- The functions of a neutral store are none of the host. -/
theorem Neutral.isHost_eq_false {s : Store} (h : s.Neutral) {x : String} {g : Function}
    (hg : s.getFunction x = .ok g) : g.body.isHost = false := by
  have hstandard : g.body.isStandard = true := Holds.get h (getFunction_eq_ok hg)
  cases hbody : g.body with
  | host name =>
    rw [hbody] at hstandard
    cases hstandard
  | _ => rfl

end Store

/-! ### Runs -/

section AnyHost

variable [Host]

namespace Run

variable {α β : Type} {m m' : Machine} {f : Failure}

/-- Every failure of a run is complete. -/
def Worded (r : Run α) : Prop :=
  ∀ m f m', r m = .error (.failure f) m' → f.Complete

theorem Worded.bind {r : Run α} {g : α → Run β} (hr : Worded r) (hg : ∀ a, Worded (g a)) :
    Worded (r >>= g) := by
  intro m f m' h
  rcases hm : r m with ⟨a, m₁⟩ | ⟨e, m₁⟩
  · rw [bind_of_ok hm] at h
    exact hg a m₁ f m' h
  · rw [bind_of_error hm] at h
    cases h
    exact hr m f m' hm

/-- A fault of a run whose result is made into something else. -/
theorem error_of_map {r : Run α} {g : α → β} {e : Fault} (h : (g <$> r) m = .error e m') :
    r m = .error e m' := by
  simp only [Functor.map, EStateM.map] at h
  rcases hm : r m with ⟨a, m₁⟩ | ⟨e, m₁⟩
  · rw [hm] at h
    cases h
  · rw [hm] at h
    cases h
    rfl

theorem Worded.map {r : Run α} (hr : Worded r) (g : α → β) : Worded (g <$> r) :=
  fun m f m' h => hr m f m' (error_of_map h)

theorem worded_pure (a : α) : Worded (pure a) :=
  nofun

theorem worded_crash (c : Crash) : Worded (throw (.crash c) : Run α) :=
  nofun

theorem worded_emit (e : Event) : Worded (emit e) :=
  nofun

theorem worded_nextLine : Worded nextLine :=
  nofun

theorem worded_count (counter : Nat) : Worded (count counter) :=
  nofun

theorem worded_memory : Worded memory :=
  nofun

theorem worded_remember (memory : Host.Memory) : Worded (remember memory) :=
  nofun

theorem worded_trace (s : Settings) (level : Nat) (text : String) :
    Worded (trace s level text) := by
  unfold trace
  split
  · exact worded_emit _
  · exact worded_pure ()

theorem worded_ofExcept {x : Except Fault α} (hx : LineScript.Worded x) :
    Worded (ofExcept x) := by
  intro m f m' h
  rcases x with e | a
  · cases h
    exact hx
  · cases h

theorem worded_look {g : Store → Except Fault α} (hg : ∀ t, LineScript.Worded (g t)) :
    Worded (look g) := by
  intro m f m' h
  unfold look at h
  split at h
  · cases h
  · next e he =>
    cases h
    exact (hg _).complete he

theorem worded_update {g : Store → Except Fault Store} (hg : ∀ t, LineScript.Worded (g t)) :
    Worded (update g) := by
  intro m f m' h
  unfold update at h
  split at h
  · cases h
  · next e he =>
    cases h
    exact (hg _).complete he

theorem worded_updateAll {g : Store → Store × Except Fault Unit}
    (hg : ∀ t, LineScript.Worded (g t).2) : Worded (updateAll g) := by
  intro m f m' h
  have hm := hg m.store
  unfold updateAll at h
  rcases hout : g m.store with ⟨t, e | u⟩
  · rw [hout] at h hm
    cases h
    exact hm
  · rw [hout] at h
    cases h

theorem worded_read (s : Settings) (source : String) : Worded (Run.read s source) :=
  (worded_ofExcept (Statement.worded_parse source)).bind fun n =>
    (worded_ofExcept (n.worded_debugForm _)).bind fun _ =>
      (worded_trace s 1 _).bind fun _ => worded_pure _

theorem worded_conclude (s : Settings) (v : Value) : Worded (conclude s v) :=
  (worded_ofExcept (v.worded_printed _)).bind fun _ =>
    (worded_ofExcept v.worded_classOf).bind fun _ =>
      (worded_trace s 2 _).bind fun _ => worded_pure _

end Run

open Run hiding Worded

/-! ### Functions -/

/-- All failures that a script can end with are complete. -/
def Script.Worded {memory : Type} : Script memory → Prop
  | finish outcome _ => LineScript.Worded outcome
  | print _ rest => rest.Worded
  | read rest => ∀ line, (rest line).Worded

theorem Script.worded_run {p : Script Host.Memory} (h : p.Worded) : Run.Worded p.run := by
  induction p with
  | finish outcome remembered => exact (worded_remember _).bind fun _ => worded_ofExcept h
  | print text _ ih => exact (worded_emit _).bind fun _ => ih h
  | read _ ih => exact worded_nextLine.bind fun line => ih line (h line)

/-- The body of a function that is not one of the host fails with complete
failures. -/
theorem Native.worded_run (s : Settings) (args : List Value) {body : Native}
    (h : body.isHost = false) : Run.Worded (body.run s args) := by
  have hargument : ∀ i, Run.Worded (nthArgument args i) := by
    intro i
    unfold nthArgument
    split
    · exact worded_pure _
    · exact worded_crash _
  cases body with
  -- what may fail in a body is worded: a print form, a count, a sum
  | print =>
    exact (hargument 0).bind fun v => (worded_ofExcept (v.worded_displayed _)).bind
      fun _ => (worded_emit _).bind fun _ => worded_pure _
  | read => exact worded_nextLine.bind fun _ => worded_pure _
  | classOf =>
    exact (hargument 0).bind fun v => (worded_ofExcept v.worded_classOf).bind
      fun _ => worded_pure _
  | text =>
    exact (hargument 0).bind fun v => (worded_ofExcept (v.worded_printed _)).bind
      fun _ => worded_pure _
  | nothing => exact worded_pure _
  | constant v => exact worded_pure v
  | argument i => exact hargument i
  | tick counter =>
    exact (worded_count counter).bind fun n =>
      worded_ofExcept (Value.worded_ofInt n)
  | sum => exact worded_ofExcept (Value.worded_ofInt _)
  | host name => cases h

/-- A call fails with complete failures, unless the function is one of the host and
has been run, and has ended with the failure itself. -/
theorem Function.complete_of_call {s : Settings} {g : Function} {args : List Value}
    {m m' : Machine} {f : Failure} (h : g.call s args m = .error (.failure f) m') :
    f.Complete ∨ g.body.isHost = true ∧ g.body.run s args m = .error (.failure f) m' := by
  unfold Function.call at h
  rcases hclasses : classesOf args with e | classes
  · rw [bind_of_error (ofExcept_of_error hclasses m)] at h
    cases h
    exact .inl ((Value.worded_classesOf args).complete hclasses)
  · rw [bind_of_ok (ofExcept_of_ok hclasses m)] at h
    split at h
    · rcases hhost : g.body.isHost with - | -
      · exact .inl (Native.worded_run s args hhost m f m' h)
      · exact .inr ⟨rfl, h⟩
    · cases h
      exact .inl (Failure.complete_of_english rfl)

/-! ### Evaluation -/

/-- A failure that is passed on: the last of some invocations was that of a function
of the host, which its name holds in a store, and has ended with the failure. -/
def Passed (s : Settings) (made : List Invocation) (st : Store) (f : Failure) : Prop :=
  ∃ i m, made.getLast? = some i ∧ i.function.body.isHost = true ∧
    i.result s = .error (.failure f) m ∧ st.getFunction i.name = .ok i.function

/-- Only the language of messages matters to what is passed on. -/
theorem Passed.of_language {s s' : Settings} {made : List Invocation} {st : Store} {f : Failure}
    (h : Passed s made st f) (hlanguage : s.language = s'.language) : Passed s' made st f := by
  obtain ⟨i, m, hi, hhost, hresult, hg⟩ := h
  have hrun : i.function.body.run s i.arguments = i.function.body.run s' i.arguments := by
    cases i.function.body <;> simp only [Native.run, hlanguage]
  rw [Invocation.result, hrun] at hresult
  exact ⟨i, m, hi, hhost, hresult, hg⟩

namespace Watch

variable {α β : Type} {s : Settings}

/-- Every failure of a watched computation is complete or passed on. -/
def Worded (s : Settings) (x : Watch α) : Prop :=
  ∀ w f w', x w = .error (.failure f) w' → f.Complete ∨ Passed s w'.made w'.machine.store f

theorem Worded.bind {x : Watch α} {g : α → Watch β} (hx : Worded s x)
    (hg : ∀ a, Worded s (g a)) : Worded s (x >>= g) := by
  intro w f w' h
  rcases hw : x w with ⟨a, w₁⟩ | ⟨e, w₁⟩
  · rw [bind_of_ok hw] at h
    exact hg a w₁ f w' h
  · rw [bind_of_error hw] at h
    cases h
    exact hx w f w' hw

theorem worded_pure (a : α) : Worded s (pure a) :=
  nofun

theorem worded_crash (c : Crash) : Worded s (throw (.crash c) : Watch α) :=
  nofun

theorem worded_lift {r : Run α} (hr : Run.Worded r) : Worded s (lift r) := by
  intro w f w' h
  rcases hm : r w.machine with ⟨a, m⟩ | ⟨e, m⟩
  · rw [lift_of_ok hm] at h
    cases h
  · rw [lift_of_error hm] at h
    cases h
    exact .inl (hr _ f m hm)

end Watch

/-- A watched call of the function that a name holds. -/
theorem Function.worded_watch {s : Settings} {g : Function} {name : String}
    {operands : List Node} {start : Machine} {args : List Value} {w w' : Watched} {f : Failure}
    (hg : w.machine.store.getFunction name = .ok g)
    (h : g.watch s name operands start args w = .error (.failure f) w') :
    f.Complete ∨ Passed s w'.made w'.machine.store f := by
  obtain ⟨m₀, made⟩ := w
  dsimp only at hg
  unfold Function.watch at h
  rcases hclasses : classesOf args with e | classes
  · rw [bind_of_error (Watch.lift_of_error (ofExcept_of_error hclasses _))] at h
    cases h
    exact .inl ((Value.worded_classesOf args).complete hclasses)
  rw [bind_of_ok (Watch.lift_of_ok (ofExcept_of_ok hclasses _))] at h
  split at h
  case isFalse =>
    cases h
    exact .inl (Failure.complete_of_english rfl)
  case isTrue =>
    let i : Invocation := ⟨name, operands, start, g, args, m₀⟩
    replace h : Watch.lift (g.body.run s args) ⟨m₀, made ++ [i]⟩ = .error (.failure f) w' := h
    rcases hbody : g.body.run s args m₀ with ⟨v, m⟩ | ⟨e, m⟩
    · rw [Watch.lift_of_ok hbody] at h
      cases h
    · rw [Watch.lift_of_error hbody] at h
      cases h
      rcases hhost : g.body.isHost with - | -
      · exact .inl (Native.worded_run s args hhost _ f m hbody)
      · -- the body has left the store alone, so the name still holds the function
        have hstill := Native.still_run s args g.body m₀
        rw [final, hbody] at hstill
        rw [hstill] at hg
        exact .inr ⟨i, m, List.getLast?_concat, hhost, hbody, hg⟩

namespace Node

variable {s : Settings} {n : Node} {m m' : Machine} {f : Failure}

/-- What comes behind the arguments of a call. -/
theorem worded_watchCall (s : Settings) (x : String) (ns : List Node) (start : Machine)
    (vs : List Value) : Watch.Worded s (do
      let g ← Watch.lift (look (·.getFunction x))
      let texts ← Watch.lift (Run.ofExcept (vs.mapM (·.printed s.language)))
      Watch.lift (trace s 3 (callLine x texts))
      g.watch s x ns start vs) := by
  intro w f w' h
  rcases hg : w.machine.store.getFunction x with e | g
  · rw [bind_of_error (Watch.lift_of_error (look_of_error hg))] at h
    cases h
    exact .inl ((w.machine.store.worded_getFunction x).complete hg)
  -- the function is found, and its arguments are printed for the trace
  rw [bind_of_ok (Watch.lift_of_ok (look_of_ok hg))] at h
  rcases htexts : vs.mapM (·.printed s.language) with e | texts
  · rw [bind_of_error (Watch.lift_of_error (ofExcept_of_error htexts _))] at h
    cases h
    exact .inl ((Value.worded_printedAll _ vs).complete htexts)
  · -- the trace leaves the store alone, so the name holds the function still
    obtain ⟨m₁, hm₁, hstore⟩ := exists_trace s 3 (callLine x texts) w.machine
    rw [bind_of_ok (Watch.lift_of_ok (ofExcept_of_ok htexts _)),
      bind_of_ok (Watch.lift_of_ok hm₁)] at h
    rw [← hstore] at hg
    exact Function.worded_watch hg h

mutual

/-- **Evaluation fails with complete failures, or passes one on.** -/
theorem worded_watch (s : Settings) : (n : Node) → Watch.Worded s (n.watch s)
  | .literal _ _ => by
    rw [watch]
    exact Watch.worded_pure _
  | .identifier x => by
    rw [watch]
    exact Watch.worded_lift (worded_look fun t => t.worded_get x)
  | .declaration x t m => by
    rw [watch]
    exact (Watch.worded_lift (worded_update fun u => u.worded_declare x t m)).bind fun _ =>
      (Watch.worded_lift (worded_trace s 2 _)).bind fun _ => Watch.worded_pure _
  | .assignment x n => by
    rw [watch]
    refine (worded_watch s n).bind fun v => ?_
    refine (Watch.worded_lift (worded_update fun u => u.worded_assign x v)).bind fun _ => ?_
    exact (Watch.worded_lift (worded_ofExcept (v.worded_printed _))).bind fun _ =>
      (Watch.worded_lift (worded_trace s 2 _)).bind fun _ => Watch.worded_pure _
  | .block ns => by
    rw [watch]
    exact worded_watchBlock s .null ns
  | .call x ns => by
    rw [watch]
    -- looking at the machine before the arguments changes nothing
    exact fun w => ((worded_watchAll s ns).bind (worded_watchCall s x ns w.machine)) w
  | .unknown => by
    rw [watch]
    exact Watch.worded_crash _

theorem worded_watchBlock (s : Settings) (last : Value) :
    (ns : List Node) → Watch.Worded s (watchBlock s last ns)
  | [] => by
    rw [watchBlock]
    exact Watch.worded_pure last
  | n :: ns => by
    rw [watchBlock]
    exact (worded_watch s n).bind fun v => worded_watchBlock s v ns

theorem worded_watchAll (s : Settings) : (ns : List Node) → Watch.Worded s (watchAll s ns)
  | [] => by
    rw [watchAll]
    exact Watch.worded_pure []
  | n :: ns => by
    rw [watchAll]
    exact (worded_watch s n).bind fun _ =>
      (worded_watchAll s ns).bind fun _ => Watch.worded_pure _

end

theorem complete_of_evaluate (h : n.evaluate s m = .error (.failure f) m') :
    f.Complete ∨ Passed s (n.invocations s m) m'.store f := by
  have hwatch : n.watch s ⟨m, []⟩ = .error (.failure f) ⟨m', n.invocations s m⟩ :=
    (erases_watch s n).eq_error_of_run h
  exact worded_watch s n _ f _ hwatch

end Node

/-! ### Sessions -/

namespace Run

variable {s : Settings} {m m' : Machine} {f : Failure}

theorem complete_of_node {n : Node} (h : node s n m = .error (.failure f) m') :
    f.Complete ∨ Passed s (n.invocations s m) m'.store f := by
  unfold node at h
  rcases hn : n.evaluate s m with ⟨v, m₁⟩ | ⟨g | c, m₁⟩
  · rw [hn] at h
    exact .inl (worded_conclude s v m₁ f m' h)
  · rw [hn] at h
    -- the failure is logged, which leaves the store alone
    obtain ⟨m₂, ht, hstore⟩ := exists_trace s 1 (failureLine g) m₁
    dsimp only at h
    rw [ht] at h
    cases h
    rw [hstore]
    exact Node.complete_of_evaluate hn
  · rw [hn] at h
    cases h

theorem complete_of_execute {source : String}
    (h : execute s source m = .error (.failure f) m') :
    f.Complete ∨ Passed s (invocations s source m) m'.store f := by
  rw [execute] at h
  rcases hread : read s source m with ⟨n, m₁⟩ | ⟨e, m₁⟩
  · rw [bind_of_ok hread] at h
    rw [invocations, hread]
    exact complete_of_node h
  · rw [bind_of_error hread] at h
    cases h
    exact .inl (worded_read s source m f m' hread)

end Run

namespace Session

variable {s : Session} {step : Step} {f : Failure}

/-- The operations of the store fail with complete failures. -/
theorem worded_action (s : Settings) (h : step.isOperation = true) :
    Run.Worded (action s step) := by
  cases step with
  -- these five steps may run a body
  | execute source => cases h
  | executeLine source => cases h
  | run n => cases h
  | evaluate n => cases h
  | call x args => cases h
  | declare x t m =>
    exact (worded_update fun u => u.worded_declare x t m).bind fun _ => worded_pure _
  | assign x v =>
    exact (worded_update fun u => u.worded_assign x v).bind fun _ => worded_pure _
  | declareAndAssign x v m =>
    exact (worded_updateAll fun u => u.worded_declareAndAssign x v m).bind
      fun _ => worded_pure _
  | get x => exact (worded_look fun t => t.worded_get x).map _
  | getFunction x =>
    exact (worded_look fun t => t.worded_getFunction x).bind fun _ => worded_pure _
  | getSymbol x => exact (worded_look fun t => t.worded_getSymbol x).map _
  | lookupClass x => exact (worded_look fun t => worded_ok _).map _
  | isDefined x => exact (worded_look fun t => worded_ok _).map _
  | registerFunctions fs =>
    exact (worded_updateAll fun u => u.worded_registerFunctions fs).bind
      fun _ => worded_pure _
  | registerClasses cs =>
    exact (worded_updateAll fun u => u.worded_registerClasses cs).bind
      fun _ => worded_pure _
  | setLanguage l => exact worded_pure _

theorem exists_action_of_error {e : Fault} (h : (s.perform step).2 = .error e) :
    action s.settings step s.machine = .error e (s.perform step).1.machine := by
  unfold perform at h ⊢
  rcases hr : action s.settings step s.machine with ⟨a, m⟩ | ⟨e', m⟩
  · rw [hr] at h
    cases h
  · rw [hr] at h
    cases h
    rfl

/-- **A step fails with a complete failure, or passes one on.** -/
theorem complete_of_perform (h : (s.perform step).2 = .error (.failure f)) :
    f.Complete ∨ Passed s.settings (s.invocations step) (s.perform step).1.machine.store f := by
  have haction := exists_action_of_error h
  generalize (s.perform step).1.machine = m' at haction ⊢
  cases step with
  | execute source => exact complete_of_execute (error_of_map haction)
  | executeLine source => exact complete_of_execute (error_of_map haction)
  | run n => exact complete_of_node (error_of_map haction)
  | evaluate n =>
    exact (Node.complete_of_evaluate (error_of_map haction)).imp_right (·.of_language rfl)
  | call x args =>
    rcases hg : s.machine.store.getFunction x with e | g
    · -- no function under this name, which is a worded failure
      have hlook : action s.settings (.call x args) s.machine = .error e s.machine :=
        bind_of_error (look_of_error hg)
      rw [hlook] at haction
      cases haction
      exact .inl ((s.machine.store.worded_getFunction x).complete hg)
    · -- the call is watched from the machine of the session, with no notes yet
      have hlook : action s.settings (.call x args) s.machine
          = (Answer.value <$> g.call s.settings args) s.machine := bind_of_ok (look_of_ok hg)
      rw [hlook] at haction
      have hwatch := (g.erases_watch s.settings x [] s.machine args).eq_error_of_run
        (w := ⟨s.machine, []⟩) (error_of_map haction)
      simp only [invocations, hg]
      exact Function.worded_watch hg hwatch
  | _ => exact .inl (worded_action s.settings rfl s.machine f m' haction)

/-- Where no name holds a function of the host in the end, none is passed on. -/
theorem complete_of_hostless (h : (s.perform step).2 = .error (.failure f))
    (hstore : ∀ x g, (s.perform step).1.machine.store.getFunction x = .ok g →
      g.body.isHost = false) : f.Complete := by
  rcases complete_of_perform h with hf | ⟨i, m, -, hhost, -, hg⟩
  · exact hf
  · rw [hstore _ _ hg] at hhost
    cases hhost

/-- The lines of a standard session fail with complete failures. -/
theorem complete_of_line {settings : Settings} {input : List String} {lines : List Line}
    {line : Line}
    (h : (((standard settings input).performAll (lines.map Line.step)).perform line.step).2
      = .error (.failure f)) : f.Complete := by
  have hlines := (translated_standard settings.language settings.language settings.verbosity
    input).performAll lines
  have hneutral := (hlines.perform line).2.2.machine.2
  exact complete_of_hostless h fun _ _ => Store.Neutral.isHost_eq_false hneutral

/-- If the scripts of the host end with complete failures only, so do all steps. -/
theorem complete_of_scripts (h : (s.perform step).2 = .error (.failure f))
    (hscripts : ∀ name l args memory, (Host.script name l args memory).Worded) : f.Complete := by
  rcases complete_of_perform h with hf | ⟨i, m, -, hhost, hresult, -⟩
  · exact hf
  · rw [Invocation.result] at hresult
    cases hbody : i.function.body with
    | host name =>
      rw [hbody] at hresult
      have hworded : Run.Worded (Native.run s.settings i.arguments (.host name)) :=
        worded_memory.bind fun memory => Script.worded_run (hscripts _ _ _ _)
      exact hworded _ f m hresult
    | _ =>
      rw [hbody] at hhost
      cases hhost

theorem worded_create (settings : Settings) (functions : List Function) (input : List String) :
    Worded (create settings functions input) := by
  have hseeded := Store.withClasses.worded_registerFunctions functions
  unfold create Store.seeded
  split
  · trivial
  · next e he =>
    rw [he] at hseeded
    exact hseeded.error rfl

end Session

open Session

/-- **Every failure has the arguments that its message names.**  The failures of
parsing, of definitions, of new sessions and of every operation of the store have as
many arguments as the message of their kind has slots, in every language.  So have
those of every step that runs no function of the host, or after which no name holds
one; in a session with the standard functions, those of all lines; and if what the
host's functions fail with is complete, those of all steps.  In general a step, or a
call, may pass a failure on that a function of the host has ended with; then that
function was the last to be run, and every failure that is not passed on in this way
is complete.  And the message of a failure with its arguments is never put together in
another way than this: the text of the kind, in which braces stand around slots only
and the slots are numbered from zero without a gap, with each slot `i` replaced by the
argument `i` as it is. -/
theorem failures_complete :
    (∀ source f, Statement.parse source = .error (.failure f) → f.Complete) ∧
    (∀ x type isMutable n f, Node.definition x type isMutable n = .error (.failure f) →
      f.Complete) ∧
    (∀ settings functions input f, create settings functions input = .error (.failure f) →
      f.Complete) ∧
    (∀ (s : Session) (step : Step) (f : Failure), (s.perform step).2 = .error (.failure f) →
      let made := s.invocations step
      let store := (s.perform step).1.machine.store
      (step.isOperation = true → f.Complete) ∧
      ((∀ i ∈ made, i.function.body.isHost = false) → f.Complete) ∧
      ((∀ x g, store.getFunction x = .ok g → g.body.isHost = false) → f.Complete) ∧
      ((∀ name l args memory, (Host.script name l args memory).Worded) → f.Complete) ∧
      (f.Complete ∨ Passed s.settings made store f)) ∧
    (∀ (settings : Settings) (input : List String) (lines : List Line) (line : Line) (f : Failure),
      (((standard settings input).performAll (lines.map Line.step)).perform line.step).2
        = .error (.failure f) → f.Complete) ∧
    (∀ (settings : Settings) (g : Function) (args : List Value) (m m' : Machine) (f : Failure),
      g.call settings args m = .error (.failure f) m' →
      f.Complete ∨
        g.body.isHost = true ∧ g.body.run settings args m = .error (.failure f) m') ∧
    ∀ (f : Failure) (l : Language), f.Complete →
      let t := Failure.template l f.kind
      t.slots = List.range f.arguments.length ∧
      t.written = t.substitute (fun i => "\x7b" ++ toString i ++ "\x7d") ∧
      (∀ text, .text text ∈ t → '\x7b' ∉ text.toList ∧ '\x7d' ∉ text.toList) ∧
      t.fill? f.arguments = some (f.message l) ∧
      f.message l = t.substitute (fun i => f.arguments.getD i "") ∧
      Failure.messageNamed l f.kind.messageId f.arguments = f.message l := by
  refine ⟨?_, ?_, ?_, ?_, ?_, ?_, ?_⟩
  · intro source f h
    exact (Statement.worded_parse source).complete h
  · intro x type isMutable n f h
    exact (Node.worded_definition x type isMutable n).complete h
  · intro settings functions input f h
    exact (worded_create settings functions input).complete h
  · intro s step f h made store
    have hpassed := complete_of_perform h
    -- a failure is passed on only by the last function that was run
    have hnone : (∀ i ∈ made, i.function.body.isHost = false) → f.Complete := by
      intro hmade
      rcases hpassed with hf | ⟨i, m, hi, hhost, -, -⟩
      · exact hf
      · rw [hmade i (List.mem_of_getLast? hi)] at hhost
        cases hhost
    refine ⟨fun hoperation => hnone ?_, hnone, complete_of_hostless h, complete_of_scripts h,
      hpassed⟩
    simp [made, s.invocations_of_isOperation hoperation]
  · exact fun _ _ _ _ _ => complete_of_line
  · exact fun _ _ _ _ _ _ => Function.complete_of_call
  · -- the message of a complete failure, in either language
    intro f l h t
    refine ⟨h.slots l, t.written_eq_substitute, ?_, ?_, h.message_eq l, ?_⟩
    · exact fun text => Failure.not_mem_of_text_mem_template l f.kind
    · rw [h.fill?_eq l, h.message_eq l]
    · exact Failure.messageNamed_messageId l f

end AnyHost

open Session

/-- A brace where a statement is expected, and a name that looks like a slot. -/
theorem failures_complete_of_braces :
    let s : Session := ⟨{}, .fresh .empty []⟩
    Statement.parse "\x7b0\x7d" = .error (.failure (.badToken "'\x7b' at position 1")) ∧
      (Failure.badToken "'\x7b' at position 1").message .english
        = "Unknown token '\x7b' at position 1" ∧
      (s.perform (.get "\x7b1\x7d")).2 = .error (.failure (.undefined "\x7b1\x7d")) ∧
      (Failure.undefined "\x7b1\x7d").message .french
        = "La variable '\x7b1\x7d n'est pas définie" := by
  intro s
  have hscan : Token.scan (Text.trim "\x7b0\x7d".toList) = ⟨[], some ('\x7b', 1)⟩ := by
    decide +kernel
  have hparse : Statement.parse "\x7b0\x7d"
      = .error (.failure (.badToken "'\x7b' at position 1")) := by
    rw [Statement.parse, Statement.parseTrimmed, if_neg (by decide +kernel), Statement.sentence,
      hscan]
    have hstrange : Sentence.strange '\x7b' 1 = .badToken "'\x7b' at position 1" := by
      decide +kernel
    rw [← hstrange]
    rfl
  have hget : (s.perform (.get "\x7b1\x7d")).2 = .error (.failure (.undefined "\x7b1\x7d")) := rfl
  obtain ⟨hparsed, -, -, hstep, -, -, hmessage⟩ := failures_complete
  have hundefined : (Failure.undefined "\x7b1\x7d").Complete := (hstep s _ _ hget).1 rfl
  -- the template is filled once, so braces in an argument stay as they are
  refine ⟨hparse, ?_, hget, ?_⟩
  · rw [(hmessage _ .english (hparsed _ _ hparse)).2.2.2.2.1]
    decide +kernel
  · rw [(hmessage _ .french hundefined).2.2.2.2.1]
    decide +kernel

end LineScript
