/-
LineScript/Proofs/Lockstep.lean

Two runs in step.

The same statements can be run under two settings.  `InStep R P r r'` says that
the runs `r` and `r'` do the same on machines that `R` relates: both end with
one and the same result, which is in `P`, or with one and the same fault, and
the machines in which they end are related again.

What the two settings and `R` have to provide is gathered in `Correspondence`:

* related machines have one store, of values in `P`, and can be given another;
* values in `P` are printed alike, and those that literals give are in `P`;
* lines of the trace, and calls with values in `P`, are in step.

From that, by induction over nodes, evaluation is in step, and with it all that
is done with a source line and with a list of them.  Two pairs of settings are
treated this way: two verbosities, with arbitrary values and a trace that one
side logs more of; and two languages, with values that are no errors and equal
machines.
-/
import LineScript.Program
import LineScript.Proofs.Image

namespace LineScript

/-! ### Stores of values in a class -/

namespace Store

variable {P : Value → Prop} {s t : Store} {x : String}

/-- Every value in the store is in `P`. -/
def Holds (P : Value → Prop) (s : Store) : Prop :=
  ∀ y v, s.values.find? y = some v → P v

theorem Holds.get (h : s.Holds P) {v : Value} (hv : s.get x = .ok v) : P v := by
  obtain ⟨y, -, hy⟩ := get_eq_ok_iff.mp hv
  exact h y v hy

theorem getFunction_eq_ok {f : Function} (h : s.getFunction x = .ok f) :
    s.get x = .ok f.toValue := by
  obtain ⟨v, hv, h⟩ := exists_of_bind_eq_ok h
  cases v with
  | function signature body =>
    cases h
    exact hv
  | _ => cases h

theorem Holds.declare (h : s.Holds P) {type : String} {m : Bool}
    (ht : s.declare x type m = .ok t) : t.Holds P := by
  obtain ⟨-, c, -, rfl⟩ := declare_eq_ok ht
  exact h

theorem Holds.insert (h : s.Holds P) {v : Value} (hv : P v) (symbols : Table String Symbol)
    (y : Symbol) : Holds P ⟨symbols, s.values.insert y v⟩ := by
  intro z w hw
  rw [Table.find?_insert] at hw
  split at hw
  · cases hw
    exact hv
  · exact h z w hw

theorem Holds.assign (h : s.Holds P) {v : Value} (hv : P v) (ht : s.assign x v = .ok t) :
    t.Holds P := by
  obtain ⟨y, -, -, -, rfl⟩ := assign_eq_ok ht
  exact h.insert hv _ y

end Store

/-! ### Literals of statements -/

/-- The literals of a well-formed expression have the values of literals. -/
theorem Node.WellFormed.isLiteral_of_mem {n : Node} (h : n.WellFormed) :
    ∀ v ∈ n.literals, v.IsLiteral := by
  induction h with
  | literal hv _ =>
    intro w hw
    rw [literals, List.mem_singleton] at hw
    exact hw ▸ hv
  | identifier =>
    intro w hw
    cases hw
  | call _ _ ih =>
    intro w hw
    rw [literals, mem_allLiterals] at hw
    obtain ⟨n, hn, hw⟩ := hw
    exact ih n hn w hw

theorem Node.IsStatement.isLiteral_of_mem {n : Node} (h : n.IsStatement) :
    ∀ v ∈ n.literals, v.IsLiteral := by
  intro v hv
  cases h with
  | declaration => cases hv
  | definition _ _ _ he => exact he.isLiteral_of_mem v (by simpa [literals, allLiterals] using hv)
  | assignment _ he => exact he.isLiteral_of_mem v (by simpa [literals] using hv)
  | expression he => exact he.isLiteral_of_mem v hv

/-! ### Computations in step -/

section InStep

variable {σ α β : Type} {R : σ → σ → Prop} {P : α → Prop} {Q : β → Prop}

/-- One result in `P`, or one fault, on related states. -/
inductive Matches (R : σ → σ → Prop) (P : α → Prop) :
    EStateM.Result Fault σ α → EStateM.Result Fault σ α → Prop
  | ok {a : α} {c c' : σ} : P a → R c c' → Matches R P (.ok a c) (.ok a c')
  | error {e : Fault} {c c' : σ} : R c c' → Matches R P (.error e c) (.error e c')

/-- Two computations that do the same on related states. -/
def InStep (R : σ → σ → Prop) (P : α → Prop) (r r' : EStateM Fault σ α) : Prop :=
  ∀ c c', R c c' → Matches R P (r c) (r' c')

/-- Matching outcomes, taken apart. -/
theorem Matches.cases {x x' : EStateM.Result Fault σ α} (h : Matches R P x x') :
    (∃ a c c', x = .ok a c ∧ x' = .ok a c' ∧ P a ∧ R c c') ∨
      ∃ e c c', x = .error e c ∧ x' = .error e c' ∧ R c c' := by
  cases h with
  | ok ha hc => exact .inl ⟨_, _, _, rfl, rfl, ha, hc⟩
  | error hc => exact .inr ⟨_, _, _, rfl, rfl, hc⟩

theorem InStep.bind {r r' : EStateM Fault σ α} {f f' : α → EStateM Fault σ β}
    (hr : InStep R P r r') (hf : ∀ a, P a → InStep R Q (f a) (f' a)) :
    InStep R Q (r >>= f) (r' >>= f') := by
  intro c c' hc
  simp only [Bind.bind, EStateM.bind]
  obtain ⟨a, c₁, c₁', h, h', ha, hc₁⟩ | ⟨e, c₁, c₁', h, h', hc₁⟩ := (hr c c' hc).cases
  · rw [h, h']
    exact hf a ha c₁ c₁' hc₁
  · rw [h, h']
    exact .error hc₁

theorem InStep.map {r r' : EStateM Fault σ α} (hr : InStep R P r r') {f : α → β}
    (hf : ∀ a, P a → Q (f a)) : InStep R Q (f <$> r) (f <$> r') := by
  intro c c' hc
  simp only [Functor.map, EStateM.map]
  obtain ⟨a, c₁, c₁', h, h', ha, hc₁⟩ | ⟨e, c₁, c₁', h, h', hc₁⟩ := (hr c c' hc).cases
  · rw [h, h']
    exact .ok (hf a ha) hc₁
  · rw [h, h']
    exact .error hc₁

theorem inStep_pure {a : α} (h : P a) : InStep R P (pure a) (pure a) :=
  fun _ _ hc => .ok h hc

theorem inStep_throw (e : Fault) : InStep R P (throw e) (throw e) :=
  fun _ _ hc => .error hc

end InStep

variable [Host]

namespace Run

variable {α : Type} {R : Machine → Machine → Prop} {P : α → Prop}

theorem inStep_ofExcept {x : Except Fault α} (h : ∀ a, x = .ok a → P a) :
    InStep R P (ofExcept x) (ofExcept x) := by
  intro m m' hm
  rcases x with e | a
  · exact .error hm
  · exact .ok (h a rfl) hm

/-- A result or a fault that is already known, with nothing asked of it. -/
theorem inStep_ofExcept_any (x : Except Fault α) :
    InStep R (fun _ => True) (ofExcept x) (ofExcept x) :=
  inStep_ofExcept fun _ _ => trivial

end Run

open Run

theorem inStep_nthArgument {R : Machine → Machine → Prop} {P : Value → Prop} {args : List Value}
    (hargs : ∀ v ∈ args, P v) (index : Nat) :
    InStep R P (nthArgument args index) (nthArgument args index) := by
  unfold nthArgument
  split
  case h_1 v hv => exact inStep_pure (hargs v (List.mem_of_getElem? hv))
  case h_2 => exact inStep_throw _

/-- Machines that `R` relates are the same to the bodies of functions: on both
sides lines can be printed and taken and calls can be counted, and the host
remembers the same and can be made to remember the same. -/
structure SameToBodies (R : Machine → Machine → Prop) : Prop where
  print : ∀ text, InStep R (fun _ => True) (emit (.print text)) (emit (.print text))
  nextLine : InStep R (fun _ => True) nextLine nextLine
  count : ∀ counter, InStep R (fun _ => True) (count counter) (count counter)
  memory : InStep R (fun _ => True) memory memory
  remember : ∀ memory, InStep R (fun _ => True) (remember memory) (remember memory)

/-- A script of the host is in step with itself. -/
theorem inStep_script {R : Machine → Machine → Prop} (h : SameToBodies R)
    (p : Script Host.Memory) : InStep R (fun _ => True) p.run p.run := by
  induction p with
  | finish outcome remembered =>
    exact (h.remember remembered).bind fun _ _ => inStep_ofExcept_any _
  | print text _ ih => exact (h.print text).bind fun _ _ => ih
  | read _ ih => exact h.nextLine.bind fun line _ => ih line

/-- Any body is in step with itself, if the language is the same. -/
theorem inStep_body {R : Machine → Machine → Prop} {s s' : Settings}
    (hlanguage : s'.language = s.language) (h : SameToBodies R) (body : Native)
    (args : List Value) : InStep R (fun _ => True) (body.run s args) (body.run s' args) := by
  have hargument : ∀ i, InStep R (fun _ => True) (nthArgument args i) (nthArgument args i) :=
    inStep_nthArgument fun _ _ => trivial
  cases body with
  | print =>
    refine (hargument 0).bind fun v _ => ?_
    rw [hlanguage]
    exact (inStep_ofExcept_any _).bind fun text _ =>
      (h.print text).bind fun _ _ => inStep_pure trivial
  | read => exact h.nextLine.bind fun _ _ => inStep_pure trivial
  | classOf =>
    exact (hargument 0).bind fun v _ => (inStep_ofExcept_any _).bind fun _ _ =>
      inStep_pure trivial
  | text =>
    refine (hargument 0).bind fun v _ => ?_
    rw [hlanguage]
    exact (inStep_ofExcept_any _).bind fun _ _ => inStep_pure trivial
  | nothing => exact inStep_pure trivial
  | constant v => exact inStep_pure trivial
  | argument i => exact hargument i
  | tick counter => exact (h.count counter).bind fun _ _ => inStep_ofExcept_any _
  | sum => exact inStep_ofExcept_any _
  | host name =>
    -- the host remembers the same on both sides, so the script is the same
    refine h.memory.bind fun memory _ => ?_
    rw [hlanguage]
    exact inStep_script h _

/-- Any function is in step with itself, if the language is the same. -/
theorem inStep_call {R : Machine → Machine → Prop} {s s' : Settings}
    (hlanguage : s'.language = s.language) (h : SameToBodies R) (f : Function)
    (args : List Value) : InStep R (fun _ => True) (f.call s args) (f.call s' args) := by
  refine (inStep_ofExcept_any _).bind fun classes _ => ?_
  split
  · exact inStep_body hlanguage h f.body args
  · exact inStep_throw _

/-! ### Correspondences -/

/-- Under the settings `s` and `s'`, with values in `P`, runs are in step on
machines that `R` relates. -/
structure Correspondence (s s' : Settings) (P : Value → Prop) (R : Machine → Machine → Prop) :
    Prop where
  /-- Related machines have the same store, and it holds values in `P`. -/
  store : ∀ {m m'}, R m m' → m'.store = m.store
  holds : ∀ {m m'}, R m m' → m.store.Holds P
  /-- Both can be given another store. -/
  restore : ∀ {m m' t}, R m m' → t.Holds P → R { m with store := t } { m' with store := t }
  null : P .null
  symbol : ∀ x, P (.symbol x)
  literal : ∀ {v : Value}, v.IsLiteral → P v
  printed : ∀ {v : Value}, P v → v.printed s'.language = v.printed s.language
  trace : ∀ (level : Nat) (text : String), 1 ≤ level ∧ level ≤ 3 →
    InStep R (fun _ => True) (Run.trace s level text) (Run.trace s' level text)
  call : ∀ {f : Function} {args : List Value}, P f.toValue → (∀ v ∈ args, P v) →
    InStep R P (f.call s args) (f.call s' args)

namespace Correspondence

variable {α : Type} {s s' : Settings} {P : Value → Prop} {R : Machine → Machine → Prop}
variable (h : Correspondence s s' P R)

include h

theorem inStep_look {f : Store → Except Fault α} {Q : α → Prop}
    (hf : ∀ t a, t.Holds P → f t = .ok a → Q a) : InStep R Q (look f) (look f) := by
  intro m m' hm
  unfold look
  rw [h.store hm]
  rcases ha : f m.store with e | a
  · exact .error hm
  · exact .ok (hf _ a (h.holds hm) ha) hm

theorem inStep_update {f : Store → Except Fault Store}
    (hf : ∀ t u, t.Holds P → f t = .ok u → u.Holds P) :
    InStep R (fun _ => True) (update f) (update f) := by
  intro m m' hm
  unfold update
  rw [h.store hm]
  rcases hu : f m.store with e | u
  · exact .error hm
  · exact .ok trivial (h.restore hm (hf _ u (h.holds hm) hu))

theorem inStep_updateAll {f : Store → Store × Except Fault Unit}
    (hf : ∀ t, t.Holds P → (f t).1.Holds P) :
    InStep R (fun _ => True) (updateAll f) (updateAll f) := by
  intro m m' hm
  unfold updateAll
  rw [h.store hm]
  have hheld := hf m.store (h.holds hm)
  rcases hu : f m.store with ⟨t, e | u⟩
  · rw [hu] at hheld
    exact .error (h.restore hm hheld)
  · rw [hu] at hheld
    exact .ok trivial (h.restore hm hheld)

/-- The printed form of a value, which does not depend on the side. -/
theorem inStep_printed {v : Value} (hv : P v) :
    InStep R (fun _ => True) (Run.ofExcept (v.printed s.language))
      (Run.ofExcept (v.printed s'.language)) := by
  rw [h.printed hv]
  exact inStep_ofExcept_any _

theorem printedAll {vs : List Value} (hvs : ∀ v ∈ vs, P v) :
    vs.mapM (·.printed s'.language) = vs.mapM (·.printed s.language) := by
  induction vs with
  | nil => rfl
  | cons v vs ih =>
    obtain ⟨hv, hvs⟩ := List.forall_mem_cons.mp hvs
    rw [List.mapM_cons, List.mapM_cons, h.printed hv, ih hvs]

/-! ### Nodes -/

omit h

mutual

/-- **Evaluation is in step**, for nodes whose literals have values in `P`. -/
theorem inStep_evaluate (h : Correspondence s s' P R) : (n : Node) → (∀ v ∈ n.literals, P v) →
    InStep R P (n.evaluate s) (n.evaluate s')
  | .literal v t, hn => by
    rw [Node.evaluate, Node.evaluate]
    exact inStep_pure (hn _ (by simp [Node.literals]))
  | .identifier x, _ => by
    rw [Node.evaluate, Node.evaluate]
    exact h.inStep_look fun t v ht hv => ht.get hv
  | .declaration x t m, _ => by
    rw [Node.evaluate, Node.evaluate]
    refine (h.inStep_update fun _ _ ht hu => ht.declare hu).bind fun _ _ => ?_
    exact (h.trace 2 _ (by decide)).bind fun _ _ => inStep_pure (h.symbol x)
  -- the value, the change of the store, and the line of the trace
  | .assignment x n, hn => by
    rw [Node.evaluate, Node.evaluate]
    refine (inStep_evaluate h n fun v hv => hn v (by simpa [Node.literals] using hv)).bind
      fun v hv => ?_
    refine (h.inStep_update fun _ _ ht hu => ht.assign hv hu).bind fun _ _ => ?_
    exact (h.inStep_printed hv).bind fun text _ =>
      (h.trace 2 _ (by decide)).bind fun _ _ => inStep_pure hv
  | .block ns, hn => by
    rw [Node.evaluate, Node.evaluate]
    exact inStep_evaluateBlock h ns h.null fun v hv => hn v (by simpa [Node.literals] using hv)
  | .call f ns, hn => by
    rw [Node.evaluate, Node.evaluate]
    refine (inStep_evaluateAll h ns fun v hv => hn v (by simpa [Node.literals] using hv)).bind
      fun vs hvs => ?_
    refine (h.inStep_look fun t g ht hg => ht.get (Store.getFunction_eq_ok hg)).bind
      fun g hg => ?_
    -- the arguments print alike, so the same line is traced
    rw [h.printedAll hvs]
    exact (inStep_ofExcept_any _).bind fun texts _ =>
      (h.trace 3 _ (by decide)).bind fun _ _ => h.call hg hvs
  | .unknown, _ => by
    rw [Node.evaluate, Node.evaluate]
    exact inStep_throw _

theorem inStep_evaluateBlock (h : Correspondence s s' P R) : (ns : List Node) →
    {last : Value} → P last → (∀ v ∈ Node.allLiterals ns, P v) →
    InStep R P (Node.evaluateBlock s last ns) (Node.evaluateBlock s' last ns)
  | [], last, hlast, _ => by
    rw [Node.evaluateBlock, Node.evaluateBlock]
    exact inStep_pure hlast
  | n :: ns, last, hlast, hns => by
    rw [Node.evaluateBlock, Node.evaluateBlock]
    refine (inStep_evaluate h n fun v hv => hns v (by simp [Node.allLiterals, hv])).bind
      fun v hv => ?_
    exact inStep_evaluateBlock h ns hv fun v hv => hns v (by simp [Node.allLiterals, hv])

theorem inStep_evaluateAll (h : Correspondence s s' P R) : (ns : List Node) →
    (∀ v ∈ Node.allLiterals ns, P v) →
    InStep R (fun vs => ∀ v ∈ vs, P v) (Node.evaluateAll s ns) (Node.evaluateAll s' ns)
  | [], _ => by
    rw [Node.evaluateAll, Node.evaluateAll]
    exact inStep_pure (by simp)
  | n :: ns, hns => by
    rw [Node.evaluateAll, Node.evaluateAll]
    refine (inStep_evaluate h n fun v hv => hns v (by simp [Node.allLiterals, hv])).bind
      fun v hv => ?_
    refine (inStep_evaluateAll h ns fun v hv => hns v (by simp [Node.allLiterals, hv])).bind
      fun vs hvs => ?_
    exact inStep_pure (List.forall_mem_cons.mpr ⟨hv, hvs⟩)

end

mutual

/-- The debug form of a node does not depend on the side. -/
theorem debugForm_eq (h : Correspondence s s' P R) : (n : Node) → (∀ v ∈ n.literals, P v) →
    n.debugForm s'.language = n.debugForm s.language
  | .literal v t, hn => h.printed (hn _ (by simp [Node.literals]))
  | .identifier x, _ => rfl
  | .declaration x t m, _ => rfl
  | .assignment x n, hn => by
    rw [Node.debugForm, Node.debugForm,
      debugForm_eq h n fun v hv => hn v (by simpa [Node.literals] using hv)]
  | .block ns, hn => by
    rw [Node.debugForm, Node.debugForm,
      debugForms_eq h ns fun v hv => hn v (by simpa [Node.literals] using hv)]
  | .call f ns, hn => by
    rw [Node.debugForm, Node.debugForm,
      debugForms_eq h ns fun v hv => hn v (by simpa [Node.literals] using hv)]
  | .unknown, _ => rfl

theorem debugForms_eq (h : Correspondence s s' P R) : (ns : List Node) →
    (∀ v ∈ Node.allLiterals ns, P v) →
    Node.debugForms s'.language ns = Node.debugForms s.language ns
  | [], _ => rfl
  | n :: ns, hns => by
    rw [Node.debugForms, Node.debugForms,
      debugForm_eq h n fun v hv => hns v (by simp [Node.allLiterals, hv]),
      debugForms_eq h ns fun v hv => hns v (by simp [Node.allLiterals, hv])]

end

end Correspondence

/-! ### Source lines -/

namespace Correspondence

variable {s s' : Settings} {P : Value → Prop} {R : Machine → Machine → Prop}
variable (h : Correspondence s s' P R)

include h

theorem inStep_read (source : String) :
    InStep R (fun n => ∀ v ∈ n.literals, P v) (Run.read s source) (Run.read s' source) := by
  unfold Run.read
  have hparse : ∀ n, Statement.parse source = .ok n → ∀ v ∈ n.literals, P v :=
    fun n hn v hv => h.literal ((Statement.isStatement_of_parse hn).isLiteral_of_mem v hv)
  refine (inStep_ofExcept hparse).bind fun n hn => ?_
  rw [h.debugForm_eq n hn]
  exact (inStep_ofExcept_any _).bind fun form _ =>
    (h.trace 1 _ (by decide)).bind fun _ _ => inStep_pure hn

theorem inStep_conclude {v : Value} (hv : P v) : InStep R P (conclude s v) (conclude s' v) := by
  unfold conclude
  exact (h.inStep_printed hv).bind fun text _ => (inStep_ofExcept_any _).bind fun c _ =>
    (h.trace 2 _ (by decide)).bind fun _ _ => inStep_pure hv

theorem inStep_node {n : Node} (hn : ∀ v ∈ n.literals, P v) :
    InStep R P (Run.node s n) (Run.node s' n) := by
  intro m m' hm
  unfold Run.node
  obtain ⟨v, m₁, m₁', hr, hr', hv, hm₁⟩ | ⟨e, m₁, m₁', hr, hr', hm₁⟩ :=
    (h.inStep_evaluate n hn m m' hm).cases
  · rw [hr, hr']
    exact h.inStep_conclude hv m₁ m₁' hm₁
  · rw [hr, hr']
    rcases e with f | c
    · -- both sides log the failure, and neither can fail at that
      have hline := h.trace 1 (failureLine f) (by decide) m₁ m₁' hm₁
      obtain ⟨m₂, ht, -⟩ := exists_trace s 1 (failureLine f) m₁
      obtain ⟨m₂', ht', -⟩ := exists_trace s' 1 (failureLine f) m₁'
      rw [ht, ht'] at hline
      cases hline with
      | ok _ hm₂ =>
        dsimp only
        rw [ht, ht']
        exact .error hm₂
    · exact .error hm₁

/-- **Executing a source line is in step.** -/
theorem inStep_execute (source : String) :
    InStep R P (Run.execute s source) (Run.execute s' source) :=
  (h.inStep_read source).bind fun _ hn => h.inStep_node hn

/-- Running the statements of a program is in step. -/
theorem inStep_runStatements (ps : List (Nat × String)) {last : Value} (hlast : P last) :
    InStep R P (Program.runStatements s last ps) (Program.runStatements s' last ps) := by
  induction ps generalizing last with
  | nil => exact inStep_pure hlast
  | cons p ps ih => exact (h.inStep_execute p.2).bind fun v hv => ih hv

end Correspondence

end LineScript
