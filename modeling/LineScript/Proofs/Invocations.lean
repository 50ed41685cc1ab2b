/-
LineScript/Proofs/Invocations.lean

Which bodies an expression runs, in which order, and on what.

Evaluation is watched, and notes which functions are run (`Node.invocations`).

The parts of an expression are gone through in post-order, the arguments of a call
before the call.  A walk that has come to its end has made one invocation for each
call (`Completed`); a walk that fails has completed the parts before one, which
refuses, or whose body is run and fails (`Stopped`).  Either way the invocations,
one behind the other, account for all that has happened to the machine apart from
the trace (`Replays`).  So the lines of input are dealt out to the bodies that take
them, in that order (`Replays.input_eq`); a function of the host takes as many as it
likes, a body that reads takes the next one, and no other body takes any.
-/
import LineScript.Proofs.Logs
import LineScript.Proofs.Tracing
import LineScript.Proofs.Watching

namespace LineScript

open Watch (forget madeBy)

/-! ### The parts of a node -/

namespace Node

/-- Whether a node is a call. -/
def isCall : Node → Bool
  | call _ _ => true
  | _ => false

mutual

/-- The parts of a node from left to right, each behind its own parts. -/
def postorder : Node → List Node
  | assignment x n => postorder n ++ [assignment x n]
  | block ns => postorderAll ns ++ [block ns]
  | call f ns => postorderAll ns ++ [call f ns]
  | n => [n]

/-- The parts of several nodes, each behind its own parts. -/
def postorderAll : List Node → List Node
  | [] => []
  | n :: ns => postorder n ++ postorderAll ns

end

mutual

/-- The parts of a node in the order in which they start in the text. -/
def preorder : Node → List Node
  | assignment x n => assignment x n :: preorder n
  | block ns => block ns :: preorderAll ns
  | call f ns => call f ns :: preorderAll ns
  | n => [n]

/-- The parts of several nodes in the order in which they start. -/
def preorderAll : List Node → List Node
  | [] => []
  | n :: ns => preorder n ++ preorderAll ns

end

/-- The calls in a node, in post-order. -/
def calls (n : Node) : List Node :=
  n.postorder.filter isCall

section Orders

variable {p : Node → Bool}

theorem eq_false_of_not_bare (hp : ∀ n, p n = true → ∃ f, n = call f []) {n : Node}
    (hn : ∀ f, n ≠ call f []) : p n = false := by
  rw [Bool.eq_false_iff]
  intro h
  obtain ⟨f, hf⟩ := hp n h
  exact hn f hf

mutual

/-- Calls without arguments stand in the same order in both. -/
theorem filter_postorder (hp : ∀ n, p n = true → ∃ f, n = call f []) :
    (n : Node) → n.postorder.filter p = n.preorder.filter p
  | literal _ _ | identifier _ | declaration _ _ _ | unknown => rfl
  | assignment x n => by
    have hself : p (assignment x n) = false := eq_false_of_not_bare hp nofun
    simp [postorder, preorder, hself, filter_postorder hp n]
  | block ns => by
    have hself : p (block ns) = false := eq_false_of_not_bare hp nofun
    simp [postorder, preorder, hself, filter_postorderAll hp ns]
  | call f ns => by
    have harguments := filter_postorderAll hp ns
    rcases hself : p (call f ns) with - | -
    · simp [postorder, preorder, hself, harguments]
    · obtain ⟨f', hf'⟩ := hp _ hself
      cases hf'
      rfl

theorem filter_postorderAll (hp : ∀ n, p n = true → ∃ f, n = call f []) :
    (ns : List Node) → (postorderAll ns).filter p = (preorderAll ns).filter p
  | [] => rfl
  | n :: ns => by
    rw [postorderAll, preorderAll, List.filter_append, List.filter_append, filter_postorder hp n,
      filter_postorderAll hp ns]

end

end Orders

end Node

/-! ### Arguments and slots -/

theorem forall₂_classesOf {vs : List Value} {classes : List Class}
    (h : classesOf vs = .ok classes) :
    List.Forall₂ (fun v c => v.classOf = .ok c) vs classes := by
  induction vs generalizing classes with
  | nil =>
    cases h
    exact .nil
  | cons v vs ih =>
    rw [classesOf, List.mapM_cons] at h
    obtain ⟨c, hc, h⟩ := exists_of_bind_eq_ok h
    obtain ⟨cs, hcs, h⟩ := exists_of_bind_eq_ok h
    cases h
    exact .cons hc (ih hcs)

/-- Arguments that are admitted fit the slots, one each. -/
theorem Signature.forall₂_of_admits {f : Signature} {vs : List Value} {classes : List Class}
    (hclasses : classesOf vs = .ok classes) (h : f.admits classes = true) :
    List.Forall₂ (fun slot v => slot = .any ∨ v.classOf = .ok slot) f.inputs vs := by
  rw [admits, Bool.and_eq_true, beq_iff_eq, List.all_eq_true] at h
  obtain ⟨hlength, hfits⟩ := h
  -- the classes fit the slots, and the values have these classes
  have hslots : List.Forall₂ (fun slot c => slot = .any ∨ slot = c) f.inputs classes := by
    refine List.forall₂_iff_zip.mpr ⟨hlength, fun {slot c} hmem => ?_⟩
    exact Class.fitsSlot_iff.mp (hfits _ hmem)
  have hvalues := forall₂_classesOf hclasses
  generalize f.inputs = slots at hslots ⊢
  clear hclasses hlength hfits
  induction hslots generalizing vs with
  | nil =>
    cases hvalues
    exact .nil
  | cons hslot _ ih =>
    cases hvalues with
    | cons hv hvs =>
      refine .cons ?_ (ih hvs)
      rcases hslot with hany | rfl
      · exact .inl hany
      · exact .inr hv

section AnyHost

variable [Host]

/-! ### Replaying -/

/-- A machine without the trace in its log. -/
def Machine.quiet (m : Machine) : Machine :=
  m.sift fun e => !e.isTrace

theorem Machine.store_of_quiet {m m' : Machine} (h : m.quiet = m'.quiet) :
    m.store = m'.store := by
  have hstore : m.quiet.store = m'.quiet.store := by rw [h]
  exact hstore

/-- Tracing changes nothing but the trace. -/
theorem Run.exists_trace_quiet (s : Settings) (level : Nat) (text : String) (m : Machine) :
    ∃ m', Run.trace s level text m = .ok () m' ∧ m.quiet = m'.quiet := by
  unfold Run.trace
  split
  · refine ⟨_, rfl, ?_⟩
    simp only [Machine.quiet, Machine.sift]
    rw [Array.filter_push_of_neg (by simp [Event.isTrace]) (Array.size_push _)]
  · exact ⟨m, rfl, rfl⟩

/-- The bodies of the invocations, run one behind the other, lead from one machine to
another, apart from the trace. -/
inductive Replays (s : Settings) : Machine → List Invocation → Machine → Prop
  | nil {m m' : Machine} : m.quiet = m'.quiet → Replays s m [] m'
  | cons {m m₁ m' : Machine} {i : Invocation} {v : Value} {is : List Invocation} :
    m.quiet = i.before.quiet → i.result s = .ok v m₁ → Replays s m₁ is m' →
    Replays s m (i :: is) m'

namespace Replays

variable {s : Settings} {m m₁ m' : Machine} {is js : List Invocation}

theorem of_quiet (hm : m.quiet = m₁.quiet) (h : Replays s m₁ is m') : Replays s m is m' := by
  cases h with
  | nil hm' => exact .nil (hm.trans hm')
  | cons hm' hv h => exact .cons (hm.trans hm') hv h

theorem append (h : Replays s m is m₁) (h' : Replays s m₁ js m') : Replays s m (is ++ js) m' := by
  induction h with
  | nil hm => exact h'.of_quiet hm
  | cons hm hv _ ih => exact .cons hm hv (ih h')

theorem store_eq (h : Replays s m is m') : m'.store = m.store := by
  induction h with
  | nil hm => exact (Machine.store_of_quiet hm).symm
  | @cons m m₁ m' i v is hm hv _ ih =>
    have hstill := Native.still_run s i.arguments i.function.body i.before
    rw [Run.final_of_ok hv] at hstill
    rw [ih, ← hstill, Machine.store_of_quiet hm]

end Replays

/-! ### Walks -/

/-- The function that a call runs, if nothing is wrong with it: the name must hold a
function, and the arguments must be printable and have classes that fit its slots. -/
def Store.callee (st : Store) (l : Language) (name : String) (vs : List Value) :
    Except Fault Function := do
  let f ← st.getFunction name
  let _ ← vs.mapM (·.printed l)
  let classes ← classesOf vs
  if f.signature.admits classes then return f
  else
    throw (.failure (.misfit f.signature.name f.signature.inputText
      (Text.commaSeparated (classes.map (·.name)))))

/-- An invocation as it should be, in a store: the function is what the name holds;
there are as many arguments as slots, each of the class of its slot, unless the slot
takes any; and they are the values of the expressions of the arguments, evaluated when
the call was reached. -/
structure Invocation.Proper (s : Settings) (st : Store) (i : Invocation) : Prop where
  found : st.getFunction i.name = .ok i.function
  arity : i.arguments.length = i.function.signature.arity
  fits : List.Forall₂ (fun slot v => slot = .any ∨ v.classOf = .ok slot)
    i.function.signature.inputs i.arguments
  evaluated : ∃ m, Node.evaluateAll s i.operands i.start = .ok i.arguments m ∧
    m.quiet = i.before.quiet
  store_start : i.start.store = st
  store_before : i.before.store = st

/-- A node that fails by itself at a machine: a name that holds nothing, or a call
whose arguments have been evaluated and are not admitted. -/
inductive Node.Refuses (s : Settings) (m : Machine) (e : Fault) : Node → Prop
  | identifier {x : String} : m.store.get x = .error e → Refuses s m e (identifier x)
  | call {f : String} {ns : List Node} {start m' : Machine} {vs : List Value} :
    evaluateAll s ns start = .ok vs m' → m'.quiet = m.quiet →
    m.store.callee s.language f vs = .error e → Refuses s m e (call f ns)

/-- Parts of an expression have been gone through: the names among them hold values,
and there is one invocation for each call, in their order. -/
structure Completed (s : Settings) (parts : List Node) (m : Machine) (made : List Invocation)
    (m' : Machine) : Prop where
  held : ∀ x, Node.identifier x ∈ parts → ∃ v, m.store.get x = .ok v
  sites : made.map Invocation.site = parts.filter Node.isCall
  proper : ∀ i ∈ made, i.Proper s m.store
  replays : Replays s m made m'

/-- Parts of an expression have been gone through up to one that fails.  If that is a
call, it has been invoked exactly if it was its body that failed. -/
inductive Stopped (s : Settings) (parts : List Node) (m : Machine) (e : Fault) :
    List Invocation → Machine → Prop
  | refused {visited rest : List Node} {node : Node} {made : List Invocation} {m' : Machine} :
    parts = visited ++ node :: rest → Completed s visited m made m' → node.Refuses s m' e →
    Stopped s parts m e made m'
  | raised {visited rest : List Node} {made : List Invocation} {i : Invocation}
    {m₁ m' : Machine} :
    parts = visited ++ i.site :: rest → Completed s visited m made m₁ →
    m₁.quiet = i.before.quiet → i.Proper s m.store → i.result s = .error e m' →
    Stopped s parts m e (made ++ [i]) m'

section Walks

variable {α β : Type} {s : Settings} {parts more : List Node} {m m₁ m' : Machine}
  {made made' : List Invocation} {e : Fault}

theorem completed_nil (hm : m.quiet = m'.quiet) : Completed s [] m [] m' where
  held := by simp
  sites := rfl
  proper := by simp
  replays := .nil hm

theorem Completed.append (h : Completed s parts m made m₁) (h' : Completed s more m₁ made' m') :
    Completed s (parts ++ more) m (made ++ made') m' where
  held x hx := by
    rcases List.mem_append.mp hx with hx | hx
    · exact h.held x hx
    · exact h.replays.store_eq ▸ h'.held x hx
  sites := by rw [List.map_append, h.sites, h'.sites, List.filter_append]
  proper := by
    rw [List.forall_mem_append, ← h.replays.store_eq]
    exact ⟨h.replays.store_eq ▸ h.proper, h'.proper⟩
  replays := h.replays.append h'.replays

theorem Completed.stopped (h : Completed s parts m made m₁) (h' : Stopped s more m₁ e made' m') :
    Stopped s (parts ++ more) m e (made ++ made') m' := by
  cases h' with
  | @refused visited rest node _ _ hparts hvisited hnode =>
    have hsplit : parts ++ more = (parts ++ visited) ++ node :: rest := by
      rw [hparts, List.append_assoc]
    exact .refused hsplit (h.append hvisited) hnode
  | @raised visited rest made' i _ _ hparts hvisited hquiet hi hraised =>
    have hsplit : parts ++ more = (parts ++ visited) ++ i.site :: rest := by
      rw [hparts, List.append_assoc]
    rw [h.replays.store_eq] at hi
    rw [← List.append_assoc made]
    exact .raised hsplit (h.append hvisited) hquiet hi hraised

theorem Stopped.append (h : Stopped s parts m e made m') (more : List Node) :
    Stopped s (parts ++ more) m e made m' := by
  cases h with
  | @refused visited rest node _ _ hparts hvisited hnode =>
    have hsplit : parts ++ more = visited ++ node :: (rest ++ more) := by
      rw [hparts, List.append_assoc, List.cons_append]
    exact .refused hsplit hvisited hnode
  | @raised visited rest _ i _ _ hparts hvisited hquiet hi hraised =>
    have hsplit : parts ++ more = visited ++ i.site :: (rest ++ more) := by
      rw [hparts, List.append_assoc, List.cons_append]
    exact .raised hsplit hvisited hquiet hi hraised

theorem stopped_of_refuses {node : Node} (hm : m.quiet = m'.quiet) (h : node.Refuses s m' e) :
    Stopped s [node] m e [] m' := by
  have hparts : [node] = [] ++ node :: [] := rfl
  exact .refused hparts (completed_nil hm) h

theorem stopped_of_raises {i : Invocation} (hm : m.quiet = i.before.quiet)
    (hi : i.Proper s m.store) (h : i.result s = .error e m') :
    Stopped s [i.site] m e [i] m' := by
  have hparts : [i.site] = [] ++ i.site :: [] := rfl
  exact .raised hparts (completed_nil rfl) hm hi h

/-- A watched result comes of going through parts of an expression. -/
def Walked (s : Settings) (parts : List Node) (w : Watched) :
    EStateM.Result Fault Watched α → Prop
  | .ok _ w' => ∃ made, w'.made = w.made ++ made ∧ Completed s parts w.machine made w'.machine
  | .error e w' =>
    ∃ made, w'.made = w.made ++ made ∧ Stopped s parts w.machine e made w'.machine

/-- One walk behind the other. -/
theorem Walked.bind {x : Watch α} {f : α → Watch β} {w : Watched} (hx : Walked s parts w (x w))
    (hf : ∀ a w', x w = .ok a w' → Walked s more w' (f a w')) :
    Walked s (parts ++ more) w ((x >>= f) w) := by
  rcases hw : x w with ⟨a, w'⟩ | ⟨e, w'⟩
  · rw [hw] at hx
    obtain ⟨made, hmade, hparts⟩ := hx
    have hmore := hf a w' hw
    rw [Run.bind_of_ok hw]
    rcases hw' : f a w' with ⟨b, w''⟩ | ⟨e, w''⟩
    · -- both parts are walked to the end
      rw [hw'] at hmore
      obtain ⟨made', hmade', hmore⟩ := hmore
      exact ⟨made ++ made', by rw [hmade', hmade, List.append_assoc], hparts.append hmore⟩
    · -- the second part stops
      rw [hw'] at hmore
      obtain ⟨made', hmade', hmore⟩ := hmore
      exact ⟨made ++ made', by rw [hmade', hmade, List.append_assoc], hparts.stopped hmore⟩
  · -- the first part stops, and the second is not entered
    rw [hw] at hx
    obtain ⟨made, hmade, hparts⟩ := hx
    rw [Run.bind_of_error hw]
    exact ⟨made, hmade, hparts.append more⟩

theorem walked_pure (a : α) (w : Watched) : Walked s [] w ((pure a : Watch α) w) :=
  ⟨[], (List.append_nil _).symm, completed_nil rfl⟩

end Walks

/-! ### Expressions -/

namespace Node

variable {s : Settings}

theorem walked_literal (v : Option Value) (type : String) (w : Watched) :
    Walked s (literal v type).postorder w ((literal v type).watch s w) := by
  rw [watch]
  exact ⟨[], (List.append_nil _).symm, by simp [postorder], rfl, by simp, .nil rfl⟩

theorem walked_identifier (x : String) (w : Watched) :
    Walked s (identifier x).postorder w ((identifier x).watch s w) := by
  rw [watch]
  rcases hx : w.machine.store.get x with e | v
  · rw [Watch.lift_of_error (Run.look_of_error hx)]
    exact ⟨[], (List.append_nil _).symm, stopped_of_refuses rfl (.identifier hx)⟩
  · have hheld : ∀ y, identifier y ∈ [identifier x] → ∃ v, w.machine.store.get y = .ok v := by
      intro y hy
      cases List.mem_singleton.mp hy
      exact ⟨v, hx⟩
    rw [Watch.lift_of_ok (Run.look_of_ok hx)]
    exact ⟨[], (List.append_nil _).symm, hheld, rfl, by simp, .nil rfl⟩

/-- A call whose arguments have been evaluated is refused, or its body is run. -/
theorem walked_perform {f : String} {ns : List Node} {start : Machine} {vs : List Value}
    {w : Watched} (harguments : evaluateAll s ns start = .ok vs w.machine)
    (hstore : start.store = w.machine.store) :
    Walked s [call f ns] w ((do
      let g ← Watch.lift (Run.look (·.getFunction f))
      let texts ← Watch.lift (Run.ofExcept (vs.mapM (·.printed s.language)))
      Watch.lift (Run.trace s 3 (callLine f texts))
      g.watch s f ns start vs : Watch Value) w) := by
  obtain ⟨m, made⟩ := w
  dsimp only at harguments hstore
  -- the checks are gone through one by one, and a line of the trace comes between them
  have hrefused : ∀ {m' : Machine} {e : Fault}, m.quiet = m'.quiet →
      m.store.callee s.language f vs = .error e →
      Walked s [call f ns] ⟨m, made⟩
        (.error e ⟨m', made⟩ : EStateM.Result Fault Watched Value) := by
    intro m' e hquiet hcallee
    rw [Machine.store_of_quiet hquiet] at hcallee
    exact ⟨[], (List.append_nil _).symm,
      stopped_of_refuses hquiet (.call harguments hquiet hcallee)⟩
  rcases hg : m.store.getFunction f with e | g
  · rw [Run.bind_of_error (Watch.lift_of_error (Run.look_of_error hg))]
    exact hrefused rfl (by rw [Store.callee, hg]; rfl)
  rw [Run.bind_of_ok (Watch.lift_of_ok (Run.look_of_ok hg))]
  rcases htexts : vs.mapM (·.printed s.language) with e | texts
  · rw [Run.bind_of_error (Watch.lift_of_error (Run.ofExcept_of_error htexts _))]
    exact hrefused rfl (by rw [Store.callee, hg, htexts]; rfl)
  rw [Run.bind_of_ok (Watch.lift_of_ok (Run.ofExcept_of_ok htexts _))]
  obtain ⟨m₁, hm₁, hquiet⟩ := Run.exists_trace_quiet s 3 (callLine f texts) m
  rw [Run.bind_of_ok (Watch.lift_of_ok hm₁), Function.watch]
  rcases hclasses : classesOf vs with e | classes
  · exact hrefused hquiet (by rw [Store.callee, hg, htexts, hclasses]; rfl)
  rw [Run.bind_of_ok (Watch.lift_of_ok (Run.ofExcept_of_ok rfl m₁))]
  split
  case isFalse hadmits =>
    refine hrefused hquiet ?_
    rw [Store.callee, hg, htexts, hclasses]
    show (if g.signature.admits classes = true then _ else _) = _
    rw [if_neg hadmits]
    rfl
  case isTrue hadmits =>
    have hfits := Signature.forall₂_of_admits hclasses hadmits
    have hproper : Invocation.Proper s m.store ⟨f, ns, start, g, vs, m₁⟩ :=
      { found := hg
        arity := hfits.length_eq.symm
        fits := hfits
        evaluated := ⟨m, harguments, hquiet⟩
        store_start := hstore
        store_before := (Machine.store_of_quiet hquiet).symm }
    show Walked s _ _ (Watch.lift (g.body.run s vs) ⟨m₁, made ++ [⟨f, ns, start, g, vs, m₁⟩]⟩)
    rcases hbody : g.body.run s vs m₁ with ⟨v, m₂⟩ | ⟨e, m₂⟩
    · rw [Watch.lift_of_ok hbody]
      exact ⟨[_], rfl, by simp, rfl, by simpa using hproper, .cons hquiet hbody (.nil rfl)⟩
    · rw [Watch.lift_of_error hbody]
      exact ⟨[_], rfl, stopped_of_raises hquiet hproper hbody⟩

/-- Arguments are walked through one behind the other. -/
theorem walked_watchAll {ns : List Node}
    (h : ∀ n ∈ ns, ∀ w, Walked s n.postorder w (n.watch s w)) (w : Watched) :
    Walked s (postorderAll ns) w (watchAll s ns w) := by
  induction ns generalizing w with
  | nil =>
    rw [watchAll]
    exact walked_pure [] w
  | cons n ns ih =>
    rw [watchAll, postorderAll]
    refine (h n List.mem_cons_self w).bind fun v w' _ => ?_
    have hns := ih (fun k hk => h k (List.mem_cons_of_mem n hk)) w'
    rw [← List.append_nil (postorderAll ns)]
    exact hns.bind fun vs w'' _ => walked_pure (v :: vs) w''

/-- **An expression is walked through in post-order.** -/
theorem IsExpression.walked {n : Node} (h : n.IsExpression) (s : Settings) (w : Watched) :
    Walked s n.postorder w (n.watch s w) := by
  induction h generalizing w with
  | literal v type => exact walked_literal v type w
  | identifier x => exact walked_identifier x w
  | @call f ns hns ih =>
    rw [watch, postorder]
    refine (walked_watchAll ih w).bind fun vs w' hw' => ?_
    have harguments := erases_watchAll s ns w
    rw [hw'] at harguments
    -- the arguments are expressions, so the function is looked up in the store of the start
    have hstill := still_evaluateAll s (fun n hn => (hns n hn).still_evaluate s) w.machine
    rw [Run.final_of_ok harguments.symm] at hstill
    exact walked_perform harguments.symm hstill

end Node

/-! ### Reading lines -/

/-- Whether a body is that of the function that reads a line. -/
def Native.isRead : Native → Bool
  | read => true
  | _ => false

/-- Whether an invocation is made to read a line. -/
def Invocation.isRead (i : Invocation) : Bool :=
  i.function.body.isRead

/-- A run that takes no line of input. -/
def Run.Sparing {α : Type} (r : Run α) : Prop :=
  ∀ m, (r.final m).input = m.input

section Sparing

variable {α β : Type}

theorem Run.Sparing.bind {r : Run α} {f : α → Run β} (hr : Sparing r)
    (hf : ∀ a, Sparing (f a)) : Sparing (r >>= f) := by
  intro m
  rw [final_bind]
  rcases h : r m with ⟨a, m₁⟩ | ⟨e, m₁⟩
  · exact (hf a m₁).trans (final_of_ok h ▸ hr m)
  · exact final_of_error h ▸ hr m

theorem Run.sparing_pure (a : α) : Sparing (pure a) :=
  fun _ => rfl

theorem Run.sparing_ofExcept (x : Except Fault α) : Sparing (ofExcept x) := by
  intro m
  rcases x with e | a <;> rfl

theorem sparing_nthArgument (args : List Value) (index : Nat) :
    Run.Sparing (nthArgument args index) := by
  intro m
  unfold nthArgument
  split <;> rfl

/-- Bodies that do not read take no lines, those of the host apart. -/
theorem Native.sparing_run (s : Settings) (args : List Value) {body : Native}
    (hread : body.isRead = false) (hhost : body.isHost = false) :
    Run.Sparing (body.run s args) := by
  have hargument := sparing_nthArgument args
  cases body with
  -- no body but these two takes a line from the input
  | print =>
    exact (hargument 0).bind fun v => (Run.sparing_ofExcept _).bind fun text => fun _ => rfl
  | read => cases hread
  | classOf =>
    exact (hargument 0).bind fun v => (Run.sparing_ofExcept _).bind fun _ => Run.sparing_pure _
  | text =>
    exact (hargument 0).bind fun v => (Run.sparing_ofExcept _).bind fun _ => Run.sparing_pure _
  | nothing => exact Run.sparing_pure _
  | constant v => exact Run.sparing_pure v
  | argument i => exact hargument i
  | tick counter =>
    have hcount : Run.Sparing (Run.count counter) := fun _ => rfl
    exact hcount.bind fun n => Run.sparing_ofExcept _
  | sum => exact Run.sparing_ofExcept _
  | host name => cases hhost

end Sparing

theorem Machine.input_of_quiet {m m' : Machine} (h : m.quiet = m'.quiet) :
    m.input = m'.input := by
  have hinput : m.quiet.input = m'.quiet.input := by rw [h]
  exact hinput

namespace Invocation

variable {s : Settings} {i : Invocation}

/-- The lines of input that the body of an invocation takes. -/
def lines (s : Settings) (i : Invocation) : List String :=
  Event.handedOut ((i.function.body.run s i.arguments).logged i.before)

/-- The lines that a body takes are gone when it is done, and no others. -/
theorem lines_append (s : Settings) (i : Invocation) :
    i.lines s ++ ((i.function.body.run s i.arguments).final i.before).input = i.before.input := by
  have hframed : Run.Framed (i.function.body.run s i.arguments) :=
    fun _ _ => inStep_body rfl sameToBodies_resumed _ _
  exact hframed.handedOut_logged i.before

theorem lines_append_of_ok {v : Value} {m : Machine} (h : i.result s = .ok v m) :
    i.lines s ++ m.input = i.before.input := by
  rw [← Run.final_of_ok h]
  exact i.lines_append s

/-- Bodies that do not read take no lines, those of the host apart. -/
theorem lines_eq_nil (s : Settings) (hread : i.isRead = false)
    (hhost : i.function.body.isHost = false) : i.lines s = [] := by
  have hlines := i.lines_append s
  rwa [Native.sparing_run s i.arguments hread hhost, List.append_left_eq_self] at hlines

/-- A body that reads takes the next line, and gives it, or the empty text at the
end. -/
theorem read_of_isRead (s : Settings) (h : i.isRead = true) :
    i.lines s = i.before.input.head?.toList ∧
      ∃ m, i.result s = .ok (.str (i.before.input.head?.getD "")) m := by
  obtain ⟨name, operands, start, ⟨signature, body⟩, arguments, before⟩ := i
  cases body with
  | read => exact ⟨Event.handedOut_input _, _, rfl⟩
  | _ => cases h

end Invocation

namespace Replays

variable {s : Settings} {m m' : Machine} {is before after : List Invocation} {i : Invocation}

/-- **The bodies take the lines of input one behind the other.** -/
theorem input_eq (h : Replays s m is m') : m.input = is.flatMap (·.lines s) ++ m'.input := by
  induction h with
  | nil hm => exact Machine.input_of_quiet hm
  | cons hm hv _ ih =>
    rw [List.flatMap_cons, List.append_assoc, ← ih, Invocation.lines_append_of_ok hv]
    exact Machine.input_of_quiet hm

/-- Invocations behind others are replayed behind them. -/
theorem exists_replays_of_append (h : Replays s m (before ++ after) m') :
    ∃ m₁, Replays s m before m₁ ∧ Replays s m₁ after m' := by
  induction before generalizing m with
  | nil => exact ⟨m, .nil rfl, h⟩
  | cons i before ih =>
    cases h with
    | cons hm hv h =>
      obtain ⟨m₁, hbefore, hafter⟩ := ih h
      exact ⟨m₁, .cons hm hv hbefore, hafter⟩

/-- A body finds the lines of input that those before it have left. -/
theorem input_before (h : Replays s m (before ++ i :: after) m') :
    i.before.input = m.input.drop (before.flatMap (·.lines s)).length := by
  obtain ⟨m₁, hbefore, hafter⟩ := h.exists_replays_of_append
  cases hafter with
  | cons hm _ _ => rw [hbefore.input_eq, List.drop_left, ← Machine.input_of_quiet hm]

/-- **A body that reads is given the line behind those that were taken before it.** -/
theorem read_of_isRead (h : Replays s m (before ++ i :: after) m') (hread : i.isRead = true) :
    let line := m.input[(before.flatMap (·.lines s)).length]?
    i.lines s = line.toList ∧ ∃ m₁, i.result s = .ok (.str (line.getD "")) m₁ := by
  have hfirst := i.read_of_isRead s hread
  rwa [h.input_before, List.head?_drop] at hfirst

/-- If only bodies that read take lines, each of them takes the next one. -/
theorem flatMap_lines (h : Replays s m is m')
    (hothers : ∀ i ∈ is, i.isRead = false → i.lines s = []) :
    is.flatMap (·.lines s) = m.input.take (is.filter Invocation.isRead).length := by
  induction h with
  | nil => rfl
  | @cons m m₁ m' i v is hm hv _ ih =>
    obtain ⟨hi, his⟩ := List.forall_mem_cons.mp hothers
    have hlines := Invocation.lines_append_of_ok hv
    rw [List.flatMap_cons, ih his, Machine.input_of_quiet hm, ← hlines]
    rcases hread : i.isRead with - | -
    · rw [hi hread, List.filter_cons_of_neg (by simp [hread]), List.nil_append, List.nil_append]
    · rw [List.filter_cons_of_pos hread, List.length_cons]
      rw [(i.read_of_isRead s hread).1] at hlines ⊢
      rcases hinput : i.before.input with - | ⟨line, rest⟩
      · rw [hinput] at hlines
        simp [List.append_eq_nil_iff.mp hlines]
      · simp

/-- Invocations that read, counted from zero, and those before them. -/
theorem exists_append_of_getElem? {is : List Invocation} {k : Nat}
    (h : (is.filter Invocation.isRead)[k]? = some i) :
    ∃ before after, is = before ++ i :: after ∧ i.isRead = true ∧
      (before.filter Invocation.isRead).length = k := by
  obtain ⟨hk, hi⟩ := List.getElem?_eq_some_iff.mp h
  have hsplit := (List.take_append_drop k (is.filter Invocation.isRead)).symm
  rw [List.drop_eq_getElem_cons hk, hi] at hsplit
  obtain ⟨front, back, his, hfront, hback⟩ := List.filter_eq_append_iff.mp hsplit
  obtain ⟨others, after, rfl, hothers, hread, -⟩ := List.filter_eq_cons_iff.mp hback
  refine ⟨front ++ others, after, by rw [his, List.append_assoc], hread, ?_⟩
  rw [List.filter_append, List.filter_eq_nil_iff.mpr hothers, List.append_nil, hfront,
    List.length_take, Nat.min_eq_left hk.le]

/-- **Lines go to the bodies that read them, in order**, if no function of the host
takes any. -/
theorem lines (h : Replays s m is m')
    (hhost : ∀ i ∈ is, i.function.body.isHost = true → i.lines s = []) :
    m'.input = m.input.drop (is.filter Invocation.isRead).length ∧
      ∀ (k : Nat) (i : Invocation), (is.filter Invocation.isRead)[k]? = some i →
        ∃ m₁, i.result s = .ok (.str (m.input[k]?.getD "")) m₁ := by
  have hothers : ∀ i ∈ is, i.isRead = false → i.lines s = [] := by
    intro i hi hread
    rcases hbody : i.function.body.isHost with - | -
    · exact i.lines_eq_nil s hread hbody
    · exact hhost i hi hbody
  refine ⟨?_, fun k i hi => ?_⟩
  · have hinput := h.input_eq
    rw [h.flatMap_lines hothers] at hinput
    exact (List.append_cancel_left ((List.take_append_drop _ _).trans hinput)).symm
  · obtain ⟨before, after, rfl, hread, rfl⟩ := exists_append_of_getElem? hi
    obtain ⟨_, hbefore, -⟩ := h.exists_replays_of_append
    have htaken := hbefore.flatMap_lines fun j hj => hothers j (List.mem_append_left _ hj)
    obtain ⟨-, hline⟩ := h.read_of_isRead hread
    rw [htaken, List.length_take] at hline
    -- behind the end of the input there are no lines, wherever it is looked
    rcases Nat.le_total (before.filter Invocation.isRead).length m.input.length with hle | hle
    · rwa [Nat.min_eq_left hle] at hline
    · rw [Nat.min_eq_right hle, List.getElem?_eq_none le_rfl] at hline
      rwa [List.getElem?_eq_none hle]

end Replays

/-! ### Evaluation -/

namespace Stopped

variable {s : Settings} {parts : List Node} {m m' : Machine} {made : List Invocation} {e : Fault}

theorem proper (h : Stopped s parts m e made m') : ∀ i ∈ made, i.Proper s m.store := by
  cases h with
  | refused _ hvisited _ => exact hvisited.proper
  | raised _ hvisited _ hi _ =>
    exact List.forall_mem_append.mpr ⟨hvisited.proper, by simpa using hi⟩

theorem sites_front (h : Stopped s parts m e made m') :
    made.map Invocation.site <+: parts.filter Node.isCall := by
  cases h with
  | refused hparts hvisited _ =>
    rw [hvisited.sites, hparts, List.filter_append]
    exact List.prefix_append _ _
  | @raised visited rest made i _ _ hparts hvisited _ _ _ =>
    have hcall : Node.isCall i.site = true := rfl
    rw [hparts, List.filter_append, List.filter_cons_of_pos hcall, List.map_append, hvisited.sites]
    exact (List.prefix_append_right_inj _).mpr (List.prefix_append [i.site] _)

end Stopped

namespace Node

/-- A call without arguments of a function that takes a line of input. -/
def isReadCall (st : Store) : Node → Bool
  | call f [] =>
    match st.getFunction f with
    | .ok g => g.body.isRead
    | .error _ => false
  | _ => false

variable {n : Node} {m m' : Machine}

/-- The evaluation of an expression, and the invocations that it makes. -/
theorem IsExpression.walks (h : n.IsExpression) (s : Settings) (m : Machine) :
    match n.evaluate s m with
    | .ok _ m' => Completed s n.postorder m (n.invocations s m) m'
    | .error e m' => Stopped s n.postorder m e (n.invocations s m) m' := by
  have hwalked := h.walked s ⟨m, []⟩
  have herases : forget (n.watch s ⟨m, []⟩) = n.evaluate s m := erases_watch s n ⟨m, []⟩
  rw [← herases, invocations]
  rcases hw : n.watch s ⟨m, []⟩ with ⟨v, m', made⟩ | ⟨e, m', made⟩
  · rw [hw] at hwalked
    obtain ⟨_, rfl, hcompleted⟩ := hwalked
    exact hcompleted
  · rw [hw] at hwalked
    obtain ⟨_, rfl, hstopped⟩ := hwalked
    exact hstopped

/-- The calls that read without arguments are made in the order of the text. -/
theorem sites_of_reads {s : Settings} {made : List Invocation}
    (h : Completed s n.postorder m made m') :
    (made.filter fun i => i.isRead && i.operands.isEmpty).map Invocation.site
      = n.preorder.filter (isReadCall m.store) := by
  have hcall : ∀ k, isReadCall m.store k = true → ∃ f, k = call f [] := by
    intro k hk
    unfold isReadCall at hk
    split at hk
    · exact ⟨_, rfl⟩
    · cases hk
  -- what an invocation notes of its function is what the store holds at its site
  have hsame : ∀ i ∈ made,
      (i.isRead && i.operands.isEmpty) = (isReadCall m.store ∘ Invocation.site) i := by
    intro i hi
    have hfound := (h.proper i hi).found
    rcases i with ⟨f, ns, start, g, vs, before⟩
    rcases ns with - | ⟨n, ns⟩
    · simp only [Function.comp_apply, Invocation.site, isReadCall, hfound, Invocation.isRead,
        List.isEmpty_nil, Bool.and_true]
    · simp only [Function.comp_apply, Invocation.site, isReadCall, List.isEmpty_cons,
        Bool.and_false]
  rw [List.filter_congr hsame, ← List.filter_map, h.sites, List.filter_filter,
    ← filter_postorder hcall]
  refine List.filter_congr fun k _ => ?_
  rcases hk : isReadCall m.store k with - | -
  · rfl
  · obtain ⟨f, rfl⟩ := hcall k hk
    rfl

/-- **Calls are made in post-order, on arguments that fit.**  Watching changes nothing
about an evaluation.  The invocations that it makes are for the first calls of the
expression in post-order, each with a function that its name holds and with arguments
that fit the slots; the store stays as it is.  If evaluation fails, it stops at one part:
the calls before that part have been invoked, and the part itself only if it is a call
and its body failed.  If it succeeds, all calls have been invoked, and have taken the
lines that are gone from the input, one call behind the other.  Those that read have been
given the line behind those taken before them; so if functions of the host take no lines,
the lines have gone to them one by one.  Those without arguments are called in the order
of the text. -/
theorem evaluate_invokes_in_postorder (h : n.IsExpression) (s : Settings) (m : Machine) :
    let made := n.invocations s m
    let reads := made.filter Invocation.isRead
    forget (n.watch s ⟨m, []⟩) = n.evaluate s m ∧
      made.map Invocation.site <+: n.calls ∧
      (∀ i ∈ made, i.Proper s m.store) ∧
      ((n.evaluate s).final m).store = m.store ∧
      (∀ e m', n.evaluate s m = .error e m' → Stopped s n.postorder m e made m') ∧
      ∀ v m', n.evaluate s m = .ok v m' →
        Completed s n.postorder m made m' ∧
        m.input = made.flatMap (·.lines s) ++ m'.input ∧
        (∀ before i after, made = before ++ i :: after → i.isRead = true →
          let line := m.input[(before.flatMap (·.lines s)).length]?
          i.lines s = line.toList ∧ ∃ m₁, i.result s = .ok (.str (line.getD "")) m₁) ∧
        ((∀ i ∈ made, i.function.body.isHost = true → i.lines s = []) →
          m'.input = m.input.drop reads.length ∧
          ∀ (k : Nat) (i : Invocation), reads[k]? = some i →
            ∃ m₁, i.result s = .ok (.str (m.input[k]?.getD "")) m₁) ∧
        (reads.filter (·.operands.isEmpty)).map Invocation.site
          = n.preorder.filter (isReadCall m.store) := by
  intro made reads
  have hwalks := h.walks s m
  refine ⟨erases_watch s n ⟨m, []⟩, ?_⟩
  have hstill : ((n.evaluate s).final m).store = m.store := (h.still_evaluate s m).symm
  rcases hresult : n.evaluate s m with ⟨v, m'⟩ | ⟨e, m'⟩
  · rw [hresult] at hwalks
    -- a value: all calls are made
    have hcompleted : Completed s n.postorder m made m' := hwalks
    have hreplays := hcompleted.replays
    refine ⟨?_, hcompleted.proper, hstill, nofun, ?_⟩
    · rw [hcompleted.sites]
      exact List.prefix_refl _
    · rintro _ _ ⟨⟩
      refine ⟨hcompleted, hreplays.input_eq, ?_, hreplays.lines, ?_⟩
      · rintro before i after hmade
        exact (hmade ▸ hreplays).read_of_isRead
      rw [List.filter_filter, ← sites_of_reads hcompleted]
      congr 1
      exact List.filter_congr fun i _ => Bool.and_comm _ _
  · rw [hresult] at hwalks
    -- an error: the calls are made up to the one that stops
    have hstopped : Stopped s n.postorder m e made m' := hwalks
    refine ⟨hstopped.sites_front, hstopped.proper, hstill, ?_, nofun⟩
    rintro _ _ ⟨⟩
    exact hstopped

end Node

end AnyHost

namespace Node

/-- Two lines are read, one for an argument and one inside another; and where a call has
an argument too many, it is not made, while the calls in front of it are. -/
theorem evaluate_invokes_in_postorder_of_reads :
    let first : Function := ⟨⟨"first", [.any, .any], none⟩, .argument 0⟩
    let m := Machine.fresh (Store.seeded (first :: Function.standard)).1 ["a", "b", "c"]
    let read := call "read" []
    let good := call "first" [read, call "str" [read]]
    let bad := call "first" [read, call "read" [read]]
    (∃ m', good.evaluate {} m = .ok (.str "a") m' ∧ m'.input = ["c"] ∧
        (good.invocations {} m).map Invocation.site = [read, read, call "str" [read], good]) ∧
      ∃ e m', bad.evaluate {} m = .error e m' ∧
        Stopped {} bad.postorder m e (bad.invocations {} m) m' ∧
        (bad.invocations {} m).map Invocation.site = [read, read] := by
  have hread : (call "read" []).IsExpression := .call "read" (by simp)
  have hnested : ∀ f, (call f [call "read" []]).IsExpression :=
    fun f => .call f (by simpa using hread)
  have hcall : ∀ f, (call "first" [call "read" [], call f [call "read" []]]).IsExpression :=
    fun f => .call "first" (by simpa using ⟨hread, hnested f⟩)
  dsimp only
  refine ⟨⟨_, rfl, rfl, ?_⟩, _, _, rfl, ?_, rfl⟩
  · obtain ⟨-, -, -, -, -, hsucceeds⟩ := evaluate_invokes_in_postorder (hcall "str") {} _
    exact (hsucceeds _ _ rfl).1.sites
  · obtain ⟨-, -, -, -, hfails, -⟩ := evaluate_invokes_in_postorder (hcall "read") {} _
    exact hfails _ _ rfl

end Node

end LineScript
