/-
LineScript/Proofs/Safety.lean

Source lines do not crash, but for one reason.

A value is proper if it is no foreign datum and, where it is a function, one of
the standard ones.  A session that starts with the standard functions and is
given nothing but source lines never meets another value: the parser gives only
literals that are proper, the standard functions give proper values back, and
what is stored has been evaluated before.  `Run.Safe P r` carries this through
runs: from a store of proper values, `r` ends with a result of `P` or with a
failure, and leaves such a store.  There is one rule for each kind of run, and a
crash is excluded in every one of them.

What is left is parsing.  There an integer literal with more digits than the
host reads is a crash, if it is the first literal that cannot be read
(`parse_eq_crash_iff`).
-/
import LineScript.Proofs.Image
import LineScript.Proofs.ReadBack

namespace LineScript

open Grammar (Derivation)
open Lexeme (Lexes)

/-! ### Integers that are too long -/

namespace Statement

variable [Text.CharacterNames]

/-- A text of the grammar in which the first literal that cannot be read is an
integer with more digits than the host reads. -/
def Overlong (source : String) : Prop :=
  ∃ ls, Lexes (Text.trim source.toList) ls ∧ Nonempty (Derivation ls) ∧
    ∃ before text after, ls = before ++ .literal .integer text :: after ∧
      (∀ (k : LiteralKind) (t : String), .literal k t ∈ before → ∃ n, k.read t = .ok n) ∧
      digitLimit < (text.toList.filter Number.isDigit).length

/-- Reading a literal crashes exactly if it is an integer with too many
digits. -/
theorem read_eq_crash_iff {k : LiteralKind} {text : String} {c : Crash} :
    k.read text = .error (.crash c) ↔
      c = .overlongInteger ∧ k = .integer ∧
        digitLimit < (text.toList.filter Number.isDigit).length := by
  constructor
  · intro h
    cases k with
    | integer =>
      replace h : LiteralKind.readInteger text = .error (.crash c) := h
      unfold LiteralKind.readInteger at h
      dsimp only at h
      rw [Number.filter_isDigit_plain] at h
      split at h
      · -- the digits are counted before they are read
        next hlong =>
        cases h
        exact ⟨rfl, rfl, hlong⟩
      · split at h <;> cases h
    | decimal =>
      replace h : LiteralKind.readDecimal text = .error (.crash c) := h
      unfold LiteralKind.readDecimal at h
      dsimp only at h
      split at h <;> cases h
    | text =>
      replace h : LiteralKind.readText text = .error (.crash c) := h
      unfold LiteralKind.readText at h
      split at h <;> cases h
    | symbol | true | false | null => cases h
  · rintro ⟨rfl, rfl, hlong⟩
    show LiteralKind.readInteger text = _
    unfold LiteralKind.readInteger
    dsimp only
    rw [Number.filter_isDigit_plain, if_pos hlong]

/-- The first fault of lexemes is a crash exactly if the first literal that
cannot be read is an integer with too many digits. -/
theorem firstFault?_eq_crash_iff {ls : List Lexeme} {c : Crash} :
    Lexeme.firstFault? ls = some (.crash c) ↔
      c = .overlongInteger ∧
        ∃ before text after, ls = before ++ .literal .integer text :: after ∧
          (∀ (k : LiteralKind) (t : String), .literal k t ∈ before → ∃ n, k.read t = .ok n) ∧
          digitLimit < (text.toList.filter Number.isDigit).length := by
  rw [Lexeme.firstFault?, List.findSome?_eq_some_iff]
  constructor
  · -- the first fault is a crash, so the literals in front of it are read
    rintro ⟨before, l, after, rfl, hl, hbefore⟩
    obtain ⟨k, text, rfl, hread⟩ := Lexeme.fault?_eq_some_iff.mp hl
    obtain ⟨rfl, rfl, hlong⟩ := read_eq_crash_iff.mp hread
    refine ⟨rfl, before, text, after, rfl, ?_, hlong⟩
    intro k t hmem
    rcases hread : k.read t with e | n
    · have hfault := Lexeme.fault?_eq_some_iff.mpr ⟨k, t, rfl, hread⟩
      rw [hbefore _ hmem] at hfault
      cases hfault
    · exact ⟨n, rfl⟩
  · rintro ⟨rfl, before, text, after, rfl, hbefore, hlong⟩
    refine ⟨before, _, after, rfl, ?_, ?_⟩
    · exact Lexeme.fault?_eq_some_iff.mpr
        ⟨.integer, text, rfl, read_eq_crash_iff.mpr ⟨rfl, rfl, hlong⟩⟩
    · intro l hl
      rcases hfault : l.fault? with - | e
      · rfl
      · obtain ⟨k, t, rfl, hread⟩ := Lexeme.fault?_eq_some_iff.mp hfault
        obtain ⟨n, hn⟩ := hbefore k t hl
        rw [hread] at hn
        cases hn

/-- A sentence crashes with its first fault only. -/
theorem toNode_eq_crash_iff {w : Sentence} {c : Crash} :
    w.toNode = .error (.crash c) ↔ Lexeme.firstFault? w.lexemes = some (.crash c) := by
  rcases w.toNode_outcome with ⟨e, hfault, hw⟩ | ⟨hnone, ⟨n, hw⟩ | ⟨x, t, n, e, ht, hw⟩⟩
  · rw [hfault, hw]
    simp
  · rw [hnone, hw]
    simp
  · obtain ⟨f, rfl, -⟩ := Node.definitionType_eq_error ht
    rw [hnone, hw]
    simp

/-- **Parsing crashes exactly if an integer is too long**, and no literal
before it is refused. -/
theorem parse_eq_crash_iff {source : String} {c : Crash} :
    parse source = .error (.crash c) ↔ c = .overlongInteger ∧ Overlong source := by
  constructor
  · intro h
    rcases parse_cases source with ⟨w, hw, hparse⟩ | ⟨f, hparse, -⟩
    · rw [hparse, toNode_eq_crash_iff, firstFault?_eq_crash_iff] at h
      obtain ⟨hc, hlong⟩ := h
      exact ⟨hc, w.lexemes, hw, ⟨.ofSentence w hw.spelled⟩, hlong⟩
    · rw [hparse] at h
      cases h
  · rintro ⟨hc, ls, hls, ⟨d⟩, hlong⟩
    obtain ⟨w, -, rfl⟩ := d.exists_sentence
    rw [parse_of_lexes hls, toNode_eq_crash_iff, firstFault?_eq_crash_iff]
    exact ⟨hc, hlong⟩

end Statement

/-! ### Proper values -/

/-- A value of the language; of the functions only the standard ones. -/
def Value.Proper : Value → Prop
  | function signature body => ⟨signature, body⟩ ∈ Function.standard
  | foreign _ => False
  | _ => True

/-- A store that holds proper values only. -/
def Store.Proper (s : Store) : Prop :=
  ∀ y v, s.values.find? y = some v → v.Proper

namespace Value

theorem Proper.exists_classOf {v : Value} (h : v.Proper) : ∃ c, v.classOf = .ok c := by
  cases v with
  | foreign d => cases h
  | _ => exact ⟨_, rfl⟩

theorem Proper.exists_printed {v : Value} (h : v.Proper) (l : Language) :
    ∃ text, v.printed l = .ok text := by
  obtain ⟨c, hc⟩ := h.exists_classOf
  exact Value.exists_printed hc l

theorem Proper.exists_displayed {v : Value} (h : v.Proper) (l : Language) :
    ∃ text, v.displayed l = .ok text := by
  cases v with
  | foreign d => cases h
  | _ => exact ⟨_, rfl⟩

theorem IsLiteral.proper {v : Value} (h : v.IsLiteral) : v.Proper := by
  cases h <;> trivial

section All

variable {vs : List Value}

/-- What can be asked of every proper value can be asked of all of several. -/
theorem exists_mapM {α : Type} {f : Value → Except Fault α} (h : ∀ v ∈ vs, v.Proper)
    (hf : ∀ v : Value, v.Proper → ∃ a, f v = .ok a) :
    ∃ as, vs.mapM f = .ok as ∧ as.length = vs.length := by
  induction vs with
  | nil => exact ⟨[], rfl, rfl⟩
  | cons v vs ih =>
    obtain ⟨hv, hvs⟩ := List.forall_mem_cons.mp h
    obtain ⟨a, ha⟩ := hf v hv
    obtain ⟨as, has, hlength⟩ := ih hvs
    refine ⟨a :: as, ?_, by simp [hlength]⟩
    rw [List.mapM_cons, ha, has]
    rfl

theorem exists_classesOf (h : ∀ v ∈ vs, v.Proper) :
    ∃ cs, classesOf vs = .ok cs ∧ cs.length = vs.length :=
  exists_mapM h fun _ hv => hv.exists_classOf

theorem exists_printedAll (h : ∀ v ∈ vs, v.Proper) (l : Language) :
    ∃ texts, vs.mapM (·.printed l) = .ok texts := by
  obtain ⟨texts, htexts, -⟩ := exists_mapM h fun _ hv => hv.exists_printed l
  exact ⟨texts, htexts⟩

end All

end Value

/-! ### Stores of proper values -/

namespace Store

variable {s t : Store} {x : String} {y : Symbol} {v : Value}

theorem proper_empty : empty.Proper := by
  intro y v h
  cases h

theorem Proper.insert (h : s.Proper) (hv : v.Proper) (symbols : Table String Symbol)
    (y : Symbol) : Proper ⟨symbols, s.values.insert y v⟩ := by
  intro z w hw
  rw [Table.find?_insert] at hw
  split at hw
  · cases hw
    exact hv
  · exact h z w hw

theorem Proper.register (h : s.Proper) (hv : v.Proper) (ht : s.register x v = .ok t) :
    t.Proper := by
  obtain ⟨-, -, -, rfl⟩ | ⟨c, -, -, rfl⟩ := register_eq_ok ht
  · exact h
  · exact h.insert hv _ _

theorem Proper.registerClasses (h : s.Proper) (cs : List Class) :
    (s.registerClasses cs).1.Proper := by
  induction cs generalizing s with
  | nil => exact h
  | cons c cs ih =>
    rw [Store.registerClasses]
    split
    · next t ht =>
      have hvalue : (Value.ofClass c).Proper := trivial
      exact ih (h.register hvalue ht)
    · exact h

theorem Proper.registerFunctions (h : s.Proper) {fs : List Function}
    (hfs : ∀ f ∈ fs, f ∈ Function.standard) : (s.registerFunctions fs).1.Proper := by
  induction fs generalizing s with
  | nil => exact h
  | cons f fs ih =>
    obtain ⟨hf, hrest⟩ := List.forall_mem_cons.mp hfs
    rw [Store.registerFunctions]
    split
    · next t ht =>
      have hvalue : f.toValue.Proper := hf
      exact ih (h.register hvalue (registerFunction_eq_ok ht).2) hrest
    · exact h

theorem proper_standard : Store.standard.Proper :=
  (proper_empty.registerClasses Class.builtin).registerFunctions fun _ hf => hf

end Store

/-! ### Safe runs -/

/-- An outcome that is no crash, with a result of `P`. -/
def Harmless {α : Type} (P : α → Prop) : Except Fault α → Prop
  | .ok a => P a
  | .error (.failure _) => True
  | .error (.crash _) => False

theorem Harmless.bind {α β : Type} {P : α → Prop} {Q : β → Prop} {x : Except Fault α}
    {f : α → Except Fault β} (hx : Harmless P x) (hf : ∀ a, P a → Harmless Q (f a)) :
    Harmless Q (x >>= f) := by
  rcases x with (e | c) | a
  · trivial
  · cases hx
  · exact hf a hx

theorem Value.Proper.harmless_classOf {v : Value} (h : v.Proper) :
    Harmless (fun _ => True) v.classOf := by
  obtain ⟨c, hc⟩ := h.exists_classOf
  rw [hc]
  trivial

namespace Run

variable [Host]
variable {α β : Type} {P : α → Prop} {Q : β → Prop}

/-- A run that leads from proper stores to proper stores, with a result of `P`
or with a failure. -/
def Safe (P : α → Prop) (r : Run α) : Prop :=
  ∀ m, m.store.Proper → match r m with
    | .ok a m => P a ∧ m.store.Proper
    | .error (.failure _) m => m.store.Proper
    | .error (.crash _) _ => False

theorem Safe.bind {r : Run α} {f : α → Run β} (hr : Safe P r) (hf : ∀ a, P a → Safe Q (f a)) :
    Safe Q (r >>= f) := by
  intro m hm
  have hrun := hr m hm
  rcases h : r m with ⟨a, m'⟩ | ⟨e | c, m'⟩
  · rw [h] at hrun
    rw [bind_of_ok h]
    exact hf a hrun.1 m' hrun.2
  · rw [h] at hrun
    rw [bind_of_error h]
    exact hrun
  · rw [h] at hrun
    cases hrun

theorem safe_pure {a : α} (h : P a) : Safe P (pure a) :=
  fun _ hm => ⟨h, hm⟩

theorem safe_throw (f : Failure) : Safe P (throw (.failure f)) :=
  fun _ hm => hm

theorem safe_ofExcept {x : Except Fault α} (h : Harmless P x) : Safe P (ofExcept x) := by
  intro m hm
  rcases x with (f | c) | a
  · exact hm
  · cases h
  · exact ⟨h, hm⟩

theorem safe_look {f : Store → Except Fault α} (h : ∀ s, s.Proper → Harmless P (f s)) :
    Safe P (look f) := by
  intro m hm
  have hs := h m.store hm
  unfold look
  rcases hf : f m.store with (e | c) | a
  · exact hm
  · rw [hf] at hs
    cases hs
  · rw [hf] at hs
    exact ⟨hs, hm⟩

theorem safe_update {f : Store → Except Fault Store}
    (h : ∀ s, s.Proper → Harmless Store.Proper (f s)) : Safe (fun _ => True) (update f) := by
  intro m hm
  have hs := h m.store hm
  unfold update
  rcases hf : f m.store with (e | c) | t
  · exact hm
  · rw [hf] at hs
    cases hs
  · rw [hf] at hs
    exact ⟨trivial, hs⟩

theorem safe_emit (e : Event) : Safe (fun _ => True) (emit e) :=
  fun _ hm => ⟨trivial, hm⟩

theorem safe_trace (s : Settings) (level : Nat) (text : String) :
    Safe (fun _ => True) (trace s level text) := by
  unfold trace
  split
  · exact safe_emit _
  · exact safe_pure trivial

theorem safe_nextLine : Safe (fun _ => True) nextLine :=
  fun _ hm => ⟨trivial, hm⟩

end Run

/-! ### What is done to the store -/

namespace Store

variable {s : Store} (hs : s.Proper)

include hs

theorem harmless_get (x : String) : Harmless Value.Proper (s.get x) := by
  rcases hy : s.symbols.find? x with - | y
  · rw [get_of_absent hy]
    trivial
  · rw [get_of_symbol hy]
    rcases hv : s.values.find? y with - | v
    · trivial
    · exact hs y v hv

theorem harmless_getFunction (x : String) :
    Harmless (· ∈ Function.standard) (s.getFunction x) := by
  refine (harmless_get hs x).bind fun v hv => ?_
  rcases hf : v.asFunction? with - | f
  · exact hv.harmless_classOf.bind fun _ _ => trivial
  -- every function that is stored is a standard one
  · cases v with
    | function signature body =>
      cases hf
      exact hv
    | _ => cases hf

theorem harmless_resolveType (type : String) :
    Harmless (fun _ => True) (s.resolveType type) := by
  rw [resolveType]
  rcases hv : (s.symbols.find? type).bind s.values.find? with - | v
  · trivial
  · obtain ⟨y, -, hy⟩ := Option.bind_eq_some_iff.mp hv
    dsimp only
    rcases v.asClass? with - | c
    · exact (hs y v hy).harmless_classOf.bind fun _ _ => trivial
    · trivial

theorem harmless_declare (x type : String) (m : Bool) : Harmless Proper (s.declare x type m) := by
  rw [declare]
  split
  · trivial
  · exact (harmless_resolveType hs type).bind fun _ _ => hs

theorem harmless_assign (x : String) {v : Value} (hv : v.Proper) :
    Harmless Proper (s.assign x v) := by
  rcases hy : s.symbols.find? x with - | y
  · rw [assign_of_absent hy]
    trivial
  · obtain ⟨c, hc⟩ := hv.exists_classOf
    rw [assign_of_symbol hy, hc]
    split
    · trivial
    · dsimp only
      split
      · exact hs.insert hv _ y
      · trivial

end Store

/-! ### Debug forms -/

namespace Node

theorem exists_debugForms (l : Language) {ns : List Node}
    (h : ∀ n ∈ ns, ∃ form, n.debugForm l = .ok form) : ∃ forms, debugForms l ns = .ok forms := by
  induction ns with
  | nil => exact ⟨[], rfl⟩
  | cons n ns ih =>
    obtain ⟨⟨form, hform⟩, hns⟩ := List.forall_mem_cons.mp h
    obtain ⟨forms, hforms⟩ := ih hns
    rw [debugForms, hform, hforms]
    exact ⟨_, rfl⟩

theorem WellFormed.exists_debugForm (l : Language) {n : Node} (h : n.WellFormed) :
    ∃ form, n.debugForm l = .ok form := by
  induction h with
  | literal hv _ =>
    rw [debugForm]
    exact hv.proper.exists_printed l
  | identifier => exact ⟨_, rfl⟩
  | @call f ns _ _ ih =>
    obtain ⟨forms, hforms⟩ := exists_debugForms l ih
    rw [debugForm, hforms]
    exact ⟨_, rfl⟩

theorem IsStatement.exists_debugForm (l : Language) {n : Node} (h : n.IsStatement) :
    ∃ form, n.debugForm l = .ok form := by
  cases h with
  | declaration m => exact ⟨_, rfl⟩
  | definition m _ _ he =>
    obtain ⟨form, hform⟩ := he.exists_debugForm l
    simp only [debugForm, debugForms, hform]
    exact ⟨_, rfl⟩
  | assignment _ he =>
    obtain ⟨form, hform⟩ := he.exists_debugForm l
    rw [debugForm, hform]
    exact ⟨_, rfl⟩
  | expression he => exact he.exists_debugForm l

end Node

/-! ### Functions -/

open Run

section AnyHost

variable [Host]

theorem safe_nthArgument {args : List Value} (hargs : ∀ v ∈ args, v.Proper) {index : Nat}
    (hindex : index < args.length) : Safe Value.Proper (nthArgument args index) := by
  rw [nthArgument, List.getElem?_eq_getElem hindex]
  exact safe_pure (hargs _ (List.getElem_mem hindex))

theorem safe_ofOk {α : Type} {x : Except Fault α} (h : ∃ a, x = .ok a) :
    Safe (fun _ => True) (Run.ofExcept x) := by
  obtain ⟨a, rfl⟩ := h
  exact safe_ofExcept trivial

/-- A standard function that has an argument for each slot gives a proper
value. -/
theorem Function.safe_run (s : Settings) {f : Function} (hf : f ∈ Function.standard)
    {args : List Value} (hargs : ∀ v ∈ args, v.Proper)
    (hlength : f.signature.inputs.length = args.length) :
    Safe Value.Proper (f.body.run s args) := by
  have hfirst : 1 = args.length → Safe Value.Proper (nthArgument args 0) :=
    fun hone => safe_nthArgument hargs (Nat.lt_of_lt_of_eq Nat.zero_lt_one hone)
  simp only [Function.standard, List.mem_cons, List.not_mem_nil, or_false] at hf
  rcases hf with rfl | rfl | rfl | rfl
  · refine (hfirst hlength).bind fun v hv => ?_
    exact (safe_ofOk (hv.exists_displayed s.language)).bind fun text _ =>
      (safe_emit _).bind fun _ _ => safe_pure trivial
  · exact safe_nextLine.bind fun line _ => safe_pure trivial
  · refine (hfirst hlength).bind fun v hv => ?_
    exact (safe_ofOk hv.exists_classOf).bind fun c _ => safe_pure trivial
  · refine (hfirst hlength).bind fun v hv => ?_
    exact (safe_ofOk (hv.exists_printed s.language)).bind fun text _ => safe_pure trivial

theorem Function.safe_call (s : Settings) {f : Function} (hf : f ∈ Function.standard)
    {args : List Value} (hargs : ∀ v ∈ args, v.Proper) : Safe Value.Proper (f.call s args) := by
  obtain ⟨classes, hclasses, hlength⟩ := Value.exists_classesOf hargs
  have hofExcept : Safe (· = classes) (Run.ofExcept (classesOf args)) := by
    refine safe_ofExcept ?_
    rw [hclasses]
    rfl
  refine hofExcept.bind ?_
  rintro _ rfl
  -- arguments that are admitted are as many as the slots
  split
  · next hadmits =>
    rw [Signature.admits, Bool.and_eq_true, beq_iff_eq] at hadmits
    exact safe_run s hf hargs (hadmits.1.trans hlength)
  · exact safe_throw _

/-! ### Statements -/

namespace Node

theorem safe_evaluateAll (s : Settings) {ns : List Node}
    (h : ∀ n ∈ ns, Safe Value.Proper (n.evaluate s)) :
    Safe (fun vs => ∀ v ∈ vs, v.Proper) (evaluateAll s ns) := by
  induction ns with
  | nil => exact safe_pure (by simp)
  | cons n ns ih =>
    obtain ⟨hn, hns⟩ := List.forall_mem_cons.mp h
    rw [evaluateAll]
    exact hn.bind fun v hv => (ih hns).bind fun vs hvs =>
      safe_pure (List.forall_mem_cons.mpr ⟨hv, hvs⟩)

/-- Well-formed expressions are evaluated without a crash. -/
theorem WellFormed.safe_evaluate (s : Settings) {n : Node} (h : n.WellFormed) :
    Safe Value.Proper (n.evaluate s) := by
  induction h with
  | literal hv _ => exact safe_pure hv.proper
  | identifier => exact safe_look fun t ht => t.harmless_get ht _
  | call _ _ ih =>
    rw [evaluate]
    refine (safe_evaluateAll s ih).bind fun vs hvs => ?_
    refine (safe_look fun t ht => t.harmless_getFunction ht _).bind fun g hg => ?_
    exact (safe_ofOk (Value.exists_printedAll hvs s.language)).bind fun texts _ =>
      (safe_trace s 3 _).bind fun _ _ => Function.safe_call s hg hvs

theorem safe_evaluate_declaration (s : Settings) (x t : String) (m : Bool) :
    Safe Value.Proper ((declaration x t m).evaluate s) := by
  rw [evaluate]
  exact (safe_update fun r hr => r.harmless_declare hr x t m).bind fun _ _ =>
    (safe_trace s 2 _).bind fun _ _ => safe_pure trivial

theorem safe_evaluate_assignment (s : Settings) (x : String) {n : Node}
    (hn : Safe Value.Proper (n.evaluate s)) :
    Safe Value.Proper ((assignment x n).evaluate s) := by
  rw [evaluate]
  refine hn.bind fun v hv => ?_
  refine (safe_update fun r hr => r.harmless_assign hr x hv).bind fun _ _ => ?_
  exact (safe_ofOk (hv.exists_printed s.language)).bind fun _ _ =>
    (safe_trace s 2 _).bind fun _ _ => safe_pure hv

/-- Statements are evaluated without a crash. -/
theorem IsStatement.safe_evaluate (s : Settings) {n : Node} (h : n.IsStatement) :
    Safe Value.Proper (n.evaluate s) := by
  cases h with
  | declaration m => exact safe_evaluate_declaration s _ _ m
  | definition m _ _ he =>
    rw [evaluate_pair]
    exact (safe_evaluate_declaration s _ _ m).bind fun _ _ =>
      safe_evaluate_assignment s _ (he.safe_evaluate s)
  | assignment _ he => exact safe_evaluate_assignment s _ (he.safe_evaluate s)
  | expression he => exact he.safe_evaluate s

end Node

/-! ### Source lines -/

namespace Run

theorem safe_conclude (s : Settings) {v : Value} (hv : v.Proper) :
    Safe Value.Proper (conclude s v) := by
  exact (safe_ofOk (hv.exists_printed s.language)).bind fun _ _ =>
    (safe_ofOk hv.exists_classOf).bind fun _ _ =>
      (safe_trace s 2 _).bind fun _ _ => safe_pure hv

theorem safe_node (s : Settings) {n : Node} (h : Safe Value.Proper (n.evaluate s)) :
    Safe Value.Proper (node s n) := by
  intro m hm
  have hn := h m hm
  unfold node
  rcases hr : n.evaluate s m with ⟨v, m'⟩ | ⟨f | c, m'⟩
  · rw [hr] at hn
    exact safe_conclude s hn.1 m' hn.2
  -- a failure is logged, which leaves the store alone
  · rw [hr] at hn
    obtain ⟨m'', hm'', hstore⟩ := exists_trace s 1 (failureLine f) m'
    dsimp only
    rw [hm'']
    show m''.store.Proper
    rw [hstore]
    exact hn
  · rw [hr] at hn
    cases hn

/-- A line that is parsed is run without a crash. -/
theorem safe_execute (s : Settings) {source : String} {n : Node}
    (h : Statement.parse source = .ok n) : Safe Value.Proper (execute s source) := by
  have hn := Statement.isStatement_of_parse h
  have hread : Safe (· = n) (read s source) := by
    have hok : Harmless (· = n) (.ok n) := rfl
    rw [read, h]
    refine (safe_ofExcept hok).bind ?_
    rintro _ rfl
    exact (safe_ofOk (hn.exists_debugForm s.language)).bind fun form _ =>
      (safe_trace s 1 _).bind fun _ _ => safe_pure rfl
  refine hread.bind ?_
  rintro _ rfl
  exact safe_node s (hn.safe_evaluate s)

end Run

/-! ### Sessions -/

end AnyHost

/-- A source line, and whether it is completed as the console does before it is
run. -/
structure Line where
  source : String
  isCompleted : Bool

namespace Line

/-- Running a line, as a step of a session. -/
def step (l : Line) : Step :=
  if l.isCompleted then .executeLine l.source else .execute l.source

/-- The text that is run for a line. -/
def text (l : Line) (s : Store) : String :=
  if l.isCompleted then s.completeLine l.source else l.source

end Line

namespace Session

section AnyHost

variable [Host]

theorem perform_executeLine (s : Session) (source : String) :
    s.perform (.executeLine source)
      = s.perform (.execute (s.machine.store.completeLine source)) := by
  have hlook : look (fun t => .ok (t.completeLine source)) s.machine
      = .ok (s.machine.store.completeLine source) s.machine := rfl
  have haction : action s.settings (.executeLine source) s.machine
      = action s.settings (.execute (s.machine.store.completeLine source)) s.machine := by
    show (look _ >>= fun line => Answer.value <$> Run.execute s.settings line) s.machine = _
    rw [bind_of_ok hlook]
    rfl
  simp only [perform, settingsAfter, haction]

theorem perform_line (s : Session) (l : Line) :
    s.perform l.step = s.perform (.execute (l.text s.machine.store)) := by
  unfold Line.step Line.text
  split
  · exact perform_executeLine s l.source
  · rfl

/-- What a line does to a session with a proper store: a crash comes from
parsing, and all else ends with a proper value or a failure. -/
theorem perform_execute_cases {s : Session} (hs : s.machine.store.Proper) (source : String) :
    (s.perform (.execute source)).1.machine.store.Proper ∧
      ((∃ c, Statement.parse source = .error (.crash c) ∧
          (s.perform (.execute source)).2 = .error (.crash c)) ∨
        (∀ c, Statement.parse source ≠ .error (.crash c)) ∧
          Harmless (fun a => ∃ v, a = .value v ∧ v.Proper) (s.perform (.execute source)).2) := by
  rw [perform_execute]
  rcases hparse : Statement.parse source with e | n
  · -- a text that is not parsed changes nothing
    have hrun : Run.execute s.settings source s.machine = .error e s.machine :=
      bind_of_error (read_of_parse_error s.settings hparse s.machine)
    rw [hrun]
    rcases e with f | c
    · exact ⟨hs, .inr ⟨by simp, trivial⟩⟩
    · exact ⟨hs, .inl ⟨c, rfl, rfl⟩⟩
  · -- a statement is safe on a proper store
    have hsafe := safe_execute s.settings hparse s.machine hs
    rcases hr : Run.execute s.settings source s.machine with ⟨v, m⟩ | ⟨f | c, m⟩
    · rw [hr] at hsafe
      exact ⟨hsafe.2, .inr ⟨by simp, v, rfl, hsafe.1⟩⟩
    · rw [hr] at hsafe
      exact ⟨hsafe, .inr ⟨by simp, trivial⟩⟩
    · rw [hr] at hsafe
      cases hsafe

/-- Lines keep the store proper. -/
theorem proper_performAll {s : Session} (hs : s.machine.store.Proper) (lines : List Line) :
    (s.performAll (lines.map Line.step)).machine.store.Proper := by
  induction lines generalizing s with
  | nil => exact hs
  | cons l lines ih =>
    rw [List.map_cons, performAll]
    refine ih ?_
    rw [perform_line]
    exact (perform_execute_cases hs _).1

/-- **Source lines do not crash**, whatever lines have been run before, whatever
the input and the settings, but for an integer that is too long: every line ends
with a value that has a class, with a failure, or with that crash, and with the
crash exactly if the text that is run has such an integer as the first literal
that cannot be read. -/
theorem lines_do_not_crash (settings : Settings) (input : List String) (lines : List Line)
    (line : Line) :
    let s := (standard settings input).performAll (lines.map Line.step)
    let outcome := (s.perform line.step).2
    ((∃ v c, outcome = .ok (.value v) ∧ v.classOf = .ok c) ∨
      (∃ f, outcome = .error (.failure f)) ∨ outcome = .error (.crash .overlongInteger)) ∧
    (outcome = .error (.crash .overlongInteger) ↔
      Statement.Overlong (line.text s.machine.store)) := by
  intro s outcome
  have hs : s.machine.store.Proper := proper_performAll Store.proper_standard lines
  have hoverlong : ∀ c, Statement.parse (line.text s.machine.store) = .error (.crash c) ↔
      c = .overlongInteger ∧ Statement.Overlong (line.text s.machine.store) :=
    fun c => Statement.parse_eq_crash_iff
  have houtcome : outcome = (s.perform (.execute (line.text s.machine.store))).2 := by
    show (s.perform line.step).2 = _
    rw [perform_line]
  rcases (perform_execute_cases hs (line.text s.machine.store)).2 with
    ⟨c, hparse, hcrash⟩ | ⟨hparse, hharmless⟩
  · -- the crash comes from the parser
    obtain ⟨rfl, hlong⟩ := (hoverlong c).mp hparse
    rw [← houtcome] at hcrash
    exact ⟨.inr (.inr hcrash), ⟨fun _ => hlong, fun _ => hcrash⟩⟩
  · -- the text is parsed or refused, and the rest is harmless
    have hshort : ¬ Statement.Overlong (line.text s.machine.store) :=
      fun hlong => hparse _ ((hoverlong _).mpr ⟨rfl, hlong⟩)
    rw [← houtcome] at hharmless
    rcases hr : outcome with (f | c) | a
    · exact ⟨.inr (.inl ⟨f, rfl⟩), by simp [hshort]⟩
    · rw [hr] at hharmless
      cases hharmless
    · rw [hr] at hharmless
      obtain ⟨v, rfl, hv⟩ := hharmless
      obtain ⟨c, hc⟩ := hv.exists_classOf
      exact ⟨.inl ⟨v, c, rfl, hc⟩, by simp [hshort]⟩

end AnyHost

end Session

/-- A host that has a name for one character. -/
@[reducible] def Host.bullet : Host :=
  { Host.plain with toCharacterNames := .bullet }

/-- A text that names a character, and behind it an integer that is too long. -/
theorem Statement.overlong_of_call {digits : String}
    (hdigits : Token.Spells (.literal .integer) digits.toList)
    (hlong : digitLimit < (digits.toList.filter Number.isDigit).length) :
    letI : Host := .bullet
    Overlong ("f(\"\\N\x7bBULLET\x7d\"," ++ digits ++ ")") := by
  let _ : Host := .bullet
  let named := "\"\\N\x7bBULLET\x7d\""
  let p : Phrase := .call "f" [.literal .text named, .literal .integer digits]
  have hlexemes : p.lexemes = [.name "f", .opening, .literal .text named, .comma,
    .literal .integer digits, .closing] := rfl
  have hlexeme : Token.lexeme? named.toList = some (.literal .text, named.toList) := by
    decide +kernel
  have hspelled : ∀ l ∈ p.lexemes, l.Spelled := by
    rw [hlexemes]
    simp only [List.forall_mem_cons]
    exact ⟨Lexeme.spelled_name_iff.mpr (by decide), Lexeme.spelled_opening,
      Token.spells_of_lexeme? hlexeme, Lexeme.spelled_comma, hdigits, Lexeme.spelled_closing,
      by simp⟩
  have hwritten : p.written = "f(\"\\N\x7bBULLET\x7d\"," ++ digits ++ ")" := by
    rw [Phrase.written_call, ← String.toList_inj]
    simp [named]
  have hderivation : Derivation p.lexemes := .ofSentence (.expression p) hspelled
  rw [← hwritten]
  refine ⟨_, Phrase.lexes_trim_written hspelled, ⟨hderivation⟩,
    [.name "f", .opening, .literal .text named, .comma], digits, [.closing], hlexemes, ?_, hlong⟩
  intro k t ht
  -- the only literal in front of the digits is the named escape, which is read
  obtain ⟨rfl, rfl⟩ : k = .text ∧ t = named := by
    simpa [Lexeme.literal, Lexeme.name, Lexeme.opening, Lexeme.comma] using ht
  exact ⟨_, LiteralKind.read_bullet⟩

namespace Session

/-- One digit more than the host reads, behind a text that names a character. -/
theorem lines_do_not_crash_of_long_integer :
    letI : Host := .bullet
    let digits := String.ofList (List.replicate (digitLimit + 1) '9')
    let source := "f(\"\\N\x7bBULLET\x7d\"," ++ digits ++ ")"
    Statement.Overlong source ∧
      ((standard {} []).perform (.execute source)).2 = .error (.crash .overlongInteger) := by
  intro digits source
  have hchars : digits.toList = List.replicate (digitLimit + 1) '9' := String.toList_ofList
  have hdigits : Token.Spells (.literal .integer) digits.toList := by
    rw [hchars]
    refine .integer (.inl rfl) ⟨by decide, fun d hd => ?_⟩
    rw [List.eq_of_mem_replicate hd]
    decide
  have hcount : digitLimit < (digits.toList.filter Number.isDigit).length := by
    rw [hchars, List.filter_replicate, if_pos (by decide), List.length_replicate]
    exact Nat.lt_succ_self _
  have hlong := Statement.overlong_of_call hdigits hcount
  exact ⟨hlong, (@lines_do_not_crash .bullet {} [] [] ⟨source, false⟩).2.mpr hlong⟩

end Session

end LineScript
