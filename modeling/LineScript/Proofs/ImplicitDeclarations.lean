/-
LineScript/Proofs/ImplicitDeclarations.lean

Assignments to names that are not declared.

The console takes such a line for a declaration: it glues `var ` in front of the
line and executes the result.  The line is not trimmed before that, so the blanks
in front of the statement come to stand inside the new one, behind the keyword.

* If they are spaces and tabs, the new text has the lexemes of the old one behind
  the keyword (`lexes_var_iff`).  The assignment becomes a definition without a
  type, which gives the name its first value if that is a literal other than
  `null`, and fails otherwise.
* If one of them is another blank, trimming would have dropped it from the line,
  but no lexeme starts with it.  The new text is refused there
  (`parse_var_of_blank`), though the line alone is parsed.

The quick look at a line that is not parsed may find a name all the same.  Then
the line with the keyword is not parsed either (`exists_parse_var_error`).
-/
import LineScript.Proofs.FirstValues
import LineScript.Proofs.Logs
import LineScript.Proofs.Targets

namespace LineScript

open Lexeme (Lexes)
open Token (isGap)

/-! ### Texts behind a keyword -/

namespace Text

variable {a r cs : List Char}

theorem exists_nonblank_of_trim (h : trim cs ≠ []) : ∃ d ∈ cs, isBlank d = false := by
  obtain ⟨p, q, hcs, -, -⟩ := exists_margins cs
  obtain ⟨d, t, htrim⟩ := List.exists_cons_of_ne_nil h
  refine ⟨d, ?_, isBlank_head?_trim cs d (by rw [htrim]; rfl)⟩
  rw [hcs, htrim]
  simp

/-- Nothing is trimmed from the front part of a text if it starts with no blank
and more than blanks follows it. -/
theorem exists_trim_append (ha : ∀ c ∈ (a ++ r).head?, isBlank c = false)
    (hr : ∃ d ∈ r, isBlank d = false) : ∃ r', trim (a ++ r) = a ++ r' := by
  obtain ⟨d, hd, hblank⟩ := hr
  obtain ⟨r₁, r₂, rfl⟩ := List.append_of_mem hd
  rw [trim, trimStart_eq_self ha, ← List.append_assoc, Statement.trimEnd_append hblank,
    List.append_assoc]
  exact ⟨_, rfl⟩

end Text

namespace Token

variable {gs r : List Char} {c : Char}

/-- No token starts with a blank. -/
theorem lexeme?_of_isBlank (h : Text.isBlank c = true) (r : List Char) :
    lexeme? (c :: r) = none := by
  rw [Option.eq_none_iff_forall_ne_some]
  rintro ⟨k, w⟩ hk
  have hspells := spells_of_lexeme? hk
  obtain ⟨rest, hrest⟩ := lexeme?_front hk
  rcases w with - | ⟨d, w⟩
  · exact hspells.ne_nil rfl
  · cases hrest
    rw [hspells.isBlank_head? c rfl] at h
    cases h

/-- Passing over spaces and tabs moves the column by their number. -/
theorem scanFrom_gaps (hgs : ∀ g ∈ gs, isGap g = true) (column : Nat) (r : List Char) :
    scanFrom 0 column (gs ++ r) = scanFrom 0 (column + gs.length) r := by
  induction gs generalizing column with
  | nil => rfl
  | cons g gs ih =>
    rw [List.forall_mem_cons] at hgs
    -- a gap is no line feed
    have hcolumn : columnAfter column g = column + 1 := by
      rw [columnAfter, if_neg]
      rintro rfl
      cases hgs.1
    rw [List.cons_append, scan_gap hgs.1, hcolumn, ih hgs.2, List.length_cons]
    congr 1
    omega

end Token

theorem Lexeme.lexes_gaps_iff {gs cs : List Char} {ls : List Lexeme}
    (hgs : ∀ g ∈ gs, isGap g = true) : Lexes (gs ++ cs) ls ↔ Lexes cs ls := by
  induction gs with
  | nil => rfl
  | cons g gs ih =>
    rw [List.forall_mem_cons] at hgs
    rw [← ih hgs.2]
    exact ⟨fun h => Lexes.of_gap hgs.1 h, fun h => .gap hgs.1 h⟩

/-- The sentences that start with a keyword. -/
theorem Sentence.cases_of_keyword {w : Sentence} {isMutable : Bool} {ls : List Lexeme}
    (h : w.lexemes = .keyword isMutable :: ls) :
    (∃ x t, w = .declaration isMutable x t) ∨ (∃ x t p, w = .definition isMutable x (some t) p) ∨
      ∃ x p, w = .definition isMutable x none p := by
  rcases w with ⟨m, y, t⟩ | ⟨m, y, _ | t, p⟩ | ⟨y, p⟩ | (⟨k, text⟩ | y | ⟨f, ps⟩)
  · cases m <;> cases isMutable <;> cases h <;> exact .inl ⟨y, t, rfl⟩
  · cases m <;> cases isMutable <;> cases h <;> exact .inr (.inr ⟨y, p, rfl⟩)
  · cases m <;> cases isMutable <;> cases h <;> exact .inr (.inl ⟨y, t, p, rfl⟩)
  · cases isMutable <;> cases h
  · cases isMutable <;> cases h
  · cases isMutable <;> cases h
  · cases isMutable <;> cases h

/-! ### Lines behind a keyword -/

namespace Statement

variable {line x : String} {rest : List Char} {c : Char} {ls : List Lexeme}

theorem toList_var (line : String) :
    ("var " ++ line).toList = (Lexeme.keyword true).chars ++ ' ' :: line.toList := by
  rw [String.toList_append]
  rfl

/-- The spaces and tabs in front of a line. -/
def gaps (line : String) : List Char :=
  line.toList.takeWhile isGap

/-- The first character of a line that is neither a space nor a tab. -/
def firstChar? (line : String) : Option Char :=
  (line.toList.dropWhile isGap).head?

theorem isGap_of_mem_gaps (line : String) : ∀ g ∈ gaps line, isGap g = true :=
  fun _ hg => List.mem_takeWhile_imp hg

theorem exists_firstChar? (h : Text.trim line.toList ≠ []) :
    ∃ c rest, firstChar? line = some c ∧ line.toList = gaps line ++ c :: rest ∧
      isGap c = false := by
  have hsplit : gaps line ++ line.toList.dropWhile isGap = line.toList :=
    List.takeWhile_append_dropWhile
  rcases hdrop : line.toList.dropWhile isGap with - | ⟨c, rest⟩
  · -- there would be nothing but spaces and tabs
    obtain ⟨d, hd, hblank⟩ := Text.exists_nonblank_of_trim h
    rw [List.dropWhile_eq_nil_iff] at hdrop
    rw [Token.isBlank_of_isGap (hdrop d hd)] at hblank
    cases hblank
  · rw [hdrop] at hsplit
    refine ⟨c, rest, by rw [firstChar?, hdrop, List.head?_cons], hsplit.symm, ?_⟩
    have hhead := List.head?_dropWhile_not isGap line.toList
    rw [hdrop] at hhead
    simpa using hhead

/-- Behind spaces and tabs the keyword adds one lexeme. -/
theorem lexes_var_iff (hline : line.toList = gaps line ++ c :: rest)
    (hc : Text.isBlank c = false) :
    Lexes (Text.trim ("var " ++ line).toList) ls ↔
      ∃ ls', ls = .keyword true :: ls' ∧ Lexes (Text.trim line.toList) ls' := by
  have hgs := isGap_of_mem_gaps line
  generalize gaps line = gs at hline hgs
  have hblank : ∀ g ∈ gs, Text.isBlank g = true := fun g hg => Token.isBlank_of_isGap (hgs g hg)
  have hhead : ∀ d ∈ (c :: rest).head?, Text.isBlank d = false := by
    rintro d ⟨⟩
    exact hc
  have hstops : Token.Stops (' ' :: (gs ++ c :: Text.trimEnd rest)) := ⟨rfl, by decide⟩
  have hstart : ∀ d ∈ ("var " ++ line).toList.head?, Text.isBlank d = false := by
    rw [toList_var]
    rintro d ⟨⟩
    rfl
  -- both texts keep all that stands in front of the trailing blanks
  have hplain : Text.trim line.toList = c :: Text.trimEnd rest := by
    rw [hline, Text.trim_of_margin hblank hhead]
    exact trimEnd_append hc [] rest
  have hvar : Text.trim ("var " ++ line).toList
      = (Lexeme.keyword true).chars ++ ' ' :: (gs ++ c :: Text.trimEnd rest) := by
    rw [Text.trim, Text.trimStart_eq_self hstart, toList_var, hline]
    exact trimEnd_append hc ((Lexeme.keyword true).chars ++ ' ' :: gs) rest
  rw [hvar, hplain]
  constructor
  · -- the keyword is read, then the space, then the gaps of the line
    intro h
    obtain ⟨ls', rfl, htail⟩ := Lexes.of_lexeme (Lexeme.spelled_keyword true) (.inr hstops) h
    exact ⟨ls', rfl, (Lexeme.lexes_gaps_iff hgs).mp (htail.of_gap rfl)⟩
  · rintro ⟨ls', rfl, h⟩
    exact .lexeme (Lexeme.spelled_keyword true) (.inr hstops)
      (.gap rfl ((Lexeme.lexes_gaps_iff hgs).mpr h))

/-- Behind the keyword the blanks in front of the statement are not trimmed. -/
theorem exists_trim_var {gs : List Char} (hline : line.toList = gs ++ c :: rest)
    (hrest : ∃ d ∈ rest, Text.isBlank d = false) :
    ∃ r, Text.trim ("var " ++ line).toList = 'v' :: ['a', 'r'] ++ ' ' :: (gs ++ c :: r) := by
  have hsplit : ("var " ++ line).toList = ('v' :: ['a', 'r'] ++ ' ' :: (gs ++ [c])) ++ rest := by
    rw [toList_var, hline]
    simp [Lexeme.keyword, Lexeme.chars]
  have hhead : ∀ d ∈ (('v' :: ['a', 'r'] ++ ' ' :: (gs ++ [c])) ++ rest).head?,
      Text.isBlank d = false := by
    rintro d ⟨⟩
    rfl
  obtain ⟨r, hr⟩ := Text.exists_trim_append hhead hrest
  refine ⟨r, ?_⟩
  rw [hsplit, hr]
  simp

/-- A blank other than a space or tab stops the scan behind the keyword. -/
theorem parse_var_of_blank [Text.CharacterNames] (hline : line.toList = gaps line ++ c :: rest)
    (hgap : isGap c = false) (hc : Text.isBlank c = true) (hne : Text.trim line.toList ≠ []) :
    parse ("var " ++ line) = .error (.failure (Sentence.strange c (5 + (gaps line).length))) := by
  have hgs := isGap_of_mem_gaps line
  generalize gaps line = gs at hline hgs
  -- what is not blank in the line comes behind `c`
  have hrest : ∃ d ∈ rest, Text.isBlank d = false := by
    obtain ⟨d, hd, hblank⟩ := Text.exists_nonblank_of_trim hne
    rw [hline, List.mem_append, List.mem_cons] at hd
    rcases hd with hd | rfl | hd
    · rw [Token.isBlank_of_isGap (hgs d hd)] at hblank
      cases hblank
    · rw [hc] at hblank
      cases hblank
    · exact ⟨d, hd, hblank⟩
  obtain ⟨r, hr⟩ := exists_trim_var hline hrest
  have htaken : Token.lexeme? ('v' :: ['a', 'r'] ++ ' ' :: (gs ++ c :: r))
      = some (.var, 'v' :: ['a', 'r']) :=
    Token.lexeme?_append Token.Spells.var (.inr ⟨rfl, by decide⟩)
  have hscan : Token.scan ('v' :: ['a', 'r'] ++ ' ' :: (gs ++ c :: r))
      = ⟨[⟨.var, "var", 1⟩], some (c, 5 + gs.length)⟩ := by
    rw [Token.scan, Token.scan_token rfl htaken, Token.scan_gap rfl, Token.scanFrom_gaps hgs,
      Token.scan_stuck hgap (Token.lexeme?_of_isBlank hc r)]
    rfl
  rw [parse, parseTrimmed, hr, if_neg (by simp), sentence, hscan]
  rfl

/-- An assignment is the node of no other sentence. -/
theorem exists_sentence_of_assignment [Text.CharacterNames] {e : Node}
    (h : parse line = .ok (.assignment x e)) :
    ∃ p : Phrase, Lexes (Text.trim line.toList) (Sentence.assignment x p).lexemes ∧
      p.toNode = .ok e := by
  obtain ⟨w, hw, hnode⟩ := exists_sentence h
  have hlexes := sentence_eq_ok_iff.mp hw
  cases w with
  | declaration m y t => cases hnode
  | definition m y t p =>
    obtain ⟨k, -, hdefinition⟩ := exists_of_bind_eq_ok hnode
    obtain ⟨t', -, hblock⟩ := exists_of_bind_eq_ok hdefinition
    cases hblock
  | assignment y p =>
    obtain ⟨k, hp, hk⟩ := exists_of_bind_eq_ok hnode
    cases hk
    exact ⟨p, hlexes, hp⟩
  | expression p =>
    have hexpression := p.isExpression_of_toNode hnode
    cases hexpression

theorem wellFormed_of_assignment [Text.CharacterNames] {e : Node}
    (h : parse line = .ok (.assignment x e)) :
    e.WellFormed := by
  cases isStatement_of_parse h with
  | assignment _ he => exact he
  | expression he => cases he

/-- Behind spaces and tabs an assignment becomes a definition without a type. -/
theorem parse_var_of_assignment [Text.CharacterNames] {e : Node}
    (h : parse line = .ok (.assignment x e))
    (hline : line.toList = gaps line ++ c :: rest) (hc : Text.isBlank c = false) :
    parse ("var " ++ line) = Node.definition x none true e := by
  obtain ⟨p, hlexes, hp⟩ := exists_sentence_of_assignment h
  have hvar := (lexes_var_iff hline hc).mpr ⟨_, rfl, hlexes⟩
  rw [parse_of_lexes (w := .definition true x none p) hvar, Sentence.toNode, hp]
  rfl

theorem trim_ne_nil_of_assignmentTarget? (h : assignmentTarget? line = some x) :
    Text.trim line.toList ≠ [] := by
  intro hnil
  obtain ⟨q, hq, hblank⟩ := Text.exists_trimEnd (Text.trimStart line.toList)
  have hword : Token.word (Text.trimStart line.toList) = [] := by
    rw [hq, Token.word_append_blank hblank]
    show Token.word (Text.trim line.toList) = []
    rw [hnil, Token.word]
  simp [assignmentTarget?, hword] at h

/-- A line that is not parsed is not parsed behind the keyword either. -/
theorem exists_parse_var_error [Text.CharacterNames] {e : Fault} (h : parse line = .error e)
    (htarget : assignmentTarget? line = some x) : ∃ e', parse ("var " ++ line) = .error e' := by
  rcases hvar : parse ("var " ++ line) with e' | n
  · exact ⟨e', rfl⟩
  have hne := trim_ne_nil_of_assignmentTarget? htarget
  obtain ⟨c, rest, -, hline, hgap⟩ := exists_firstChar? hne
  rcases hc : Text.isBlank c with - | -
  · obtain ⟨w, hw, hnode⟩ := exists_sentence hvar
    obtain ⟨ls, hls, hlexes⟩ := (lexes_var_iff hline hc).mp (sentence_eq_ok_iff.mp hw)
    -- with a type there would be a colon behind the name
    have hcolon : ∀ y ls', ls ≠ .name y :: .colon :: ls' := by
      rintro y ls' rfl
      rw [assignmentTarget?_of_head? hlexes nofun] at htarget
      cases htarget
    rcases Sentence.cases_of_keyword hls with ⟨y, t, rfl⟩ | ⟨y, t, p, rfl⟩ | ⟨y, p, rfl⟩
    · cases hls
      exact absurd rfl (hcolon y _)
    · cases hls
      exact absurd rfl (hcolon y _)
    · cases hls
      obtain ⟨k, hp, -⟩ := exists_of_bind_eq_ok hnode
      rw [parse_of_lexes (w := .assignment y p) hlexes, Sentence.toNode, hp] at h
      cases h
  · rw [parse_var_of_blank hline hgap hc hne] at hvar
    cases hvar

end Statement

/-! ### Definitions by what is no literal -/

/-- Without a type only a literal other than `null` can be defined. -/
theorem Node.WellFormed.definition_eq_error {e : Node} (he : e.WellFormed)
    (hnull : ∀ v t, e = .literal (some v) t → v = .null) (x : String) (isMutable : Bool) :
    definition x none isMutable e = .error (.failure (.notInferred x)) := by
  cases he with
  | literal _ hc =>
    obtain rfl := hnull _ _ rfl
    cases hc
    rfl
  | identifier => rfl
  | call => rfl

/-! ### The step of the console -/

/-- A text that is parsed can be read, and reading leaves the store alone. -/
theorem Run.exists_read [Host] {source : String} {n : Node} (h : Statement.parse source = .ok n)
    (σ : Settings) (m : Machine) : ∃ m', Run.read σ source m = .ok n m' ∧ m'.store = m.store := by
  obtain ⟨form, hform⟩ := Run.exists_form h σ
  exact ⟨_, (hform m).2.1, rfl⟩

theorem Store.completeLine_of_target {s : Store} {line x : String}
    (h : Statement.assignmentTarget? line = some x) :
    s.completeLine line = if s.isDefined x then line else "var " ++ line := by
  rw [completeLine, h]

/-- What the console makes of a line that is not parsed is not parsed. -/
theorem Store.exists_parse_completeLine_error [Text.CharacterNames] (s : Store) {line : String}
    {f : Fault} (h : Statement.parse line = .error f) :
    ∃ g, Statement.parse (s.completeLine line) = .error g := by
  rcases htarget : Statement.assignmentTarget? line with - | x
  · rw [completeLine, htarget]
    exact ⟨f, h⟩
  · rw [completeLine_of_target htarget]
    split
    · exact ⟨f, h⟩
    · exact Statement.exists_parse_var_error h htarget

namespace Session

section AnyHost

variable [Host] {s : Session} {line x : String}

/-- A line that is parsed as a first value is executed as one. -/
theorem Reachable.perform_execute_firstValue (h : s.Reachable) {source : String} {v : Value}
    {c : Class} {isMutable : Bool} (hc : v.classOf = .ok c)
    (hparse : Statement.parse source = .ok (Node.firstValue x c isMutable v))
    (hx : s.machine.store.isDefined x = false) :
    (s.perform (.execute source)).2 = .ok (.value v) ∧
      (s.perform (.execute source)).1.machine.store
        = s.machine.store.enter ⟨x, c, isMutable⟩ v := by
  obtain ⟨m, hread, hstore⟩ := Run.exists_read hparse s.settings s.machine
  have hcoherent : m.store.Coherent := by
    rw [hstore]
    exact h.coherent
  have hrooted : m.store.Rooted := by
    rw [hstore]
    exact h.rooted
  rw [← hstore] at hx ⊢
  obtain ⟨m', hm', hentered⟩ :=
    (Node.evaluate_firstValue s.settings hcoherent hrooted hc x isMutable).1 hx
  obtain ⟨m'', hm'', hstore''⟩ := Run.node_of_ok s.settings hm' hc
  have hexecute : Run.execute s.settings source s.machine = .ok v m'' := by
    rw [Run.execute, Run.bind_of_ok hread]
    exact hm''
  rw [perform_execute, hexecute]
  exact ⟨rfl, hstore''.trans hentered⟩

/-- **Assignments at the console.**  To a declared name they are executed as they
are.  For a name that is not declared it matters what comes first in the line,
behind spaces and tabs.  If that is no blank, it is the statement: a literal other
than `null` becomes the value of a new mutable name of its class, and nothing else
is changed; for `null` and all that is no literal the type cannot be inferred, and
nothing is changed at all.  If it is a blank, the line is refused there.  A line
that is not parsed is refused in every case. -/
theorem executeLine_assigns (h : s.Reachable) (line : String) :
    let store := s.machine.store
    let done := s.perform (.executeLine line)
    (∀ x e, Statement.parse line = .ok (.assignment x e) →
      (store.isDefined x = true → done = s.perform (.execute line)) ∧
      (store.isDefined x = false →
        ∃ c, Statement.firstChar? line = some c ∧
          (Text.isBlank c = false →
            (∀ v t, e = .literal (some v) t → v ≠ .null →
              ∃ d, v.classOf = .ok d ∧ done.2 = .ok (.value v) ∧
                done.1.machine.store = store.enter ⟨x, d, true⟩ v) ∧
            ((∀ v t, e = .literal (some v) t → v = .null) →
              done = (s, .error (.failure (.notInferred x))))) ∧
          (Text.isBlank c = true →
            done = (s, .error (.failure
              (Sentence.strange c (5 + (Statement.gaps line).length))))))) ∧
    ∀ f, Statement.parse line = .error f →
      ∃ g, Statement.parse (store.completeLine line) = .error g ∧ done = (s, .error g) := by
  intro store done
  have hdone : done = s.perform (.execute (store.completeLine line)) :=
    perform_executeLine s line
  refine ⟨?_, ?_⟩
  · -- the line reads as an assignment
    intro x e hparse
    obtain ⟨p, hlexes, -⟩ := Statement.exists_sentence_of_assignment hparse
    have htarget : Statement.assignmentTarget? line = some x :=
      Statement.assignmentTarget?_of_sentence hlexes
    rw [Store.completeLine_of_target htarget] at hdone
    -- a known name is assigned to as written
    refine ⟨fun hx => by rw [hdone, if_pos hx], ?_⟩
    intro hx
    rw [if_neg (by simp [hx])] at hdone
    -- an unknown one is declared, with what stands behind its gaps
    have hne := Statement.trim_ne_nil_of_assignmentTarget? htarget
    obtain ⟨c, rest, hfirst, hline, hgap⟩ := Statement.exists_firstChar? hne
    refine ⟨c, hfirst, fun hc => ?_, fun hc => ?_⟩
    · -- the keyword and the line make a definition
      have hvar := Statement.parse_var_of_assignment hparse hline hc
      have he := Statement.wellFormed_of_assignment hparse
      constructor
      · rintro v t rfl hv
        cases he with
        | @literal _ d _ hd =>
          rw [Node.definition_literal hd hv] at hvar
          rw [hdone]
          exact ⟨d, hd, h.perform_execute_firstValue hd hvar hx⟩
      · intro hnull
        rw [he.definition_eq_error hnull] at hvar
        rw [hdone, perform_of_parse_error hvar]
    · -- a blank that is no gap is no token behind a keyword
      rw [hdone, perform_of_parse_error (Statement.parse_var_of_blank hline hgap hc hne)]
  · -- a line that is refused is refused as completed, too
    intro f hparse
    obtain ⟨g, hg⟩ := store.exists_parse_completeLine_error hparse
    exact ⟨g, hg, by rw [hdone, perform_of_parse_error hg]⟩

end AnyHost

/-- A text for a new name behind a tab, in a session where another name is
declared: the type of what that name holds cannot be inferred. -/
theorem executeLine_assigns_of_tab :
    let s := (standard {} []).performAll [.declareAndAssign "y" (.int 2) false]
    let done := s.perform (.executeLine "\tx = \"a\"")
    s.Reachable ∧ done.2 = .ok (.value (.str "a")) ∧
      done.1.machine.store = s.machine.store.enter ⟨"x", .str, true⟩ (.str "a") ∧
      s.perform (.executeLine "x = y") = (s, .error (.failure (.notInferred "x"))) := by
  intro s done
  have hs : s.Reachable := (reachable_standard {} []).performAll _
  have htext : Statement.parse "\tx = \"a\""
      = .ok (.assignment "x" (.literal (some (.str "a")) "Str")) := by cbv
  have hname : Statement.parse "x = y" = .ok (.assignment "x" (.identifier "y")) := by cbv
  have hfirst : Statement.firstChar? "\tx = \"a\"" = some 'x' := by decide +kernel
  obtain ⟨c, hc, hplain, -⟩ := ((executeLine_assigns hs "\tx = \"a\"").1 _ _ htext).2 rfl
  obtain rfl : 'x' = c := Option.some.inj (hfirst.symm.trans hc)
  obtain ⟨d, hd, hvalue, hstore⟩ := (hplain rfl).1 _ _ rfl fun hv => by cases hv
  cases hd
  have hfirst' : Statement.firstChar? "x = y" = some 'x' := by decide +kernel
  obtain ⟨c, hc, hplain, -⟩ := ((executeLine_assigns hs "x = y").1 _ _ hname).2 rfl
  obtain rfl : 'x' = c := Option.some.inj (hfirst'.symm.trans hc)
  exact ⟨hs, hvalue, hstore, (hplain rfl).2 fun v t he => by cases he⟩

/-- A no-break space in front of an assignment: the line is parsed as it is, and
refused at the console. -/
theorem executeLine_refuses_by_blank :
    let s := standard {} []
    let done := s.perform (.executeLine "\u00a0x = 1")
    s.Reachable ∧ s.machine.store.isDefined "x" = false ∧
      Statement.parse "\u00a0x = 1" = .ok (.assignment "x" (.literal (some (.int 1)) "Int")) ∧
      done.2 = .error (.failure (.badToken "'\\xa0' at position 5")) ∧
      ¬ done.2 = .ok (.value (.int 1)) := by
  intro s done
  have hx : s.machine.store.isDefined "x" = false := rfl
  have hgaps : Statement.gaps "\u00a0x = 1" = [] := by decide +kernel
  have hline : "\u00a0x = 1".toList
      = Statement.gaps "\u00a0x = 1" ++ '\u00a0' :: ['x', ' ', '=', ' ', '1'] := by decide +kernel
  have htarget : Statement.assignmentTarget? "\u00a0x = 1" = some "x" := by decide +kernel
  -- behind the keyword the no-break space is the character that is refused
  have hrefused : Statement.parse ("var " ++ "\u00a0x = 1")
      = .error (.failure (.badToken "'\\xa0' at position 5")) := by
    rw [Statement.parse_var_of_blank hline rfl rfl (by decide +kernel), hgaps]
    rfl
  have hdone : done = (s, .error (.failure (.badToken "'\\xa0' at position 5"))) := by
    show s.perform (.executeLine "\u00a0x = 1") = _
    rw [perform_executeLine, Store.completeLine_of_target htarget, hx]
    exact perform_of_parse_error hrefused
  have hparse : Statement.parse "\u00a0x = 1"
      = .ok (.assignment "x" (.literal (some (.int 1)) "Int")) := by cbv
  rw [hdone]
  exact ⟨reachable_standard {} [], hx, hparse, rfl, fun hvalue => by cases hvalue⟩

end Session

end LineScript
