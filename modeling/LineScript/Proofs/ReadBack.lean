/-
LineScript/Proofs/ReadBack.lean

Debug forms read back.

The debug form of a closed expression, one made of literals and calls only, is
an expression again, and parsing it gives the node that it was made from.  The
null character is the exception: a printed text holds it as it is, and no
literal may.

The link is a phrase.  Each closed expression has one that is written without a
gap as the debug form (`Prints`), by induction over the expression; and every
phrase can be read when it is written without gaps, because behind each of its
lexemes that is no mark there is a mark or the end (`lexes_written`).
-/
import LineScript.Host
import LineScript.Proofs.Literals
import LineScript.Proofs.Parsing

namespace LineScript

open Lexeme (Lexes)
open Token (IsName IsWord Spells Stops)

/-! ### Phrases without gaps -/

namespace Lexeme

/-- The characters of lexemes, without gaps. -/
def join (ls : List Lexeme) : List Char :=
  ls.flatMap chars

theorem join_append (ls ls' : List Lexeme) : join (ls ++ ls') = join ls ++ join ls' :=
  List.flatMap_append

theorem join_cons (l : Lexeme) (ls : List Lexeme) : join (l :: ls) = l.chars ++ join ls :=
  List.flatMap_cons

theorem trim_join {ls : List Lexeme} (hs : ∀ l ∈ ls, l.Spelled) :
    Text.trim (join ls) = join ls := by
  rcases List.eq_nil_or_concat ls with rfl | ⟨init, b, hlast⟩
  · rfl
  · rcases ls with - | ⟨a, ls⟩
    · rfl
    · have hb : b ∈ a :: ls := by
        rw [hlast]
        simp
      refine trim_eq_self (hs a List.mem_cons_self) (hs b hb) (join_cons a ls) (s := join init) ?_
      rw [hlast, List.concat_eq_append, join_append, join_cons]
      simp [join]

theorem stops_opening (cs : List Char) : Stops (opening.chars ++ cs) :=
  show Stops ('(' :: cs) from ⟨by decide, by decide⟩

theorem stops_closing (cs : List Char) : Stops (closing.chars ++ cs) :=
  show Stops (')' :: cs) from ⟨by decide, by decide⟩

theorem stops_comma (cs : List Char) : Stops (comma.chars ++ cs) :=
  show Stops (',' :: cs) from ⟨by decide, by decide⟩

end Lexeme

namespace Phrase

/-- A phrase, written without gaps. -/
def written (p : Phrase) : String :=
  String.ofList (Lexeme.join p.lexemes)

mutual

/-- **A phrase can be read without gaps**, if what follows stops it. -/
theorem lexes_written : (p : Phrase) → (∀ l ∈ p.lexemes, l.Spelled) →
    ∀ {cs : List Char} {ls : List Lexeme}, Stops cs → Lexes cs ls →
      Lexes (Lexeme.join p.lexemes ++ cs) (p.lexemes ++ ls)
  | .literal k text, hs, cs, ls, hstops, h => by
    rw [lexemes, Lexeme.join_cons, List.append_assoc]
    exact .lexeme (hs _ List.mem_cons_self) (.inr hstops) h
  | .reference x, hs, cs, ls, hstops, h => by
    rw [lexemes, Lexeme.join_cons, List.append_assoc]
    exact .lexeme (hs _ List.mem_cons_self) (.inr hstops) h
  -- put together from the end: the mark that closes, the arguments, the name
  | .call f ps, hs, cs, ls, hstops, h => by
    have hclosing : Lexes (Lexeme.closing.chars ++ cs) (.closing :: ls) :=
      .lexeme Lexeme.spelled_closing (.inl rfl) h
    have harguments := lexes_argumentLexemes ps (fun l hl => hs l (by simp [lexemes, hl]))
      (Lexeme.stops_closing cs) hclosing
    have hopening := Lexes.lexeme Lexeme.spelled_opening (.inl rfl) harguments
    have hname := Lexes.lexeme (hs (.name f) (by simp [lexemes]))
      (.inr (Lexeme.stops_opening _)) hopening
    simpa [lexemes, Lexeme.join] using hname

theorem lexes_argumentLexemes : (ps : List Phrase) →
    (∀ l ∈ argumentLexemes ps, l.Spelled) →
    ∀ {cs : List Char} {ls : List Lexeme}, Stops cs → Lexes cs ls →
      Lexes (Lexeme.join (argumentLexemes ps) ++ cs) (argumentLexemes ps ++ ls)
  | [], hs, cs, ls, hstops, h => h
  | p :: ps, hs, cs, ls, hstops, h => by
    have hfurther := lexes_furtherLexemes ps (fun l hl => hs l (by simp [argumentLexemes, hl]))
      hstops h
    have hp := lexes_written p (fun l hl => hs l (by simp [argumentLexemes, hl])) hfurther.1
      hfurther.2
    simpa [argumentLexemes, Lexeme.join_append] using hp

theorem lexes_furtherLexemes : (ps : List Phrase) →
    (∀ l ∈ furtherLexemes ps, l.Spelled) →
    ∀ {cs : List Char} {ls : List Lexeme}, Stops cs → Lexes cs ls →
      Stops (Lexeme.join (furtherLexemes ps) ++ cs) ∧
      Lexes (Lexeme.join (furtherLexemes ps) ++ cs) (furtherLexemes ps ++ ls)
  | [], hs, cs, ls, hstops, h => ⟨hstops, h⟩
  | p :: ps, hs, cs, ls, hstops, h => by
    have hfurther := lexes_furtherLexemes ps (fun l hl => hs l (by simp [furtherLexemes, hl]))
      hstops h
    have hp := lexes_written p (fun l hl => hs l (by simp [furtherLexemes, hl])) hfurther.1
      hfurther.2
    have hcomma := Lexes.lexeme Lexeme.spelled_comma (.inl rfl) hp
    refine ⟨?_, by simpa [furtherLexemes, Lexeme.join] using hcomma⟩
    rw [furtherLexemes, Lexeme.join_cons, List.append_assoc]
    exact Lexeme.stops_comma _

end

@[simp] theorem written_literal (k : LiteralKind) (text : String) :
    (literal k text).written = text := by
  simp [written, lexemes, Lexeme.join, Lexeme.chars, Lexeme.literal]

/-- The arguments of a call, with commas between their texts. -/
theorem join_argumentLexemes (ps : List Phrase) :
    Lexeme.join (argumentLexemes ps)
      = [','].intercalate (ps.map fun p => Lexeme.join p.lexemes) := by
  have hfurther : ∀ (p : Phrase) (ps : List Phrase),
      Lexeme.join p.lexemes ++ Lexeme.join (furtherLexemes ps)
        = [','].intercalate (Lexeme.join p.lexemes :: ps.map fun p => Lexeme.join p.lexemes) := by
    intro p ps
    induction ps generalizing p with
    | nil => simp [furtherLexemes, Lexeme.join]
    | cons q qs ih =>
      rw [furtherLexemes, Lexeme.join_cons, Lexeme.join_append, ih, List.map_cons,
        List.intercalate_cons_cons, List.append_assoc]
      rfl
  cases ps with
  | nil => rfl
  | cons p ps => rw [argumentLexemes, Lexeme.join_append, hfurther, List.map_cons]

/-- A call is written as its name and its arguments in brackets. -/
theorem written_call (f : String) (ps : List Phrase) :
    (call f ps).written = f ++ "(" ++ String.intercalate "," (ps.map written) ++ ")" := by
  rw [← String.toList_inj, written, String.toList_ofList, lexemes, Lexeme.join_cons,
    Lexeme.join_cons, Lexeme.join_append, join_argumentLexemes]
  have harguments : (ps.map written).map String.toList = ps.map fun p => Lexeme.join p.lexemes := by
    rw [List.map_map]
    exact List.map_congr_left fun p _ => String.toList_ofList
  rw [String.toList_append, String.toList_append, String.toList_append, String.toList_intercalate,
    harguments]
  simp [Lexeme.chars, Lexeme.join, Lexeme.name, Lexeme.opening, Lexeme.closing]

/-- A phrase that is written without gaps has its lexemes. -/
theorem lexes_trim_written {p : Phrase} (hs : ∀ l ∈ p.lexemes, l.Spelled) :
    Lexes (Text.trim p.written.toList) p.lexemes := by
  have hend : Stops [] := trivial
  rw [written, String.toList_ofList, Lexeme.trim_join hs]
  simpa using p.lexes_written hs hend .nil

/-- A phrase that is written without gaps is parsed as the phrase. -/
theorem parse_written [Text.CharacterNames] {p : Phrase} (hs : ∀ l ∈ p.lexemes, l.Spelled) :
    Statement.parse p.written = p.toNode :=
  Statement.parse_of_lexes (w := .expression p) (lexes_trim_written hs)

end Phrase

/-! ### Closed expressions -/

namespace Node

/-- Expressions made of calls and of literals that carry their class: `null`,
truth values, whole numbers, texts and symbols. -/
inductive Closed : Node → Prop
  | null : Closed (literal (some .null) Class.any.name)
  | bool (b : Bool) : Closed (literal (some (.bool b)) Class.bool.name)
  | int (n : Int64) : Closed (literal (some (.int n)) Class.int.name)
  | str (s : String) : Closed (literal (some (.str s)) Class.str.name)
  | symbol {x : String} : IsWord x.toList → Closed (literal (some (.symbol x)) Class.symbol.name)
  | call {f : String} {ns : List Node} : IsName f → (∀ n ∈ ns, Closed n) → Closed (call f ns)

/-- Some text in a node holds the null character. -/
def HoldsNull (n : Node) : Prop :=
  ∃ s, .str s ∈ n.literals ∧ '\x00' ∈ s.toList

theorem holdsNull_literal {v : Value} {type : String} :
    (literal (some v) type).HoldsNull ↔ ∃ s, v = .str s ∧ '\x00' ∈ s.toList := by
  simp [HoldsNull, literals, literalValue, eq_comm]

theorem holdsNull_call {f : String} {ns : List Node} :
    (call f ns).HoldsNull ↔ ∃ n ∈ ns, n.HoldsNull := by
  simp only [HoldsNull, literals, mem_allLiterals]
  constructor
  · rintro ⟨s, ⟨n, hn, hs⟩, hnull⟩
    exact ⟨n, hn, s, hs, hnull⟩
  · rintro ⟨n, hn, s, hs, hnull⟩
    exact ⟨s, ⟨n, hn, hs⟩, hnull⟩

section Prints

variable [Text.CharacterNames]

/-- A phrase that is the debug form of a node when it is written down, and is
read as the node unless a text holds the null character. -/
structure Prints (l : Language) (n : Node) (p : Phrase) : Prop where
  spelled : ∀ x ∈ p.lexemes, x.Spelled
  form : n.debugForm l = .ok p.written
  reads : ¬ n.HoldsNull → p.toNode = .ok n
  refused : n.HoldsNull → ∃ reason, p.toNode = .error (.failure (.badStatement reason))

variable {l : Language}

/-- The printed form of a value is a literal. -/
theorem prints_literal {v : Value} {type text : String} {k : LiteralKind}
    (hform : v.printed l = .ok text) (hs : Spells (.literal k) text.toList)
    (hread : ¬ (literal (some v) type).HoldsNull → k.read text = .ok (literal (some v) type))
    (hrefused : (literal (some v) type).HoldsNull →
      ∃ reason, k.read text = .error (.failure (.badStatement reason))) :
    Prints l (literal (some v) type) (.literal k text) where
  spelled x hx := by
    rw [Phrase.lexemes, List.mem_singleton] at hx
    exact hx ▸ hs
  form := by
    rw [debugForm, Phrase.written_literal]
    exact hform
  reads := hread
  refused := hrefused

/-- The printed form of a value that is no text is a literal that reads back. -/
theorem prints_plain {v : Value} {type text : String} {k : LiteralKind}
    (hform : v.printed l = .ok text) (hs : Spells (.literal k) text.toList)
    (hread : k.read text = .ok (literal (some v) type)) (hv : ∀ s, v ≠ .str s) :
    Prints l (literal (some v) type) (.literal k text) := by
  refine prints_literal hform hs (fun _ => hread) fun hnull => ?_
  obtain ⟨s, rfl, -⟩ := holdsNull_literal.mp hnull
  exact absurd rfl (hv s)

theorem prints_str (s : String) :
    Prints l (literal (some (.str s)) Class.str.name)
      (.literal .text (Text.DoubleQuoted.encode s)) := by
  refine prints_literal rfl ?_ ?_ ?_
  · rw [Text.DoubleQuoted.encode_eq, String.toList_ofList]
    exact Text.DoubleQuoted.spells_literal fun c _ r => Text.DoubleQuoted.isInside_encodeChar c
  · intro hnull
    have hwrites : ∀ c ∈ s.toList, Text.DoubleQuoted.Writes Text.DoubleQuoted.encodeChar c := by
      intro c hc
      refine Text.DoubleQuoted.writes_encodeChar ?_
      rintro rfl
      exact hnull (holdsNull_literal.mpr ⟨s, rfl, hc⟩)
    have hread := LiteralKind.read_text hwrites
    rwa [← Text.DoubleQuoted.encode_eq] at hread
  · intro hnull
    obtain ⟨_, ⟨⟩, hmem⟩ := holdsNull_literal.mp hnull
    exact ⟨_, LiteralKind.read_encode_null hmem⟩

/-! #### Calls -/

section Arguments

variable {ns : List Node} {ps : List Phrase}

theorem exists_forall₂ (h : ∀ n ∈ ns, ∃ p, Prints l n p) :
    ∃ ps, List.Forall₂ (Prints l) ns ps := by
  induction ns with
  | nil => exact ⟨[], .nil⟩
  | cons n ns ih =>
    obtain ⟨⟨p, hp⟩, hrest⟩ := List.forall_mem_cons.mp h
    obtain ⟨ps, hps⟩ := ih hrest
    exact ⟨p :: ps, .cons hp hps⟩

theorem debugForms_of_prints (h : List.Forall₂ (Prints l) ns ps) :
    debugForms l ns = .ok (ps.map Phrase.written) := by
  induction h with
  | nil => rfl
  | cons hn _ ih =>
    rw [debugForms, hn.form, ih]
    rfl

theorem toNodes_of_prints (h : List.Forall₂ (Prints l) ns ps) (hnull : ∀ n ∈ ns, ¬ n.HoldsNull) :
    Phrase.toNodes ps = .ok ns := by
  induction h with
  | nil => rfl
  | cons hn _ ih =>
    obtain ⟨hhead, htail⟩ := List.forall_mem_cons.mp hnull
    rw [Phrase.toNodes, hn.reads hhead, ih htail]
    rfl

theorem refused_of_prints (h : List.Forall₂ (Prints l) ns ps) (hnull : ∃ n ∈ ns, n.HoldsNull) :
    ∃ reason, Phrase.toNodes ps = .error (.failure (.badStatement reason)) := by
  induction h with
  | nil => simp at hnull
  | @cons n p ns ps hn _ ih =>
    rw [Phrase.toNodes]
    -- arguments are read from left to right, up to the first that is refused
    by_cases hhead : n.HoldsNull
    · obtain ⟨reason, hreason⟩ := hn.refused hhead
      exact ⟨reason, by rw [hreason]; rfl⟩
    · obtain ⟨reason, hreason⟩ := ih ((List.exists_mem_cons_iff ..).mp hnull |>.resolve_left hhead)
      exact ⟨reason, by rw [hn.reads hhead, hreason]; rfl⟩

theorem prints_call {f : String} (hf : IsName f) (h : List.Forall₂ (Prints l) ns ps) :
    Prints l (call f ns) (.call f ps) where
  spelled := by
    refine Phrase.spelled_call_iff.mpr ⟨Lexeme.spelled_name_iff.mpr hf, fun p hp => ?_⟩
    clear hf
    induction h with
    | nil => cases hp
    | cons hn _ ih =>
      rcases List.mem_cons.mp hp with rfl | hp
      · exact hn.spelled
      · exact ih hp
  form := by
    rw [debugForm, debugForms_of_prints h, Phrase.written_call]
    rfl
  reads hnull := by
    rw [holdsNull_call] at hnull
    rw [Phrase.toNode, toNodes_of_prints h fun n hn hn' => hnull ⟨n, hn, hn'⟩]
    rfl
  refused hnull := by
    obtain ⟨reason, hreason⟩ := refused_of_prints h (holdsNull_call.mp hnull)
    exact ⟨reason, by rw [Phrase.toNode, hreason]; rfl⟩

end Arguments

/-- Every closed expression prints as a phrase. -/
theorem Closed.exists_prints {n : Node} (h : n.Closed) (l : Language) : ∃ p, Prints l n p := by
  induction h with
  | null => exact ⟨_, prints_plain rfl Spells.null rfl (by simp)⟩
  | bool b =>
    cases b
    · exact ⟨_, prints_plain rfl Spells.falseWord rfl (by simp)⟩
    · exact ⟨_, prints_plain rfl Spells.trueWord rfl (by simp)⟩
  | int n =>
    exact ⟨_, prints_plain rfl (LiteralKind.spells_integer n.toInt) (LiteralKind.read_integer n)
      (by simp)⟩
  | str s => exact ⟨_, prints_str s⟩
  | symbol hx =>
    exact ⟨_, prints_plain rfl (LiteralKind.spells_symbol hx) (LiteralKind.read_symbol _)
      (by simp)⟩
  | @call f ns hf _ ih =>
    obtain ⟨ps, hps⟩ := exists_forall₂ ih
    exact ⟨_, prints_call hf hps⟩

end Prints

end Node

/-- **Debug forms read back.**  The debug form of a closed expression is parsed
as that expression, unless a text in it holds the null character; then it is
malformed.  The debug form of a literal is the printed form of its value. -/
theorem Statement.parse_debugForm [Text.CharacterNames] {n : Node} (h : n.Closed) (l : Language) :
    ∃ text, n.debugForm l = .ok text ∧
      (¬ n.HoldsNull → parse text = .ok n) ∧
      (n.HoldsNull → ∃ f, parse text = .error (.failure f) ∧ f.kind = .malformed) ∧
      ∀ v t, n = .literal (some v) t → v.printed l = .ok text := by
  obtain ⟨p, hp⟩ := h.exists_prints l
  refine ⟨p.written, hp.form, ?_, ?_, ?_⟩
  · intro hnull
    rw [Phrase.parse_written hp.spelled, hp.reads hnull]
  · intro hnull
    obtain ⟨reason, hreason⟩ := hp.refused hnull
    exact ⟨_, by rw [Phrase.parse_written hp.spelled, hreason], rfl⟩
  · rintro v t rfl
    have hform := hp.form
    rwa [Node.debugForm] at hform

/-- A text that holds a quote, a comma, a bracket and a line feed, beside a
symbol that is spelled as a keyword, inside a call; and a text that holds the
null character. -/
theorem Statement.parse_debugForm_of_quotes :
    let n : Node := .call "f" [.literal (some (.str "\x22),\n")) "Str", .call "g" [],
      .literal (some (.symbol "val")) "Symbol"]
    let k : Node := .call "f" [.literal (some (.str "a\x00b")) "Str"]
    n.Closed ∧ ¬ n.HoldsNull ∧ k.Closed ∧ k.HoldsNull ∧
      (∃ text, n.debugForm .english = .ok text ∧ parse text = .ok n) ∧
      ∃ text f, k.debugForm .english = .ok text ∧ parse text = .error (.failure f) ∧
        f.kind = .malformed := by
  intro n k
  have hn : n.Closed := by
    refine .call (by decide +kernel) ?_
    simp only [List.mem_cons, List.not_mem_nil, or_false]
    rintro m (rfl | rfl | rfl)
    · exact .str _
    · exact .call (by decide +kernel) (by simp)
    · exact .symbol (by decide +kernel)
  have hnull : ¬ n.HoldsNull := by
    simp [n, Node.HoldsNull, Node.literals, Node.allLiterals, Node.literalValue]
  have hk : k.Closed := by
    refine .call (by decide +kernel) ?_
    rintro m hm
    rw [List.mem_singleton.mp hm]
    exact .str _
  -- a string with U+0000 is printed raw, which no literal may hold
  have hknull : k.HoldsNull := ⟨"a\x00b", List.mem_cons_self, by decide +kernel⟩
  obtain ⟨text, hform, hreads, -, -⟩ := parse_debugForm hn .english
  obtain ⟨text', hform', -, hrefused, -⟩ := parse_debugForm hk .english
  obtain ⟨f, hf, hkind⟩ := hrefused hknull
  exact ⟨hn, hnull, hk, hknull, ⟨text, hform, hreads hnull⟩, text', f, hform', hf, hkind⟩

end LineScript
