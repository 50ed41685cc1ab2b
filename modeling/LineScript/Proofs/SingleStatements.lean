/-
LineScript/Proofs/SingleStatements.lean

A statement as a program.

A text that can be parsed is run as a program in the same way as it is executed,
as long as it is one line between its blank margins.  The margins may hold any
line ends: they make lines of blanks, which a program passes over.

Inside a statement a line end can only stand in a text literal, where parsing
takes every character but a bare line feed or carriage return.  A program is cut
there nevertheless.  What is left of the statement in the first line is an open
literal, and the program fails at its quote before anything is run
(`Program.runFresh_of_statement`).
-/
import LineScript.Proofs.Acceptance
import LineScript.Proofs.Footprint
import LineScript.Proofs.Lines
import LineScript.Proofs.Logs
import Mathlib

namespace LineScript

open Token (isGap)

/-! ### Texts that are cut -/

/-- A blank margin up to a line end, and what follows: what is cut off a line. -/
inductive CutOff : List Char → Prop
  | intro {bs : List Char} {e : Char} {rest : List Char} :
    (∀ c ∈ bs, Text.isBlank c = true) → Text.isLineEnd e = true → CutOff (bs ++ e :: rest)

theorem CutOff.exists_lineEnd {r : List Char} (h : CutOff r) :
    ∃ c ∈ r, Text.isLineEnd c = true := by
  obtain @⟨bs, e, rest, -, he⟩ := h
  exact ⟨e, by simp, he⟩

theorem CutOff.cons {c : Char} {r : List Char} (h : CutOff (c :: r)) :
    Text.isBlank c = true ∧ (isGap c = true → CutOff r) := by
  generalize hr : c :: r = r' at h
  obtain @⟨bs, e, rest, hbs, he⟩ := h
  rcases bs with - | ⟨b, bs⟩
  · obtain ⟨rfl, rfl⟩ := List.cons.inj hr
    refine ⟨Text.isBlank_of_isLineEnd he, fun hgap => ?_⟩
    -- spaces and tabs end no line
    simp only [isGap, Bool.or_eq_true, beq_iff_eq] at hgap
    rcases hgap with rfl | rfl <;> cases he
  · obtain ⟨rfl, rfl⟩ := List.cons.inj hr
    rw [List.forall_mem_cons] at hbs
    exact ⟨hbs.1, fun _ => .intro hbs.2 he⟩

namespace Lexeme

/-- A lexeme that leads a text leads every part of the text that holds it. -/
theorem Leads.shorten {l : Lexeme} {x y : List Char} (h : l.Leads (l.chars ++ (x ++ y))) :
    l.Leads (l.chars ++ x) where
  spelled := h.spelled
  front := List.prefix_append _ _
  longest l' hl' hfront := by
    refine h.longest l' hl' (hfront.trans ?_)
    rw [← List.append_assoc]
    exact List.prefix_append _ _

/-- No text of lexemes starts with what is cut off. -/
theorem Lexes.not_cutOff {cs : List Char} {ls : List Lexeme} (h : Lexes cs ls) : ¬ CutOff cs := by
  induction h with
  | nil =>
    intro hcut
    generalize hnil : ([] : List Char) = cs at hcut
    cases hcut
    simp at hnil
  | gap hc _ ih => exact fun hcut => ih (hcut.cons.2 hc)
  | @token l cs ls hl _ _ =>
    intro hcut
    have hhead := Token.Spells.isBlank_head? hl.spelled
    have hne := Token.Spells.ne_nil hl.spelled
    rcases hchars : l.chars with - | ⟨c, r⟩
    · exact absurd hchars hne
    · -- a lexeme starts with a character that is not blank
      rw [hchars] at hcut hhead
      have hblank := hcut.cons.1
      rw [hhead c rfl] at hblank
      cases hblank

/-- A text literal that is cut is no lexeme. -/
theorem lexeme?_of_cut {l : Lexeme} {p r cs : List Char} (hl : l.Leads (l.chars ++ cs))
    (hchars : l.chars = '\x22' :: p ++ r) (hr : r ≠ []) : Token.lexeme? ('\x22' :: p) = none := by
  have hquote : Token.lexeme? ('\x22' :: p)
      = (Token.textTail? p).map fun t => (.literal .text, '\x22' :: t) := rfl
  rw [hquote, Option.map_eq_none_iff, Option.eq_none_iff_forall_ne_some]
  intro t ht
  -- a literal within the cut text would be the one that the whole text starts with
  obtain ⟨b, hb, rfl⟩ := Token.isInside_of_textTail? ht
  obtain ⟨z, rfl⟩ := Token.textTail?_front ht
  have hshort := Token.lexeme?_text hb (z ++ r ++ cs)
  have hlong := leads_iff.1 hl
  have hsame : l.chars ++ cs = '\x22' :: (b ++ ['\x22']) ++ (z ++ r ++ cs) := by
    rw [hchars]
    simp
  rw [hsame, hshort] at hlong
  have hequal := (Prod.mk.inj (Option.some.inj hlong)).2
  rw [hchars] at hequal
  have hlength := congrArg List.length hequal
  have hpos := List.length_pos_of_ne_nil hr
  simp only [List.length_cons, List.length_append] at hlength
  omega

/-- **A statement that is cut stops at a quote.**  What comes before the cut has the
lexemes of the statement up to a text literal, which it leaves open. -/
theorem Lexes.scan_of_cut {cs : List Char} {ls : List Lexeme} (h : Lexes cs ls) {p r : List Char}
    (hcs : cs = p ++ r) (hr : CutOff r) (column : Nat) :
    ∃ ts column', Token.scanFrom 0 column p = ⟨ts, some ('\x22', column')⟩ ∧
      ts.map Token.lexeme <+: ls := by
  induction h generalizing p column with
  | nil =>
    rw [(List.append_eq_nil_iff.1 hcs.symm).2] at hr
    exact absurd hr Lexes.nil.not_cutOff
  | @gap c cs ls hc h ih =>
    rcases p with - | ⟨d, p⟩
    · rw [List.nil_append] at hcs
      rw [← hcs] at hr
      exact absurd hr (Lexes.gap hc h).not_cutOff
    · obtain ⟨rfl, hrest⟩ := List.cons.inj hcs
      rw [Token.scan_gap hc]
      exact ih hrest _
  | @token l cs ls hl h ih =>
    rcases List.append_eq_append_iff.1 hcs with ⟨a, rfl, rfl⟩ | ⟨a, hchars, rfl⟩
    · -- the cut is behind the lexeme
      obtain ⟨ts, column', hscan, hfront⟩ := ih rfl (l.chars.foldl Token.columnAfter column)
      refine ⟨⟨l.kind, l.text, column⟩ :: ts, column', ?_, ?_⟩
      · rw [hl.shorten.scanFrom_eq, hscan]
        rfl
      · exact (List.prefix_cons_inj l).mpr hfront
    · rcases a with - | ⟨x, a⟩
      · -- the cut would be between two lexemes
        exact absurd hr h.not_cutOff
      · have hx : Text.isBlank x = true := hr.cons.1
        rcases Token.Spells.isInk_or hl.spelled with ⟨b, hb⟩ | ⟨-, hink⟩
        · rcases p with - | ⟨d, p⟩
          · rw [hb] at hchars
            cases (List.cons.inj hchars).1
            cases hx
          · obtain rfl : d = '\x22' := by
              rw [hb] at hchars
              exact (List.cons.inj hchars).1.symm
            have hstuck := lexeme?_of_cut hl hchars (by simp)
            exact ⟨[], column, Token.scan_stuck rfl hstuck column, List.nil_prefix⟩
        · have hmem : x ∈ l.chars := by
            rw [hchars]
            simp
          rw [Token.isBlank_of_isInk (hink x hmem)] at hx
          cases hx

/-- No statement looks like a comment. -/
theorem Lexes.head?_ne {cs : List Char} {ls : List Lexeme} (h : Lexes cs ls) :
    cs.head? ≠ some '#' := by
  cases h with
  | nil => nofun
  | gap hc _ =>
    rintro ⟨⟩
    cases hc
  | @token l cs ls hl _ =>
    rw [List.head?_append_of_ne_nil _ (Token.Spells.ne_nil hl.spelled)]
    intro hhead
    rcases Token.Spells.isInk_or hl.spelled with ⟨b, hb⟩ | ⟨-, hink⟩
    · rw [hb] at hhead
      cases hhead
    · exact absurd (hink _ (List.mem_of_head? hhead)) (by decide)

end Lexeme

namespace Sentence

theorem Progress.feedAll_append (p : Progress) (ls ls' : List Lexeme) :
    p.feedAll (ls ++ ls') = (p.feedAll ls).bind (·.feedAll ls') := by
  induction ls generalizing p with
  | nil => rfl
  | cons l ls ih =>
    rw [List.cons_append, Progress.feedAll_cons, Progress.feedAll_cons, Option.bind_assoc]
    congr 1
    funext q
    exact ih q

/-- Reading goes on behind the tokens that have been read. -/
theorem follow_append (stuck : Option (Char × Nat)) {p q : Progress} {ts : List Token}
    (h : p.feedAll (ts.map Token.lexeme) = some q) (last : Nat) (ts' : List Token) :
    ∃ last', follow stuck p last (ts ++ ts') = follow stuck q last' ts' := by
  induction ts generalizing p last with
  | nil =>
    cases h
    exact ⟨last, rfl⟩
  | cons t ts ih =>
    rw [List.map_cons, Progress.feedAll_cons] at h
    obtain ⟨p', hp', hq⟩ := Option.bind_eq_some_iff.1 h
    have hfeed : p.feed t = some p' := (p.feed_congr rfl).symm.trans hp'
    rw [List.cons_append, follow, hfeed]
    exact ih hq t.column

/-- The start of a sentence is read up to the character that stops it. -/
theorem follow_of_stuck {p q : Progress} {ts : List Token}
    (h : p.feedAll (ts.map Token.lexeme) = some q) (c : Char) (column last : Nat) :
    follow (some (c, column)) p last ts = .error (strange c column) := by
  obtain ⟨last', hfollow⟩ := follow_append (some (c, column)) h last []
  rw [List.append_nil] at hfollow
  rw [hfollow]
  rfl

end Sentence

namespace Statement

/-- What is left of a statement before a cut is no statement: its last character
that starts no lexeme is a quote. -/
theorem parse_of_cut [Text.CharacterNames] {w : Sentence} {p r : List Char}
    (h : Lexeme.Lexes (p ++ r) w.lexemes) (hr : CutOff r) :
    ∃ column, parseTrimmed p = .error (.failure (Sentence.strange '\x22' column)) := by
  obtain ⟨ts, column, hscan, hfront⟩ := h.scan_of_cut rfl hr 1
  obtain ⟨rest, hrest⟩ := hfront
  -- the lexemes in front of the cut can all be read
  obtain ⟨q, hq, -⟩ := Sentence.Progress.exists_feedAll_lexemes w
  rw [← hrest, Sentence.Progress.feedAll_append] at hq
  obtain ⟨q', hq', -⟩ := Option.bind_eq_some_iff.1 hq
  have hsentence : sentence p = .error (Sentence.strange '\x22' column) := by
    show Sentence.ofTokens (Token.scanFrom 0 1 p).tokens (Token.scanFrom 0 1 p).stuck = _
    rw [hscan]
    exact Sentence.follow_of_stuck hq' '\x22' column 1
  refine ⟨column, ?_⟩
  rcases p with - | ⟨c, p⟩
  · cases hscan
  · rw [parseTrimmed, hsentence]
    rfl

end Statement

/-! ### Statements as programs -/

namespace Program

open Run

/-- **The first statement of a program that is a statement** is the whole of it, or
what stands before a cut. -/
theorem statements_of_lexes {source : String} {ls : List Lexeme}
    (h : Lexeme.Lexes (Text.trim source.toList) ls) (hne : Text.trim source.toList ≠ []) :
    ∃ k line rest, statements source = (k, line) :: rest ∧
      ((∀ c ∈ Text.trim source.toList, Text.isLineEnd c = false) ∧ rest = [] ∧
          Text.trim line.toList = Text.trim source.toList ∨
        ∃ r, CutOff r ∧ Text.trim source.toList = Text.trim line.toList ++ r) := by
  obtain ⟨p, q, hsource, hp, hq⟩ := Text.exists_margins source.toList
  obtain ⟨x, y, hxy, hx, hy⟩ := Text.exists_firstLine (Text.trim source.toList ++ q)
  have hblank := Text.isBlank_head?_trim source.toList
  have htrim := Text.trimEnd_trim source.toList
  generalize Text.trim source.toList = cs at h hne hsource hxy hblank htrim
  have hstart : ∀ c ∈ (x ++ y).head?, Text.isBlank c = false ∧ c ≠ '#' := by
    rw [← hxy, List.head?_append_of_ne_nil _ hne]
    intro c hc
    refine ⟨hblank c hc, ?_⟩
    rintro rfl
    exact h.head?_ne hc
  have hxne : x ≠ [] := by
    rintro rfl
    rcases y with - | ⟨e, y⟩
    · simp [hne] at hxy
    · have he := Text.isBlank_of_isLineEnd (hy e rfl)
      rw [(hstart e rfl).1] at he
      cases he
  rw [List.head?_append_of_ne_nil _ hxne] at hstart
  obtain ⟨k, r, rest, hstatements, hr, hrest⟩ := statements_of_margin hp hxne hstart hx hy
  have htext : source = String.ofList (p ++ (x ++ y)) := by
    rw [← hxy, ← hsource, String.ofList_toList]
  have hline : Text.trim (String.ofList (r ++ x)).toList = Text.trimEnd x := by
    rw [String.toList_ofList, Text.trim_of_margin hr fun c hc => (hstart c hc).1]
  refine ⟨k, String.ofList (r ++ x), rest, htext ▸ hstatements, ?_⟩
  rw [hline]
  rcases List.append_eq_append_iff.1 hxy with ⟨a, rfl, rfl⟩ | ⟨a, rfl, rfl⟩
  · -- the first line ends in the margin
    rw [List.forall_mem_append] at hx hq
    refine .inl ⟨hx.1, hrest hq.2, ?_⟩
    rw [Text.trimEnd_append_blank hq.1, htrim]
  · rcases a with - | ⟨e, a⟩
    · rw [List.append_nil] at htrim ⊢
      exact .inl ⟨hx, hrest hq, htrim⟩
    · -- the first line ends inside, and its trailing blanks are cut off as well
      obtain ⟨bs, hbs, hbsblank⟩ := Text.exists_trimEnd x
      refine .inr ⟨bs ++ e :: a, .intro hbsblank (hy e rfl), ?_⟩
      rw [← List.append_assoc, ← hbs]

/-- The first statement of a program decides, if it ends in a fault or is the
only one. -/
theorem run_of_statements [Host] {source line : String} {k : Nat} {rest : List (Nat × String)}
    (h : statements source = (k, line) :: rest) (s : Settings) (m : Machine) :
    (rest = [] → run s source m = execute s line m) ∧
      ∀ e, Statement.parse line = .error e → run s source m = .error e m := by
  rw [run, h]
  constructor
  · rintro rfl
    show (execute s line >>= fun v => pure v) m = execute s line m
    rw [bind_pure]
  · intro e he
    exact bind_of_error (bind_of_error (read_of_parse_error s he m))

/-- **A statement is a program of one line**, if it has no line end inside: running
it as a program is the same as executing it, in value or fault, log and all that
the machine holds.  With a line end inside, the program fails at a quote and does
nothing else. -/
theorem runFresh_of_statement [Host] {source : String} {n : Node}
    (h : Statement.parse source = .ok n) (s : Settings) (input : List String) :
    ((∀ c ∈ Text.trim source.toList, Text.isLineEnd c = false) →
      runFresh s source input = execute s source (.fresh .standard input)) ∧
    ((∃ c ∈ Text.trim source.toList, Text.isLineEnd c = true) →
      ∃ column, runFresh s source input
        = .error (.failure (Sentence.strange '\x22' column)) (.fresh .standard input)) := by
  obtain ⟨w, hw, -⟩ := Statement.exists_sentence h
  have hlexes := Statement.sentence_eq_ok_iff.1 hw
  have hne : Text.trim source.toList ≠ [] := by
    intro hempty
    rw [Statement.parse, hempty] at h
    cases h
  obtain ⟨k, line, rest, hstatements, hcases⟩ := statements_of_lexes hlexes hne
  obtain ⟨honly, hfault⟩ := run_of_statements hstatements s (.fresh .standard input)
  obtain ⟨hnone, hrest, hline⟩ | ⟨r, hr, hline⟩ := hcases
  · -- the statement stands on one line
    refine ⟨fun _ => ?_, ?_⟩
    · have hparse : Statement.parse line = Statement.parse source := by
        rw [Statement.parse, hline, Statement.parse]
      rw [runFresh, honly hrest, execute, execute, Run.read, Run.read, hparse]
    · rintro ⟨c, hc, hend⟩
      rw [hnone c hc] at hend
      cases hend
  · -- a line end within a literal cuts it
    refine ⟨fun hnone => ?_, fun _ => ?_⟩
    · obtain ⟨c, hc, hend⟩ := hr.exists_lineEnd
      rw [hnone c (by simp [hline, hc])] at hend
      cases hend
    · rw [hline] at hlexes
      obtain ⟨column, hparse⟩ := Statement.parse_of_cut hlexes hr
      exact ⟨column, hfault _ hparse⟩

/-- A statement between two lines of blanks; and a literal with a line end. -/
theorem runFresh_of_statement_in_margins :
    Statement.parse "\r\n null\x0c" = .ok (.literal (some .null) "Any") ∧
      runFresh {} "\r\n null\x0c" [] = execute {} "\r\n null\x0c" (.fresh .standard []) ∧
    ∃ column, runFresh {} "print(\"\x0c\")" []
      = .error (.failure (Sentence.strange '\x22' column)) (.fresh .standard []) := by
  have hnull : Statement.parse "\r\n null\x0c" = .ok (.literal (some .null) "Any") := by cbv
  have hprint : Statement.parse "print(\"\x0c\")"
      = .ok (.call "print" [.literal (some (.str "\x0c")) "Str"]) := by cbv
  have hends : (Text.trim "\r\n null\x0c".toList).all (fun c => !Text.isLineEnd c) = true := by
    decide +kernel
  refine ⟨hnull, (runFresh_of_statement hnull {} []).1 ?_,
    (runFresh_of_statement hprint {} []).2 ⟨'\x0c', ?_, rfl⟩⟩
  · simpa using hends
  · decide +kernel

/-- A literal with a line separator is a value as a statement, and an open literal
as a program. -/
theorem runFresh_differs_by_separator :
    Statement.parse "\"a\u2028b\"" = .ok (.literal (some (.str "a\u2028b")) "Str") ∧
      (execute {} "\"a\u2028b\"").outcome (.fresh .standard []) = .ok (.str "a\u2028b") ∧
      (run {} "\"a\u2028b\"").outcome (.fresh .standard [])
        = .error (.failure (.badToken "'\"' at position 1")) := by
  refine ⟨?_, ?_, ?_⟩
  · cbv
  · cbv
  · cbv

end Program

end LineScript
