/-
LineScript/Proofs/Refusals.lean

Where a text that is no sentence is refused.

Lexemes are viable if some sentence of the grammar starts with them.  A text is
read from left to right, a lexeme at a time (`Reached`), and there are three ways
in which it can turn out not to be a sentence (`Refuses`): a lexeme comes that the
lexemes before it cannot go on with; a character comes that starts no lexeme; or
the text ends, and its lexemes are viable but not complete.  Parsing reports the
one that comes first, and its place.

The link to the reader is that every progress can be completed: whatever has been
read, there are lexemes that make a sentence of it.  So a progress refuses a lexeme
exactly if it makes the lexemes read so far not viable.
-/
import LineScript.Proofs.Parsing
import LineScript.Proofs.SingleStatements

namespace LineScript

open Grammar (Derivation)
open Lexeme (Leads Lexes)
open Sentence (Progress follow refusal strange)
open Token (isGap)

/-! ### Viable lexemes -/

/-- The lexemes that some sentence of the grammar starts with. -/
def Grammar.Viable (ls : List Lexeme) : Prop :=
  ∃ more, Nonempty (Derivation (ls ++ more))

open Grammar (Viable)

namespace Sentence.Progress

/-- A progress that some lexemes make a sentence of. -/
def Completable (p : Progress) : Prop :=
  ∃ more, (∀ l ∈ more, l.Spelled) ∧ ∃ q w, p.feedAll more = some q ∧ q.finish = some w

theorem completable_of_finish {p : Progress} {w : Sentence} (h : p.finish = some w) :
    p.Completable :=
  ⟨[], by simp, p, w, rfl, h⟩

theorem completable_of_feed {p q : Progress} {l : Lexeme} (hl : l.Spelled)
    (h : p.feedLexeme l = some q) (hq : q.Completable) : p.Completable := by
  obtain ⟨more, hmore, r, w, hr, hw⟩ := hq
  refine ⟨l :: more, List.forall_mem_cons.mpr ⟨hl, hmore⟩, r, w, ?_, hw⟩
  rw [feedAll_of_feed h]
  exact hr

/-- Behind a complete expression the open calls can be closed, one by one. -/
theorem completable_complete (u : Purpose) (cs : List OpenCall) (e : Phrase) :
    (complete u cs e).Completable := by
  induction cs generalizing e with
  | nil => exact completable_of_finish rfl
  | cons c cs ih => exact completable_of_feed Lexeme.spelled_closing rfl (ih _)

/-- An expression can always be `null`. -/
theorem completable_operand (u : Purpose) (cs : List OpenCall) : (operand u cs).Completable :=
  completable_of_feed (l := .literal .null "null") Token.Spells.null rfl
    (completable_complete u cs _)

theorem completable_named (m : Bool) (x : String) : (named m x).Completable :=
  completable_of_feed Lexeme.spelled_equals rfl (completable_operand _ _)

/-- **Every progress can be completed.** -/
theorem completable (p : Progress) : p.Completable := by
  have hname : (Lexeme.name "x").Spelled := Lexeme.spelled_name_iff.mpr (by decide)
  cases p with
  -- any short sentence will do
  | start =>
    exact completable_of_feed (l := .literal .null "null") Token.Spells.null rfl
      (completable_complete _ _ _)
  | keyword m => exact completable_of_feed hname rfl (completable_named m "x")
  | named m x => exact completable_named m x
  | typing m x => exact completable_of_feed hname rfl (completable_of_finish rfl)
  | typed m x t => exact completable_of_finish rfl
  | leading x => exact completable_of_finish rfl
  | operand u cs => exact completable_operand u cs
  | opened u f cs =>
    exact completable_of_feed Lexeme.spelled_closing rfl (completable_complete _ _ _)
  | reference u cs x =>
    -- a name alone is an expression, or the last argument of the open calls
    cases cs with
    | nil => exact completable_of_finish rfl
    | cons c cs =>
      exact completable_of_feed Lexeme.spelled_closing rfl (completable_complete _ _ _)
  | complete u cs e => exact completable_complete u cs e

/-- **The lexemes that can be read are the viable ones.** -/
theorem viable_iff {ls : List Lexeme} (hs : ∀ l ∈ ls, l.Spelled) :
    Viable ls ↔ ∃ p, start.feedAll ls = some p := by
  constructor
  · rintro ⟨more, ⟨d⟩⟩
    obtain ⟨w, -, hw⟩ := d.exists_sentence
    obtain ⟨q, hq, -⟩ := exists_feedAll_lexemes w
    rw [← hw, feedAll_append] at hq
    obtain ⟨p, hp, -⟩ := Option.bind_eq_some_iff.mp hq
    exact ⟨p, hp⟩
  · rintro ⟨p, hp⟩
    -- what completes the progress makes a sentence that starts with what was read
    obtain ⟨more, hmore, q, w, hq, hw⟩ := p.completable
    have hspelled : ∀ l ∈ ls ++ more, l.Spelled :=
      List.forall_mem_append.mpr ⟨hs, hmore⟩
    have hread : start.feedAll (ls ++ more) = some q := by
      rw [feedAll_append, hp, Option.bind_some, hq]
    have hlexemes : w.lexemes = ls ++ more := by
      rw [lexemes_finish hw, lexemes_feedAll hspelled hread]
      rfl
    rw [← hlexemes] at hspelled
    exact ⟨more, hlexemes ▸ ⟨.ofSentence w hspelled⟩⟩

/-- A progress may end exactly if its lexemes are a sentence. -/
theorem finish_eq_none_iff {p : Progress} {ls : List Lexeme} (hs : ∀ l ∈ ls, l.Spelled)
    (h : start.feedAll ls = some p) : p.finish = none ↔ ¬ Nonempty (Derivation ls) := by
  rw [Option.eq_none_iff_forall_ne_some]
  constructor
  · rintro hnone ⟨d⟩
    obtain ⟨w, -, rfl⟩ := d.exists_sentence
    obtain ⟨q, hq, hw⟩ := exists_feedAll_lexemes w
    rw [h, Option.some.injEq] at hq
    exact hnone w (hq ▸ hw)
  · intro hnone w hw
    have hlexemes : w.lexemes = ls := by
      rw [lexemes_finish hw, lexemes_feedAll hs h]
      rfl
    rw [← hlexemes] at hs hnone
    exact hnone ⟨.ofSentence w hs⟩

end Sentence.Progress

/-! ### Positions -/

/-- The position behind a text: characters count from one, and start again behind
a line feed. -/
def Text.position (before : List Char) : Nat :=
  (before.reverse.takeWhile (· != '\n')).length + 1

open Text (position)

theorem Text.position_concat (before : List Char) (c : Char) :
    position (before ++ [c]) = Token.columnAfter (position before) c := by
  rw [position, List.reverse_concat, Token.columnAfter]
  split
  · next hc => simp [hc]
  · next hc => simp [hc, position]

theorem Text.position_append (before cs : List Char) :
    position (before ++ cs) = cs.foldl Token.columnAfter (position before) := by
  induction cs generalizing before with
  | nil => rw [List.append_nil, List.foldl_nil]
  | cons c cs ih =>
    rw [List.append_cons, ih, position_concat, List.foldl_cons]

/-! ### Reading from left to right -/

namespace Lexeme

theorem exists_leads {cs w : List Char} {k : Token.Kind} (h : Token.lexeme? cs = some (k, w)) :
    ∃ l rest, cs = l.chars ++ rest ∧ Leads l (l.chars ++ rest) := by
  obtain ⟨rest, rfl⟩ := Token.lexeme?_front h
  obtain ⟨s, rfl⟩ : ∃ s : String, w = s.toList := ⟨_, String.toList_ofList.symm⟩
  exact ⟨⟨k, s⟩, rest, rfl, leads_iff.mpr h⟩

/-- No lexeme is taken exactly if the text starts with none. -/
theorem lexeme?_eq_none_iff {cs : List Char} :
    Token.lexeme? cs = none ↔ ∀ l : Lexeme, l.Spelled → ¬ l.chars <+: cs := by
  rw [Option.eq_none_iff_forall_ne_some]
  constructor
  · rintro hnone l hl ⟨rest, rfl⟩
    obtain ⟨k, w, htaken, -⟩ := Token.exists_lexeme? hl rest
    exact hnone _ htaken
  · rintro hnone ⟨k, w⟩ htaken
    obtain ⟨l, rest, rfl, hl⟩ := exists_leads htaken
    exact hnone l hl.spelled hl.front

end Lexeme

namespace Statement

/-- How far a text has been read: `Reached cs before ts rest` says that `before`,
the front of `cs`, has been cut into the tokens `ts`, and that `rest` is still to
come.  Spaces and tabs are passed over; elsewhere the longest lexeme is taken, and
its position is that of its first character. -/
inductive Reached (cs : List Char) : List Char → List Token → List Char → Prop
  | start : Reached cs [] [] cs
  | gap {before rest : List Char} {ts : List Token} {c : Char} :
    Reached cs before ts (c :: rest) → isGap c = true → Reached cs (before ++ [c]) ts rest
  | token {before rest : List Char} {ts : List Token} {l : Lexeme} :
    Reached cs before ts (l.chars ++ rest) → l.Leads (l.chars ++ rest) →
    Reached cs (before ++ l.chars) (ts ++ [⟨l.kind, l.text, position before⟩]) rest

/-- How a text turns out not to be a sentence. -/
inductive Refuses (cs : List Char) : Failure → Prop
  /-- A lexeme comes that no sentence goes on with. -/
  | lexeme {before rest : List Char} {ts : List Token} {l : Lexeme} :
    Reached cs before ts (l.chars ++ rest) → l.Leads (l.chars ++ rest) →
    Viable (ts.map Token.lexeme) → ¬ Viable (ts.map Token.lexeme ++ [l]) →
    Refuses cs (refusal (position before))
  /-- A character comes that starts no lexeme. -/
  | character {before rest : List Char} {ts : List Token} {c : Char} :
    Reached cs before ts (c :: rest) → isGap c = false →
    (∀ l : Lexeme, l.Spelled → ¬ l.chars <+: c :: rest) → Viable (ts.map Token.lexeme) →
    Refuses cs (strange c (position before))
  /-- The text ends too early. -/
  | ending {before : List Char} {ts : List Token} {t : Token} :
    Reached cs before (ts ++ [t]) [] → Viable ((ts ++ [t]).map Token.lexeme) →
    ¬ Nonempty (Derivation ((ts ++ [t]).map Token.lexeme)) → Refuses cs (refusal t.column)

section Reading

variable {cs before rest : List Char} {ts : List Token} {l : Lexeme} {c : Char} {f : Failure}

theorem Reached.append_eq (h : Reached cs before ts rest) : before ++ rest = cs := by
  induction h with
  | start => rfl
  | gap _ _ ih => rw [← ih, List.append_assoc, List.singleton_append]
  | token _ _ ih => rw [← ih, List.append_assoc]

theorem Reached.spelled (h : Reached cs before ts rest) :
    ∀ l ∈ ts.map Token.lexeme, l.Spelled := by
  induction h with
  | start => simp
  | gap _ _ ih => exact ih
  | token _ hl ih =>
    rw [List.map_append, List.forall_mem_append]
    exact ⟨ih, by simpa [Token.lexeme] using hl.spelled⟩

theorem Reached.tokens_ne_nil (h : Reached cs before ts rest)
    (hcs : ∀ c ∈ cs.head?, isGap c = false) : before = [] ∨ ts ≠ [] := by
  induction h with
  | start => exact .inl rfl
  | @gap before rest ts c hreached hc ih =>
    rcases ih with rfl | hts
    · rw [← hreached.append_eq] at hcs
      rw [hcs c rfl] at hc
      cases hc
    · exact .inr hts
  | token => exact .inr (by simp)

/-- **What has been read is what the scan gives**, and it goes on with the rest. -/
theorem Reached.scan_eq (h : Reached cs before ts rest) :
    Token.scan cs = ⟨ts ++ (Token.scanFrom 0 (position before) rest).tokens,
      (Token.scanFrom 0 (position before) rest).stuck⟩ := by
  induction h with
  | start => rfl
  | gap _ hc ih => rw [ih, Token.scan_gap hc, Text.position_concat]
  | token _ hl ih =>
    rw [ih, hl.scanFrom_eq, Text.position_append, List.append_assoc]
    rfl

/-- A text that has been read to its end is made of the lexemes that were read. -/
theorem Reached.lexes (h : Reached cs before ts []) : Lexes cs (ts.map Token.lexeme) := by
  rw [Lexeme.lexes_iff_scan, h.scan_eq]
  exact ⟨rfl, congrArg _ (List.append_nil ts)⟩

/-- **A text is refused where it stops being a sentence.** -/
theorem Refuses.sentence_eq (h : Refuses cs f) : sentence cs = .error f := by
  show follow (Token.scan cs).stuck .start 1 (Token.scan cs).tokens = .error f
  cases h with
  | @lexeme before rest ts l hreached hl hviable hstop =>
    obtain ⟨p, hp⟩ := (Progress.viable_iff hreached.spelled).mp hviable
    have hfeed : p.feed ⟨l.kind, l.text, position before⟩ = none := by
      rw [Option.eq_none_iff_forall_ne_some]
      intro q hq
      -- a progress that took the lexeme could be completed
      have hspelled : ∀ l' ∈ ts.map Token.lexeme ++ [l], l'.Spelled :=
        List.forall_mem_append.mpr ⟨hreached.spelled, by simpa using hl.spelled⟩
      have hread : p.feedLexeme l = some q := (p.feed_congr rfl).trans hq
      refine hstop ((Progress.viable_iff hspelled).mpr ⟨q, ?_⟩)
      rw [Progress.feedAll_append, hp, Option.bind_some, Progress.feedAll_of_feed hread,
        Progress.feedAll_nil]
    rw [hreached.scan_eq, hl.scanFrom_eq]
    obtain ⟨last, hfollow⟩ := Sentence.follow_append _ hp 1
      (⟨l.kind, l.text, position before⟩ :: (Token.scanFrom 0 _ rest).tokens)
    refine hfollow.trans ?_
    rw [follow, hfeed]
  | @character before rest ts c hreached hgap hnone hviable =>
    obtain ⟨p, hp⟩ := (Progress.viable_iff hreached.spelled).mp hviable
    have hstuck := Lexeme.lexeme?_eq_none_iff.mpr hnone
    rw [hreached.scan_eq, Token.scan_stuck hgap hstuck, List.append_nil]
    exact Sentence.follow_of_stuck hp c _ 1
  | @ending before ts t hreached hviable hnone =>
    obtain ⟨p, hp⟩ := (Progress.viable_iff hreached.spelled).mp hviable
    have hfinish := (Progress.finish_eq_none_iff hreached.spelled hp).mpr hnone
    rw [List.map_append, Progress.feedAll_append] at hp
    obtain ⟨q, hq, hqp⟩ := Option.bind_eq_some_iff.mp hp
    have hfeed : q.feed t = some p := by
      rw [List.map_singleton, Progress.feedAll_cons] at hqp
      obtain ⟨p', hp', hpp'⟩ := Option.bind_eq_some_iff.mp hqp
      cases hpp'
      exact (q.feed_congr rfl).symm.trans hp'
    obtain ⟨last, hfollow⟩ := Sentence.follow_append none hq 1 [t]
    rw [hreached.scan_eq]
    show follow none .start 1 (ts ++ [t] ++ []) = _
    rw [List.append_nil, hfollow, follow, hfeed]
    show follow none p t.column [] = _
    rw [follow, hfinish]

/-- A text is a sentence or is refused, as soon as what has been read is viable. -/
theorem Reached.exists_refuses (hcs : ∀ c ∈ cs.head?, isGap c = false) (hne : cs ≠ [])
    (h : Reached cs before ts rest) (hviable : Viable (ts.map Token.lexeme)) :
    (∃ ls, Lexes cs ls ∧ Nonempty (Derivation ls)) ∨ ∃ f, Refuses cs f := by
  induction hlength : rest.length using Nat.strong_induction_on generalizing before ts rest with
  | _ n ih =>
  rcases rest with - | ⟨c, r⟩
  -- at the end of the text its lexemes are a sentence, or are refused at the last
  · by_cases hd : Nonempty (Derivation (ts.map Token.lexeme))
    · exact .inl ⟨_, h.lexes, hd⟩
    · have hts : ts ≠ [] := by
        rcases h.tokens_ne_nil hcs with rfl | hts
        · exact absurd h.append_eq.symm hne
        · exact hts
      obtain ⟨front, t, rfl⟩ := (List.eq_nil_or_concat' ts).resolve_left hts
      exact .inr ⟨_, .ending h hviable hd⟩
  · rcases hgap : isGap c with - | -
    · rcases htaken : Token.lexeme? (c :: r) with - | ⟨k, w⟩
      · exact .inr ⟨_, .character h hgap (Lexeme.lexeme?_eq_none_iff.mp htaken) hviable⟩
      · obtain ⟨l, rest, hsplit, hl⟩ := Lexeme.exists_leads htaken
        rw [hsplit] at h hlength
        -- reading goes on behind the lexeme as long as some sentence does
        by_cases hnext : Viable (ts.map Token.lexeme ++ [l])
        · have hshorter : rest.length < n := by
            have hpos := List.length_pos_of_ne_nil (Token.Spells.ne_nil hl.spelled)
            rw [← hlength, List.length_append]
            omega
          refine ih rest.length hshorter (h.token hl) ?_ rfl
          rw [List.map_append]
          exact hnext
        · exact .inr ⟨_, .lexeme h hl hviable hnext⟩
    · exact ih r.length (by simp [← hlength]) (h.gap hgap) hviable rfl

end Reading

/-- **Where a text that is no sentence is refused.**  Its tokens are read from left
to right.  The first that makes them not viable is refused at its position, unless
a character that starts no token comes before it; if neither comes, the text is
refused at its last token.  There is always one such place, and no other. -/
theorem parse_refuses_first [Text.CharacterNames] {source : String}
    (hne : Text.trim source.toList ≠ [])
    (hinvalid : ¬ ∃ ls, Lexes (Text.trim source.toList) ls ∧ Nonempty (Derivation ls)) :
    ∃ f, parse source = .error (.failure f) ∧
      ∀ g, Refuses (Text.trim source.toList) g ↔ g = f := by
  have hhead : ∀ c ∈ (Text.trim source.toList).head?, isGap c = false :=
    fun c hc => Text.isGap_of_isBlank (Text.isBlank_head?_trim source.toList c hc)
  have hviable : Viable [] := (Progress.viable_iff (by simp)).mpr ⟨.start, rfl⟩
  rw [parse]
  generalize Text.trim source.toList = cs at hne hinvalid hhead
  -- some refusal is reached, since the text is no sentence
  obtain ⟨f, hf⟩ := (Reached.start.exists_refuses hhead hne hviable).resolve_left hinvalid
  refine ⟨f, ?_, fun g => ⟨fun hg => ?_, ?_⟩⟩
  · rw [parseTrimmed, if_neg (by simpa using hne), hf.sentence_eq]
  · -- the reader is a function, so every refusal is the one it gives
    have hsame := hg.sentence_eq
    rw [hf.sentence_eq] at hsame
    cases hsame
    rfl
  · rintro rfl
    exact hf

/-- An argument without a comma comes before a strange character, which comes before
a stray comma; and a call that is not closed ends at an argument, which is the
fourth character behind the line feed. -/
theorem parse_refuses_first_in_calls :
    let argument := " f(1 2 $"
    let character := " f(1, $ ,"
    let call := " f(\"\n\", 1"
    (parse argument = .error (.failure (refusal 5)) ∧
        ∀ g, Refuses (Text.trim argument.toList) g ↔ g = refusal 5) ∧
      (parse character = .error (.failure (strange '$' 6)) ∧
        ∀ g, Refuses (Text.trim character.toList) g ↔ g = strange '$' 6) ∧
      (parse call = .error (.failure (refusal 4)) ∧
        ∀ g, Refuses (Text.trim call.toList) g ↔ g = refusal 4) := by
  intro argument character call
  have hrefuses : ∀ (source : String) (f : Failure), Text.trim source.toList ≠ [] →
      sentence (Text.trim source.toList) = .error f → parse source = .error (.failure f) ∧
        ∀ g, Refuses (Text.trim source.toList) g ↔ g = f := by
    intro source f hne hf
    have hinvalid : ¬ ∃ ls, Lexes (Text.trim source.toList) ls ∧ Nonempty (Derivation ls) := by
      rintro ⟨ls, hls, ⟨d⟩⟩
      obtain ⟨w, -, rfl⟩ := d.exists_sentence
      rw [sentence_eq_ok_iff.mpr hls] at hf
      cases hf
    obtain ⟨f', hparse, hf'⟩ := parse_refuses_first hne hinvalid
    have hsame := ((hf' f').mpr rfl).sentence_eq
    rw [hf] at hsame
    cases hsame
    exact ⟨hparse, hf'⟩
  exact ⟨hrefuses argument _ (by decide +kernel) (by cbv),
    hrefuses character _ (by decide +kernel) (by cbv),
    hrefuses call _ (by decide +kernel) (by cbv)⟩

end Statement

end LineScript
