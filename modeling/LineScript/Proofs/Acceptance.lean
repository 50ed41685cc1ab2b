/-
LineScript/Proofs/Acceptance.lean

Which sequences of lexemes are read as which sentence.

Every sentence has its lexemes (`Sentence.lexemes`), and reading gives back
exactly the sentence whose lexemes they are (`sentence_eq_ok_iff`).  In both
directions the progress of the reader is the invariant:

* a progress has lexemes too, those that have been read so far; taking a token
  adds its lexeme to them (`lexemes_feed`), so that a sentence that is read has
  the lexemes of the text;
* from the place of an operand, the lexemes of a phrase lead to the state in
  which the phrase is complete (`feedAll_lexemes`), whatever comes behind them.

No two sentences have the same lexemes, because the reader is a function.
-/
import LineScript.Proofs.Lexing
import LineScript.Statement

namespace LineScript

open Token (Spells)

/-! ### The lexemes of sentences -/

namespace Lexeme

def opening : Lexeme := ⟨.opening, "("⟩

def closing : Lexeme := ⟨.closing, ")"⟩

def comma : Lexeme := ⟨.comma, ","⟩

def colon : Lexeme := ⟨.colon, ":"⟩

def equals : Lexeme := ⟨.equals, "="⟩

/-- The keyword of a declaration. -/
def keyword (isMutable : Bool) : Lexeme :=
  if isMutable then ⟨.var, "var"⟩ else ⟨.val, "val"⟩

def name (x : String) : Lexeme := ⟨.name, x⟩

def literal (k : LiteralKind) (text : String) : Lexeme := ⟨.literal k, text⟩

theorem spelled_opening : opening.Spelled := Spells.opening

theorem spelled_closing : closing.Spelled := Spells.closing

theorem spelled_comma : comma.Spelled := Spells.comma

theorem spelled_colon : colon.Spelled := Spells.colon

theorem spelled_equals : equals.Spelled := Spells.equals

theorem spelled_keyword (isMutable : Bool) : (keyword isMutable).Spelled := by
  cases isMutable
  · exact Spells.val
  · exact Spells.var

theorem spelled_name_iff {x : String} : (name x).Spelled ↔ Token.IsName x := by
  constructor
  · intro h
    have hspells : Spells .name x.toList := h
    generalize hw : x.toList = w at hspells
    cases hspells with
    | name hword hkey =>
      subst hw
      exact ⟨hword, hkey⟩
  · rintro ⟨hword, hkey⟩
    exact Spells.name hword hkey

/-- Marks and keywords are spelled in one way only. -/
theorem Spelled.eq_of_kind {l l' : Lexeme} (h : l.Spelled) (h' : l'.Spelled)
    (hk : l.kind = l'.kind) (hfixed : l.kind.isMark = true ∨ l.kind = .val ∨ l.kind = .var) :
    l = l' := by
  obtain ⟨k, text⟩ := l
  obtain ⟨k', text'⟩ := l'
  obtain rfl : k = k' := hk
  have hw : Spells k text.toList := h
  have hw' : Spells k text'.toList := h'
  suffices text.toList = text'.toList by rw [String.toList_inj.mp this]
  generalize text.toList = w at hw
  generalize text'.toList = w' at hw'
  cases hw <;> first | (cases hw'; rfl) | (exfalso; revert hfixed; simp [Token.Kind.isMark])

end Lexeme

namespace Phrase

mutual

/-- The lexemes of a phrase. -/
def lexemes : Phrase → List Lexeme
  | literal k text => [.literal k text]
  | reference x => [.name x]
  | call f ps => .name f :: .opening :: (argumentLexemes ps ++ [.closing])

/-- The lexemes of the arguments of a call, with commas between them. -/
def argumentLexemes : List Phrase → List Lexeme
  | [] => []
  | p :: ps => lexemes p ++ furtherLexemes ps

/-- The lexemes of the arguments behind the first, each with a comma before
it. -/
def furtherLexemes : List Phrase → List Lexeme
  | [] => []
  | p :: ps => .comma :: (lexemes p ++ furtherLexemes ps)

end

theorem spelled_furtherLexemes_iff {ps : List Phrase} :
    (∀ l ∈ furtherLexemes ps, l.Spelled) ↔ ∀ p ∈ ps, ∀ l ∈ p.lexemes, l.Spelled := by
  induction ps with
  | nil => simp [furtherLexemes]
  | cons p ps ih =>
    rw [furtherLexemes, List.forall_mem_cons, List.forall_mem_append, List.forall_mem_cons, ih]
    exact and_iff_right Lexeme.spelled_comma

/-- The lexemes of a call are spelled as they should be if its name and the
lexemes of its arguments are. -/
theorem spelled_call_iff {f : String} {ps : List Phrase} :
    (∀ l ∈ (call f ps).lexemes, l.Spelled) ↔
      (Lexeme.name f).Spelled ∧ ∀ p ∈ ps, ∀ l ∈ p.lexemes, l.Spelled := by
  have harguments : (∀ l ∈ argumentLexemes ps, l.Spelled) ↔
      ∀ p ∈ ps, ∀ l ∈ p.lexemes, l.Spelled := by
    rcases ps with - | ⟨p, ps⟩
    · simp [argumentLexemes]
    · rw [argumentLexemes, List.forall_mem_append, List.forall_mem_cons,
        spelled_furtherLexemes_iff]
  rw [lexemes, List.forall_mem_cons, List.forall_mem_cons, List.forall_mem_append, harguments]
  simp [Lexeme.spelled_opening, Lexeme.spelled_closing]

end Phrase

namespace Sentence

/-- The lexemes between the name and the value of a definition. -/
def typeLexemes : Option String → List Lexeme
  | none => []
  | some t => [.colon, .name t]

/-- The lexemes of a sentence. -/
def lexemes : Sentence → List Lexeme
  | declaration m x t => [.keyword m, .name x, .colon, .name t]
  | definition m x t p => .keyword m :: .name x :: (typeLexemes t ++ .equals :: p.lexemes)
  | assignment x p => .name x :: .equals :: p.lexemes
  | expression p => p.lexemes

/-! ### The lexemes that have been read -/

/-- The lexemes in front of an expression. -/
def Purpose.lexemes : Purpose → List Lexeme
  | result => []
  | assignment x => [.name x, .equals]
  | definition m x t => .keyword m :: .name x :: (typeLexemes t ++ [.equals])

/-- The lexemes of arguments that commas follow. -/
def pendingLexemes : List Phrase → List Lexeme
  | [] => []
  | p :: ps => p.lexemes ++ .comma :: pendingLexemes ps

/-- The lexemes of open calls, the innermost of which comes first in the list
and last in the text. -/
def callLexemes : List OpenCall → List Lexeme
  | [] => []
  | c :: cs => callLexemes cs ++ .name c.function :: .opening :: pendingLexemes c.arguments

/-- The lexemes that have been read of a sentence. -/
def Progress.lexemes : Progress → List Lexeme
  | start => []
  | keyword m => [.keyword m]
  | named m x => [.keyword m, .name x]
  | typing m x => [.keyword m, .name x, .colon]
  | typed m x t => [.keyword m, .name x, .colon, .name t]
  | leading x => [.name x]
  | operand u cs => u.lexemes ++ callLexemes cs
  | opened u f cs => u.lexemes ++ callLexemes cs ++ [.name f, .opening]
  | reference u cs x => u.lexemes ++ callLexemes cs ++ [.name x]
  | complete u cs p => u.lexemes ++ callLexemes cs ++ p.lexemes

theorem pendingLexemes_concat (ps : List Phrase) (p : Phrase) :
    pendingLexemes (ps ++ [p]) = pendingLexemes ps ++ (p.lexemes ++ [.comma]) := by
  induction ps with
  | nil => rfl
  | cons q qs ih => simp [pendingLexemes, ih]

/-- The last argument is the one that no comma follows. -/
theorem argumentLexemes_concat (ps : List Phrase) (p : Phrase) :
    Phrase.argumentLexemes (ps ++ [p]) = pendingLexemes ps ++ p.lexemes := by
  have hfurther : ∀ qs, Phrase.furtherLexemes (qs ++ [p])
      = .comma :: (pendingLexemes qs ++ p.lexemes) := by
    intro qs
    induction qs with
    | nil => simp [Phrase.furtherLexemes, pendingLexemes]
    | cons q qs ih => simp [Phrase.furtherLexemes, pendingLexemes, ih]
  cases ps with
  | nil => simp [Phrase.argumentLexemes, Phrase.furtherLexemes, pendingLexemes]
  | cons q qs => simp [Phrase.argumentLexemes, pendingLexemes, hfurther]

theorem Purpose.lexemes_close (u : Purpose) (p : Phrase) :
    (u.close p).lexemes = u.lexemes ++ p.lexemes := by
  cases u with
  | result => rfl
  | assignment x => rfl
  | definition m x t => simp [close, Sentence.lexemes, lexemes]

namespace Progress

section Feed

variable {t : Token} {q : Progress}

/-- The lexeme of a token that has its one spelling. -/
theorem lexeme_eq {l : Lexeme} (ht : t.lexeme.Spelled) (hl : l.Spelled) (hk : t.kind = l.kind)
    (hfixed : l.kind.isMark = true ∨ l.kind = .val ∨ l.kind = .var) : t.lexeme = l :=
  (hl.eq_of_kind ht hk.symm hfixed).symm

theorem lexemes_feedOperand {u : Purpose} {cs : List OpenCall}
    (h : feedOperand u cs t = some q) :
    q.lexemes = u.lexemes ++ callLexemes cs ++ [t.lexeme] := by
  obtain ⟨k, text, column⟩ := t
  unfold feedOperand at h
  dsimp only at h
  split at h
  · cases h
    rfl
  · cases h
    rfl
  · cases h

theorem lexemes_feedComplete {u : Purpose} {cs : List OpenCall} {p : Phrase}
    (ht : t.lexeme.Spelled) (h : feedComplete u cs p t = some q) :
    q.lexemes = u.lexemes ++ callLexemes cs ++ p.lexemes ++ [t.lexeme] := by
  unfold feedComplete at h
  split at h
  · next c cs hk =>
    cases h
    rw [lexeme_eq ht Lexeme.spelled_comma hk (.inl rfl)]
    simp [lexemes, callLexemes, pendingLexemes_concat]
  · next c cs hk =>
    cases h
    rw [lexeme_eq ht Lexeme.spelled_closing hk (.inl rfl)]
    simp [lexemes, callLexemes, Phrase.lexemes, argumentLexemes_concat]
  · cases h

/-- The lexeme of a name. -/
theorem lexeme_name (hk : t.kind = .name) : t.lexeme = .name t.text := by
  obtain ⟨k, text, column⟩ := t
  obtain rfl : k = .name := hk
  rfl

/-- **Taking a token adds its lexeme to those that have been read.** -/
theorem lexemes_feed {p : Progress} (ht : t.lexeme.Spelled) (h : p.feed t = some q) :
    q.lexemes = p.lexemes ++ [t.lexeme] := by
  cases p with
  | start =>
    unfold feed at h
    dsimp only at h
    split at h
    · -- `val`
      next hk =>
      cases h
      rw [lexeme_eq ht (Lexeme.spelled_keyword false) hk (.inr (.inl rfl))]
      rfl
    · -- `var`
      next hk =>
      cases h
      rw [lexeme_eq ht (Lexeme.spelled_keyword true) hk (.inr (.inr rfl))]
      rfl
    · next hk =>
      cases h
      rw [lexeme_name hk]
      rfl
    · -- the lexeme opens an expression
      exact lexemes_feedOperand h
  | keyword m =>
    simp only [feed, Option.ite_none_right_eq_some, Option.some.injEq] at h
    obtain ⟨hk, rfl⟩ := h
    rw [lexeme_name hk]
    rfl
  -- behind the name comes a type or the value
  | named m x =>
    unfold feed at h
    dsimp only at h
    split at h
    · next hk =>
      cases h
      rw [lexeme_eq ht Lexeme.spelled_colon hk (.inl rfl)]
      rfl
    · next hk =>
      cases h
      rw [lexeme_eq ht Lexeme.spelled_equals hk (.inl rfl)]
      rfl
    · cases h
  | typing m x =>
    simp only [feed, Option.ite_none_right_eq_some, Option.some.injEq] at h
    obtain ⟨hk, rfl⟩ := h
    rw [lexeme_name hk]
    rfl
  | typed m x y =>
    simp only [feed, Option.ite_none_right_eq_some, Option.some.injEq] at h
    obtain ⟨hk, rfl⟩ := h
    rw [lexeme_eq ht Lexeme.spelled_equals hk (.inl rfl)]
    rfl
  -- a name in front is assigned to, called, or an expression of its own
  | leading x =>
    unfold feed at h
    dsimp only at h
    split at h
    · next hk =>
      cases h
      rw [lexeme_eq ht Lexeme.spelled_equals hk (.inl rfl)]
      rfl
    · next hk =>
      cases h
      rw [lexeme_eq ht Lexeme.spelled_opening hk (.inl rfl)]
      rfl
    · cases h
  | operand u cs => exact lexemes_feedOperand h
  -- the call is closed at once, or its first argument starts
  | opened u f cs =>
    unfold feed at h
    dsimp only at h
    split at h
    · next hk =>
      cases h
      rw [lexeme_eq ht Lexeme.spelled_closing hk (.inl rfl)]
      simp [lexemes, Phrase.lexemes, Phrase.argumentLexemes]
    · rw [lexemes_feedOperand h]
      simp [lexemes, callLexemes, pendingLexemes]
  | reference u cs x =>
    unfold feed at h
    dsimp only at h
    split at h
    · next hk =>
      cases h
      rw [lexeme_eq ht Lexeme.spelled_opening hk (.inl rfl)]
      simp [lexemes]
    · rw [lexemes_feedComplete ht h]
      rfl
  | complete u cs e => exact lexemes_feedComplete ht h

end Feed

theorem lexemes_finish {p : Progress} {w : Sentence} (h : p.finish = some w) :
    w.lexemes = p.lexemes := by
  unfold finish at h
  split at h
  · cases h
    rfl
  · cases h
    rfl
  · next u x =>
    cases h
    rw [Purpose.lexemes_close]
    simp [lexemes, callLexemes, Phrase.lexemes]
  · next u e =>
    cases h
    rw [Purpose.lexemes_close]
    simp [lexemes, callLexemes]
  · cases h

/-! ### Reading lexemes -/

/-- The place of a token makes no difference to what it does. -/
theorem feed_congr (p : Progress) {t t' : Token} (h : t.lexeme = t'.lexeme) :
    p.feed t = p.feed t' := by
  obtain ⟨k, text, column⟩ := t
  obtain ⟨k', text', column'⟩ := t'
  cases h
  cases p <;> rfl

/-- Take a lexeme. -/
def feedLexeme (p : Progress) (l : Lexeme) : Option Progress :=
  p.feed ⟨l.kind, l.text, 1⟩

/-- Take lexemes one after the other. -/
def feedAll (p : Progress) (ls : List Lexeme) : Option Progress :=
  ls.foldlM feedLexeme p

theorem feedAll_nil (p : Progress) : p.feedAll [] = some p := rfl

theorem feedAll_cons (p : Progress) (l : Lexeme) (ls : List Lexeme) :
    p.feedAll (l :: ls) = (p.feedLexeme l).bind (·.feedAll ls) := rfl

theorem feedAll_of_feed {p q : Progress} {l : Lexeme} (h : p.feedLexeme l = some q)
    (ls : List Lexeme) : p.feedAll (l :: ls) = q.feedAll ls := by
  rw [feedAll_cons, h, Option.bind_some]

/-- The state in which a phrase has been read: a name may still turn out to be
called. -/
def settle (u : Purpose) (cs : List OpenCall) : Phrase → Progress
  | .reference x => reference u cs x
  | p => complete u cs p

theorem feedLexeme_settle_comma (u : Purpose) (c : OpenCall) (cs : List OpenCall) (p : Phrase) :
    (settle u (c :: cs) p).feedLexeme .comma
      = some (operand u (⟨c.function, c.arguments ++ [p]⟩ :: cs)) := by
  cases p <;> rfl

theorem feedLexeme_settle_closing (u : Purpose) (c : OpenCall) (cs : List OpenCall) (p : Phrase) :
    (settle u (c :: cs) p).feedLexeme .closing
      = some (complete u cs (.call c.function (c.arguments ++ [p]))) := by
  cases p <;> rfl

/-- Behind an opening bracket a phrase is read as at the place of an operand. -/
theorem feedAll_opened (u : Purpose) (f : String) (cs : List OpenCall) (p : Phrase)
    (rest : List Lexeme) :
    (opened u f cs).feedAll (p.lexemes ++ rest)
      = (operand u (⟨f, []⟩ :: cs)).feedAll (p.lexemes ++ rest) := by
  cases p <;> rfl

mutual

/-- **The lexemes of a phrase are read as the phrase**, at the place of an
operand and with anything behind them. -/
theorem feedAll_lexemes (u : Purpose) (cs : List OpenCall) (rest : List Lexeme) :
    (p : Phrase) → (operand u cs).feedAll (p.lexemes ++ rest) = (settle u cs p).feedAll rest
  | .literal k text => rfl
  | .reference x => rfl
  | .call f ps => by
    have harguments := feedAll_argumentLexemes u f cs rest ps
    rw [Phrase.lexemes, List.cons_append, List.cons_append, List.append_assoc]
    rw [feedAll_of_feed (q := reference u cs f) rfl, feedAll_of_feed (q := opened u f cs) rfl]
    exact harguments

theorem feedAll_argumentLexemes (u : Purpose) (f : String) (cs : List OpenCall)
    (rest : List Lexeme) : (ps : List Phrase) →
    (opened u f cs).feedAll (Phrase.argumentLexemes ps ++ ([.closing] ++ rest))
      = (complete u cs (.call f ps)).feedAll rest
  | [] => rfl
  | p :: ps => by
    rw [Phrase.argumentLexemes, List.append_assoc, feedAll_opened, feedAll_lexemes]
    exact feedAll_furtherLexemes u ⟨f, []⟩ cs p rest ps

theorem feedAll_furtherLexemes (u : Purpose) (c : OpenCall) (cs : List OpenCall) (p : Phrase)
    (rest : List Lexeme) : (ps : List Phrase) →
    (settle u (c :: cs) p).feedAll (Phrase.furtherLexemes ps ++ ([.closing] ++ rest))
      = (complete u cs (.call c.function (c.arguments ++ p :: ps))).feedAll rest
  | [] => feedAll_of_feed (feedLexeme_settle_closing u c cs p) rest
  | p' :: ps => by
    -- the comma moves `p` into the open call
    have hfurther := feedAll_furtherLexemes u ⟨c.function, c.arguments ++ [p]⟩ cs p' rest ps
    rw [Phrase.furtherLexemes, List.cons_append, List.append_assoc]
    rw [feedAll_of_feed (feedLexeme_settle_comma u c cs p), feedAll_lexemes, hfurther,
      List.append_assoc, List.singleton_append]

end

theorem finish_settle (u : Purpose) (p : Phrase) : (settle u [] p).finish = some (u.close p) := by
  cases p <;> rfl

/-- An expression behind what it is read for makes a sentence. -/
theorem finish_of_operand {p : Progress} {ls : List Lexeme} {u : Purpose} (e : Phrase)
    (h : ∀ rest, p.feedAll (ls ++ rest) = (operand u []).feedAll rest) :
    ∃ q, p.feedAll (ls ++ e.lexemes) = some q ∧ q.finish = some (u.close e) := by
  refine ⟨settle u [] e, ?_, finish_settle u e⟩
  have hread := feedAll_lexemes u [] [] e
  rw [List.append_nil, feedAll_nil] at hread
  rw [h, hread]

/-- The lexemes of a sentence are read as the sentence. -/
theorem exists_feedAll_lexemes (w : Sentence) :
    ∃ q, start.feedAll w.lexemes = some q ∧ q.finish = some w := by
  cases w with
  | declaration m x t =>
    refine ⟨typed m x t, ?_, rfl⟩
    cases m <;> rfl
  | definition m x t e =>
    have h : ∀ rest, start.feedAll ((.keyword m :: .name x :: (typeLexemes t ++ [.equals])) ++ rest)
        = (operand (.definition m x t) []).feedAll rest := by
      intro rest
      cases m <;> cases t <;> rfl
    obtain ⟨q, hq, hfinish⟩ := finish_of_operand e h
    refine ⟨q, ?_, hfinish⟩
    rw [← hq]
    simp [Sentence.lexemes]
  | assignment x e =>
    have h : ∀ rest, start.feedAll ([.name x, .equals] ++ rest)
        = (operand (.assignment x) []).feedAll rest := fun rest => rfl
    exact finish_of_operand e h
  | expression e =>
    -- a name at the start may also turn out to be assigned to
    cases e with
    | literal k text => exact ⟨_, rfl, rfl⟩
    | reference x => exact ⟨_, rfl, rfl⟩
    | call f ps =>
      have hread := feedAll_argumentLexemes .result f [] [] ps
      rw [List.append_nil, feedAll_nil] at hread
      refine ⟨complete .result [] (.call f ps), ?_, rfl⟩
      rw [Sentence.lexemes, Phrase.lexemes]
      rw [feedAll_of_feed (q := leading f) rfl, feedAll_of_feed (q := opened .result f []) rfl]
      exact hread

/-- Reading adds the lexemes of the text to those that had been read. -/
theorem lexemes_feedAll {p q : Progress} {ls : List Lexeme} (hs : ∀ l ∈ ls, l.Spelled)
    (h : p.feedAll ls = some q) : q.lexemes = p.lexemes ++ ls := by
  induction ls generalizing p with
  | nil =>
    cases h
    simp
  | cons l ls ih =>
    rw [feedAll_cons] at h
    obtain ⟨r, hr, hrest⟩ := Option.bind_eq_some_iff.mp h
    have hl : Token.lexeme ⟨l.kind, l.text, 1⟩ |>.Spelled := hs l List.mem_cons_self
    rw [ih (fun k hk => hs k (List.mem_cons_of_mem l hk)) hrest, lexemes_feed hl hr,
      List.append_assoc]
    rfl

end Progress

/-- No two sentences have the same lexemes. -/
theorem lexemes_injective : Function.Injective lexemes := by
  intro w w' h
  obtain ⟨q, hq, hfinish⟩ := Progress.exists_feedAll_lexemes w
  obtain ⟨q', hq', hfinish'⟩ := Progress.exists_feedAll_lexemes w'
  rw [h, hq', Option.some.injEq] at hq
  rw [← hq, hfinish', Option.some.injEq] at hfinish
  exact hfinish.symm

/-! ### Reading tokens -/

/-- Reading tokens gives a sentence if nothing is left over and the progress
that they lead to may end. -/
theorem follow_eq_ok_iff {stuck : Option (Char × Nat)} {p : Progress} {last : Nat}
    {ts : List Token} {w : Sentence} :
    follow stuck p last ts = .ok w ↔
      stuck = none ∧ ∃ q, p.feedAll (ts.map Token.lexeme) = some q ∧ q.finish = some w := by
  -- induction on the tokens that are left, for every progress
  induction ts generalizing p last with
  | nil =>
    rw [follow.eq_def]
    rcases stuck with - | ⟨c, column⟩
    · rcases hf : p.finish with - | w' <;> simp [Progress.feedAll_nil, hf]
    · simp
  | cons t ts ih =>
    rw [follow, List.map_cons, Progress.feedAll_cons]
    have hfeed : p.feedLexeme t.lexeme = p.feed t := p.feed_congr rfl
    rw [hfeed]
    rcases p.feed t with - | q
    · simp
    · exact ih

/-- A text that is no sentence is refused at a column, for a token or for a
character. -/
theorem follow_eq_error {stuck : Option (Char × Nat)} {p : Progress} {last : Nat}
    {ts : List Token} {f : Failure} (h : follow stuck p last ts = .error f) :
    ∃ column, f = refusal column ∨ ∃ c, f = strange c column := by
  induction ts generalizing p last with
  | nil =>
    rw [follow.eq_def] at h
    dsimp only at h
    rcases stuck with - | ⟨c, column⟩
    · -- the text is at its end, and no sentence was finished
      rcases hf : p.finish with - | w
      · rw [hf] at h
        cases h
        exact ⟨last, .inl rfl⟩
      · rw [hf] at h
        cases h
    · -- a character that starts no token
      cases h
      exact ⟨column, .inr ⟨c, rfl⟩⟩
  | cons t ts ih =>
    rw [follow] at h
    rcases hq : p.feed t with - | q
    · rw [hq] at h
      cases h
      exact ⟨t.column, .inl rfl⟩
    · rw [hq] at h
      exact ih h

/-- Tokens are read as a sentence exactly if they are its lexemes, and no
character is left over. -/
theorem ofTokens_eq_ok_iff {ts : List Token} {stuck : Option (Char × Nat)} {w : Sentence}
    (hs : stuck = none → ∀ l ∈ ts.map Token.lexeme, l.Spelled) :
    ofTokens ts stuck = .ok w ↔ stuck = none ∧ ts.map Token.lexeme = w.lexemes := by
  rw [ofTokens, follow_eq_ok_iff]
  refine and_congr_right fun hstuck => ⟨?_, ?_⟩
  · rintro ⟨q, hq, hfinish⟩
    rw [Progress.lexemes_finish hfinish, Progress.lexemes_feedAll (hs hstuck) hq]
    rfl
  · intro h
    rw [h]
    exact Progress.exists_feedAll_lexemes w

end Sentence

namespace Statement

/-- **A text is read as a sentence exactly if it is made of its lexemes.** -/
theorem sentence_eq_ok_iff {cs : List Char} {w : Sentence} :
    sentence cs = .ok w ↔ Lexeme.Lexes cs w.lexemes := by
  rw [Lexeme.lexes_iff_scan]
  exact Sentence.ofTokens_eq_ok_iff fun hstuck => (Lexeme.lexes_of_scanFrom hstuck).spelled

/-- A text that is no sentence is refused at a column. -/
theorem sentence_eq_error {cs : List Char} {f : Failure} (h : sentence cs = .error f) :
    ∃ column, f = Sentence.refusal column ∨ ∃ c, f = Sentence.strange c column :=
  Sentence.follow_eq_error h

end Statement

end LineScript
