/-
LineScript/Proofs/Lexing.lean

Cutting a text into tokens, as a relation.

A lexeme is a token apart from its place.  `Lexes cs ls` says that the text `cs`
is made of the lexemes `ls` with gaps between them, each of them the longest
that could be taken at its place.  Scanning decides this relation
(`lexes_iff_scan`): it gives the lexemes if there are any, and stops at a
character if there are none.

* What the scanner takes is a front of the text (`lexeme?_front`), and every
  token at the front of a text is part of what it takes (`exists_lexeme?`).
  Together with the spelling this makes it the longest one.
* To write lexemes down it is enough that each is a mark, or stands before
  something that neither continues a word nor a number (`Lexes.lexeme`).

A spelled lexeme neither starts nor ends with a blank, so nothing of it is lost
when a text is trimmed.
-/
import LineScript.Proofs.Spelling
import LineScript.Text.Blank
import Mathlib.Data.List.Basic

namespace LineScript

open Token (isGap isNamePart Spells Stops)
open Text (isBlank)

/-! ### Blanks around a token -/

namespace Text

/-- The characters of ASCII that leave a mark are not blank. -/
theorem isBlank_of_ascii {c : Char} (hlow : 33 ≤ c.toNat) (hhigh : c.toNat ≤ 126) :
    isBlank c = false := by
  unfold isBlank
  simp only [Bool.or_eq_false_iff, Bool.and_eq_false_iff, decide_eq_false_iff_not,
    beq_eq_false_iff_ne]
  omega

/-- What is no blank is no gap. -/
theorem isGap_of_isBlank {c : Char} (h : isBlank c = false) : isGap c = false := by
  simp only [isGap, Bool.or_eq_false_iff, beq_eq_false_iff_ne]
  constructor <;> rintro rfl <;> exact absurd h (by decide)

theorem trimStart_eq_self {cs : List Char} (h : ∀ c ∈ cs.head?, isBlank c = false) :
    trimStart cs = cs := by
  rcases cs with - | ⟨c, r⟩
  · rfl
  · simp [trimStart, h c rfl]

/-- Trimming leaves a text alone that neither starts nor ends with a blank. -/
theorem trim_eq_self {cs : List Char} (hhead : ∀ c ∈ cs.head?, isBlank c = false)
    (hlast : ∀ c ∈ cs.getLast?, isBlank c = false) : trim cs = cs := by
  have hreverse : ∀ c ∈ cs.reverse.head?, isBlank c = false := by
    rw [List.head?_reverse]
    exact hlast
  rw [trim, trimStart_eq_self hhead, trimEnd, trimStart_eq_self hreverse, List.reverse_reverse]

end Text

namespace Token

/-- The characters of all tokens but texts. -/
def isInk (c : Char) : Bool :=
  isNamePart c || c ∈ ['-', '+', '.', '\x27', '(', ')', ',', ':', '=']

theorem isBlank_of_isInk {c : Char} (h : isInk c = true) : isBlank c = false := by
  simp only [isInk, Bool.or_eq_true, isNamePart_iff, isNameStart_iff, isDigit_iff,
    decide_eq_true_eq, List.mem_cons, List.not_mem_nil, or_false] at h
  rcases h with h | rfl | rfl | rfl | rfl | rfl | rfl | rfl | rfl | rfl
  · exact Text.isBlank_of_ascii (by omega) (by omega)
  all_goals rfl

theorem isInk_of_isNamePart {c : Char} (h : isNamePart c = true) : isInk c = true := by
  simp [isInk, h]

theorem isInk_of_isDigit {c : Char} (h : Number.isDigit c = true) : isInk c = true :=
  isInk_of_isNamePart (isNamePart_iff.mpr (.inr h))

section Ink

variable {w : List Char}

theorem IsWord.isInk (h : IsWord w) : ∀ c ∈ w, isInk c = true := by
  rcases w with - | ⟨c, r⟩
  · cases h
  · intro d hd
    rcases List.mem_cons.mp hd with rfl | hd
    · exact isInk_of_isNamePart (isNamePart_iff.mpr (.inl h.1))
    · exact isInk_of_isNamePart (h.2 d hd)

theorem IsSign.isInk (h : IsSign w) : ∀ c ∈ w, isInk c = true := by
  rcases h with rfl | rfl <;> exact List.all_eq_true.mp (by decide)

theorem IsWhole.isInk (h : IsWhole w) : ∀ c ∈ w, isInk c = true := by
  rcases w with - | ⟨c, r⟩
  · cases h
  · intro d hd
    rcases List.mem_cons.mp hd with rfl | hd
    · exact isInk_of_isDigit h.1
    · have hpart := h.2 d hd
      simp only [Bool.or_eq_true, beq_iff_eq] at hpart
      rcases hpart with hdigit | rfl
      · exact isInk_of_isDigit hdigit
      · decide

theorem IsDigits.isInk (h : IsDigits w) : ∀ c ∈ w, isInk c = true :=
  fun c hc => isInk_of_isDigit (h c hc)

theorem IsExponent.isInk (h : IsExponent w) : ∀ c ∈ w, isInk c = true := by
  rcases h with @⟨c, s, ds, hc, hs, -, hds⟩
  have hletter : isInk c = true := by
    rcases hc with rfl | rfl <;> decide
  have hsign : ∀ d ∈ s, isInk d = true := by
    rcases hs with rfl | rfl | rfl <;> exact List.all_eq_true.mp (by decide)
  rw [List.forall_mem_cons, List.forall_mem_append]
  exact ⟨hletter, hsign, hds.isInk⟩

theorem isInk_of_exponent (h : w = [] ∨ IsExponent w) : ∀ c ∈ w, isInk c = true := by
  rcases h with rfl | h
  · simp
  · exact h.isInk

/-- Only a text may hold blanks, and it stands between quotes. -/
theorem Spells.isInk_or {k : Kind} (h : Spells k w) :
    (∃ b, w = '\x22' :: (b ++ ['\x22'])) ∨ w ≠ [] ∧ ∀ c ∈ w, isInk c = true := by
  cases h with
  -- words and marks that are spelled out
  | val | var | trueWord | falseWord | null | opening | closing | comma | colon | equals =>
    exact .inr ⟨by simp, List.all_eq_true.mp (by decide)⟩
  | name hword _ =>
    exact .inr ⟨hword.ne_nil, hword.isInk⟩
  -- only texts may hold gaps, between their quotes
  | text _ => exact .inl ⟨_, rfl⟩
  | symbol hword =>
    refine .inr ⟨by simp, ?_⟩
    rw [List.forall_mem_cons]
    exact ⟨by decide, hword.isInk⟩
  | integer hs hwhole =>
    refine .inr ⟨by simp [hwhole.ne_nil], ?_⟩
    rw [List.forall_mem_append]
    exact ⟨hs.isInk, hwhole.isInk⟩
  | decimal hs hwhole hds he =>
    refine .inr ⟨by simp, ?_⟩
    rw [List.forall_mem_append, List.forall_mem_append, List.forall_mem_cons,
      List.forall_mem_append]
    exact ⟨⟨hs.isInk, hwhole.isInk⟩, by decide, hds.isInk, isInk_of_exponent he⟩
  | fraction hs _ hds he =>
    refine .inr ⟨by simp, ?_⟩
    rw [List.forall_mem_append, List.forall_mem_cons, List.forall_mem_append]
    exact ⟨hs.isInk, by decide, hds.isInk, isInk_of_exponent he⟩
  | scaled hs hwhole he =>
    refine .inr ⟨by simp [he.ne_nil], ?_⟩
    rw [List.forall_mem_append, List.forall_mem_append]
    exact ⟨⟨hs.isInk, hwhole.isInk⟩, he.isInk⟩

theorem Spells.ne_nil {k : Kind} (h : Spells k w) : w ≠ [] := by
  rcases h.isInk_or with ⟨b, rfl⟩ | ⟨hne, -⟩
  · simp
  · exact hne

theorem Spells.isBlank_head? {k : Kind} (h : Spells k w) :
    ∀ c ∈ w.head?, isBlank c = false := by
  intro c hc
  rcases h.isInk_or with ⟨b, rfl⟩ | ⟨-, hink⟩
  · cases hc
    rfl
  · exact isBlank_of_isInk (hink c (List.mem_of_head? hc))

theorem Spells.isBlank_getLast? {k : Kind} (h : Spells k w) :
    ∀ c ∈ w.getLast?, isBlank c = false := by
  intro c hc
  rcases h.isInk_or with ⟨b, rfl⟩ | ⟨-, hink⟩
  · rw [← List.cons_append, List.getLast?_concat] at hc
    cases hc
    rfl
  · exact isBlank_of_isInk (hink c (List.mem_of_getLast? hc))

end Ink

end Token

/-! ### The longest token -/

namespace Token

open Number (isDigit)

section Front

theorem append_front {a b cs : List Char} (ha : a <+: cs) (hb : b <+: cs.drop a.length) :
    a ++ b <+: cs := by
  obtain ⟨r, rfl⟩ := ha
  rw [List.drop_left] at hb
  exact (List.prefix_append_right_inj a).mpr hb

theorem word_front (cs : List Char) : word cs <+: cs := by
  unfold word
  split
  · exact List.prefix_refl []
  · split
    · exact (List.prefix_cons_inj _).mpr (List.takeWhile_prefix _)
    · exact List.nil_prefix

theorem minus_front (cs : List Char) : minus cs <+: cs := by
  unfold minus
  split
  · split
    · exact ⟨_, rfl⟩
    · exact List.nil_prefix
  · exact List.nil_prefix

theorem whole_front (cs : List Char) : whole cs <+: cs := by
  unfold whole
  split
  · exact List.nil_prefix
  · split
    · exact (List.prefix_cons_inj _).mpr (List.takeWhile_prefix _)
    · exact List.nil_prefix

theorem exponentSign_front (cs : List Char) : exponentSign cs <+: cs := by
  unfold exponentSign
  split
  · split
    · exact ⟨_, rfl⟩
    · exact List.nil_prefix
  · exact List.nil_prefix

theorem exponent_front (cs : List Char) : exponent cs <+: cs := by
  unfold exponent
  split
  · exact List.nil_prefix
  · next c r =>
    dsimp only
    split
    · split
      · exact List.nil_prefix
      · refine (List.prefix_cons_inj c).mpr ?_
        exact append_front (exponentSign_front r) (List.takeWhile_prefix _)
    · exact List.nil_prefix

theorem tail_front (afterWhole : Bool) (cs : List Char) : tail afterWhole cs <+: cs := by
  unfold tail
  split
  · exact List.nil_prefix
  · next c r =>
    dsimp only
    split
    · split
      · exact List.nil_prefix
      · refine (List.prefix_cons_inj c).mpr ?_
        exact append_front (List.takeWhile_prefix _) (exponent_front _)
    · split
      · exact exponent_front _
      · exact List.nil_prefix

theorem number?_front {cs w : List Char} {k : Kind} (h : number? cs = some (k, w)) :
    w <+: cs := by
  have hwhole := append_front (minus_front cs) (whole_front (cs.drop (minus cs).length))
  unfold number? at h
  dsimp only at h
  split at h
  · cases h
    refine append_front hwhole ?_
    rw [List.length_append]
    exact tail_front _ _
  · split at h
    · cases h
      exact hwhole
    · cases h

theorem textTail?_front {cs t : List Char} (h : textTail? cs = some t) : t <+: cs := by
  fun_induction textTail? cs generalizing t with
  | case1 => cases h
  | case2 r =>
    cases h
    exact ⟨r, rfl⟩
  | case3 => cases h
  | case4 => cases h
  | case5 d r hd _ ih =>
    obtain ⟨t', ht', rfl⟩ := Option.map_eq_some_iff.mp h
    exact (List.prefix_cons_inj _).mpr ((List.prefix_cons_inj d).mpr (ih ht'))
  | case6 c r hquote hslash ih =>
    obtain ⟨t', ht', rfl⟩ := Option.map_eq_some_iff.mp h
    exact (List.prefix_cons_inj c).mpr (ih ht')

/-- The token at the front of a text is a part of the text. -/
theorem lexeme?_front {cs w : List Char} {k : Kind} (h : lexeme? cs = some (k, w)) :
    w <+: cs := by
  unfold lexeme? at h
  split at h
  · cases h
  · next c r =>
    split at h
    · -- a word
      cases h
      exact word_front (c :: r)
    · split at h
      · -- a text or a symbol
        unfold quotedLiteral? at h
        dsimp only at h
        split at h
        · obtain ⟨t, ht, heq⟩ := Option.map_eq_some_iff.mp h
          cases heq
          exact (List.prefix_cons_inj c).mpr (textTail?_front ht)
        · split at h
          · cases h
            exact (List.prefix_cons_inj c).mpr (word_front r)
          · cases h
      · split at h
        · cases h
          exact ⟨r, rfl⟩
        · -- a number
          exact number?_front h

end Front

section Longest

variable {rest : List Char}

/-- A run of characters takes in all of its class. -/
theorem takeWhile_longest {p : Char → Bool} {w : List Char} (hw : ∀ c ∈ w, p c = true) :
    w <+: (w ++ rest).takeWhile p := by
  rw [List.takeWhile_append_of_pos hw]
  exact List.prefix_append _ _

theorem word_longest {w : List Char} (hw : IsWord w) : w <+: word (w ++ rest) := by
  rcases w with - | ⟨c, r⟩
  · cases hw
  · rw [List.cons_append, word, if_pos hw.1]
    exact (List.prefix_cons_inj c).mpr (takeWhile_longest hw.2)

theorem whole_longest {w : List Char} (hw : IsWhole w) : w <+: whole (w ++ rest) := by
  rcases w with - | ⟨c, r⟩
  · cases hw
  · rw [List.cons_append, whole, if_pos hw.1]
    exact (List.prefix_cons_inj c).mpr (takeWhile_longest hw.2)

theorem exponent_longest {e : List Char} (he : IsExponent e) : e <+: exponent (e ++ rest) := by
  rcases he with @⟨c, s, ds, hc, hs, hne, hds⟩
  have hdigits : ds <+: (ds ++ rest).takeWhile isDigit := takeWhile_longest hds
  rw [List.cons_append, List.append_assoc, exponent, if_pos hc]
  dsimp only
  rw [exponentSign_append hs hne hds, List.drop_left, if_neg]
  · exact (List.prefix_cons_inj c).mpr ((List.prefix_append_right_inj s).mpr hdigits)
  · intro hnil
    rw [hnil] at hdigits
    exact hne (List.prefix_nil.mp hdigits)

/-- Digits behind a point, and the exponent behind them, are taken as far as
they go. -/
theorem tail_point_longest {afterWhole : Bool} {ds e : List Char} (hds : IsDigits ds)
    (he : e = [] ∨ IsExponent e) (hne : afterWhole = false → ds ≠ []) :
    '.' :: (ds ++ e) <+: tail afterWhole ('.' :: (ds ++ e) ++ rest) := by
  have hdigits : ds <+: (ds ++ (e ++ rest)).takeWhile isDigit := takeWhile_longest hds
  rw [List.cons_append, List.append_assoc, tail, if_pos rfl]
  dsimp only
  rw [if_neg]
  · refine (List.prefix_cons_inj _).mpr ?_
    rcases he with rfl | he
    · rw [List.append_nil]
      exact hdigits.trans (List.prefix_append _ _)
    · -- the letter of the exponent ends the digits
      have hletter : ∀ c ∈ (e ++ rest).head?, isDigit c = false :=
        fun c hc => not_isDigit_of_exponent (head?_exponent he rest c hc)
      rw [takeWhile_append_of_head hds hletter, List.drop_left]
      exact (List.prefix_append_right_inj ds).mpr (exponent_longest he)
  · rintro ⟨hnil, hfalse⟩
    rw [hnil] at hdigits
    exact hne hfalse (List.prefix_nil.mp hdigits)

theorem tail_exponent_longest {e : List Char} (he : IsExponent e) :
    e <+: tail true (e ++ rest) := by
  have hlong : e <+: exponent (e ++ rest) := exponent_longest he
  rcases he with @⟨c, s, ds, hc, hs, hne, hds⟩
  rw [List.cons_append] at hlong ⊢
  have hpoint : c ≠ '.' := by
    rcases hc with rfl | rfl <;> decide
  rw [tail, if_neg hpoint, if_pos rfl]
  exact hlong

/-- The number behind a sign, taken part by part. -/
theorem exists_number? {s r w t : List Char} (hs : minus (s ++ r) = s)
    (h : w = whole r ∧ t <+: tail (!w.isEmpty) (r.drop w.length) ∨ w <+: whole r ∧ t = [])
    (hne : w ++ t ≠ []) :
    ∃ k n, number? (s ++ r) = some (k, n) ∧ s ++ (w ++ t) <+: n := by
  have hparts : w ++ t <+: whole r ++ tail (!(whole r).isEmpty) (r.drop (whole r).length) := by
    -- a front of the whole part and its tail, either way
    rcases h with ⟨rfl, ht⟩ | ⟨hw, rfl⟩
    · exact (List.prefix_append_right_inj _).mpr ht
    · rw [List.append_nil]
      exact hw.trans (List.prefix_append _ _)
  unfold number?
  dsimp only
  rw [hs, List.drop_left, List.drop_length_add_append]
  generalize tail (!(whole r).isEmpty) (r.drop (whole r).length) = t' at hparts
  rcases t' with - | ⟨c, t'⟩
  · -- without a tail it is an integer
    rw [List.append_nil] at hparts
    have hwhole : whole r ≠ [] := by
      intro hnil
      rw [hnil] at hparts
      exact hne (List.prefix_nil.mp hparts)
    refine ⟨_, _, by rw [if_neg (by simp), if_pos hwhole], ?_⟩
    exact (List.prefix_append_right_inj s).mpr hparts
  · -- with a tail, a decimal
    refine ⟨_, _, by rw [if_pos (by simp)], ?_⟩
    rw [List.append_assoc]
    exact (List.prefix_append_right_inj s).mpr hparts

/-- A number that starts with a sign or a whole part or a point is taken, and
what it is known to be made of is part of it. -/
theorem exists_lexeme?_number {s r w t : List Char} (hs : IsSign s)
    (hstart : ∀ c ∈ r.head?, c = '.' ∨ isDigit c = true)
    (h : w = whole r ∧ t <+: tail (!w.isEmpty) (r.drop w.length) ∨ w <+: whole r ∧ t = [])
    (hne : w ++ t ≠ []) :
    ∃ k n, lexeme? (s ++ r) = some (k, n) ∧ s ++ (w ++ t) <+: n := by
  have hminus : minus (s ++ r) = s := by
    refine minus_append hs fun c hc => ?_
    rcases hstart c hc with rfl | hdigit
    · decide
    · exact ne_minus_of_isDigit hdigit
  have hnumber := hs.startsNumber fun c hc => .inr (hstart c hc)
  obtain ⟨k, n, hn, hfront⟩ := exists_number? hminus h hne
  rcases hcs : s ++ r with - | ⟨c, r'⟩
  · rw [hcs] at hn
    cases hn
  · rw [hcs] at hn hnumber
    exact ⟨k, n, by rw [lexeme?_of_startsNumber (hnumber c rfl), hn], hfront⟩

theorem exists_lexeme?_word {w : List Char} (hw : IsWord w) :
    ∃ k n, lexeme? (w ++ rest) = some (k, n) ∧ w <+: n := by
  have hlong : w <+: word (w ++ rest) := word_longest hw
  rcases w with - | ⟨c, r⟩
  · cases hw
  · refine ⟨Kind.ofWord (word (c :: r ++ rest)), _, ?_, hlong⟩
    rw [List.cons_append, lexeme?, if_pos hw.1]

/-- **Every token at the front of a text is part of the one that is taken.** -/
theorem exists_lexeme? {k : Kind} {w : List Char} (h : Spells k w) (rest : List Char) :
    ∃ k' w', lexeme? (w ++ rest) = some (k', w') ∧ w <+: w' := by
  cases h with
  | opening | closing | comma | colon | equals => exact ⟨_, _, rfl, List.prefix_refl _⟩
  | text hb => exact ⟨_, _, lexeme?_text hb rest, List.prefix_refl _⟩
  | val | var | trueWord | falseWord | null => exact exists_lexeme?_word (by decide)
  | name hword _ => exact exists_lexeme?_word hword
  | @symbol w hword =>
    have hlong : w <+: word (w ++ rest) := word_longest hword
    refine ⟨.literal .symbol, '\x27' :: word (w ++ rest), ?_, (List.prefix_cons_inj _).mpr hlong⟩
    have hne : word (w ++ rest) ≠ [] := by
      intro hnil
      rw [hnil, List.prefix_nil] at hlong
      exact hword.ne_nil hlong
    rw [List.cons_append, lexeme?, if_neg (by decide), if_pos (.inr rfl), quotedLiteral?,
      if_neg (by decide), if_pos ⟨rfl, hne⟩]
  -- more digits may follow an integer, or the tail of a decimal
  | @integer s w hs hwhole =>
    have hfound := exists_lexeme?_number hs (fun c hc => .inr (hwhole.head? rest c hc))
      (.inr ⟨whole_longest hwhole, rfl⟩) (by simp [hwhole.ne_nil])
    rw [List.append_assoc]
    rwa [List.append_nil] at hfound
  -- the whole part ends at the point or the letter, so only the tail may be longer
  | @decimal s w ds e hs hwhole hds he =>
    have hexact : w = whole (w ++ ('.' :: (ds ++ e) ++ rest)) := by
      refine (whole_append hwhole ?_).symm
      rintro c ⟨⟩
      decide
    have htail : '.' :: (ds ++ e) <+:
        tail (!w.isEmpty) ((w ++ ('.' :: (ds ++ e) ++ rest)).drop w.length) := by
      rw [hwhole.isEmpty, List.drop_left]
      exact tail_point_longest hds he (by simp)
    have hfound := exists_lexeme?_number hs (fun c hc => .inr (hwhole.head? _ c hc))
      (.inl ⟨hexact, htail⟩) (by simp)
    rwa [← List.append_assoc, ← List.append_assoc, ← List.append_assoc] at hfound
  | @fraction s ds e hs hne hds he =>
    have hpoint : ∀ c ∈ ('.' :: (ds ++ e) ++ rest).head?, c = '.' ∨ isDigit c = true := by
      rintro c ⟨⟩
      exact .inl rfl
    have hfound := exists_lexeme?_number hs hpoint
      (.inl ⟨rfl, tail_point_longest hds he fun _ => hne⟩) (by simp)
    rwa [← List.append_assoc] at hfound
  | @scaled s w e hs hwhole he =>
    have hexact : w = whole (w ++ (e ++ rest)) := by
      refine (whole_append hwhole ?_).symm
      intro c hc
      rcases head?_exponent he rest c hc with rfl | rfl <;> decide
    have htail : e <+: tail (!w.isEmpty) ((w ++ (e ++ rest)).drop w.length) := by
      rw [hwhole.isEmpty, List.drop_left]
      exact tail_exponent_longest he
    have hfound := exists_lexeme?_number hs (fun c hc => .inr (hwhole.head? _ c hc))
      (.inl ⟨hexact, htail⟩) (by simp [he.ne_nil])
    rwa [← List.append_assoc, ← List.append_assoc, ← List.append_assoc] at hfound

end Longest

/-- A text spells tokens of one kind only. -/
theorem Spells.kind_eq {k k' : Kind} {w : List Char} (h : Spells k w) (h' : Spells k' w) :
    k = k' := by
  have hend : Stops [] := trivial
  have hk := lexeme?_append h (.inr hend)
  have hk' := lexeme?_append h' (.inr hend)
  rw [hk] at hk'
  cases hk'
  rfl

end Token

/-! ### Lexemes -/

/-- A token apart from its place. -/
structure Lexeme where
  kind : Token.Kind
  text : String
deriving DecidableEq

/-- What a token is apart from its place. -/
def Token.lexeme (t : Token) : Lexeme :=
  ⟨t.kind, t.text⟩

namespace Lexeme

/-- The text of a lexeme, as characters. -/
def chars (l : Lexeme) : List Char :=
  l.text.toList

/-- A lexeme whose text is one of its kind. -/
def Spelled (l : Lexeme) : Prop :=
  Spells l.kind l.chars

/-- The text `cs` starts with `l`, and with no longer lexeme. -/
structure Leads (l : Lexeme) (cs : List Char) : Prop where
  spelled : l.Spelled
  front : l.chars <+: cs
  longest : ∀ l' : Lexeme, l'.Spelled → l'.chars <+: cs → l'.chars.length ≤ l.chars.length

/-- The longest lexeme is the one that is taken. -/
theorem leads_iff {l : Lexeme} {cs : List Char} :
    l.Leads cs ↔ Token.lexeme? cs = some (l.kind, l.chars) := by
  constructor
  · rintro ⟨hs, ⟨rest, rfl⟩, hlongest⟩
    obtain ⟨k, w, htaken, hfront⟩ := Token.exists_lexeme? hs rest
    have hspells := Token.spells_of_lexeme? htaken
    have hlength := hlongest ⟨k, String.ofList w⟩
      (by rw [Spelled, chars, String.toList_ofList]; exact hspells)
      (by rw [chars, String.toList_ofList]; exact Token.lexeme?_front htaken)
    rw [chars, String.toList_ofList] at hlength
    -- `l` is a front of what is taken and is as long
    obtain rfl : l.chars = w := hfront.eq_of_length_le hlength
    rw [htaken, hspells.kind_eq hs]
  · intro h
    refine ⟨Token.spells_of_lexeme? h, Token.lexeme?_front h, ?_⟩
    rintro l' hs ⟨rest, rfl⟩
    obtain ⟨k, w, htaken, hfront⟩ := Token.exists_lexeme? hs rest
    rw [htaken] at h
    cases h
    exact hfront.length_le

/-- The texts that are made of lexemes: spaces and tabs are passed over, and
at every other place the longest lexeme is taken. -/
inductive Lexes : List Char → List Lexeme → Prop
  | nil : Lexes [] []
  | gap {c : Char} {cs : List Char} {ls : List Lexeme} : isGap c = true → Lexes cs ls →
    Lexes (c :: cs) ls
  | token {l : Lexeme} {cs : List Char} {ls : List Lexeme} : l.Leads (l.chars ++ cs) →
    Lexes cs ls → Lexes (l.chars ++ cs) (l :: ls)

/-- A lexeme may be written before anything that could not continue it. -/
theorem Lexes.lexeme {l : Lexeme} {cs : List Char} {ls : List Lexeme} (hl : l.Spelled)
    (hnext : l.kind.isMark = true ∨ Stops cs) (h : Lexes cs ls) :
    Lexes (l.chars ++ cs) (l :: ls) :=
  .token (leads_iff.mpr (Token.lexeme?_append hl hnext)) h

theorem Lexes.spelled {cs : List Char} {ls : List Lexeme} (h : Lexes cs ls) :
    ∀ l ∈ ls, l.Spelled := by
  induction h with
  | nil => simp
  | gap _ _ ih => exact ih
  | token hl _ ih =>
    intro l' hl'
    rcases List.mem_cons.mp hl' with rfl | hl'
    · exact hl.spelled
    · exact ih l' hl'

/-- Nothing is trimmed from a text that starts and ends with a lexeme. -/
theorem trim_eq_self {a b : Lexeme} {cs r s : List Char} (ha : a.Spelled) (hb : b.Spelled)
    (hstart : cs = a.chars ++ r) (hend : cs = s ++ b.chars) : Text.trim cs = cs := by
  refine Text.trim_eq_self ?_ ?_
  · rw [hstart, List.head?_append_of_ne_nil _ (Spells.ne_nil ha)]
    exact Spells.isBlank_head? ha
  · rw [hend, List.getLast?_append_of_ne_nil _ (Spells.ne_nil hb)]
    exact Spells.isBlank_getLast? hb

/-! ### Scanning -/

/-- A lexeme that leads a text is taken by the scan. -/
theorem Leads.scanFrom_eq {l : Lexeme} {cs : List Char} (hl : l.Leads (l.chars ++ cs))
    (column : Nat) :
    Token.scanFrom 0 column (l.chars ++ cs)
      = (Token.scanFrom 0 (l.chars.foldl Token.columnAfter column) cs).note
          ⟨l.kind, l.text, column⟩ := by
  have htext : String.ofList l.chars = l.text := String.ofList_toList
  have htaken := leads_iff.mp hl
  have hblank := hl.spelled.isBlank_head?
  rcases hcs : l.chars with - | ⟨c, r⟩
  · exact absurd hcs hl.spelled.ne_nil
  · rw [hcs] at htaken hblank htext
    -- a lexeme starts with no gap, so it is taken here
    have hgap : isGap c = false := Text.isGap_of_isBlank (hblank c rfl)
    rw [Token.scan_token hgap htaken, htext]

theorem Lexes.scanFrom {cs : List Char} {ls : List Lexeme} (h : Lexes cs ls) (column : Nat) :
    (Token.scanFrom 0 column cs).stuck = none ∧
      (Token.scanFrom 0 column cs).tokens.map Token.lexeme = ls := by
  induction h generalizing column with
  | nil => exact ⟨rfl, rfl⟩
  | gap hc _ ih =>
    rw [Token.scan_gap hc]
    exact ih _
  | @token l cs ls hl _ ih =>
    obtain ⟨hstuck, htokens⟩ := ih (l.chars.foldl Token.columnAfter column)
    rw [hl.scanFrom_eq]
    exact ⟨hstuck, congrArg (l :: ·) htokens⟩

/-- A scan that is not stopped cuts the text, less the characters passed over,
into lexemes. -/
theorem lexes_of_scanFrom {skip column : Nat} {cs : List Char}
    (h : (Token.scanFrom skip column cs).stuck = none) :
    Lexes (cs.drop skip) ((Token.scanFrom skip column cs).tokens.map Token.lexeme) := by
  fun_induction Token.scanFrom skip column cs with
  | case1 => simpa using Lexes.nil
  | case2 _ _ _ _ ih => exact ih h
  | case3 _ c r hgap ih => exact .gap hgap (ih h)
  | case4 => cases h
  | case5 column c r _ k text hk ih =>
    obtain ⟨rest, hrest⟩ := Token.lexeme?_front hk
    have hne : text ≠ [] := (Token.spells_of_lexeme? hk).ne_nil
    have hdrop : r.drop (text.length - 1) = rest := by
      rcases text with - | ⟨d, t⟩
      · exact absurd rfl hne
      · cases hrest
        simp
    rw [hdrop] at ih
    rw [List.drop_zero, ← hrest]
    rw [← hrest] at hk
    -- the text is written as the characters of its lexeme
    obtain ⟨s, rfl⟩ : ∃ s : String, text = s.toList := ⟨_, String.toList_ofList.symm⟩
    rw [String.ofList_toList]
    have hleads : Leads ⟨k, s⟩ (s.toList ++ rest) := leads_iff.mpr hk
    exact .token hleads (ih h)

/-- **Scanning finds the lexemes of a text, if it is made of any.** -/
theorem lexes_iff_scan {cs : List Char} {ls : List Lexeme} :
    Lexes cs ls ↔
      (Token.scan cs).stuck = none ∧ (Token.scan cs).tokens.map Token.lexeme = ls := by
  constructor
  · exact fun h => h.scanFrom 1
  · rintro ⟨hstuck, rfl⟩
    exact lexes_of_scanFrom hstuck

end Lexeme

end LineScript
