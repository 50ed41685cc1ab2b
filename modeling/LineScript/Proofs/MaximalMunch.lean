/-
LineScript/Proofs/MaximalMunch.lean

Cutting a text by trying one class of tokens after another.

Every class has a pattern, with the order in which its fronts are tried.  `choose`
goes through a list of classes and takes the first front of the first class that has
one; `lex` cuts a text that way.  Decimals come first, and the other classes behind
them in any order.  Keywords are not tried at all: a name is taken as far as it goes,
and is a keyword if it is the word of one.

Main result: this is the same as taking the longest front that any class has, and is
what scanning does (`scan_maximal_munch`).  It rests on three facts about the patterns.

* The texts of a class are those that its tokens are spelled with
  (`matches_pattern_iff`).
* All patterns are eager, so that within a class the longest front is tried first
  (`eager_pattern`).
* All classes but decimals are told apart by the first character (`starts`).  A
  decimal starts like an integer, or with a point; where both have a front, the one
  of the decimal is longer, since it has a point or a letter that no integer has.
-/
import LineScript.Proofs.Lexing
import LineScript.Proofs.Patterns

namespace LineScript

open Number (isDigit)
open Token (isGap isNameStart isNamePart IsDigits IsExponent IsInside IsSign IsWhole IsWord Kind
  Spells)

/-! ### The patterns of the classes -/

namespace Pattern

/-- A digit. -/
def digit : Pattern :=
  one isDigit

/-- An optional minus sign. -/
def sign : Pattern :=
  opt (one (· == '-'))

/-- A digit, then digits and underscores. -/
def whole : Pattern :=
  seq digit (many (one fun c => isDigit c || c == '_'))

/-- A point. -/
def point : Pattern :=
  one (· == '.')

/-- The letter of an exponent, an optional sign and digits. -/
def exponent : Pattern :=
  seq (one fun c => c == 'e' || c == 'E')
    (seq (opt (one fun c => c == '+' || c == '-')) (many1 digit))

/-- Digits around a point, or behind a point only, and an optional exponent. -/
def pointed : Pattern :=
  seq (alt (seq whole (seq point (many digit))) (seq point (many1 digit))) (opt exponent)

/-- A whole part with an exponent. -/
def scaled : Pattern :=
  seq whole exponent

/-- A backslash with any character but a line feed behind it, or a character that is
neither a quote nor a backslash. -/
def insidePart : Pattern :=
  alt (seq (one (· == '\\')) (one (· != '\n'))) (one fun c => c != '\x22' && c != '\\')

/-- A double quote. -/
def quote : Pattern :=
  one (· == '\x22')

/-- A letter or underscore, then letters, digits and underscores. -/
def word : Pattern :=
  seq (one isNameStart) (many (one isNamePart))

end Pattern

open Pattern (Matches Eager Rigid StartsWith takes)

/-- The pattern of a kind of token.  That of a name leaves keywords in. -/
def Token.Kind.pattern : Kind → Pattern
  | .literal .integer => .seq .sign .whole
  | .literal .decimal => .alt (.seq .sign .pointed) (.seq .sign .scaled)
  | .literal .text => .seq .quote (.seq (.many .insidePart) .quote)
  | .literal .symbol => .seq (.one (· == '\x27')) .word
  | .literal .true => .exactly ['t', 'r', 'u', 'e']
  | .literal .false => .exactly ['f', 'a', 'l', 's', 'e']
  | .literal .null => .exactly ['n', 'u', 'l', 'l']
  | .name => .word
  | .val => .exactly ['v', 'a', 'l']
  | .var => .exactly ['v', 'a', 'r']
  | .opening => .exactly ['(']
  | .closing => .exactly [')']
  | .comma => .exactly [',']
  | .colon => .exactly [':']
  | .equals => .exactly ['=']

/-- The kinds of the keywords. -/
def Token.Kind.isKeyword : Kind → Bool
  | .val | .var | .literal .true | .literal .false | .literal .null => true
  | _ => false

/-- The kind of a token that was taken as one of a kind: a name is a keyword if it is
the word of one. -/
def Token.Kind.retyped : Kind → List Char → Kind
  | .name, w => .ofWord w
  | k, _ => k

/-- The classes that a text is cut into: the kinds of token, and gaps. -/
inductive Terminal where
  | token (k : Kind)
  | gap
deriving DecidableEq

namespace Terminal

/-- The pattern of a class. -/
def pattern : Terminal → Pattern
  | token k => k.pattern
  | gap => .many1 (.one isGap)

/-- The kind of the token that the characters of a class become, if they do. -/
def produced : Terminal → List Char → Option Kind
  | token k, w => some (k.retyped w)
  | gap, _ => none

/-- The class that is tried first. -/
def decimal : Terminal :=
  token (.literal .decimal)

/-- The classes that are tried behind decimals: all others but the keywords. -/
def others : List Terminal :=
  [token (.literal .integer), token (.literal .text), token (.literal .symbol), token .name,
    token .opening, token .closing, token .comma, token .colon, token .equals, gap]

/-! ### Cutting by the order of the classes -/

/-- The first class of a list that has a front of a text, with the first of its
fronts. -/
def choose (order : List Terminal) (cs : List Char) : Option (Terminal × List Char) :=
  order.findSome? fun t => (takes t.pattern cs).head?.map fun x => (t, x.1)

/-- Cut a text by the order of the classes, after passing over the `skip` characters
that belong to a front already taken. -/
def lexFrom (order : List Terminal) : Nat → Nat → List Char → Token.Scan
  | _, _, [] => ⟨[], none⟩
  | skip + 1, column, c :: r => lexFrom order skip (Token.columnAfter column c) r
  | 0, column, c :: r =>
    match choose order (c :: r) with
    | none => ⟨[], some (c, column)⟩
    | some (t, w) =>
      let behind := lexFrom order (w.length - 1) (Token.columnAfter column c) r
      match t.produced w with
      | none => behind
      | some kind => behind.note ⟨kind, String.ofList w, column⟩

/-- The tokens of a text, cut by the order of the classes. -/
def lex (order : List Terminal) (cs : List Char) : Token.Scan :=
  lexFrom order 0 1 cs

end Terminal

/-! ### The texts of the classes -/

section Texts

variable {w : List Char}

namespace Pattern

/-- A character of one class, then characters of another. -/
theorem matches_run_iff {p q : Char → Bool} :
    Matches (seq (one p) (many (one q))) w ↔
      ∃ c r, w = c :: r ∧ p c = true ∧ ∀ d ∈ r, q d = true := by
  simp only [matches_one_seq_iff, matches_many_one_iff]

theorem matches_sign_iff : Matches sign w ↔ IsSign w := by
  simp only [sign, matches_opt_iff, matches_one_iff, beq_iff_eq, exists_eq_right, IsSign]

theorem matches_whole_iff : Matches whole w ↔ IsWhole w := by
  rw [whole, digit, matches_run_iff]
  rcases w with - | ⟨c, r⟩
  · simp [IsWhole]
  · simp [IsWhole, and_assoc]

theorem matches_word_iff : Matches word w ↔ IsWord w := by
  rw [word, matches_run_iff]
  rcases w with - | ⟨c, r⟩
  · simp [IsWord]
  · simp [IsWord, and_assoc]

theorem matches_digits_iff : Matches (many digit) w ↔ IsDigits w :=
  matches_many_one_iff

theorem matches_digits1_iff : Matches (many1 digit) w ↔ w ≠ [] ∧ IsDigits w := by
  rw [many1, digit, matches_run_iff]
  rcases w with - | ⟨c, r⟩
  · simp
  · simp [IsDigits]

theorem matches_exponent_iff : Matches exponent w ↔ IsExponent w := by
  rw [exponent, matches_one_seq_iff]
  simp only [matches_seq_iff, matches_opt_iff, matches_one_iff, matches_digits1_iff,
    Bool.or_eq_true, beq_iff_eq]
  constructor
  · rintro ⟨c, r, rfl, hc, s, ds, rfl, hs, hne, hds⟩
    refine .intro hc ?_ hne hds
    rcases hs with rfl | ⟨d, rfl, rfl | rfl⟩ <;> simp
  · rintro ⟨hc, hs, hne, hds⟩
    refine ⟨_, _, rfl, hc, _, _, rfl, ?_, hne, hds⟩
    rcases hs with rfl | rfl | rfl <;> simp

theorem matches_optExponent_iff : Matches (opt exponent) w ↔ w = [] ∨ IsExponent w := by
  rw [matches_opt_iff, matches_exponent_iff]

/-- A point in front of a pattern. -/
theorem matches_point_seq_iff {b : Pattern} :
    Matches (seq point b) w ↔ ∃ r, w = '.' :: r ∧ Matches b r := by
  simp only [point, matches_one_seq_iff, beq_iff_eq]
  constructor
  · rintro ⟨c, r, rfl, rfl, hr⟩
    exact ⟨r, rfl, hr⟩
  · rintro ⟨r, rfl, hr⟩
    exact ⟨_, r, rfl, rfl, hr⟩

/-- A point has digits behind it if no whole part is in front of it. -/
theorem matches_pointed_iff :
    Matches pointed w ↔ ∃ v ds e, w = v ++ '.' :: (ds ++ e) ∧ (IsWhole v ∨ v = [] ∧ ds ≠ []) ∧
      IsDigits ds ∧ (e = [] ∨ IsExponent e) := by
  rw [pointed, matches_seq_iff]
  simp only [matches_alt_iff, matches_point_seq_iff, matches_optExponent_iff, matches_digits1_iff]
  constructor
  · rintro ⟨u, e, rfl, hu | ⟨ds, rfl, hne, hds⟩, he⟩
    · obtain ⟨v, t, rfl, hv, ht⟩ := matches_seq_iff.mp hu
      obtain ⟨ds, rfl, hds⟩ := matches_point_seq_iff.mp ht
      exact ⟨v, ds, e, by simp, .inl (matches_whole_iff.mp hv), matches_digits_iff.mp hds, he⟩
    · exact ⟨[], ds, e, by simp, .inr ⟨rfl, hne⟩, hds, he⟩
  · rintro ⟨v, ds, e, rfl, hv | ⟨rfl, hne⟩, hds, he⟩
    · refine ⟨v ++ '.' :: ds, e, by simp, .inl (.seq (matches_whole_iff.mpr hv) ?_), he⟩
      exact matches_point_seq_iff.mpr ⟨ds, rfl, matches_digits_iff.mpr hds⟩
    · exact ⟨'.' :: ds, e, by simp, .inr ⟨ds, rfl, hne, hds⟩, he⟩

theorem matches_scaled_iff :
    Matches scaled w ↔ ∃ v e, w = v ++ e ∧ IsWhole v ∧ IsExponent e := by
  simp only [scaled, matches_seq_iff, matches_whole_iff, matches_exponent_iff]

theorem matches_inside_iff : Matches (many insidePart) w ↔ IsInside w := by
  constructor
  · intro h
    generalize hp : many insidePart = p at h
    induction h with
    | empty | one | seq | left | right => cases hp
    | stop => exact .nil
    | again hv _ _ ih =>
      cases hp
      rcases matches_alt_iff.mp hv with hv | hv
      · -- a backslash takes the character behind it
        obtain ⟨c, r, rfl, hc, hr⟩ := matches_one_seq_iff.mp hv
        obtain ⟨d, rfl, hd⟩ := matches_one_iff.mp hr
        obtain rfl := beq_iff_eq.mp hc
        exact .escaped (bne_iff_ne.mp hd) (ih rfl)
      · -- any other character but the quote stands for itself
        obtain ⟨c, rfl, hc⟩ := matches_one_iff.mp hv
        rw [Bool.and_eq_true, bne_iff_ne, bne_iff_ne] at hc
        exact .plain hc.1 hc.2 (ih rfl)
  · intro h
    induction h with
    | nil => exact .stop
    | @plain c r hquote hslash _ ih =>
      exact .again (v := [c]) (.right (.one (by simp [hquote, hslash]))) ih
    | @escaped c r hc _ ih =>
      exact .again (v := ['\\', c]) (.left (.seq (v := ['\\']) (.one rfl) (.one (by simp [hc])))) ih

end Pattern

open Pattern

theorem matches_decimal_iff :
    Matches (Kind.literal .decimal).pattern w ↔ Spells (.literal .decimal) w := by
  simp only [Kind.pattern, matches_alt_iff, matches_seq_iff, matches_sign_iff,
    matches_pointed_iff, matches_scaled_iff]
  constructor
  · rintro (⟨s, t, rfl, hs, ht⟩ | ⟨s, t, rfl, hs, v, e, rfl, hv, he⟩)
    · obtain ⟨v, ds, e, rfl, hv | ⟨rfl, hne⟩, hds, he⟩ := ht
      · simpa using Spells.decimal hs hv hds he
      · simpa using Spells.fraction hs hne hds he
    · simpa using Spells.scaled hs hv he
  · intro h
    cases h with
    | @decimal s v ds e hs hv hds he =>
      exact .inl ⟨s, _, List.append_assoc _ _ _, hs, v, ds, e, rfl, .inl hv, hds, he⟩
    | @fraction s ds e hs hne hds he =>
      exact .inl ⟨s, _, rfl, hs, [], ds, e, rfl, .inr ⟨rfl, hne⟩, hds, he⟩
    | @scaled s v e hs hv he =>
      exact .inr ⟨s, _, List.append_assoc _ _ _, hs, v, e, rfl, hv, he⟩

theorem matches_integer_iff :
    Matches (Kind.literal .integer).pattern w ↔ Spells (.literal .integer) w := by
  simp only [Kind.pattern, matches_seq_iff, matches_sign_iff, matches_whole_iff]
  constructor
  · rintro ⟨s, v, rfl, hs, hv⟩
    exact .integer hs hv
  · intro h
    cases h with
    | integer hs hv => exact ⟨_, _, rfl, hs, hv⟩

theorem matches_text_iff :
    Matches (Kind.literal .text).pattern w ↔ Spells (.literal .text) w := by
  rw [Kind.pattern, quote, matches_one_seq_iff]
  constructor
  · rintro ⟨c, r, rfl, hc, hr⟩
    obtain ⟨b, q, rfl, hb, hq⟩ := matches_seq_iff.mp hr
    obtain ⟨d, rfl, hd⟩ := matches_one_iff.mp hq
    rw [beq_iff_eq.mp hc, beq_iff_eq.mp hd]
    exact .text (matches_inside_iff.mp hb)
  · intro h
    cases h with
    | text hb => exact ⟨_, _, rfl, rfl, .seq (matches_inside_iff.mpr hb) (.one rfl)⟩

theorem matches_symbol_iff :
    Matches (Kind.literal .symbol).pattern w ↔ Spells (.literal .symbol) w := by
  simp only [Kind.pattern, matches_one_seq_iff, matches_word_iff, beq_iff_eq]
  constructor
  · rintro ⟨c, r, rfl, rfl, hr⟩
    exact .symbol hr
  · intro h
    cases h with
    | symbol hr => exact ⟨_, _, rfl, rfl, hr⟩

/-- Only words are spelled like the kind of a word. -/
theorem isWord_iff_spells_ofWord : IsWord w ↔ Spells (Kind.ofWord w) w := by
  refine ⟨IsWord.spells, fun h => ?_⟩
  by_cases hkey : w ∈ Token.keywords
  · simp only [Token.keywords, List.mem_cons, List.not_mem_nil, or_false] at hkey
    rcases hkey with rfl | rfl | rfl | rfl | rfl <;> decide
  · rw [Token.ofWord_of_not_mem hkey] at h
    cases h
    assumption

/-- **The texts of a kind are those that its tokens are spelled with.** -/
theorem matches_pattern_iff {k : Kind} : Matches k.pattern w ↔ Spells (k.retyped w) w := by
  rcases k with (_ | _ | _ | _ | _ | _ | _) | _ | _ | _ | _ | _ | _ | _ | _
  case literal.integer => exact matches_integer_iff
  case literal.decimal => exact matches_decimal_iff
  case literal.text => exact matches_text_iff
  case literal.symbol => exact matches_symbol_iff
  case name => exact matches_word_iff.trans isWord_iff_spells_ofWord
  -- the other kinds have one text each
  all_goals
    refine matches_exactly_iff.trans ⟨?_, fun h => ?_⟩
    · rintro rfl
      constructor
    · cases h
      rfl

end Texts

/-! ### The longest front of a class is tried first -/

namespace Pattern

theorem startsWith_digit : StartsWith isDigit digit :=
  startsWith_one isDigit

theorem startsWith_exponent : StartsWith (fun c => c == 'e' || c == 'E') exponent :=
  (startsWith_one _).seq _

/-- A character of one class, then characters of another as far as they go. -/
theorem eager_run (p q : Char → Bool) : Eager (seq (one p) (many (one q))) :=
  .rigidSeq (rigid_one p) (rigid_one q).many_eager

theorem eager_digits1 : Eager (many1 digit) :=
  eager_run _ _

theorem eager_exponent : Eager exponent := by
  refine .rigidSeq (rigid_one _) (.optSeq (rigid_one _) eager_digits1 fun cs hne => ?_)
  refine (startsWith_one _).disjoint (startsWith_digit.seq _) (fun c hc => ?_) hne
  simp only [Bool.or_eq_true, beq_iff_eq] at hc
  rcases hc with rfl | rfl <;> decide

/-- An exponent takes nothing where digits and underscores could go on. -/
theorem takes_exponent_eq_nil {p : Char → Bool} (hp : ∀ c, p c = true → c ≠ 'e' ∧ c ≠ 'E')
    {cs : List Char} (hne : takes (one p) cs ≠ []) : takes exponent cs = [] := by
  refine (startsWith_one p).disjoint startsWith_exponent (fun c hc => ?_) hne
  simp [hp c hc]

theorem ne_exponent_of_isDigit {c : Char} (h : isDigit c = true) : c ≠ 'e' ∧ c ≠ 'E' := by
  constructor <;> rintro rfl <;> exact absurd h (by decide)

theorem ne_exponent_of_wholePart {c : Char} (h : (isDigit c || c == '_') = true) :
    c ≠ 'e' ∧ c ≠ 'E' := by
  rw [Bool.or_eq_true, beq_iff_eq] at h
  rcases h with h | rfl
  · exact ne_exponent_of_isDigit h
  · decide

/-- Digits and an optional exponent. -/
theorem eager_fraction : Eager (seq (many digit) (opt exponent)) := by
  refine .manySeq (rigid_one _) (.opt eager_exponent) fun cs hne v hv => ?_
  have hnil := takes_exponent_eq_nil (fun c => ne_exponent_of_isDigit) hne
  rw [takes_opt_of_nil hnil, List.mem_singleton] at hv
  rw [hv]

/-- A whole part before an eager part that takes nothing where the whole part could go
on. -/
theorem eager_whole_seq {b : Pattern} (hb : Eager b)
    (h : ∀ cs, takes (one fun c => isDigit c || c == '_') cs ≠ [] → takes b cs = []) :
    Eager (seq whole b) := by
  refine .assoc (.rigidSeq (rigid_one _) (.manySeq (rigid_one _) hb fun cs hne v hv => ?_))
  rw [h cs hne] at hv
  cases hv

theorem startsWith_point : StartsWith (· == '.') point :=
  startsWith_one _

theorem ne_point_of_wholePart {c : Char} (h : (isDigit c || c == '_') = true) :
    (c == '.') = false := by
  rw [beq_eq_false_iff_ne]
  rintro rfl
  exact absurd h (by decide)

theorem eager_pointed : Eager pointed := by
  refine .altSeq (.alt (.assoc (eager_whole_seq ?_ ?_)) (.assoc ?_) fun cs => ?_)
  · exact .assoc (.rigidSeq (rigid_one _) eager_fraction)
  · intro cs hne
    exact (startsWith_one _).disjoint (startsWith_point.seq _ |>.seq _)
      (fun c => ne_point_of_wholePart) hne
  · exact .rigidSeq (rigid_one _) (.assoc (.rigidSeq (rigid_one _) eager_fraction))
  · -- one starts with a digit and the other with a point
    refine or_iff_not_imp_left.mpr fun hne => ?_
    refine (startsWith_digit.seq _ |>.seq _ |>.seq _).disjoint (startsWith_point.seq _ |>.seq _)
      (fun c hc => ne_point_of_wholePart ?_) hne
    rw [hc, Bool.true_or]

theorem eager_whole : Eager whole :=
  eager_run _ _

theorem eager_scaled : Eager scaled :=
  eager_whole_seq eager_exponent fun _ =>
    takes_exponent_eq_nil fun _ => ne_exponent_of_wholePart

/-- A number may have a sign in front. -/
theorem eager_sign_seq {b : Pattern} {p : Char → Bool} (hb : Eager b) (hstart : StartsWith p b)
    (hp : p '-' = false) : Eager (seq sign b) := by
  refine .optSeq (rigid_one _) hb fun cs hne => ?_
  refine (startsWith_one _).disjoint hstart (fun c hc => ?_) hne
  rw [beq_iff_eq.mp hc, hp]

theorem startsWith_whole : StartsWith isDigit whole :=
  startsWith_digit.seq _

theorem startsWith_pointed : StartsWith (fun c => isDigit c || c == '.') pointed := by
  refine .seq (.alt ?_ ?_) _
  · exact (startsWith_whole.seq _).mono fun c hc => by rw [hc, Bool.true_or]
  · exact (startsWith_point.seq _).mono fun c hc => by rw [hc, Bool.or_true]

/-- A sign, or a character of a whole part. -/
def isSigned (c : Char) : Bool :=
  c == '-' || isDigit c || c == '_'

theorem isSigned_of_mem {s v : List Char} (hs : IsSign s) (hv : v = [] ∨ IsWhole v) :
    ∀ c ∈ s ++ v, isSigned c = true := by
  rw [List.forall_mem_append]
  refine ⟨?_, fun c hc => ?_⟩
  · rcases hs with rfl | rfl <;> exact List.all_eq_true.mp (by decide)
  · rcases hv with rfl | hv
    · cases hc
    · obtain ⟨d, r, rfl, hd, hr⟩ := matches_run_iff.mp (matches_whole_iff.mpr hv)
      rw [isSigned, Bool.or_assoc, Bool.or_eq_true_iff]
      rcases List.mem_cons.mp hc with rfl | hc
      · exact .inr (by rw [hd, Bool.true_or])
      · exact .inr (hr c hc)

/-- The first character of a number that is neither a sign nor part of a whole part. -/
def afterWhole? (cs : List Char) : Option Char :=
  (cs.dropWhile isSigned).head?

theorem afterWhole?_append {s v r : List Char} {c : Char} (hs : IsSign s) (hv : v = [] ∨ IsWhole v)
    (hc : isSigned c = false) : afterWhole? (s ++ (v ++ c :: r)) = some c := by
  rw [afterWhole?, ← List.append_assoc, List.dropWhile_append_of_pos (isSigned_of_mem hs hv),
    List.dropWhile_cons, hc]
  rfl

theorem afterWhole?_of_pointed {cs : List Char} (h : takes (seq sign pointed) cs ≠ []) :
    afterWhole? cs = some '.' := by
  obtain ⟨⟨w, r⟩, hmem⟩ := List.exists_mem_of_ne_nil _ h
  obtain ⟨hw, rfl⟩ := mem_takes_iff.mp hmem
  obtain ⟨s, t, rfl, hs, ht⟩ := matches_seq_iff.mp hw
  obtain ⟨v, ds, e, rfl, hv, -, -⟩ := matches_pointed_iff.mp ht
  rw [List.append_assoc, List.append_assoc, List.cons_append]
  exact afterWhole?_append (matches_sign_iff.mp hs) (hv.symm.imp_left And.left) (by decide)

theorem afterWhole?_of_scaled {cs : List Char} (h : takes (seq sign scaled) cs ≠ []) :
    afterWhole? cs = some 'e' ∨ afterWhole? cs = some 'E' := by
  obtain ⟨⟨w, r⟩, hmem⟩ := List.exists_mem_of_ne_nil _ h
  obtain ⟨hw, rfl⟩ := mem_takes_iff.mp hmem
  obtain ⟨s, t, rfl, hs, ht⟩ := matches_seq_iff.mp hw
  obtain ⟨v, e, rfl, hv, he⟩ := matches_scaled_iff.mp ht
  rcases he with @⟨c, es, ds, hc, -, -, -⟩
  rw [List.append_assoc, List.append_assoc, List.cons_append]
  rcases hc with rfl | rfl
  · exact .inl (afterWhole?_append (matches_sign_iff.mp hs) (.inr hv) (by decide))
  · exact .inr (afterWhole?_append (matches_sign_iff.mp hs) (.inr hv) (by decide))

/-- A number has either a point or the letter of an exponent behind its whole part. -/
theorem takes_pointed_or_scaled (cs : List Char) :
    takes (seq sign pointed) cs = [] ∨ takes (seq sign scaled) cs = [] := by
  by_contra! h
  have hpoint := afterWhole?_of_pointed h.1
  rcases afterWhole?_of_scaled h.2 with hletter | hletter <;>
    exact absurd (hpoint.symm.trans hletter) (by decide)

/-- The parts of the inside start with a backslash, or with neither that nor a quote. -/
theorem rigid_insidePart : Rigid insidePart := by
  refine .alt (.seq (rigid_one _) (rigid_one _)) (rigid_one _) fun cs => ?_
  refine or_iff_not_imp_left.mpr fun hne => ?_
  refine ((startsWith_one _).seq _).disjoint (startsWith_one _) (fun c hc => ?_) hne
  rw [beq_iff_eq.mp hc]
  decide

theorem startsWith_insidePart : StartsWith (· != '\x22') insidePart := by
  refine .alt (((startsWith_one _).seq _).mono fun c hc => ?_)
    ((startsWith_one _).mono fun c hc => ?_)
  · rw [beq_iff_eq.mp hc]
    decide
  · exact (Bool.and_eq_true_iff.mp hc).1

theorem eager_text : Eager (seq quote (seq (many insidePart) quote)) := by
  refine .rigidSeq (rigid_one _)
    (.manySeq rigid_insidePart (rigid_one _).eager fun cs hne v hv => ?_)
  -- where the inside could go on there is no quote to close it
  have hnil := startsWith_insidePart.disjoint (startsWith_one (· == '\x22')) (fun c hc => ?_) hne
  · rw [quote, hnil] at hv
    cases hv
  · rwa [beq_eq_false_iff_ne, ← bne_iff_ne]

theorem eager_word : Eager word :=
  eager_run _ _

end Pattern

open Pattern

/-- **All classes are eager.** -/
theorem Terminal.eager_pattern (t : Terminal) : Eager t.pattern := by
  rcases t with k | _
  case gap => exact eager_run _ _
  rcases k with (_ | _ | _ | _ | _ | _ | _) | _ | _ | _ | _ | _ | _ | _ | _
  case token.literal.integer => exact eager_sign_seq eager_whole startsWith_whole rfl
  case token.literal.decimal =>
    exact .alt (eager_sign_seq eager_pointed startsWith_pointed rfl)
      (eager_sign_seq eager_scaled (startsWith_whole.seq _) rfl) takes_pointed_or_scaled
  case token.literal.text => exact eager_text
  case token.literal.symbol => exact .rigidSeq (rigid_one _) eager_word
  case token.name => exact eager_word
  all_goals exact (rigid_exactly _).eager

/-! ### The first character tells the classes apart -/

namespace Terminal

/-- The class, decimals and keywords apart, whose texts start with a character. -/
def ofStart? (c : Char) : Option Terminal :=
  if isNameStart c then some (token .name)
  else if isDigit c || c == '-' then some (token (.literal .integer))
  else if c = '\x22' then some (token (.literal .text))
  else if c = '\x27' then some (token (.literal .symbol))
  else if isGap c then some gap
  else (Kind.ofMark? c).map token

theorem ofStart?_of_isDigit {c : Char} (h : isDigit c = true) :
    ofStart? c = some (token (.literal .integer)) := by
  have hname : ¬ isNameStart c = true := by
    rw [Token.isNameStart_iff]
    have hrange := Token.isDigit_iff.mp h
    omega
  rw [ofStart?, if_neg hname, if_pos (by rw [h, Bool.true_or])]

/-- A number starts with a sign or as it does without one. -/
theorem startsWith_sign_seq {b : Pattern} {p : Char → Bool} (hb : StartsWith p b) :
    StartsWith (fun c => c == '-' || p c) (.seq .sign b) := by
  intro w hw
  obtain ⟨s, v, rfl, hs, hv⟩ := matches_seq_iff.mp hw
  rcases matches_sign_iff.mp hs with rfl | rfl
  · obtain ⟨c, r, rfl, hc⟩ := hb v hv
    exact ⟨c, r, rfl, Bool.or_eq_true_iff.mpr (.inr hc)⟩
  · exact ⟨'-', v, rfl, rfl⟩

theorem starts_integer :
    StartsWith (ofStart? · = some (token (.literal .integer))) (Kind.literal .integer).pattern := by
  refine (startsWith_sign_seq startsWith_whole).mono fun c hc => decide_eq_true ?_
  rw [Bool.or_eq_true, beq_iff_eq] at hc
  rcases hc with rfl | hc
  · decide
  · exact ofStart?_of_isDigit hc

theorem starts_name : StartsWith (ofStart? · = some (token .name)) Kind.name.pattern := by
  refine ((startsWith_one isNameStart).seq _).mono fun c hc => decide_eq_true ?_
  rw [ofStart?, if_pos hc]

theorem starts_gap : StartsWith (ofStart? · = some gap) gap.pattern := by
  refine ((startsWith_one isGap).seq _).mono fun c hc => ?_
  simp only [isGap, Bool.or_eq_true, beq_iff_eq] at hc
  rcases hc with rfl | rfl <;> decide

/-- A class whose texts all start with one character. -/
theorem starts_char {t : Terminal} {c : Char} (h : ofStart? c = some t) (b : Pattern) :
    StartsWith (ofStart? · = some t) (.seq (.one (· == c)) b) := by
  refine ((startsWith_one _).seq b).mono fun d hd => decide_eq_true ?_
  rw [beq_iff_eq.mp hd, h]

/-- A class other than decimals and keywords shows in the first character. -/
theorem starts {t : Terminal} (ht : t ∈ others) :
    StartsWith (ofStart? · = some t) t.pattern := by
  simp only [others, List.mem_cons, List.not_mem_nil, or_false] at ht
  rcases ht with rfl | rfl | rfl | rfl | rfl | rfl | rfl | rfl | rfl | rfl
  · exact starts_integer
  · exact starts_char (by decide) _
  · exact starts_char (by decide) _
  · exact starts_name
  · exact starts_char (by decide) _
  · exact starts_char (by decide) _
  · exact starts_char (by decide) _
  · exact starts_char (by decide) _
  · exact starts_char (by decide) _
  · exact starts_gap

/-- A decimal starts with a point or like an integer. -/
theorem starts_decimal : StartsWith
    (fun c => c == '.' || ofStart? c = some (token (.literal .integer))) decimal.pattern := by
  have hscaled : StartsWith (fun c => isDigit c || c == '.') scaled :=
    (startsWith_whole.seq _).mono fun c hc => by rw [hc, Bool.true_or]
  refine ((startsWith_sign_seq startsWith_pointed).alt (startsWith_sign_seq hscaled)).mono
    fun c hc => ?_
  simp only [Bool.or_eq_true, beq_iff_eq, decide_eq_true_eq] at hc ⊢
  rcases hc with rfl | hc | rfl
  · exact .inr (by decide)
  · exact .inr (ofStart?_of_isDigit hc)
  · exact .inl rfl

/-- At most one class other than decimals and keywords has fronts of a text. -/
theorem eq_of_takes {t t' : Terminal} (ht : t ∈ others) (ht' : t' ∈ others) {cs : List Char}
    (h : takes t.pattern cs ≠ []) (h' : takes t'.pattern cs ≠ []) : t = t' := by
  obtain ⟨c, r, rfl, hc⟩ := (starts ht).exists_cons h
  obtain ⟨c', r', heq, hc'⟩ := (starts ht').exists_cons h'
  obtain ⟨rfl, -⟩ := List.cons.inj heq
  exact Option.some.inj ((of_decide_eq_true hc).symm.trans (of_decide_eq_true hc'))

/-- Where a decimal has a front, no class but integers has one besides. -/
theorem eq_integer_of_takes {t : Terminal} (ht : t ∈ others) {cs : List Char}
    (hdecimal : takes decimal.pattern cs ≠ []) (h : takes t.pattern cs ≠ []) :
    t = token (.literal .integer) := by
  obtain ⟨c, r, rfl, hc⟩ := starts_decimal.exists_cons hdecimal
  obtain ⟨c', r', heq, hc'⟩ := (starts ht).exists_cons h
  obtain ⟨rfl, -⟩ := List.cons.inj heq
  have hstart := of_decide_eq_true hc'
  rw [Bool.or_eq_true, beq_iff_eq, decide_eq_true_eq] at hc
  rcases hc with rfl | hc
  · have hnone : ofStart? '.' = none := by decide
    rw [hnone] at hstart
    cases hstart
  · exact Option.some.inj (hstart.symm.trans hc)

/-! ### The first class that has a front -/

section Choose

variable {order : List Terminal} {t : Terminal} {cs w : List Char}

theorem takes_ne_nil (hw : Matches t.pattern w) (hfront : w <+: cs) : takes t.pattern cs ≠ [] := by
  obtain ⟨r, hr⟩ := hfront
  exact List.ne_nil_of_mem (mem_takes_iff.mpr ⟨hw, hr⟩)

theorem choose_eq_none_iff : choose order cs = none ↔ ∀ t ∈ order, takes t.pattern cs = [] := by
  simp only [choose, List.findSome?_eq_none_iff, Option.map_eq_none_iff, List.head?_eq_none_iff]

theorem exists_of_choose (h : choose order cs = some (t, w)) :
    t ∈ order ∧ ∃ r, (takes t.pattern cs).head? = some (w, r) := by
  obtain ⟨t', ht', hfirst⟩ := List.exists_of_findSome?_eq_some h
  obtain ⟨⟨w', r⟩, hhead, heq⟩ := Option.map_eq_some_iff.mp hfirst
  cases heq
  exact ⟨ht', r, hhead⟩

/-- Decimals are chosen wherever they have a front. -/
theorem eq_decimal_of_choose (hdecimal : takes decimal.pattern cs ≠ [])
    (h : choose (decimal :: order) cs = some (t, w)) : t = decimal := by
  obtain ⟨x, hx⟩ := Option.ne_none_iff_exists'.mp (mt List.head?_eq_none_iff.mp hdecimal)
  rw [choose, List.findSome?_cons, hx] at h
  cases h
  rfl

/-- Decimals go on behind their whole part. -/
theorem afterWhole?_of_decimal (h : takes decimal.pattern cs ≠ []) : afterWhole? cs ≠ none := by
  have hfront : takes (.seq .sign .pointed) cs ≠ [] ∨ takes (.seq .sign .scaled) cs ≠ [] := by
    by_contra! hnil
    exact h (List.append_eq_nil_iff.mpr hnil)
  rcases hfront with hpointed | hscaled
  · simp [afterWhole?_of_pointed hpointed]
  · rcases afterWhole?_of_scaled hscaled with hletter | hletter <;> simp [hletter]

/-- Integers end where their whole part does. -/
theorem afterWhole?_of_integer (h : Matches (Kind.literal .integer).pattern w) :
    afterWhole? w = none := by
  obtain ⟨s, v, rfl, hs, hv⟩ := matches_seq_iff.mp h
  rw [afterWhole?, List.head?_eq_none_iff, List.dropWhile_eq_nil_iff]
  exact isSigned_of_mem (matches_sign_iff.mp hs) (.inr (matches_whole_iff.mp hv))

/-- Where decimals have a front, it is longer than that of an integer. -/
theorem length_le_of_decimal {n : List Char} (hw : Matches decimal.pattern w) (hfront : w <+: cs)
    (hn : Matches (Kind.literal .integer).pattern n) (hnfront : n <+: cs) :
    n.length ≤ w.length := by
  by_contra! hlt
  have hinner : w <+: n := List.prefix_of_prefix_length_le hfront hnfront hlt.le
  exact afterWhole?_of_decimal (takes_ne_nil hw hinner) (afterWhole?_of_integer hn)

/-- Every token is a front of a class that is tried, and becomes of its kind. -/
theorem exists_tried {k : Kind} (h : Spells k w) :
    ∃ k' : Kind,
      token k' ∈ decimal :: others ∧ Matches (token k').pattern w ∧ k'.retyped w = k := by
  by_cases hword : IsWord w
  · refine ⟨.name, by decide, matches_word_iff.mpr hword, ?_⟩
    exact hword.spells.kind_eq h
  · -- all others are tried as what they are
    have hretyped : k.retyped w = k ∧ token k ∈ decimal :: others := by
      cases h with
      | name hw _ => exact absurd hw hword
      | val | var | trueWord | falseWord | null => exact absurd (by decide) hword
      | _ => exact ⟨rfl, by decide⟩
    exact ⟨k, hretyped.2, matches_pattern_iff.mpr (by rwa [hretyped.1]), hretyped.1⟩

/-- A front of a text that a class has, and that no class has a longer one than. -/
structure Longest (t : Terminal) (w cs : List Char) : Prop where
  matched : Matches t.pattern w
  front : w <+: cs
  longest : ∀ (t' : Terminal) (w' : List Char), Matches t'.pattern w' → w' <+: cs →
    w'.length ≤ w.length

/-- Every front of a class is one of a class that is tried. -/
theorem exists_matches_tried (hw : Matches t.pattern w) :
    ∃ t' ∈ decimal :: others, Matches t'.pattern w := by
  rcases t with k | _
  · obtain ⟨k', hmem, hk', -⟩ := exists_tried (matches_pattern_iff.mp hw)
    exact ⟨_, hmem, hk'⟩
  · exact ⟨gap, by decide, hw⟩

/-- What is chosen is the longest front of any class. -/
theorem longest_of_choose (horder : order.Perm others)
    (h : choose (decimal :: order) cs = some (t, w)) : t.Longest w cs := by
  obtain ⟨hmem, r, hfirst⟩ := exists_of_choose h
  obtain ⟨hw, rfl, hlongest⟩ := (eager_pattern t).longest hfirst
  refine ⟨hw, List.prefix_append w r, fun t' w' hw' hfront => ?_⟩
  obtain ⟨t', hmem', hw'⟩ := exists_matches_tried hw'
  have htakes : takes t.pattern (w ++ r) ≠ [] := takes_ne_nil hw (List.prefix_append w r)
  have htakes' := takes_ne_nil hw' hfront
  rcases List.mem_cons.mp hmem' with rfl | hothers'
  · obtain rfl := eq_decimal_of_choose htakes' h
    exact hlongest w' hw' hfront
  · rcases List.mem_cons.mp hmem with rfl | hothers
    · obtain rfl := eq_integer_of_takes hothers' htakes htakes'
      exact length_le_of_decimal hw (List.prefix_append w r) hw' hfront
    · obtain rfl := eq_of_takes (horder.mem_iff.mp hothers) hothers' htakes htakes'
      exact hlongest w' hw' hfront

/-- No class has the empty text. -/
theorem ne_nil_of_matches (hw : Matches t.pattern w) : w ≠ [] := by
  obtain ⟨t', hmem, hw'⟩ := exists_matches_tried hw
  rcases List.mem_cons.mp hmem with rfl | hothers
  · obtain ⟨c, r, rfl, -⟩ := starts_decimal w hw'
    exact List.cons_ne_nil c r
  · obtain ⟨c, r, rfl, -⟩ := starts hothers w hw'
    exact List.cons_ne_nil c r

/-- Nothing is chosen where no class has a front that is something. -/
theorem choose_eq_none_iff_forall (horder : order.Perm others) :
    choose (decimal :: order) cs = none ↔
      ∀ (t : Terminal) (w : List Char), w ≠ [] → Matches t.pattern w → ¬ w <+: cs := by
  rw [choose_eq_none_iff]
  constructor
  · intro hnone t w _ hw hfront
    obtain ⟨t', hmem, hw'⟩ := exists_matches_tried hw
    exact takes_ne_nil hw' hfront (hnone t' ((horder.cons decimal).mem_iff.mpr hmem))
  · intro h t _
    exact takes_eq_nil_iff.mpr fun w hw => h t w (ne_nil_of_matches hw) hw

/-- What is chosen is the token at the front of the text, if it becomes one. -/
theorem lexeme?_of_choose (horder : order.Perm others)
    (h : choose (decimal :: order) cs = some (t, w)) :
    Token.lexeme? cs = (t.produced w).map (·, w) := by
  obtain ⟨hw, hfront, hlongest⟩ := longest_of_choose horder h
  rcases t with k | _
  · have hspells := matches_pattern_iff.mp hw
    obtain ⟨r, rfl⟩ := hfront
    obtain ⟨k', n, hn, hwn⟩ := Token.exists_lexeme? hspells r
    -- the token is a front of a class too, so it is not longer
    have hspells' := Token.spells_of_lexeme? hn
    obtain ⟨_, -, hmatches, -⟩ := exists_tried hspells'
    obtain rfl := hwn.eq_of_length_le (hlongest _ n hmatches (Token.lexeme?_front hn))
    rw [hn, hspells'.kind_eq hspells]
    rfl
  · show Token.lexeme? cs = none
    rw [Option.eq_none_iff_forall_not_mem]
    rintro ⟨k, n⟩ hn
    obtain ⟨k', hmem, hmatches, -⟩ := exists_tried (Token.spells_of_lexeme? hn)
    have htakes := takes_ne_nil hmatches (Token.lexeme?_front hn)
    rcases List.mem_cons.mp hmem with hdecimal | hothers
    · rw [hdecimal] at htakes
      cases eq_decimal_of_choose htakes h
    · cases eq_of_takes (t := gap) (by decide) hothers (takes_ne_nil hw hfront) htakes

/-- No token starts where nothing is chosen. -/
theorem lexeme?_of_choose_eq_none (horder : order.Perm others)
    (h : choose (decimal :: order) cs = none) : Token.lexeme? cs = none := by
  rw [Option.eq_none_iff_forall_not_mem]
  rintro ⟨k, n⟩ hn
  have hspells := Token.spells_of_lexeme? hn
  obtain ⟨k', -, hmatches, -⟩ := exists_tried hspells
  exact (choose_eq_none_iff_forall horder).mp h _ n hspells.ne_nil hmatches
    (Token.lexeme?_front hn)

theorem retyped_of_ne {k : Kind} (h : k ≠ .name) : k.retyped w = k := by
  cases k <;> first | rfl | exact absurd rfl h

/-- Keywords are not tried. -/
theorem isKeyword_of_tried {k : Kind} (h : token k ∈ decimal :: others) :
    k.isKeyword = false := by
  simp only [decimal, others, List.mem_cons, token.injEq, reduceCtorEq, List.not_mem_nil,
    or_false] at h
  rcases h with rfl | rfl | rfl | rfl | rfl | rfl | rfl | rfl | rfl | rfl <;> rfl

/-- A keyword is produced by a name that is the word of one, and by nothing else. -/
theorem produced_eq_keyword_iff (ht : t ∈ decimal :: others) (hw : Matches t.pattern w) {k : Kind}
    (hk : k.isKeyword = true) : t.produced w = some k ↔ t = token .name ∧ Matches k.pattern w := by
  have hretyped : k.retyped w = k := retyped_of_ne (by rintro rfl; cases hk)
  rw [matches_pattern_iff, hretyped]
  constructor
  · intro hproduced
    rcases t with k' | _
    · obtain rfl := Option.some.inj hproduced
      refine ⟨?_, matches_pattern_iff.mp hw⟩
      by_contra hname
      rw [retyped_of_ne (mt (congrArg token) hname), isKeyword_of_tried ht] at hk
      cases hk
    · cases hproduced
  · rintro ⟨rfl, hspells⟩
    have hword : Spells (Kind.retyped .name w) w := matches_pattern_iff.mp hw
    exact congrArg some (hword.kind_eq hspells)

/-! ### Whole texts -/

/-- A run of gaps makes no difference but for the column, at whichever end of it the
scan goes on. -/
theorem scanFrom_gap_run {gs : List Char} (hgs : ∀ g ∈ gs, isGap g = true) (column : Nat)
    (r : List Char) :
    Token.scanFrom gs.length column (gs ++ r) = Token.scanFrom 0 column (gs ++ r) := by
  induction gs generalizing column with
  | nil => rfl
  | cons g gs ih =>
    rw [List.forall_mem_cons] at hgs
    rw [List.cons_append, Token.scan_gap hgs.1, ← ih hgs.2]
    rfl

/-- Cutting a text by the order of the classes is scanning. -/
theorem lexFrom_eq_scanFrom (horder : order.Perm others) (skip column : Nat) (cs : List Char) :
    lexFrom (decimal :: order) skip column cs = Token.scanFrom skip column cs := by
  induction cs generalizing skip column with
  | nil => cases skip <;> rfl
  | cons c r ih =>
    rcases skip with - | skip
    · rw [lexFrom]
      rcases hchosen : choose (decimal :: order) (c :: r) with - | ⟨t, w⟩
      · -- neither a token nor a gap is at the front
        have hgap : isGap c = false := by
          by_contra hgap
          rw [Bool.not_eq_false] at hgap
          have hmatches : Matches gap.pattern [c] := .seq (v := [c]) (.one hgap) .stop
          exact (choose_eq_none_iff_forall horder).mp hchosen gap [c] (by simp) hmatches ⟨r, rfl⟩
        exact (Token.scan_stuck hgap (lexeme?_of_choose_eq_none horder hchosen) column).symm
      · obtain ⟨hw, ⟨rest, hrest⟩, -⟩ := longest_of_choose horder hchosen
        have hlexeme := lexeme?_of_choose horder hchosen
        obtain ⟨d, w, rfl⟩ := List.exists_cons_of_ne_nil (ne_nil_of_matches hw)
        obtain ⟨rfl, rfl⟩ := List.cons.inj hrest
        rcases t with k | _
        · have hgap : isGap d = false :=
            Text.isGap_of_isBlank ((matches_pattern_iff.mp hw).isBlank_head? d rfl)
          rw [Token.scanFrom, if_neg (by simp [hgap]), hlexeme]
          dsimp only [produced, Option.map_some]
          rw [ih]
        · obtain ⟨g, gs, heq, hg, hgs⟩ := matches_run_iff.mp hw
          obtain ⟨rfl, rfl⟩ := List.cons.inj heq
          dsimp only [produced]
          rw [ih, Token.scan_gap hg, List.length_cons, Nat.add_sub_cancel]
          exact scanFrom_gap_run hgs _ _
    · exact ih skip _

/-- **Trying decimals first, and the other classes behind them in any order, is
maximal munch**, and it is what scanning does.  At every place of a text

* what is chosen is the longest front that any class has, and nothing is chosen only
  where no class has a front that is something;
* the token at the place is what is chosen, if it becomes a token;
* it becomes a keyword if it was taken as a name, as far as that goes, and is the
  keyword's word. -/
theorem scan_maximal_munch (horder : order.Perm others) (source : List Char) :
    Token.scan source = lex (decimal :: order) source ∧
    ∀ i,
      Token.lexeme? (source.drop i) =
        (choose (decimal :: order) (source.drop i)).bind
          (fun x => (x.1.produced x.2).map (·, x.2)) ∧
      (choose (decimal :: order) (source.drop i) = none ↔
        ∀ (t : Terminal) (w : List Char), w ≠ [] → Matches t.pattern w → ¬ w <+: source.drop i) ∧
      ∀ t w, choose (decimal :: order) (source.drop i) = some (t, w) →
        t.Longest w (source.drop i) ∧
        ∀ k : Kind, k.isKeyword = true →
          (t.produced w = some k ↔ t = token .name ∧ Matches k.pattern w) := by
  refine ⟨(lexFrom_eq_scanFrom horder 0 1 source).symm, fun i => ⟨?_, ?_, fun t w h => ⟨?_, ?_⟩⟩⟩
  · rcases h : choose (decimal :: order) (source.drop i) with - | ⟨t, w⟩
    · exact lexeme?_of_choose_eq_none horder h
    · exact lexeme?_of_choose horder h
  · exact choose_eq_none_iff_forall horder
  · exact longest_of_choose horder h
  · -- a keyword is produced from a name only
    intro k hk
    exact produced_eq_keyword_iff ((horder.cons decimal).mem_iff.mp (exists_of_choose h).1)
      (longest_of_choose horder h).matched hk

/-- A decimal that looks like an integer and a word at first, with the classes behind
decimals tried from the last to the first. -/
theorem scan_maximal_munch_of_scaled :
    others.reverse.Perm others ∧
      Token.scan ['1', '_', 'e', '5', 'x'] =
        lex (decimal :: others.reverse) ['1', '_', 'e', '5', 'x'] ∧
      choose (decimal :: others.reverse) ['1', '_', 'e', '5', 'x'] =
        some (decimal, ['1', '_', 'e', '5']) ∧
      decimal.Longest ['1', '_', 'e', '5'] ['1', '_', 'e', '5', 'x'] := by
  have horder : others.reverse.Perm others := List.reverse_perm others
  have hchosen : choose (decimal :: others.reverse) ['1', '_', 'e', '5', 'x'] =
      some (decimal, ['1', '_', 'e', '5']) := by decide
  obtain ⟨hscan, hplaces⟩ := scan_maximal_munch horder ['1', '_', 'e', '5', 'x']
  exact ⟨horder, hscan, hchosen, ((hplaces 0).2.2 _ _ hchosen).1⟩

end Choose

end Terminal

end LineScript
