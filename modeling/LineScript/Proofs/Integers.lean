/-
LineScript/Proofs/Integers.lean

What integer literals denote.

The number of a literal is given by place value (`Number.denoted`): its last
digit counts ones, the one before it tens, and so on; underscores are passed
over, and a minus sign in front makes it negative.  The reader goes over the
digits in the other direction and stops at the first character that is none, so
two facts are needed: both directions give the same number (`placeValue_eq`), and
without underscores nothing stops the reader early (`integerValue_eq`).

A literal is canonical if it has no underscore, no zero in front of other digits,
and is not minus zero.  Digits that do not start with a zero are the digits of
their number (`toDigits_ofDigits`), so a canonical literal is the number that it
denotes, written down, and there is no other for that number.
-/
import LineScript.Proofs.ReadBack
import LineScript.Proofs.Targets
import Mathlib.Data.Nat.Digits.Defs

namespace LineScript

open Token (IsSign IsWhole IsDigits Spells)

/-! ### Place value -/

namespace Number

/-- The number that digits denote by their places. -/
def placeValue (ds : List Char) : Nat :=
  Nat.ofDigits 10 (ds.reverse.map digitValue)

/-- The number that an integer literal denotes. -/
def denoted (cs : List Char) : Int :=
  if cs.head? = some '-' then -placeValue (cs.filter isDigit) else placeValue (cs.filter isDigit)

theorem placeValue_eq (ds : List Char) : placeValue ds = ofDigits ds := by
  induction ds using List.reverseRecOn with
  | nil => rfl
  | append_singleton ds d ih =>
    rw [ofDigits_concat, ← ih, placeValue, placeValue, List.reverse_concat, List.map_cons,
      Nat.ofDigits_cons, Nat.add_comm]

section Literal

variable {s w : List Char}

theorem filter_isDigit_of_isSign (hs : IsSign s) : s.filter isDigit = [] := by
  rcases hs with rfl | rfl <;> rfl

/-- Without its underscores, the whole part of a number is made of digits. -/
theorem filter_plain_of_isWhole (hw : IsWhole w) : w.filter (· != '_') = w.filter isDigit := by
  refine List.filter_congr fun c hc => ?_
  have hpart : (isDigit c || c == '_') = true := by
    rcases w with - | ⟨d, r⟩
    · cases hw
    · rcases List.mem_cons.mp hc with rfl | hc
      · rw [hw.1, Bool.true_or]
      · exact hw.2 c hc
  by_cases hunderscore : c = '_'
  · rw [hunderscore]
    rfl
  · have hdigit : isDigit c = true := by simpa [hunderscore] using hpart
    rw [hdigit, bne_iff_ne]
    exact hunderscore

theorem head?_sign_append (hs : IsSign s) (hw : IsWhole w) :
    (s ++ w).head? = some '-' ↔ s = ['-'] := by
  rcases hs with rfl | rfl
  · rcases w with - | ⟨c, r⟩
    · cases hw
    · simpa using Token.ne_minus_of_isDigit hw.1
  · simp

/-- The number of a literal, by its parts. -/
theorem denoted_append (hs : IsSign s) (hw : IsWhole w) :
    denoted (s ++ w)
      = if s = ['-'] then -(ofDigits (w.filter isDigit) : Int)
        else ofDigits (w.filter isDigit) := by
  rw [denoted, List.filter_append, filter_isDigit_of_isSign hs, List.nil_append, placeValue_eq]
  simp only [head?_sign_append hs hw]

theorem readInt_append (hs : IsSign s) {ds : List Char} (hds : IsDigits ds) :
    Decimal.readInt (s ++ ds) = if s = ['-'] then -(ofDigits ds : Int) else ofDigits ds := by
  have hall : ds.takeWhile isDigit = ds := List.takeWhile_eq_self_iff.mpr hds
  rcases hs with rfl | rfl
  · have hsign := readSign_of_isDigit fun c hc => hds c (List.mem_of_head? hc)
    rw [List.nil_append, Decimal.readInt, hsign]
    show (ofDigits (ds.takeWhile isDigit) : Int) = _
    rw [hall, if_neg (by simp)]
  · show -(ofDigits (ds.takeWhile isDigit) : Int) = _
    rw [hall, if_pos rfl]

end Literal

theorem isDigits_filter (cs : List Char) : IsDigits (cs.filter isDigit) :=
  fun _ hd => (List.mem_filter.mp hd).2

/-- **The reader of integers gives the number that a literal denotes.** -/
theorem integerValue_eq {cs : List Char} (h : Spells (.literal .integer) cs) :
    LiteralKind.integerValue (cs.filter (· != '_')) = denoted cs := by
  cases h with
  | @integer s w hs hw =>
    have hsign : s.filter (· != '_') = s := by
      rcases hs with rfl | rfl <;> rfl
    rw [LiteralKind.integerValue, List.filter_append, hsign, filter_plain_of_isWhole hw,
      readInt_append hs (isDigits_filter w), denoted_append hs hw]

/-- The numbers that words have. -/
theorem exists_word_iff {n : Int} :
    (∃ w : Int64, w.toInt = n) ↔ -2 ^ 63 ≤ n ∧ n ≤ 2 ^ 63 - 1 := by
  constructor
  · rintro ⟨w, rfl⟩
    exact ⟨Int64.le_toInt w, Int.le_sub_one_of_lt (Int64.toInt_lt w)⟩
  · rintro ⟨hlow, hhigh⟩
    exact ⟨.ofInt n, Int64.toInt_ofInt_of_le hlow (Int.lt_of_le_sub_one hhigh)⟩

/-! ### Canonical literals -/

/-- A literal without underscores, without zeros in front of other digits, and
other than minus zero. -/
structure Canonical (cs : List Char) : Prop where
  plain : '_' ∉ cs
  zero : ∀ s r, IsSign s → cs = s ++ '0' :: r → r = []
  minus : cs ≠ ['-', '0']

theorem digitChar_digitValue {d : Char} (h : isDigit d = true) :
    Nat.digitChar (digitValue d) = d := by
  have hd := Token.isDigit_iff.mp h
  have hten : digitValue d < 10 := by
    show d.toNat - 48 < 10
    omega
  apply Char.toNat_inj.mp
  rw [Nat.toNat_digitChar_of_lt_ten hten]
  show 48 + (d.toNat - 48) = d.toNat
  omega

theorem digitValue_lt {d : Char} (h : isDigit d = true) : digitValue d < 10 := by
  have hd := Token.isDigit_iff.mp h
  show d.toNat - 48 < 10
  omega

/-- Digits that do not start with a zero are those of their number. -/
theorem toDigits_ofDigits {ds : List Char} (hds : IsDigits ds) (hne : ds ≠ [])
    (hzero : ds.head? ≠ some '0') : 0 < ofDigits ds ∧ toDigits (ofDigits ds) = ds := by
  induction ds using List.reverseRecOn with
  | nil => exact absurd rfl hne
  | append_singleton ds d ih =>
    have hd : isDigit d = true := hds d (by simp)
    have hten := digitValue_lt hd
    have hlast : toDigits (digitValue d) = [d] := by
      rw [toDigits, Nat.toDigits_of_lt_base hten, digitChar_digitValue hd]
    rw [ofDigits_concat]
    by_cases hnil : ds = []
    · -- a single digit, which is not zero
      subst hnil
      have hpos : digitValue d ≠ 0 := by
        intro h0
        apply hzero
        rw [List.nil_append, List.head?_cons, ← digitChar_digitValue hd, h0]
        rfl
      rw [ofDigits_nil, Nat.mul_zero, Nat.zero_add, List.nil_append]
      exact ⟨Nat.pos_of_ne_zero hpos, hlast⟩
    · -- the digits in front of the last one start with no zero either
      rw [List.head?_append_of_ne_nil _ hnil] at hzero
      obtain ⟨hpos, hdigits⟩ := ih (fun c hc => hds c (by simp [hc])) hnil hzero
      refine ⟨by omega, ?_⟩
      rw [toDigits, ← Nat.toDigits_append_toDigits (by decide) hpos hten, ← toDigits, hdigits,
        ← toDigits, hlast]

/-- The digits of a number other than zero start with no zero. -/
theorem head?_toDigits {n : Nat} (h : 0 < n) : (toDigits n).head? ≠ some '0' := by
  induction n using Nat.strongRecOn with
  | ind n ih =>
    rw [toDigits, Nat.toDigits_eq_if (by decide)]
    split
    · simpa using h.ne'
    · have hquotient : 0 < n / 10 := by omega
      rw [List.head?_append_of_ne_nil _ Nat.toDigits_ne_nil]
      exact ih (n / 10) (by omega) hquotient

/-- A canonical literal is what it denotes, written down. -/
theorem Canonical.eq_toString {cs : List Char} (h : Canonical cs)
    (hspells : Spells (.literal .integer) cs) : cs = (toString (denoted cs)).toList := by
  cases hspells with
  | @integer s w hs hw =>
    have hplain : w.filter isDigit = w := by
      rw [← filter_plain_of_isWhole hw, List.filter_eq_self]
      intro c hc
      rw [bne_iff_ne]
      rintro rfl
      exact h.plain (List.mem_append_right s hc)
    rw [denoted_append hs hw, hplain, toList_toString]
    by_cases hzero : w.head? = some '0'
    · -- nothing may follow the zero, and nothing may stand before it
      obtain ⟨r, rfl⟩ := List.head?_eq_some_iff.mp hzero
      obtain rfl := h.zero s r hs rfl
      rcases hs with rfl | rfl
      · rfl
      · exact absurd rfl h.minus
    · have hdigits : IsDigits w := hplain ▸ isDigits_filter w
      obtain ⟨hpos, hw'⟩ := toDigits_ofDigits hdigits hw.ne_nil hzero
      rcases hs with rfl | rfl
      · rw [if_neg (by simp), signOf, if_neg (by omega), Int.natAbs_natCast, hw']
      · rw [if_pos rfl, signOf, if_pos (by omega), Int.natAbs_neg, Int.natAbs_natCast, hw']

/-- A number that is written down denotes itself. -/
theorem denoted_toString (n : Int) : denoted (toString n).toList = n := by
  have hdigits : IsDigits (toDigits n.natAbs) := fun c hc => isDigit_of_mem_toDigits hc
  rw [toList_toString, denoted_append (isSign_signOf n) (isWhole_toDigits _),
    List.filter_eq_self.mpr hdigits, ← readInt_append (isSign_signOf n) hdigits,
    readInt_sign_digits]

/-- A number that is written down is canonical. -/
theorem canonical_toString (n : Int) : Canonical (toString n).toList where
  plain := by
    rw [toList_toString, List.mem_append, not_or]
    exact ⟨fun h => absurd (eq_minus_of_mem_signOf h) (by decide), Nat.underscore_not_in_toDigits⟩
  zero s r hs h := by
    have hdigit : ∀ c ∈ (toDigits n.natAbs).head?, c ≠ '-' := fun c hc =>
      Token.ne_minus_of_isDigit (isDigit_of_mem_toDigits (List.mem_of_head? hc))
    have hzero : ∀ c ∈ ('0' :: r).head?, c ≠ '-' := by
      rintro c ⟨⟩
      decide
    -- both sides start with the same sign, so the digits are the same too
    rw [toList_toString] at h
    have hsign : signOf n = s := by
      rw [← Token.minus_append (isSign_signOf n) hdigit, h, Token.minus_append hs hzero]
    rw [hsign] at h
    have hdigits := List.append_cancel_left h
    rcases Nat.eq_zero_or_pos n.natAbs with h0 | hpos
    · rw [h0, toDigits, Nat.toDigits_zero] at hdigits
      exact (List.cons.inj hdigits).2.symm
    · exact absurd (by rw [hdigits]; rfl) (head?_toDigits hpos)
  minus h := by
    have h0 : n = 0 := by
      rw [← denoted_toString n, h]
      rfl
    rw [h0] at h
    exact absurd h (by decide)

end Number

/-! ### Reading -/

/-- The literal of a word. -/
def Node.integer (w : Int64) : Node :=
  .literal (some (.int w)) Class.int.name

namespace LiteralKind

variable {text : String}

/-- What reading an integer comes to. -/
theorem read_integer_eq [Text.CharacterNames] (h : Spells (.literal .integer) text.toList)
    (hlength : (text.toList.filter Number.isDigit).length ≤ digitLimit) :
    read text integer = match Number.toWord? (Number.denoted text.toList) with
      | some w => .ok (.integer w)
      | none => .error (.failure (.badStatement ("integer " ++ text ++ " out of range"))) := by
  rw [read, readInteger, Number.filter_isDigit_plain, if_neg (by omega), Number.integerValue_eq h]
  rfl

/-- An integer is read as the word with its number, if it is not too long. -/
theorem read_integer_eq_ok_iff [Text.CharacterNames] (h : Spells (.literal .integer) text.toList)
    {w : Int64} :
    read text integer = .ok (.integer w) ↔
      (text.toList.filter Number.isDigit).length ≤ digitLimit ∧
        w.toInt = Number.denoted text.toList := by
  by_cases hlength : (text.toList.filter Number.isDigit).length ≤ digitLimit
  · rw [read_integer_eq h hlength, ← Number.toWord?_eq_some_iff]
    rcases Number.toWord? (Number.denoted text.toList) with - | v
    · simp
    · simp [Node.integer, hlength]
  · rw [read, readInteger, Number.filter_isDigit_plain, if_pos (by omega)]
    simp [hlength]

/-- No other kind of literal is read as a word. -/
theorem eq_integer_of_read [Text.CharacterNames] {k : LiteralKind} {w : Int64}
    (h : k.read text = .ok (.integer w)) :
    k = integer := by
  cases k with
  | integer => rfl
  | decimal =>
    replace h : readDecimal text = .ok (.integer w) := h
    unfold readDecimal at h
    dsimp only at h
    split at h <;> cases h
  | text =>
    replace h : readText text = .ok (.integer w) := h
    unfold readText at h
    split at h <;> cases h
  | symbol | true | false | null => cases h

end LiteralKind

/-! ### Parsing -/

/-- A text of one lexeme is that lexeme, but for the blanks around it. -/
theorem Lexeme.Lexes.eq_chars {cs : List Char} {l : Lexeme} (h : Lexes (Text.trim cs) [l]) :
    Text.trim cs = l.chars := by
  obtain ⟨gs, r, hcs, hgs, hl, hr⟩ := h.exists_first
  have hblank : ∀ c ∈ r, Text.isBlank c = true := fun c hc =>
    Token.isBlank_of_isGap (hr.isGap_of_nil c hc)
  have hhead := Text.isBlank_head?_trim cs
  have hfront : ∀ c ∈ l.chars.head?, Text.isBlank c = false := hl.spelled.isBlank_head?
  rcases gs with - | ⟨g, gs⟩
  · calc Text.trim cs = Text.trimEnd (l.chars ++ r) := by rw [← Text.trimEnd_trim, hcs]; rfl
      _ = Text.trimEnd l.chars := Text.trimEnd_append_blank hblank _
      _ = Text.trim l.chars := (Text.trim_of_margin (p := []) (by simp) hfront).symm
      _ = l.chars := Text.trim_eq_self hfront hl.spelled.isBlank_getLast?
  · have hg := hhead g (by rw [hcs]; rfl)
    rw [Token.isBlank_of_isGap (hgs g List.mem_cons_self)] at hg
    cases hg

namespace Statement

variable {text : String}

theorem parse_literal [Text.CharacterNames] {k : LiteralKind}
    (h : Spells (.literal k) text.toList) :
    parse text = k.read text := by
  have hspelled : ∀ l ∈ (Phrase.literal k text).lexemes, l.Spelled := by
    intro l hl
    rw [Phrase.lexemes, List.mem_singleton] at hl
    exact hl ▸ h
  have hparse := Phrase.parse_written hspelled
  rwa [Phrase.written_literal, Phrase.toNode] at hparse

theorem parse_integer_eq_ok_iff [Text.CharacterNames] (h : Spells (.literal .integer) text.toList)
    (hlength : (text.toList.filter Number.isDigit).length ≤ digitLimit) {w : Int64} :
    parse text = .ok (.integer w) ↔ w.toInt = Number.denoted text.toList := by
  rw [parse_literal h, LiteralKind.read_integer_eq_ok_iff h]
  exact and_iff_right hlength

/-- An expression is the node of no other sentence. -/
theorem exists_phrase [Text.CharacterNames] {source : String} {n : Node} (h : parse source = .ok n)
    (hn : n.IsExpression) :
    ∃ p : Phrase, Lexeme.Lexes (Text.trim source.toList) p.lexemes ∧ p.toNode = .ok n := by
  obtain ⟨w, hw, hnode⟩ := exists_sentence h
  have hlexes := sentence_eq_ok_iff.mp hw
  -- only expressions give an expression; the others give a block or an assignment
  cases w with
  | declaration m y t =>
    cases hnode
    cases hn
  | definition m y t p =>
    obtain ⟨k, -, hdefinition⟩ := exists_of_bind_eq_ok hnode
    obtain ⟨t', -, hblock⟩ := exists_of_bind_eq_ok hdefinition
    cases hblock
    cases hn
  | assignment y p =>
    obtain ⟨k, -, hk⟩ := exists_of_bind_eq_ok hnode
    cases hk
    cases hn
  | expression p => exact ⟨p, hlexes, hnode⟩

/-- A text that is parsed as a word is an integer literal between blanks, and
denotes the word. -/
theorem exists_integer_of_parse [Text.CharacterNames] {source : String} {w : Int64}
    (h : parse source = .ok (.integer w)) :
    Spells (.literal .integer) (Text.trim source.toList) ∧
      Number.denoted (Text.trim source.toList) = w.toInt := by
  obtain ⟨p, hp, hnode⟩ := exists_phrase h (.literal _ _)
  cases p with
  | reference x => cases hnode
  | call f ps =>
    obtain ⟨ns, -, hcall⟩ := exists_of_bind_eq_ok hnode
    cases hcall
  | literal k text =>
    obtain rfl := LiteralKind.eq_integer_of_read hnode
    have htext : Text.trim source.toList = text.toList := hp.eq_chars
    have hspells : Spells (.literal .integer) text.toList :=
      hp.spelled (.literal .integer text) List.mem_cons_self
    have hread := (LiteralKind.read_integer_eq_ok_iff hspells).mp hnode
    rw [htext]
    exact ⟨hspells, hread.2.symm⟩

/-- The canonical text of a word is the word written down. -/
theorem parse_canonical_iff [Text.CharacterNames] {source : String} {w : Int64} :
    parse source = .ok (.integer w) ∧ Number.Canonical (Text.trim source.toList) ↔
      Text.trim source.toList = (toString w.toInt).toList := by
  constructor
  · rintro ⟨hparse, hcanonical⟩
    obtain ⟨hspells, hdenoted⟩ := exists_integer_of_parse hparse
    rw [← hdenoted]
    exact hcanonical.eq_toString hspells
  · intro h
    have hspells := LiteralKind.spells_integer w.toInt
    have htrim : Text.trim (toString w.toInt).toList = (toString w.toInt).toList :=
      Text.trim_eq_self hspells.isBlank_head? hspells.isBlank_getLast?
    have hparse : parse source = parse (toString w.toInt) := by
      rw [parse, parse, h, htrim]
    rw [hparse, h, parse_literal hspells]
    exact ⟨LiteralKind.read_integer w, Number.canonical_toString w.toInt⟩

/-- **Integer literals denote their decimal value exactly.**  A literal that is not
too long is parsed as its number, if that fits a word, and is malformed
otherwise; two literals are parsed alike exactly if they denote the same number
that fits; and of all the texts that are parsed as that number, the canonical one
is the number written down. -/
theorem parse_integer [Text.CharacterNames] (h : Spells (.literal .integer) text.toList)
    (hlength : (text.toList.filter Number.isDigit).length ≤ digitLimit) :
    let n := Number.denoted text.toList
    let fits := -2 ^ 63 ≤ n ∧ n ≤ 2 ^ 63 - 1
    (fits → ∃ w : Int64, w.toInt = n ∧ parse text = .ok (.integer w)) ∧
    (¬ fits → parse text
      = .error (.failure (.badStatement ("integer " ++ text ++ " out of range")))) ∧
    (∀ text' : String, Spells (.literal .integer) text'.toList →
      (text'.toList.filter Number.isDigit).length ≤ digitLimit →
      ((∃ w : Int64, parse text = .ok (.integer w) ∧ parse text' = .ok (.integer w)) ↔
        Number.denoted text'.toList = n ∧ fits)) ∧
    ∀ w : Int64, w.toInt = n → ∀ source : String,
      parse source = .ok (.integer w) ∧ Number.Canonical (Text.trim source.toList) ↔
        Text.trim source.toList = (toString n).toList := by
  intro n fits
  refine ⟨?_, ?_, ?_, ?_⟩
  · -- a value in range is some word
    intro hfits
    obtain ⟨w, hw⟩ := Number.exists_word_iff.mpr hfits
    exact ⟨w, hw, (parse_integer_eq_ok_iff h hlength).mpr hw⟩
  · -- a value out of range is none
    intro hfits
    rw [parse_literal h, LiteralKind.read_integer_eq h hlength]
    rcases hw : Number.toWord? n with - | w
    · rfl
    · exact absurd (Number.exists_word_iff.mp ⟨w, Number.toWord?_eq_some_iff.mp hw⟩) hfits
  · -- two texts give one literal if and only if they denote one number
    intro text' h' hlength'
    simp only [parse_integer_eq_ok_iff h hlength, parse_integer_eq_ok_iff h' hlength']
    constructor
    · rintro ⟨w, hw, hw'⟩
      exact ⟨hw'.symm.trans hw, Number.exists_word_iff.mp ⟨w, hw⟩⟩
    · rintro ⟨heq, hfits⟩
      obtain ⟨w, hw⟩ := Number.exists_word_iff.mpr hfits
      exact ⟨w, hw, by rw [heq, hw]⟩
  · -- the canonical text is the printed number
    rintro w hw source
    rw [← hw]
    exact parse_canonical_iff

/-- The least word with a superfluous zero and an underscore, beside its canonical
text; and the first number that no word has. -/
theorem parse_integer_at_limits :
    let text := "-0_9223372036854775808"
    let plain := "-9223372036854775808"
    let great := "9223372036854775808"
    Number.denoted text.toList = Int64.minValue.toInt ∧
      parse text = .ok (.integer Int64.minValue) ∧ parse plain = .ok (.integer Int64.minValue) ∧
      (∀ source : String, parse source = .ok (.integer Int64.minValue) ∧
        Number.Canonical (Text.trim source.toList) ↔ Text.trim source.toList = plain.toList) ∧
      parse great = .error (.failure (.badStatement ("integer " ++ great ++ " out of range"))) := by
  intro text plain great
  have hspells : ∀ cs, Token.lexeme? cs = some (.literal .integer, cs) →
      Spells (.literal .integer) cs := fun _ => Token.spells_of_lexeme?
  have htext := hspells text.toList (by decide +kernel)
  have hplain := hspells plain.toList (by decide +kernel)
  have hgreat := hspells great.toList (by decide +kernel)
  have hdenoted : Number.denoted text.toList = Int64.minValue.toInt := by decide +kernel
  obtain ⟨hparse, -, hsame, hcanonical⟩ := parse_integer htext (by decide +kernel)
  obtain ⟨-, hrefused, -, -⟩ := parse_integer hgreat (by decide +kernel)
  obtain ⟨w, hw, htextParse⟩ := hparse (by decide +kernel)
  obtain ⟨w', hw', hplainParse⟩ := (hsame plain hplain (by decide +kernel)).mpr (by decide +kernel)
  obtain rfl : w = Int64.minValue := Int64.toInt_inj.mp (hw.trans hdenoted)
  obtain rfl : w' = Int64.minValue := by
    rw [htextParse] at hw'
    cases hw'
    rfl
  have hwritten : (toString (Number.denoted text.toList)).toList = plain.toList := by
    decide +kernel
  rw [hwritten] at hcanonical
  exact ⟨hdenoted, htextParse, hplainParse, hcanonical _ hdenoted.symm,
    hrefused (by decide +kernel)⟩

end Statement

end LineScript
