/-
LineScript/Proofs/Spelling.lean

How the tokens of each kind are spelled.

`Spells k w` says that the characters `w` make up a token of the kind `k`, with
one rule for every kind and three for decimals: digits around a point, digits
behind a point only, and a whole part with an exponent.  The rules say nothing
about longer texts.  Two results tie them to the token at the front of a text:

* what `lexeme?` takes is a token of the kind that it says
  (`spells_of_lexeme?`);
* a token is taken as it is, if what follows could not continue a word or a
  number (`lexeme?_append`).

Both go part by part over a number, in the order in which `number?` takes the
parts: the sign, the whole part, and the tail, whose exponent comes last.
-/
import LineScript.Token.Scan
import Mathlib.Data.List.TakeWhile

namespace LineScript.Token

open Number (isDigit)

/-! ### Classes of characters -/

section Characters

variable {c : Char}

theorem isDigit_iff : isDigit c = true ↔ 48 ≤ c.toNat ∧ c.toNat ≤ 57 := by
  simp only [isDigit, Bool.and_eq_true, decide_eq_true_eq]
  exact Iff.rfl

theorem isNameStart_iff :
    isNameStart c = true ↔
      (65 ≤ c.toNat ∧ c.toNat ≤ 90) ∨ (97 ≤ c.toNat ∧ c.toNat ≤ 122) ∨ c.toNat = 95 := by
  have halpha : c.isAlpha =
      (decide ('A'.val ≤ c.val ∧ c.val ≤ 'Z'.val) || ('a'.val ≤ c.val && c.val ≤ 'z'.val)) := rfl
  have hunderscore : c = '_' ↔ c.toNat = 95 := Char.toNat_inj.symm
  simp only [isNameStart, halpha, Bool.or_eq_true, Bool.and_eq_true, decide_eq_true_eq,
    beq_iff_eq, hunderscore, or_assoc]
  exact Iff.rfl

theorem isNamePart_iff :
    isNamePart c = true ↔ isNameStart c = true ∨ isDigit c = true := by
  have hdigit : c.isDigit = isDigit c := rfl
  simp only [isNamePart, isNameStart, Char.isAlphanum, hdigit, Bool.or_eq_true]
  exact or_right_comm

end Characters

/-! ### The spelling of each kind -/

/-- A letter or underscore, then letters, digits and underscores. -/
def IsWord : List Char → Prop
  | [] => False
  | c :: r => isNameStart c = true ∧ ∀ d ∈ r, isNamePart d = true

instance : DecidablePred IsWord
  | [] => .isFalse id
  | _ :: r => @instDecidableAnd _ _ _ (List.decidableBAll _ r)

/-- The words that are no names. -/
def keywords : List (List Char) :=
  [['v', 'a', 'l'], ['v', 'a', 'r'], ['t', 'r', 'u', 'e'], ['f', 'a', 'l', 's', 'e'],
    ['n', 'u', 'l', 'l']]

/-- A word that is no keyword. -/
def IsName (x : String) : Prop :=
  IsWord x.toList ∧ x.toList ∉ keywords

instance : DecidablePred IsName :=
  fun x => inferInstanceAs (Decidable (IsWord x.toList ∧ x.toList ∉ keywords))

/-- An optional minus sign. -/
def IsSign (s : List Char) : Prop :=
  s = [] ∨ s = ['-']

/-- A digit, then digits and underscores. -/
def IsWhole : List Char → Prop
  | [] => False
  | c :: r => isDigit c = true ∧ ∀ d ∈ r, (isDigit d || d == '_') = true

/-- Nothing but digits. -/
def IsDigits (ds : List Char) : Prop :=
  ∀ d ∈ ds, isDigit d = true

/-- The letter of an exponent, an optional sign and at least one digit. -/
inductive IsExponent : List Char → Prop
  | intro {c : Char} {s ds : List Char} : c = 'e' ∨ c = 'E' → s = [] ∨ s = ['+'] ∨ s = ['-'] →
    ds ≠ [] → IsDigits ds → IsExponent (c :: (s ++ ds))

/-- What may stand between the quotes of a text: every character but the quote
and the backslash, and a backslash before every character but a line feed. -/
inductive IsInside : List Char → Prop
  | nil : IsInside []
  | plain {c : Char} {r : List Char} : c ≠ '\x22' → c ≠ '\\' → IsInside r → IsInside (c :: r)
  | escaped {c : Char} {r : List Char} : c ≠ '\n' → IsInside r → IsInside ('\\' :: c :: r)

/-- The characters of a token of a kind. -/
inductive Spells : Kind → List Char → Prop
  | val : Spells .val ['v', 'a', 'l']
  | var : Spells .var ['v', 'a', 'r']
  | trueWord : Spells (.literal .true) ['t', 'r', 'u', 'e']
  | falseWord : Spells (.literal .false) ['f', 'a', 'l', 's', 'e']
  | null : Spells (.literal .null) ['n', 'u', 'l', 'l']
  | name {w : List Char} : IsWord w → w ∉ keywords → Spells .name w
  | opening : Spells .opening ['(']
  | closing : Spells .closing [')']
  | comma : Spells .comma [',']
  | colon : Spells .colon [':']
  | equals : Spells .equals ['=']
  | integer {s w : List Char} : IsSign s → IsWhole w → Spells (.literal .integer) (s ++ w)
  | decimal {s w ds e : List Char} : IsSign s → IsWhole w → IsDigits ds →
    e = [] ∨ IsExponent e → Spells (.literal .decimal) (s ++ w ++ '.' :: (ds ++ e))
  | fraction {s ds e : List Char} : IsSign s → ds ≠ [] → IsDigits ds →
    e = [] ∨ IsExponent e → Spells (.literal .decimal) (s ++ '.' :: (ds ++ e))
  | scaled {s w e : List Char} : IsSign s → IsWhole w → IsExponent e →
    Spells (.literal .decimal) (s ++ w ++ e)
  | text {b : List Char} : IsInside b → Spells (.literal .text) ('\x22' :: (b ++ ['\x22']))
  | symbol {w : List Char} : IsWord w → Spells (.literal .symbol) ('\x27' :: w)

section Nonempty

variable {w : List Char}

theorem IsWord.ne_nil (h : IsWord w) : w ≠ [] := by
  rintro rfl
  cases h

theorem IsWhole.ne_nil (h : IsWhole w) : w ≠ [] := by
  rintro rfl
  cases h

theorem IsWhole.isEmpty (h : IsWhole w) : (!w.isEmpty) = true := by
  simpa using h.ne_nil

theorem IsExponent.ne_nil (h : IsExponent w) : w ≠ [] := by
  rintro rfl
  cases h

end Nonempty

/-! ### Taking a token gives its spelling -/

theorem isWord_word {c : Char} (r : List Char) (h : isNameStart c = true) :
    IsWord (word (c :: r)) := by
  rw [word, if_pos h]
  exact ⟨h, fun d hd => List.mem_takeWhile_imp hd⟩

/-- A word is a token of the kind that `ofWord` gives it. -/
theorem IsWord.spells {w : List Char} (h : IsWord w) : Spells (Kind.ofWord w) w := by
  unfold Kind.ofWord
  split_ifs with h₁ h₂ h₃ h₄ h₅
  · exact h₁ ▸ .val
  · exact h₂ ▸ .var
  · exact h₃ ▸ .trueWord
  · exact h₄ ▸ .falseWord
  · exact h₅ ▸ .null
  · exact .name h (by simp [keywords, h₁, h₂, h₃, h₄, h₅])

theorem isSign_minus (cs : List Char) : IsSign (minus cs) := by
  unfold minus
  split
  · split
    · next h => exact .inr (by rw [h])
    · exact .inl rfl
  · exact .inl rfl

theorem isWhole_whole {cs : List Char} (h : whole cs ≠ []) : IsWhole (whole cs) := by
  unfold whole at h ⊢
  split at h
  · exact absurd rfl h
  · split at h
    · next hc =>
      rw [if_pos hc]
      exact ⟨hc, fun d hd => List.mem_takeWhile_imp (p := fun d => isDigit d || d == '_') hd⟩
    · exact absurd rfl h

theorem isDigits_takeWhile (cs : List Char) : IsDigits (cs.takeWhile isDigit) :=
  fun _ hd => List.mem_takeWhile_imp hd

theorem exponentSign_cases (cs : List Char) :
    exponentSign cs = [] ∨ exponentSign cs = ['+'] ∨ exponentSign cs = ['-'] := by
  unfold exponentSign
  split
  · split
    · next h => rcases h with rfl | rfl <;> simp
    · exact .inl rfl
  · exact .inl rfl

theorem isExponent_exponent {cs : List Char} (h : exponent cs ≠ []) :
    IsExponent (exponent cs) := by
  unfold exponent at h ⊢
  split at h
  · exact absurd rfl h
  · next c r =>
    split at h
    · next hc =>
      rw [if_pos hc]
      dsimp only at h ⊢
      split at h
      · exact absurd rfl h
      · next hds =>
        rw [if_neg hds]
        exact .intro hc (exponentSign_cases r) hds (isDigits_takeWhile _)
    · exact absurd rfl h

theorem exponent_eq_nil_or (cs : List Char) : exponent cs = [] ∨ IsExponent (exponent cs) :=
  or_iff_not_imp_left.mpr isExponent_exponent

/-- The tail of a decimal, where there is one: a point with digits and perhaps
an exponent behind it, or an exponent alone behind a whole part. -/
theorem tail_cases {afterWhole : Bool} {cs : List Char} (h : tail afterWhole cs ≠ []) :
    (∃ ds e, tail afterWhole cs = '.' :: (ds ++ e) ∧ IsDigits ds ∧ (e = [] ∨ IsExponent e) ∧
      (afterWhole = false → ds ≠ [])) ∨
    afterWhole = true ∧ IsExponent (tail afterWhole cs) := by
  unfold tail at h ⊢
  split at h
  · exact absurd rfl h
  · next c r =>
    dsimp only at h ⊢
    split at h
    · -- a point
      next hc =>
      rw [if_pos hc]
      split at h
      · exact absurd rfl h
      · next hds =>
        rw [if_neg hds, hc]
        refine .inl ⟨_, _, rfl, isDigits_takeWhile r, exponent_eq_nil_or _, ?_⟩
        intro hfalse hnil
        exact hds ⟨hnil, hfalse⟩
    · -- no point, so it is an exponent behind the whole part
      next hc =>
      rw [if_neg hc]
      split at h
      · next hw =>
        rw [if_pos hw]
        exact .inr ⟨hw, isExponent_exponent h⟩
      · exact absurd rfl h

/-- The number at the front of a text is spelled as its kind says. -/
theorem spells_of_number? {cs w : List Char} {k : Kind} (h : number? cs = some (k, w)) :
    Spells k w := by
  unfold number? at h
  dsimp only at h
  have hs := isSign_minus cs
  split at h
  · next ht =>
    cases h
    rcases tail_cases ht with ⟨ds, e, htail, hds, he, hne⟩ | ⟨hw, hexp⟩
    · rw [htail]
      -- a point with nothing before it has a rule of its own
      rcases hw : whole (cs.drop (minus cs).length) with - | ⟨c, r⟩
      · rw [hw] at hne
        rw [List.append_nil]
        exact .fraction hs (hne rfl) hds he
      · have hwhole := isWhole_whole (hw ▸ List.cons_ne_nil c r)
        exact .decimal hs (hw ▸ hwhole) hds he
    · have hwhole : whole (cs.drop (minus cs).length) ≠ [] := by
        simpa using hw
      exact .scaled hs (isWhole_whole hwhole) hexp
  · split at h
    · next hw =>
      cases h
      exact .integer hs (isWhole_whole hw)
    · cases h

/-- What closes a text follows what may stand inside it. -/
theorem isInside_of_textTail? {cs t : List Char} (h : textTail? cs = some t) :
    ∃ b, IsInside b ∧ t = b ++ ['\x22'] := by
  fun_induction textTail? cs generalizing t with
  | case1 => cases h
  | case2 r =>
    cases h
    exact ⟨[], .nil, rfl⟩
  | case3 => cases h
  | case4 => cases h
  | case5 d r hd _ ih =>
    obtain ⟨t', ht', rfl⟩ := Option.map_eq_some_iff.mp h
    obtain ⟨b, hb, rfl⟩ := ih ht'
    exact ⟨'\\' :: d :: b, .escaped hd hb, rfl⟩
  | case6 c r hquote hslash ih =>
    obtain ⟨t', ht', rfl⟩ := Option.map_eq_some_iff.mp h
    obtain ⟨b, hb, rfl⟩ := ih ht'
    exact ⟨c :: b, .plain hquote hslash hb, rfl⟩

theorem spells_of_quotedLiteral? {cs w : List Char} {k : Kind}
    (h : quotedLiteral? cs = some (k, w)) : Spells k w := by
  unfold quotedLiteral? at h
  split at h
  · cases h
  · next c r =>
    split at h
    · next hc =>
      obtain ⟨t, ht, heq⟩ := Option.map_eq_some_iff.mp h
      obtain ⟨b, hb, rfl⟩ := isInside_of_textTail? ht
      cases heq
      rw [hc]
      exact .text hb
    · split at h
      · next hc =>
        cases h
        obtain ⟨hquote, hword⟩ := hc
        rw [hquote]
        -- the rest starts with a word, or none would have been found
        rcases r with - | ⟨d, r⟩
        · exact absurd rfl hword
        · have hd : isNameStart d = true := by
            by_contra hd
            exact hword (by rw [word, if_neg hd])
          exact .symbol (isWord_word r hd)
      · cases h

theorem spells_of_ofMark? {c : Char} {k : Kind} (h : Kind.ofMark? c = some k) :
    Spells k [c] := by
  unfold Kind.ofMark? at h
  split_ifs at h with h₁ h₂ h₃ h₄ h₅ <;> cases h
  · exact h₁ ▸ .opening
  · exact h₂ ▸ .closing
  · exact h₃ ▸ .comma
  · exact h₄ ▸ .colon
  · exact h₅ ▸ .equals

/-- **The token at the front of a text is spelled as its kind says.** -/
theorem spells_of_lexeme? {cs w : List Char} {k : Kind} (h : lexeme? cs = some (k, w)) :
    Spells k w := by
  unfold lexeme? at h
  split at h
  · cases h
  · next c r =>
    split at h
    · next hc =>
      cases h
      exact (isWord_word r hc).spells
    · split at h
      · exact spells_of_quotedLiteral? h
      · split at h
        · next k' hk =>
          cases h
          exact spells_of_ofMark? hk
        · exact spells_of_number? h

/-! ### A token is taken as it is spelled -/

/-- A text that neither continues a word nor a number. -/
def Stops : List Char → Prop
  | [] => True
  | c :: _ => isNamePart c = false ∧ c ≠ '.'

/-- A run of characters ends where the next one is not of its class. -/
theorem takeWhile_append_of_head {p : Char → Bool} {w rest : List Char} (hw : ∀ c ∈ w, p c = true)
    (hrest : ∀ c ∈ rest.head?, p c = false) : (w ++ rest).takeWhile p = w := by
  rw [List.takeWhile_append_of_pos hw]
  rcases rest with - | ⟨c, r⟩
  · simp
  · simp [hrest c rfl]

section Rest

variable {rest : List Char}

theorem Stops.isNamePart (h : Stops rest) : ∀ c ∈ rest.head?, isNamePart c = false := by
  rcases rest with - | ⟨d, r⟩
  · simp
  · rintro c ⟨⟩
    exact h.1

theorem Stops.isDigit (h : Stops rest) : ∀ c ∈ rest.head?, Number.isDigit c = false := by
  intro c hc
  have hpart := h.isNamePart c hc
  rw [← Bool.not_eq_true, isNamePart_iff] at hpart
  exact Bool.eq_false_iff.mpr fun hd => hpart (.inr hd)

theorem Stops.isWhole (h : Stops rest) :
    ∀ c ∈ rest.head?, (Number.isDigit c || c == '_') = false := by
  intro c hc
  have hne : c ≠ '_' := by
    rintro rfl
    exact absurd (h.isNamePart _ hc) (by decide)
  simp [h.isDigit c hc, hne]

theorem word_append {w : List Char} (hw : IsWord w) (h : Stops rest) : word (w ++ rest) = w := by
  rcases w with - | ⟨c, r⟩
  · cases hw
  · rw [List.cons_append, word, if_pos hw.1, takeWhile_append_of_head hw.2 h.isNamePart]

/-- A word is taken whole, with the kind that `ofWord` gives it. -/
theorem lexeme?_word {w : List Char} (hw : IsWord w) (h : Stops rest) :
    lexeme? (w ++ rest) = some (Kind.ofWord w, w) := by
  have hword := word_append hw h
  rcases w with - | ⟨c, r⟩
  · cases hw
  · rw [List.cons_append] at hword ⊢
    rw [lexeme?, if_pos hw.1, hword]

theorem ofWord_of_not_mem {w : List Char} (h : w ∉ keywords) : Kind.ofWord w = .name := by
  simp only [keywords, List.mem_cons, List.not_mem_nil, or_false, not_or] at h
  obtain ⟨h₁, h₂, h₃, h₄, h₅⟩ := h
  simp [Kind.ofWord, h₁, h₂, h₃, h₄, h₅]

/-! #### Numbers -/

/-- A character with which a number may start. -/
def StartsNumber (c : Char) : Prop :=
  c = '-' ∨ c = '.' ∨ Number.isDigit c = true

/-- No other token starts as a number does. -/
theorem lexeme?_of_startsNumber {c : Char} (h : StartsNumber c) (r : List Char) :
    lexeme? (c :: r) = number? (c :: r) := by
  -- these characters lie between the marks and the letters
  have hrange : c.toNat = 45 ∨ c.toNat = 46 ∨ 48 ≤ c.toNat ∧ c.toNat ≤ 57 := by
    rcases h with rfl | rfl | h
    · exact .inl rfl
    · exact .inr (.inl rfl)
    · exact .inr (.inr (isDigit_iff.mp h))
  have hstart : isNameStart c = false := by
    rw [← Bool.not_eq_true, isNameStart_iff]
    omega
  have hne : ∀ d : Char, d.toNat < 45 ∨ 57 < d.toNat → c ≠ d := by
    rintro d hd rfl
    omega
  have hmark : Kind.ofMark? c = none := by
    simp [Kind.ofMark?, hne '(' (by decide), hne ')' (by decide), hne ',' (by decide),
      hne ':' (by decide), hne '=' (by decide)]
  rw [lexeme?, if_neg (by simp [hstart]),
    if_neg (by simp [hne '\x22' (by decide), hne '\x27' (by decide)]), hmark]

theorem minus_append {s r : List Char} (hs : IsSign s) (hr : ∀ c ∈ r.head?, c ≠ '-') :
    minus (s ++ r) = s := by
  rcases hs with rfl | rfl
  · rcases r with - | ⟨c, r⟩
    · rfl
    · rw [List.nil_append, minus, if_neg (hr c rfl)]
  · rw [List.cons_append, minus, if_pos rfl]

theorem whole_append {w r : List Char} (hw : IsWhole w)
    (hr : ∀ c ∈ r.head?, (Number.isDigit c || c == '_') = false) : whole (w ++ r) = w := by
  rcases w with - | ⟨c, t⟩
  · cases hw
  · rw [List.cons_append, whole, if_pos hw.1, takeWhile_append_of_head hw.2 hr]

theorem exponentSign_append {s ds r : List Char} (hs : s = [] ∨ s = ['+'] ∨ s = ['-'])
    (hne : ds ≠ []) (hds : IsDigits ds) : exponentSign (s ++ (ds ++ r)) = s := by
  rcases hs with rfl | rfl | rfl
  · rcases ds with - | ⟨d, ds⟩
    · exact absurd rfl hne
    · have hd := isDigit_iff.mp (hds d List.mem_cons_self)
      rw [List.nil_append, List.cons_append, exponentSign, if_neg]
      rintro (rfl | rfl) <;> revert hd <;> decide
  · rfl
  · rfl

theorem exponent_append {e : List Char} (he : IsExponent e) (h : Stops rest) :
    exponent (e ++ rest) = e := by
  rcases he with @⟨c, s, ds, hc, hs, hne, hds⟩
  have hdigits := takeWhile_append_of_head hds h.isDigit
  rw [List.cons_append, List.append_assoc, exponent, if_pos hc]
  dsimp only
  rw [exponentSign_append hs hne hds, List.drop_left, hdigits, if_neg hne]

theorem exponent_of_stops (h : Stops rest) : exponent rest = [] := by
  rcases rest with - | ⟨c, r⟩
  · rfl
  · rw [exponent, if_neg]
    rintro (rfl | rfl) <;> exact absurd h.1 (by decide)

theorem exponent_append_of_or {e : List Char} (he : e = [] ∨ IsExponent e) (h : Stops rest) :
    exponent (e ++ rest) = e := by
  rcases he with rfl | he
  · exact exponent_of_stops h
  · exact exponent_append he h

theorem tail_of_stops (afterWhole : Bool) (h : Stops rest) : tail afterWhole rest = [] := by
  rcases rest with - | ⟨c, r⟩
  · rfl
  · rw [tail, if_neg h.2, exponent_of_stops h, ite_self]

theorem head?_exponent {e : List Char} (he : IsExponent e) (r : List Char) :
    ∀ c ∈ (e ++ r).head?, c = 'e' ∨ c = 'E' := by
  rcases he with @⟨d, s, ds, hd, -, -, -⟩
  rintro c ⟨⟩
  exact hd

theorem not_isDigit_of_exponent {c : Char} (h : c = 'e' ∨ c = 'E') :
    Number.isDigit c = false := by
  rcases h with rfl | rfl <;> decide

/-- Digits behind a point end where an exponent or the rest starts. -/
theorem isDigit_head?_exponent {e : List Char} (he : e = [] ∨ IsExponent e) (h : Stops rest) :
    ∀ c ∈ (e ++ rest).head?, Number.isDigit c = false := by
  rcases he with rfl | he
  · exact h.isDigit
  · intro c hc
    exact not_isDigit_of_exponent (head?_exponent he rest c hc)

theorem tail_point {afterWhole : Bool} {ds e : List Char} (hds : IsDigits ds)
    (he : e = [] ∨ IsExponent e) (hne : afterWhole = false → ds ≠ []) (h : Stops rest) :
    tail afterWhole ('.' :: (ds ++ e) ++ rest) = '.' :: (ds ++ e) := by
  have hdigits := takeWhile_append_of_head hds (isDigit_head?_exponent he h)
  rw [List.cons_append, List.append_assoc, tail, if_pos rfl]
  dsimp only
  rw [hdigits, if_neg, List.drop_left, exponent_append_of_or he h]
  rintro ⟨hnil, hfalse⟩
  exact hne hfalse hnil

theorem tail_exponent {e : List Char} (he : IsExponent e) (h : Stops rest) :
    tail true (e ++ rest) = e := by
  have hexp := exponent_append he h
  rcases he with @⟨c, s, ds, hc, hs, hne, hds⟩
  rw [List.cons_append] at hexp ⊢
  have hpoint : c ≠ '.' := by
    rcases hc with rfl | rfl <;> decide
  rw [tail, if_neg hpoint, if_pos rfl, hexp]

/-- A number is put together from its parts. -/
theorem number?_append {s w t : List Char} (hs : minus (s ++ (w ++ (t ++ rest))) = s)
    (hw : whole (w ++ (t ++ rest)) = w) (ht : tail (!w.isEmpty) (t ++ rest) = t) :
    number? (s ++ (w ++ (t ++ rest)))
      = if t ≠ [] then some (.literal .decimal, s ++ w ++ t)
        else if w ≠ [] then some (.literal .integer, s ++ w) else none := by
  unfold number?
  dsimp only
  rw [hs, List.drop_left, hw, ← List.append_assoc s w, ← List.length_append, List.drop_left, ht]

theorem IsSign.startsNumber {s r : List Char} (hs : IsSign s) (hr : ∀ c ∈ r.head?, StartsNumber c) :
    ∀ c ∈ (s ++ r).head?, StartsNumber c := by
  rcases hs with rfl | rfl
  · exact hr
  · rintro c ⟨⟩
    exact .inl rfl

/-- A whole part starts with a digit. -/
theorem IsWhole.head? {w : List Char} (hw : IsWhole w) (r : List Char) :
    ∀ c ∈ (w ++ r).head?, Number.isDigit c = true := by
  rcases w with - | ⟨d, t⟩
  · cases hw
  · rintro c ⟨⟩
    exact hw.1

theorem ne_minus_of_isDigit {c : Char} (h : Number.isDigit c = true) : c ≠ '-' := by
  rintro rfl
  exact absurd h (by decide)

/-- A sign, a whole part and a tail are taken together. -/
theorem lexeme?_of_whole {s w t : List Char} (hs : IsSign s) (hw : IsWhole w)
    (ht : tail true (t ++ rest) = t)
    (hstop : ∀ c ∈ (t ++ rest).head?, (Number.isDigit c || c == '_') = false) :
    lexeme? (s ++ w ++ t ++ rest)
      = some (if t = [] then .literal .integer else .literal .decimal, s ++ w ++ t) := by
  have hdigit := hw.head? (t ++ rest)
  have hnumber := number?_append (minus_append hs fun c hc => ne_minus_of_isDigit (hdigit c hc))
    (whole_append hw hstop) (by rw [hw.isEmpty, ht])
  rw [List.append_assoc, List.append_assoc]
  -- the first character shows that it is a number
  have hstart := hs.startsNumber fun c hc => .inr (.inr (hdigit c hc))
  rcases hcs : s ++ (w ++ (t ++ rest)) with - | ⟨c, r⟩
  · simp [hw.ne_nil] at hcs
  · rw [hcs] at hnumber hstart
    rw [lexeme?_of_startsNumber (hstart c rfl), hnumber]
    rcases t with - | ⟨d, t⟩ <;> simp [hw.ne_nil]

/-- A sign and a point with digits behind it are taken together. -/
theorem lexeme?_of_fraction {s ds e : List Char} (hs : IsSign s) (hne : ds ≠ [])
    (hds : IsDigits ds) (he : e = [] ∨ IsExponent e) (h : Stops rest) :
    lexeme? (s ++ '.' :: (ds ++ e) ++ rest)
      = some (.literal .decimal, s ++ '.' :: (ds ++ e)) := by
  have hpoint : ∀ c ∈ ('.' :: (ds ++ e) ++ rest).head?, c = '.' := by
    rintro c ⟨⟩
    rfl
  have hminus : minus (s ++ ([] ++ ('.' :: (ds ++ e) ++ rest))) = s := by
    refine minus_append hs fun c hc => ?_
    rw [hpoint c hc]
    decide
  have htail : tail false ('.' :: (ds ++ e) ++ rest) = '.' :: (ds ++ e) :=
    tail_point hds he (fun _ => hne) h
  have hnumber := number?_append hminus rfl htail
  rw [List.append_assoc]
  have hstart := hs.startsNumber fun c hc => .inr (.inl (hpoint c hc))
  rcases hcs : s ++ ('.' :: (ds ++ e) ++ rest) with - | ⟨c, r⟩
  · simp at hcs
  · rw [List.nil_append, hcs] at hnumber
    rw [hcs] at hstart
    rw [lexeme?_of_startsNumber (hstart c rfl), hnumber]
    simp

/-! #### Texts and symbols -/

/-- A text ends at its first quote that no backslash precedes, whatever
follows. -/
theorem textTail?_append {b : List Char} (hb : IsInside b) (rest : List Char) :
    textTail? (b ++ '\x22' :: rest) = some (b ++ ['\x22']) := by
  induction hb with
  | nil => rw [List.nil_append, textTail?.eq_def]; rfl
  | @plain c r hquote hslash _ ih =>
    rw [List.cons_append, textTail?.eq_def]
    simp only [if_neg hquote, if_neg hslash, ih]
    rfl
  | @escaped c r hc _ ih =>
    rw [List.cons_append, List.cons_append, textTail?.eq_def]
    simp only [if_neg hc, ih]
    rfl

theorem lexeme?_text {b : List Char} (hb : IsInside b) (rest : List Char) :
    lexeme? ('\x22' :: (b ++ ['\x22']) ++ rest)
      = some (.literal .text, '\x22' :: (b ++ ['\x22'])) := by
  have hinside := textTail?_append hb rest
  rw [List.cons_append, List.append_assoc, List.singleton_append, lexeme?, if_neg (by decide),
    if_pos (.inl rfl), quotedLiteral?, if_pos rfl, hinside]
  rfl

theorem lexeme?_symbol {w : List Char} (hw : IsWord w) (h : Stops rest) :
    lexeme? ('\x27' :: w ++ rest) = some (.literal .symbol, '\x27' :: w) := by
  have hword := word_append hw h
  rw [List.cons_append, lexeme?, if_neg (by decide), if_pos (.inr rfl), quotedLiteral?,
    if_neg (by decide), hword, if_pos ⟨rfl, hw.ne_nil⟩]

/-! #### All kinds -/

/-- The kinds of the punctuation marks. -/
def Kind.isMark : Kind → Bool
  | .opening | .closing | .comma | .colon | .equals => true
  | .literal _ | .name | .val | .var => false

/-- **A token is taken as it is spelled**, if it is a mark or what follows
neither continues a word nor a number. -/
theorem lexeme?_append {k : Kind} {w : List Char} (hw : Spells k w)
    (h : k.isMark = true ∨ Stops rest) : lexeme? (w ++ rest) = some (k, w) := by
  cases hw with
  -- marks and texts show where they end
  | opening | closing | comma | colon | equals => rfl
  | text hb => exact lexeme?_text hb rest
  | val => exact lexeme?_word (w := ['v', 'a', 'l']) (by decide) (h.resolve_left (by decide))
  | var => exact lexeme?_word (w := ['v', 'a', 'r']) (by decide) (h.resolve_left (by decide))
  | trueWord =>
    exact lexeme?_word (w := ['t', 'r', 'u', 'e']) (by decide) (h.resolve_left (by decide))
  | falseWord =>
    exact lexeme?_word (w := ['f', 'a', 'l', 's', 'e']) (by decide) (h.resolve_left (by decide))
  | null =>
    exact lexeme?_word (w := ['n', 'u', 'l', 'l']) (by decide) (h.resolve_left (by decide))
  | name hword hkey =>
    rw [lexeme?_word hword (h.resolve_left (by decide)), ofWord_of_not_mem hkey]
  | symbol hword => exact lexeme?_symbol hword (h.resolve_left (by decide))
  | @integer s w hs hwhole =>
    have hstops := h.resolve_left (by decide)
    simpa using lexeme?_of_whole (t := []) hs hwhole (tail_of_stops true hstops) hstops.isWhole
  | @decimal s w ds e hs hwhole hds he =>
    have hstops := h.resolve_left (by decide)
    have htail : tail true ('.' :: (ds ++ e) ++ rest) = '.' :: (ds ++ e) :=
      tail_point hds he (by simp) hstops
    refine lexeme?_of_whole hs hwhole htail ?_
    rintro c ⟨⟩
    decide
  | fraction hs hne hds he => exact lexeme?_of_fraction hs hne hds he (h.resolve_left (by decide))
  | @scaled s w e hs hwhole he =>
    have hstops := h.resolve_left (by decide)
    rw [lexeme?_of_whole hs hwhole (tail_exponent he hstops), if_neg he.ne_nil]
    intro c hc
    rcases head?_exponent he rest c hc with rfl | rfl <;> decide

end Rest

end LineScript.Token
