/-
LineScript/Proofs/Literals.lean

Literals written down and read back.

For each kind of literal there are two facts: the text that is written is
spelled as a literal of that kind, and reading it gives the value back.

* A whole number is a sign and the digits of its magnitude, of which a word has
  at most nineteen.
* A text is written character by character.  `Writes f c` says what that takes:
  what `f` writes for `c` may stand inside a literal, and is read as `c` whatever
  follows.  The writer of printed forms does so for all characters but the null
  character, which it leaves as it is and which no literal may hold; writing that
  one by its code does so for all.
* A symbol is a quote and a word.
-/
import LineScript.Phrase
import LineScript.Proofs.Lexing

namespace LineScript

open Token (IsWord IsInside Spells)

/-! ### Whole numbers -/

namespace Number

theorem isDigit_of_mem_toDigits {n : Nat} {c : Char} (h : c ∈ toDigits n) : isDigit c = true :=
  Nat.isDigit_of_mem_toDigits (by decide) (by decide) h

theorem ofDigits_toDigits (n : Nat) : ofDigits (toDigits n) = n :=
  Nat.ofDigitChars_toDigits (by decide) (by decide)

/-- The minus sign of a negative number. -/
def signOf (n : Int) : List Char :=
  if n < 0 then ['-'] else []

theorem eq_minus_of_mem_signOf {n : Int} {c : Char} (h : c ∈ signOf n) : c = '-' := by
  unfold signOf at h
  split at h
  · exact List.mem_singleton.mp h
  · cases h

theorem isSign_signOf (n : Int) : Token.IsSign (signOf n) := by
  unfold signOf
  split
  · exact .inr rfl
  · exact .inl rfl

theorem isWhole_toDigits (n : Nat) : Token.IsWhole (toDigits n) := by
  have hdigit : Token.IsDigits (toDigits n) := fun c hc => isDigit_of_mem_toDigits hc
  rcases hds : toDigits n with - | ⟨c, r⟩
  · exact absurd hds Nat.toDigits_ne_nil
  · rw [hds] at hdigit
    refine ⟨hdigit c List.mem_cons_self, fun d hd => ?_⟩
    rw [hdigit d (List.mem_cons_of_mem c hd), Bool.true_or]

/-- A whole number is written as its sign and the digits of its magnitude. -/
theorem toList_toString (n : Int) : (toString n).toList = signOf n ++ toDigits n.natAbs := by
  show n.repr.toList = _
  rw [Int.repr_eq_if]
  rcases Int.lt_or_le n 0 with h | h
  · rw [if_neg (by omega), String.toList_append, signOf, if_pos h, toDigits,
      show n.natAbs = (-n).toNat by omega]
    exact congrArg ('-' :: ·) String.toList_ofList
  · rw [if_pos h, signOf, if_neg (by omega), toDigits, show n.natAbs = n.toNat by omega]
    exact String.toList_ofList

theorem readSign_of_isDigit {cs : List Char} (h : ∀ c ∈ cs.head?, isDigit c = true) :
    Decimal.readSign cs = (false, cs) := by
  unfold Decimal.readSign
  split
  · exact absurd (h '-' rfl) (by decide)
  · exact absurd (h '+' rfl) (by decide)
  · rfl

theorem readInt_sign_digits (n : Int) :
    Decimal.readInt (signOf n ++ toDigits n.natAbs) = n := by
  have hvalue : ofDigits ((toDigits n.natAbs).takeWhile isDigit) = n.natAbs := by
    rw [List.takeWhile_eq_self_iff.mpr fun c hc => isDigit_of_mem_toDigits hc, ofDigits_toDigits]
  rcases Int.lt_or_le n 0 with h | h
  · rw [signOf, if_pos h]
    show -(ofDigits ((toDigits n.natAbs).takeWhile isDigit) : Int) = n
    rw [hvalue]
    omega
  · have hsign := readSign_of_isDigit fun c hc =>
      isDigit_of_mem_toDigits (List.mem_of_head? (l := toDigits n.natAbs) hc)
    rw [signOf, if_neg (by omega), List.nil_append, Decimal.readInt, hsign]
    show (ofDigits ((toDigits n.natAbs).takeWhile isDigit) : Int) = n
    rw [hvalue]
    omega

/-- Underscores are no digits, so they may be dropped before digits are
counted. -/
theorem filter_isDigit_plain (cs : List Char) :
    (cs.filter (· != '_')).filter isDigit = cs.filter isDigit := by
  rw [List.filter_filter]
  refine List.filter_congr fun d _ => ?_
  by_cases hd : d = '_'
  · rw [hd]
    rfl
  · simp [hd]

/-- A word has far fewer digits than a literal may have. -/
theorem length_toDigits_word (n : Int64) : (toDigits n.toInt.natAbs).length ≤ digitLimit := by
  have hlow := Int64.le_toInt n
  have hhigh := Int64.toInt_lt n
  have hbound : (toDigits n.toInt.natAbs).length ≤ 19 := by
    rw [toDigits, Nat.length_toDigits_le_iff (by decide) (by decide)]
    omega
  exact hbound.trans (by decide)

end Number

namespace LiteralKind

theorem spells_symbol {x : String} (h : IsWord x.toList) :
    Spells (.literal .symbol) ("'" ++ x).toList := by
  rw [String.toList_append]
  exact .symbol h

theorem spells_integer (n : Int) : Spells (.literal .integer) (toString n).toList := by
  rw [Number.toList_toString]
  exact .integer (Number.isSign_signOf n) (Number.isWhole_toDigits _)

variable [Text.CharacterNames]

/-- **Whole numbers read back.** -/
theorem read_integer (n : Int64) :
    read (toString n.toInt) integer = .ok (.literal (some (.int n)) Class.int.name) := by
  have hplain : (toString n.toInt).toList.filter (· != '_') = (toString n.toInt).toList := by
    rw [Number.toList_toString, List.filter_eq_self]
    intro c hc
    -- neither the sign nor a digit is an underscore
    rcases List.mem_append.mp hc with hc | hc
    · rw [Number.eq_minus_of_mem_signOf hc]
      rfl
    · have hdigit := Number.isDigit_of_mem_toDigits hc
      rw [bne_iff_ne]
      rintro rfl
      exact absurd hdigit (by decide)
  have hcount : ((toString n.toInt).toList.filter Number.isDigit).length ≤ digitLimit := by
    rw [Number.toList_toString, List.filter_append, List.filter_eq_nil_iff.mpr, List.nil_append]
    · exact (List.length_filter_le _ _).trans (Number.length_toDigits_word n)
    · intro c hc
      rw [Number.eq_minus_of_mem_signOf hc]
      decide
  rw [read, readInteger, hplain, if_neg (by omega), integerValue, Number.toList_toString,
    Number.readInt_sign_digits, Number.toWord?_eq_some_iff.mpr rfl]

end LiteralKind

/-! ### Texts -/

namespace Text.DoubleQuoted

/-- The literal of a text, with a writer of characters. -/
def literal (f : Char → List Char) (cs : List Char) : List Char :=
  '\x22' :: (cs.flatMap f ++ ['\x22'])

/-- Printed texts are such literals. -/
theorem encode_eq (s : String) : encode s = String.ofList (literal encodeChar s.toList) := rfl

theorem spells_literal {f : Char → List Char} {cs : List Char}
    (h : ∀ c ∈ cs, ∀ r, IsInside r → IsInside (f c ++ r)) :
    Spells (.literal .text) (literal f cs) := by
  refine .text ?_
  induction cs with
  | nil => exact .nil
  | cons c cs ih =>
    rw [List.flatMap_cons]
    exact h c List.mem_cons_self _ (ih fun d hd => h d (List.mem_cons_of_mem c hd))

/-- Every character may stand inside a literal as it is printed. -/
theorem isInside_encodeChar (c : Char) {r : List Char} (hr : IsInside r) :
    IsInside (encodeChar c ++ r) := by
  simp only [encodeChar, beq_iff_eq]
  split_ifs with hslash hquote
  case neg => exact .plain hquote hslash hr
  all_goals exact .escaped (by decide) hr

variable [CharacterNames]

/-- A writer of characters that writes `c` so that it may stand inside a text
literal and is read as `c`, whatever follows. -/
structure Writes (f : Char → List Char) (c : Char) : Prop where
  inside : ∀ r, IsInside r → IsInside (f c ++ r)
  decoded : ∀ r, decodeFrom 0 (f c ++ r) = (decodeFrom 0 r).map (c :: ·)

section Writer

variable {f : Char → List Char} {cs : List Char}

theorem decode?_literal_eq : decode? (literal f cs) = decodeFrom 0 (cs.flatMap f) := by
  rw [decode?, literal, List.drop_one, List.tail_cons, List.dropLast_concat]

/-- A text reads back if each of its characters does. -/
theorem decode?_literal (h : ∀ c ∈ cs, Writes f c) : decode? (literal f cs) = some cs := by
  rw [decode?_literal_eq]
  induction cs with
  | nil => rfl
  | cons c cs ih =>
    rw [List.flatMap_cons, (h c List.mem_cons_self).decoded,
      ih fun d hd => h d (List.mem_cons_of_mem c hd)]
    rfl

end Writer

/-- Printed characters read back, but for the null character. -/
theorem writes_encodeChar {c : Char} (hc : c ≠ '\x00') : Writes encodeChar c := by
  refine ⟨fun r => isInside_encodeChar c, fun r => ?_⟩
  simp only [encodeChar, beq_iff_eq]
  split_ifs with hslash hquote hfeed hreturn htab
  · rw [hslash]; rfl
  · rw [hquote]; rfl
  · rw [hfeed]; rfl
  · rw [hreturn]; rfl
  · rw [htab]; rfl
  · have hbarred : isBarred c = false := by
      simp [isBarred, hfeed, hreturn, hc]
    rw [List.singleton_append, decodeFrom, if_neg (by simpa using hslash), hbarred,
      if_neg (by decide)]

/-- A literal that holds the null character as it is cannot be read. -/
theorem decode?_encodeChar_null {cs : List Char} (h : '\x00' ∈ cs) :
    decode? (literal encodeChar cs) = none := by
  rw [decode?_literal_eq]
  induction cs with
  | nil => cases h
  | cons c cs ih =>
    rw [List.flatMap_cons]
    by_cases hc : c = '\x00'
    · subst hc
      rfl
    · rw [(writes_encodeChar hc).decoded, ih ((List.mem_cons.mp h).resolve_left (Ne.symm hc))]
      rfl

/-- A character as it is printed, but the null character by its code. -/
def safeChar (c : Char) : List Char :=
  if c = '\x00' then ['\\', 'x', '0', '0'] else encodeChar c

/-- Written that way, every character reads back. -/
theorem writes_safeChar (c : Char) : Writes safeChar c := by
  by_cases hc : c = '\x00'
  · subst hc
    refine ⟨fun r hr => ?_, fun r => ?_⟩
    · have hzero : ('0' : Char) ≠ '\x22' ∧ ('0' : Char) ≠ '\\' := by decide
      exact .escaped (by decide) (.plain hzero.1 hzero.2 (.plain hzero.1 hzero.2 hr))
    · rfl
  · have heq : safeChar c = encodeChar c := if_neg hc
    have hwrites := writes_encodeChar hc
    exact ⟨by rw [heq]; exact hwrites.inside, by rw [heq]; exact hwrites.decoded⟩

/-- The characters that an escape has taken are passed over. -/
theorem decodeFrom_append (w r : List Char) : decodeFrom w.length (w ++ r) = decodeFrom 0 r := by
  induction w with
  | nil => rfl
  | cons c w ih => exact ih

/-- **An escape with a name is read as the character of that name**, if the table has
one, whatever follows. -/
theorem decodeFrom_named {name : List Char} (hne : name ≠ [])
    (hname : ∀ c ∈ name, c ≠ '\x7d' ∧ isBarred c = false) (r : List Char) :
    decodeFrom 0 ('\\' :: 'N' :: '\x7b' :: (name ++ '\x7d' :: r))
      = (CharacterNames.named? name).bind fun c => (decodeFrom 0 r).map (c :: ·) := by
  have htake : (name ++ '\x7d' :: r).takeWhile (· != '\x7d') = name := by
    rw [List.takeWhile_append_of_pos fun c hc => by simpa using (hname c hc).1]
    simp
  have hbarred : name.any isBarred = false := by
    rw [List.any_eq_false]
    exact fun c hc => by simp [(hname c hc).2]
  have hescape : escape? ('N' :: '\x7b' :: (name ++ '\x7d' :: r))
      = (CharacterNames.named? name).map fun c => ([c], name.length + 3) := by
    show (nameEscape? ('\x7b' :: (name ++ '\x7d' :: r))).map _ = _
    rw [nameEscape?, htake, if_pos ⟨rfl, hne, by simp, hbarred⟩, Option.map_map]
    rfl
  -- the name and its braces are passed over, as many as the escape takes
  have hskip : decodeFrom (name.length + 3) ('N' :: '\x7b' :: (name ++ '\x7d' :: r))
      = decodeFrom 0 r := by
    have hsplit : 'N' :: '\x7b' :: (name ++ '\x7d' :: r)
        = ('N' :: '\x7b' :: (name ++ ['\x7d'])) ++ r := by simp
    have hlength : name.length + 3 = ('N' :: '\x7b' :: (name ++ ['\x7d'])).length := by simp
    rw [hsplit, hlength, decodeFrom_append]
  rw [decodeFrom, if_pos (by decide), hescape]
  rcases CharacterNames.named? name with - | c
  · rfl
  · show (decodeFrom (name.length + 3) _).map _ = _
    rw [hskip]
    rfl

end Text.DoubleQuoted

/-- A table with the name of one character. -/
@[reducible] def Text.CharacterNames.bullet : Text.CharacterNames where
  named? name := if name = "BULLET".toList then some '•' else none

/-- A name that the table has, and one that it has not. -/
example :
    letI : Text.CharacterNames := .bullet
    Text.DoubleQuoted.decode? "\"a\\N\x7bBULLET\x7db\"".toList = some ['a', '•', 'b'] ∧
      Text.DoubleQuoted.decode? "\"\\N\x7bSTAR\x7d\"".toList = none := by
  decide +kernel

namespace LiteralKind

open Text.DoubleQuoted

/-- A text with a name, read with a table that has it. -/
theorem read_bullet :
    letI : Text.CharacterNames := .bullet
    read "\"\\N\x7bBULLET\x7d\"" text = .ok (.literal (some (.str "•")) Class.str.name) := by
  let _ : Text.CharacterNames := .bullet
  have hdecode : decode? "\"\\N\x7bBULLET\x7d\"".toList = some ['•'] := by decide +kernel
  rw [read, readText, hdecode]

variable [Text.CharacterNames]

/-- Texts read back if each of their characters does. -/
theorem read_text {f : Char → List Char} {s : String} (h : ∀ c ∈ s.toList, Writes f c) :
    read (String.ofList (literal f s.toList)) text
      = .ok (.literal (some (.str s)) Class.str.name) := by
  rw [read, readText, String.toList_ofList, decode?_literal h]
  dsimp only
  rw [String.ofList_toList]

/-- A printed text that holds the null character does not. -/
theorem read_encode_null {s : String} (h : '\x00' ∈ s.toList) :
    read (encode s) text
      = .error (.failure (.badStatement ("invalid escape in " ++ encode s))) := by
  have hnone : decode? (encode s).toList = none := by
    rw [encode_eq, String.toList_ofList, decode?_encodeChar_null h]
  rw [read, readText, hnone]

/-! ### Symbols -/

/-- Symbols read back. -/
theorem read_symbol (x : String) :
    read ("'" ++ x) symbol = .ok (.literal (some (.symbol x)) Class.symbol.name) := by
  have hname : ("'" ++ x).toList.drop 1 = x.toList := by
    rw [String.toList_append]
    rfl
  rw [read, hname, String.ofList_toList]

end LiteralKind

/-! ### The literals of a node -/

namespace Node

mutual

/-- The values of all literals in a node, from left to right. -/
def literals : Node → List Value
  | literal v _ => [literalValue v]
  | assignment _ n => literals n
  | block ns => allLiterals ns
  | call _ ns => allLiterals ns
  | identifier _ | declaration _ _ _ | unknown => []

/-- The values of all literals in several nodes. -/
def allLiterals : List Node → List Value
  | [] => []
  | n :: ns => literals n ++ allLiterals ns

end

theorem mem_allLiterals {v : Value} {ns : List Node} :
    v ∈ allLiterals ns ↔ ∃ n ∈ ns, v ∈ n.literals := by
  induction ns with
  | nil => simp [allLiterals]
  | cons n ns ih => simp [allLiterals, ih]

end Node

end LineScript
