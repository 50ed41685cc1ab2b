/-
LineScript/Text/DoubleQuoted.lean

Text literals: a text between double quotes, as a program writes it.

`encode` writes a literal and escapes five characters.  `decode?` reads one
and knows more escapes than `encode` uses: the usual one-letter ones, octal
codes of one to three digits, hexadecimal codes of exactly two, four or
eight digits, and names of characters, as in `\N{BULLET}`.  A backslash
before any other character stands for itself, except before a line end, where
both vanish.  A literal is refused if it holds a raw line end or the null
character, if a code is cut short or is that of no character, or if a name is
cut short or unknown.

Which characters have names, and which names, is not settled here: reading
takes a table of them (`CharacterNames`) for a parameter, and what is proved of
reading holds with any table.

Texts are made of Unicode scalar values.  The codes from D800 to DFFF, which are
halves of a character in a wider encoding and no characters of their own, are
out of range: no text can hold one, and an escape with such a code is refused
like one with a code that is too large.

The reader walks the characters once; where an escape takes several of them
it counts how many are still to be passed over.
-/

namespace LineScript.Text

/-- The names by which escapes can ask for characters. -/
class CharacterNames where
  /-- The character that a name stands for.  The name is looked up as it is
  written. -/
  named? : List Char → Option Char

namespace DoubleQuoted

variable [CharacterNames]

/-! ### Writing -/

/-- How one character is written inside a literal. -/
def encodeChar (c : Char) : List Char :=
  if c == '\\' then ['\\', '\\']
  else if c == '\x22' then ['\\', '\x22']
  else if c == '\n' then ['\\', 'n']
  else if c == '\r' then ['\\', 'r']
  else if c == '\t' then ['\\', 't']
  else [c]

/-- The literal of a text, as characters. -/
def encodeChars (cs : List Char) : List Char :=
  '\x22' :: cs.flatMap encodeChar ++ ['\x22']

/-- The literal of a text. -/
def encode (s : String) : String :=
  String.ofList (encodeChars s.toList)

/-! ### Escapes -/

/-- The characters that a backslash and one further character stand for. -/
def simpleEscape? (c : Char) : Option Char :=
  if c == '\\' || c == '\x27' || c == '\x22' then some c
  else if c == 'a' then some '\x07'
  else if c == 'b' then some '\x08'
  else if c == 'f' then some '\x0c'
  else if c == 'n' then some '\n'
  else if c == 'r' then some '\r'
  else if c == 't' then some '\t'
  else if c == 'v' then some '\x0b'
  else none

/-- The value of a digit, up to the sixteen hexadecimal ones. -/
def digitValue? (c : Char) : Option Nat :=
  if '0' ≤ c ∧ c ≤ '9' then some (c.toNat - '0'.toNat)
  else if 'a' ≤ c ∧ c ≤ 'f' then some (c.toNat - 'a'.toNat + 10)
  else if 'A' ≤ c ∧ c ≤ 'F' then some (c.toNat - 'A'.toNat + 10)
  else none

/-- An octal digit. -/
def isOctal (c : Char) : Bool :=
  '0' ≤ c && c ≤ '7'

/-- The number that digits denote in a base, or nothing if a character is no
digit. -/
def valueOf? (base : Nat) (cs : List Char) : Option Nat :=
  cs.foldlM (fun n c => (digitValue? c).map (base * n + ·)) 0

/-- The character with a code point, if there is one. -/
def charAt? (n : Nat) : Option Char :=
  if n.isValidChar then some (Char.ofNat n) else none

/-- A code of exactly `width` hexadecimal digits at the front of a text. -/
def hexEscape? (width : Nat) (cs : List Char) : Option Char :=
  let ds := cs.take width
  if ds.length = width then (valueOf? 16 ds).bind charAt? else none

/-- Characters that may not stand in a literal as they are. -/
def isBarred (c : Char) : Bool :=
  c == '\n' || c == '\r' || c == '\x00'

/-- A name in braces at the front of a text: the character with that name, and
how many characters the name and its braces take.  The closing brace is the
first one there is. -/
def nameEscape? : List Char → Option (Char × Nat)
  | [] => none
  | c :: r =>
    let name := r.takeWhile (· != '\x7d')
    if c = '\x7b' ∧ name ≠ [] ∧ name.length < r.length ∧ name.any isBarred = false then
      (CharacterNames.named? name).map fun d => (d, name.length + 2)
    else none

/-- What follows a backslash: the characters that the escape stands for, and
how many characters it takes. -/
def escape? : List Char → Option (List Char × Nat)
  | [] => none
  | c :: r =>
    match simpleEscape? c with
    | some d => some ([d], 1)
    | none =>
      if isOctal c then
        let ds := ((c :: r).take 3).takeWhile isOctal
        ((valueOf? 8 ds).bind charAt?).map fun d => ([d], ds.length)
      else if c == 'x' then (hexEscape? 2 r).map fun d => ([d], 3)
      else if c == 'u' then (hexEscape? 4 r).map fun d => ([d], 5)
      else if c == 'U' then (hexEscape? 8 r).map fun d => ([d], 9)
      else if c == '\n' then some ([], 1)
      else if c == '\r' then some ([], if r.head? == some '\n' then 2 else 1)
      else if c == 'N' then (nameEscape? r).map fun p => ([p.1], p.2 + 1)
      else if c == '\x00' then none
      else some (['\\', c], 1)

/-! ### Reading -/

/-- Read the inside of a literal after passing over `skip` characters that an
escape has taken. -/
def decodeFrom : Nat → List Char → Option (List Char)
  | _, [] => some []
  | skip + 1, _ :: r => decodeFrom skip r
  | 0, c :: r =>
    if c == '\\' then
      match escape? r with
      | some (out, taken) => (decodeFrom taken r).map (out ++ ·)
      | none => none
    else if isBarred c then none
    else (decodeFrom 0 r).map (c :: ·)

/-- The text that a literal with its quotes denotes. -/
def decode? (literal : List Char) : Option (List Char) :=
  decodeFrom 0 (literal.drop 1).dropLast

end DoubleQuoted

end LineScript.Text
