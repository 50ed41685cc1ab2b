/-
LineScript/Text/Quoted.lean

Quoted text, as it stands in failure arguments and in the trace.

A text is shown between single quotes, or between double quotes if it holds a
single quote and no double quote.  The backslash and the quote in use are
escaped, and so is every character that is not printable: by name for line
feed, carriage return and tab, and by its code point in two, four or eight
hexadecimal digits for the others.

Sequences of quoted texts come in two shapes, in square brackets and in round
ones; a single text in round brackets keeps a comma behind it.
-/
import LineScript.Text.Printable

namespace LineScript.Text

/-! ### Code points -/

/-- The hexadecimal digits of `n`, lower case, with zeros in front up to
`width` digits. -/
def hexDigits (width n : Nat) : List Char :=
  let ds := Nat.toDigits 16 n
  List.replicate (width - ds.length) '0' ++ ds

/-- A character by its code point, in the shortest of the three widths that
holds it. -/
def codeEscape (c : Char) : List Char :=
  let n := c.toNat
  if n < 0x100 then '\\' :: 'x' :: hexDigits 2 n
  else if n < 0x10000 then '\\' :: 'u' :: hexDigits 4 n
  else '\\' :: 'U' :: hexDigits 8 n

/-! ### One text -/

/-- The quote that encloses a text: double if the text has a single quote
and no double quote, and single otherwise. -/
def enclosingQuote (cs : List Char) : Char :=
  if cs.contains '\x27' && !cs.contains '\x22' then '\x22' else '\x27'

/-- A character of a text that `quote` encloses. -/
def quotedChar (quote c : Char) : List Char :=
  if c == quote || c == '\\' then ['\\', c]
  else if c == '\n' then ['\\', 'n']
  else if c == '\r' then ['\\', 'r']
  else if c == '\t' then ['\\', 't']
  else if isPrintable c then [c]
  else codeEscape c

/-- A text in quotes, on one line and in printable characters only. -/
def quoted (s : String) : String :=
  let cs := s.toList
  let q := enclosingQuote cs
  String.ofList (q :: cs.flatMap (quotedChar q) ++ [q])

/-! ### Sequences -/

/-- Texts separated by a comma and a space. -/
def commaSeparated (ss : List String) : String :=
  String.intercalate ", " ss

/-- Quoted texts in square brackets. -/
def quotedList (ss : List String) : String :=
  "[" ++ commaSeparated (ss.map quoted) ++ "]"

/-- Quoted texts in round brackets, with a comma behind a single one. -/
def quotedTuple : List String → String
  | [s] => "(" ++ quoted s ++ ",)"
  | ss => "(" ++ commaSeparated (ss.map quoted) ++ ")"

end LineScript.Text
