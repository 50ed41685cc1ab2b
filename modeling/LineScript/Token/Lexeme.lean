/-
LineScript/Token/Lexeme.lean

The token at the front of a text.

`lexeme?` takes the longest token that a text starts with.  Which class of
token it is shows in the first character, except for numbers, where the class
depends on how far the text goes on:

* a whole number is a digit with digits and underscores behind it;
* with a point behind that, or a point and a digit in front, or an exponent,
  it is a decimal; a point or an `e` that nothing completes is left alone, but
  a point behind a whole number always belongs to it;
* both may have a minus sign in front.

A text literal runs to the next double quote that no backslash precedes, and
a backslash may precede anything but a line feed.  Names and symbols are made
of the letters, digits and underscores of ASCII.

Each part of a number is a function that gives the characters it takes from
the front of a text, none if the part is not there.
-/
import LineScript.Number.Decimal
import LineScript.Token

namespace LineScript.Token

open Number (isDigit)

/-! ### Words -/

/-- A character that may start a name. -/
def isNameStart (c : Char) : Bool :=
  c.isAlpha || c == '_'

/-- A character that may stand in a name. -/
def isNamePart (c : Char) : Bool :=
  c.isAlphanum || c == '_'

/-- The word at the front of a text: a letter or underscore, and the letters,
digits and underscores behind it. -/
def word : List Char → List Char
  | [] => []
  | c :: r => if isNameStart c then c :: r.takeWhile isNamePart else []

/-! ### Numbers -/

/-- A minus sign. -/
def minus : List Char → List Char
  | c :: _ => if c = '-' then [c] else []
  | [] => []

/-- The whole part of a number: a digit, then digits and underscores. -/
def whole : List Char → List Char
  | [] => []
  | c :: r => if isDigit c then c :: r.takeWhile (fun d => isDigit d || d == '_') else []

/-- The sign of an exponent. -/
def exponentSign : List Char → List Char
  | c :: _ => if c = '+' ∨ c = '-' then [c] else []
  | [] => []

/-- An exponent: the letter, an optional sign and at least one digit. -/
def exponent : List Char → List Char
  | [] => []
  | c :: r =>
    if c = 'e' ∨ c = 'E' then
      let sign := exponentSign r
      let digits := (r.drop sign.length).takeWhile isDigit
      if digits = [] then [] else c :: (sign ++ digits)
    else []

/-- What may follow the whole part of a decimal: a point with digits behind
it, and an exponent.  Without a whole part there must be a digit behind the
point. -/
def tail (afterWhole : Bool) : List Char → List Char
  | [] => []
  | c :: r =>
    if c = '.' then
      let digits := r.takeWhile isDigit
      if digits = [] ∧ afterWhole = false then []
      else c :: (digits ++ exponent (r.drop digits.length))
    else if afterWhole then exponent (c :: r)
    else []

/-- The number at the front of a text. -/
def number? (cs : List Char) : Option (Kind × List Char) :=
  let sign := minus cs
  let ds := whole (cs.drop sign.length)
  let rest := tail (!ds.isEmpty) (cs.drop (sign.length + ds.length))
  if rest ≠ [] then some (.literal .decimal, sign ++ ds ++ rest)
  else if ds ≠ [] then some (.literal .integer, sign ++ ds)
  else none

/-! ### Texts and symbols -/

/-- What follows the opening quote of a text literal, up to and with the
closing one. -/
def textTail? : List Char → Option (List Char)
  | [] => none
  | c :: r =>
    if c = '\x22' then some [c]
    else if c = '\\' then
      match r with
      | [] => none
      | d :: s => if d = '\n' then none else (textTail? s).map (c :: d :: ·)
    else (textTail? r).map (c :: ·)

/-- The text literal or symbol that a quote opens. -/
def quotedLiteral? : List Char → Option (Kind × List Char)
  | [] => none
  | c :: r =>
    if c = '\x22' then (textTail? r).map fun t => (.literal .text, c :: t)
    else if c = '\x27' ∧ word r ≠ [] then some (.literal .symbol, c :: word r)
    else none

/-! ### All classes -/

/-- The token at the front of a text, as its kind and its characters. -/
def lexeme? : List Char → Option (Kind × List Char)
  | [] => none
  | c :: r =>
    if isNameStart c then some (Kind.ofWord (word (c :: r)), word (c :: r))
    else if c = '\x22' ∨ c = '\x27' then quotedLiteral? (c :: r)
    else
      match Kind.ofMark? c with
      | some k => some (k, [c])
      | none => number? (c :: r)

end LineScript.Token
