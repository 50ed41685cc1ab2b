/-
LineScript/Token.lean

Tokens: the words and marks that statements are made of.

A token has a kind, the text it was cut from, and the column at which that
text starts.  Literals of all kinds behave alike in the grammar, so they form
one kind of token with a kind of literal inside.
-/

namespace LineScript

/-- The kinds of literal. -/
inductive LiteralKind where
  | integer
  | decimal
  | text
  | symbol
  | true
  | false
  | null
deriving DecidableEq

/-- The kinds of token. -/
inductive Token.Kind where
  | literal (k : LiteralKind)
  | name
  | val
  | var
  | opening
  | closing
  | comma
  | colon
  | equals
deriving DecidableEq

/-- A token: its kind, its text, and the column of its first character. -/
structure Token where
  kind : Token.Kind
  text : String
  column : Nat
deriving DecidableEq

/-- The kind of a word: five words are keywords, and all others are names. -/
def Token.Kind.ofWord (word : List Char) : Token.Kind :=
  if word = ['v', 'a', 'l'] then .val
  else if word = ['v', 'a', 'r'] then .var
  else if word = ['t', 'r', 'u', 'e'] then .literal .true
  else if word = ['f', 'a', 'l', 's', 'e'] then .literal .false
  else if word = ['n', 'u', 'l', 'l'] then .literal .null
  else .name

/-- The kind of a punctuation mark. -/
def Token.Kind.ofMark? (c : Char) : Option Token.Kind :=
  if c = '(' then some .opening
  else if c = ')' then some .closing
  else if c = ',' then some .comma
  else if c = ':' then some .colon
  else if c = '=' then some .equals
  else none

end LineScript
