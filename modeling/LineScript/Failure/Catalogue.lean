/-
LineScript/Failure/Catalogue.lean

The wording of failures, in two languages.

A message is a template: texts and numbered slots.  The slots are filled with
the arguments of a failure exactly as they are, whatever characters they
hold.  If a slot has no argument the template is shown as it is written, with
the arguments behind it.
-/
import LineScript.Failure

namespace LineScript

/-! ### Languages -/

/-- The languages of messages. -/
inductive Language where
  | english
  | french
deriving DecidableEq

namespace Language

/-- The code of a language. -/
def code : Language → String
  | english => "EN"
  | french => "FR"

/-- The language with exactly this code. -/
def ofCode? (s : String) : Option Language :=
  [english, french].find? (·.code == s)

/-- The language with this code in capital or small letters, and English for
all other texts. -/
def ofText (s : String) : Language :=
  (ofCode? (s.map Char.toUpper)).getD english

end Language

/-! ### Templates -/

/-- A piece of a message: a fixed text, or the place of an argument. -/
inductive Piece where
  | text (s : String)
  | slot (index : Nat)
deriving DecidableEq

namespace Piece

/-- What a piece contributes, if it has its argument. -/
def fill? (arguments : List String) : Piece → Option String
  | text s => some s
  | slot i => arguments[i]?

/-- A piece as it is written in a template. -/
def written : Piece → String
  | text s => s
  | slot i => "\x7b" ++ toString i ++ "\x7d"

/-- A slot. -/
def isSlot : Piece → Bool
  | text _ => false
  | slot _ => true

end Piece

/-- A message with slots for arguments. -/
abbrev Template := List Piece

namespace Template

/-- Fill the slots, if each has an argument. -/
def fill? (t : Template) (arguments : List String) : Option String :=
  (t.mapM (Piece.fill? arguments)).map String.join

/-- The template as it is written. -/
def written (t : Template) : String :=
  String.join (t.map Piece.written)

/-- Fill the slots; with too few arguments, show the template and the
arguments side by side. -/
def fill (t : Template) (arguments : List String) : String :=
  (t.fill? arguments).getD (t.written ++ " " ++ String.intercalate " " arguments)

/-- The number of slots. -/
def arity (t : Template) : Nat :=
  (t.filter Piece.isSlot).length

end Template

/-! ### The catalogues -/

namespace Failure

open Piece in
/-- The wording of each kind of failure in each language. -/
def template : Language → Kind → Template
  | .english, .malformed => [text "Syntax error ", slot 0]
  | .english, .unknownToken => [text "Unknown token ", slot 0]
  | .english, .typeClash =>
    [text "Declared type is :", slot 0, text " whereas value is :", slot 1]
  | .english, .typeNotInferred => [text "Cannot infer the type of '", slot 0]
  | .english, .alreadyDefined => [text "Variable '", slot 0, text " is already defined"]
  | .english, .notDefined => [text "Variable '", slot 0, text " is not defined"]
  | .english, .notSet => [text "Variable '", slot 0, text " is unset"]
  | .english, .notMutable => [text "Variable '", slot 0, text " is not mutable"]
  | .english, .notExpectedType =>
    [text "Variable '", slot 0, text " expects :", slot 1, text " whereas value is :", slot 2]
  | .english, .unknownType => [text "Unknown type :", slot 0]
  | .english, .unknownClass => [text "Unknown class :", slot 0]
  | .english, .wrongArguments =>
    [text "Function ", slot 0, text " expects (", slot 1, text ") but got (", slot 2, text ")"]
  | .french, .malformed => [text "Erreur de syntaxe ", slot 0]
  | .french, .unknownToken => [text "Symbole inconnu ", slot 0]
  | .french, .typeClash =>
    [text "Le type déclaré est :", slot 0, text " alors que la valeur est :", slot 1]
  | .french, .typeNotInferred => [text "Impossible de déduire le type de '", slot 0]
  | .french, .alreadyDefined => [text "La variable '", slot 0, text " est déjà définie"]
  | .french, .notDefined => [text "La variable '", slot 0, text " n'est pas définie"]
  | .french, .notSet => [text "La variable '", slot 0, text " n'a pas de valeur"]
  | .french, .notMutable => [text "La variable '", slot 0, text " n'est pas modifiable"]
  | .french, .notExpectedType =>
    [text "La variable '", slot 0, text " attend :", slot 1,
      text " alors que la valeur est :", slot 2]
  | .french, .unknownType => [text "Type inconnu :", slot 0]
  | .french, .unknownClass => [text "Classe inconnue :", slot 0]
  | .french, .wrongArguments =>
    [text "La fonction ", slot 0, text " attend (", slot 1, text ") mais a reçu (", slot 2,
      text ")"]

/-- The message of a failure. -/
def message (l : Language) (f : Failure) : String :=
  (template l f.kind).fill f.arguments

/-- The message with a name, filled with arguments; a name that no kind has
gets a text that says so. -/
def messageNamed (l : Language) (id : String) (arguments : List String) : String :=
  match Kind.ofMessageId? id with
  | some k => (template l k).fill arguments
  | none => "NO MESSAGE FOR " ++ id

end Failure

end LineScript
