/-
LineScript/Failure.lean

Failures: what can go wrong in a program, as data.

A failure is a kind and the texts that its message names.  The wording is
chosen elsewhere, in `LineScript.Failure.Catalogue`, and only when a message
is asked for.  Each kind has a maker here that takes exactly the texts that
the kind's message needs; the rest of the library makes failures through these
only.
-/

namespace LineScript

/-- The kinds of failure. -/
inductive Failure.Kind where
  | malformed
  | unknownToken
  | typeClash
  | typeNotInferred
  | alreadyDefined
  | notDefined
  | notSet
  | notMutable
  | notExpectedType
  | unknownType
  | unknownClass
  | wrongArguments
deriving DecidableEq

/-- A failure: its kind and the texts its message names. -/
structure Failure where
  kind : Failure.Kind
  arguments : List String
deriving DecidableEq

namespace Failure

/-! ### Names of kinds -/

namespace Kind

/-- All kinds. -/
def all : List Kind :=
  [malformed, unknownToken, typeClash, typeNotInferred, alreadyDefined, notDefined, notSet,
    notMutable, notExpectedType, unknownType, unknownClass, wrongArguments]

/-- The name by which a kind is shown. -/
def name : Kind → String
  | malformed => "SYNTAX_ERROR"
  | unknownToken => "UNKNOWN_TOKEN"
  | typeClash => "TYPE_ERROR"
  | typeNotInferred => "TYPE_NOT_INFERRED"
  | alreadyDefined => "ALREADY_DEFINED"
  | notDefined => "NOT_DEFINED"
  | notSet => "NOT_SET"
  | notMutable => "NOT_MUTABLE"
  | notExpectedType => "NOT_EXPECTED_TYPE"
  | unknownType => "UNKNOWN_TYPE"
  | unknownClass => "UNKNOWN_CLASS"
  | wrongArguments => "WRONG_ARGUMENTS"

/-- The name of a kind's message in the catalogues. -/
def messageId : Kind → String
  | malformed => "syntax_error"
  | unknownToken => "unknown_token"
  | typeClash => "type_error"
  | typeNotInferred => "type_not_inferred"
  | alreadyDefined => "already_defined"
  | notDefined => "not_defined"
  | notSet => "not_set"
  | notMutable => "not_mutable"
  | notExpectedType => "not_expected_type"
  | unknownType => "unknown_type"
  | unknownClass => "unknown_class"
  | wrongArguments => "wrong_arguments"

/-- The kind with a name. -/
def ofName? (s : String) : Option Kind :=
  all.find? (·.name == s)

/-- The kind whose message has a name. -/
def ofMessageId? (s : String) : Option Kind :=
  all.find? (·.messageId == s)

end Kind

/-! ### Makers -/

/-- A text that is no statement, with the reason. -/
def badStatement (reason : String) : Failure := ⟨.malformed, [reason]⟩

/-- A character that starts no token, with its place. -/
def badToken (place : String) : Failure := ⟨.unknownToken, [place]⟩

/-- A declared class that differs from the class of the initial value. -/
def clash (declared inferred : String) : Failure := ⟨.typeClash, [declared, inferred]⟩

/-- A declaration without a class whose initial value shows none. -/
def notInferred (name : String) : Failure := ⟨.typeNotInferred, [name]⟩

/-- A name that is taken. -/
def taken (name : String) : Failure := ⟨.alreadyDefined, [name]⟩

/-- A name that was never declared. -/
def undefined (name : String) : Failure := ⟨.notDefined, [name]⟩

/-- A declared name without a value. -/
def unset (name : String) : Failure := ⟨.notSet, [name]⟩

/-- A second value for a name that takes one. -/
def immutable (name : String) : Failure := ⟨.notMutable, [name]⟩

/-- A value of one class where another is expected. -/
def unexpected (name expected actual : String) : Failure :=
  ⟨.notExpectedType, [name, expected, actual]⟩

/-- A type name that stands for nothing. -/
def noType (type : String) : Failure := ⟨.unknownType, [type]⟩

/-- A type name that does not stand for a class. -/
def noClass (type : String) : Failure := ⟨.unknownClass, [type]⟩

/-- Arguments that do not fit the slots of a function. -/
def misfit (function expected actual : String) : Failure :=
  ⟨.wrongArguments, [function, expected, actual]⟩

end Failure

end LineScript
