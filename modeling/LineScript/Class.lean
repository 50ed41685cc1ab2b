/-
LineScript/Class.lean

Classes: the names of the kinds of values.

A class is a value too, so a program can bind one to a name and declare
others with it.  Nine classes are there from the start.

A value fits a declared name only if the classes are equal.  A slot of a
function is more generous: one of class `Any` takes every value.
-/

namespace LineScript

/-- A class, which is its name. -/
structure Class where
  name : String
deriving DecidableEq

namespace Class

/-- The class of classes, and of itself. -/
def classes : Class := ⟨"Class"⟩

/-- The class of `null`; as a slot of a function it takes every value. -/
def any : Class := ⟨"Any"⟩

/-- The class of functions. -/
def function : Class := ⟨"Function"⟩

/-- The class of quoted names. -/
def symbol : Class := ⟨"Symbol"⟩

/-- The class of whole numbers of 64 bits. -/
def int : Class := ⟨"Int"⟩

/-- The class of floating-point numbers. -/
def float : Class := ⟨"Float"⟩

/-- The class of truth values. -/
def bool : Class := ⟨"Bool"⟩

/-- The class of texts. -/
def str : Class := ⟨"Str"⟩

/-- The class of failures as values. -/
def error : Class := ⟨"Error"⟩

/-- The classes that are there from the start, in the order in which they
are registered. -/
def builtin : List Class :=
  [classes, any, function, symbol, int, float, bool, str, error]

/-- Whether a value of class `actual` fits a name declared with
`declared`. -/
def fits (declared actual : Class) : Bool :=
  declared == actual

/-- Whether a value of class `actual` fits a slot of class `slot`. -/
def fitsSlot (slot actual : Class) : Bool :=
  slot == any || fits slot actual

@[simp] theorem fits_iff {declared actual : Class} :
    fits declared actual = true ↔ declared = actual := by
  simp [fits]

@[simp] theorem fitsSlot_iff {slot actual : Class} :
    fitsSlot slot actual = true ↔ slot = any ∨ slot = actual := by
  simp [fitsSlot]

end Class

end LineScript
