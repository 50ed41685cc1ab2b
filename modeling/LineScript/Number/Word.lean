/-
LineScript/Number/Word.lean

Whole numbers of 64 bits.

A whole number of any size becomes a word exactly if it lies in the range of
words, and then the word has the same value (`toWord?_eq_some_iff`).
-/

namespace LineScript.Number

/-- The least word. -/
def leastWord : Int := Int64.minValue.toInt

/-- The greatest word. -/
def greatestWord : Int := Int64.maxValue.toInt

/-- The word with the value of a whole number, if it is in range. -/
def toWord? (n : Int) : Option Int64 :=
  if leastWord ≤ n ∧ n ≤ greatestWord then some (Int64.ofInt n) else none

/-- A number becomes the word of its own value, and no other. -/
theorem toWord?_eq_some_iff {n : Int} {w : Int64} : toWord? n = some w ↔ w.toInt = n := by
  unfold toWord?
  constructor
  · intro h
    split at h
    · next hr =>
      obtain rfl := Option.some.inj h
      refine Int64.toInt_ofInt_of_le (Int64.toInt_minValue ▸ hr.1) ?_
      exact Int.lt_of_le_sub_one (Int64.toInt_maxValue ▸ hr.2)
    · cases h
  · intro h
    subst h
    rw [if_pos ⟨Int64.minValue_le_toInt w, Int64.toInt_le w⟩, Int64.ofInt_toInt]

end LineScript.Number
