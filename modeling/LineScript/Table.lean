/-
LineScript/Table.lean

Tables: finite maps, kept as a list of entries in the order of arrival.

Writing to a key that is there replaces its value in place, and writing to a
new key adds an entry at the end.  A reader needs one law only,

    (t.insert k a).find? j = if j = k then some a else t.find? j,

and never looks at the entries.
-/

namespace LineScript

/-- A finite map from keys to values. -/
structure Table (κ α : Type) where
  entries : List (κ × α)
deriving DecidableEq

namespace Table

variable {κ α : Type} [DecidableEq κ]

/-! ### Entries -/

/-- The value of the first entry with a key. -/
def findIn (k : κ) : List (κ × α) → Option α
  | [] => none
  | (j, a) :: es => if j = k then some a else findIn k es

/-- Replace the value of the first entry with a key, or add an entry. -/
def insertIn (k : κ) (a : α) : List (κ × α) → List (κ × α)
  | [] => [(k, a)]
  | (j, b) :: es => if j = k then (k, a) :: es else (j, b) :: insertIn k a es

theorem findIn_insertIn (k j : κ) (a : α) (es : List (κ × α)) :
    findIn j (insertIn k a es) = if j = k then some a else findIn j es := by
  induction es with
  | nil =>
    by_cases h : j = k
    · subst h; simp [insertIn, findIn]
    · simp [insertIn, findIn, h, Ne.symm h]
  | cons e es ih =>
    obtain ⟨i, b⟩ := e
    by_cases hi : i = k
    · subst hi
      by_cases h : j = i
      · subst h; simp [insertIn, findIn]
      · simp [insertIn, findIn, h, Ne.symm h]
    · rw [insertIn, if_neg hi, findIn, findIn, ih]
      by_cases h : i = j
      · subst h; simp [hi]
      · simp [h]

/-! ### Tables -/

/-- The table without entries. -/
def empty : Table κ α := ⟨[]⟩

/-- The value of a key. -/
def find? (t : Table κ α) (k : κ) : Option α :=
  findIn k t.entries

/-- Give a key a value. -/
def insert (t : Table κ α) (k : κ) (a : α) : Table κ α :=
  ⟨insertIn k a t.entries⟩

/-- Whether a key has a value. -/
def contains (t : Table κ α) (k : κ) : Bool :=
  (t.find? k).isSome

/-- The keys, in the order of arrival. -/
def keys (t : Table κ α) : List κ :=
  t.entries.map Prod.fst

@[simp] theorem find?_empty (k : κ) : (empty : Table κ α).find? k = none := rfl

/-- **Reading after writing.** -/
theorem find?_insert (t : Table κ α) (k j : κ) (a : α) :
    (t.insert k a).find? j = if j = k then some a else t.find? j :=
  findIn_insertIn k j a t.entries

@[simp] theorem find?_insert_self (t : Table κ α) (k : κ) (a : α) :
    (t.insert k a).find? k = some a := by
  rw [find?_insert, if_pos rfl]

theorem find?_insert_of_ne (t : Table κ α) {k j : κ} (h : j ≠ k) (a : α) :
    (t.insert k a).find? j = t.find? j := by
  rw [find?_insert, if_neg h]

end Table

end LineScript
