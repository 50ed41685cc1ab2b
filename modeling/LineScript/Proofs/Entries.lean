/-
LineScript/Proofs/Entries.lean

Tables and their entries.

A table that grows from the empty one by `insert` never has two entries for
one key (`Distinct`), so its entries are exactly what `find?` finds in it
(`mem_entries_iff`).  `mapValues` changes the values of a table and keeps its
keys.  Under distinct keys, changing the function at one key only amounts to
one `insert` (`mapValues_update`).
-/
import LineScript.Table
import Mathlib.Data.List.Nodup

namespace LineScript.Table

variable {κ α β : Type} [DecidableEq κ]

/-! ### Entries of lists -/

theorem mem_of_findIn {k : κ} {a : α} {es : List (κ × α)} (h : findIn k es = some a) :
    (k, a) ∈ es := by
  induction es with
  | nil => simp [findIn] at h
  | cons e es ih =>
    obtain ⟨j, b⟩ := e
    rw [findIn] at h
    split at h
    · next hj =>
      obtain rfl := Option.some.inj h
      simp [hj]
    · exact List.mem_cons_of_mem _ (ih h)

theorem findIn_of_mem {k : κ} {a : α} {es : List (κ × α)} (hd : (es.map Prod.fst).Nodup)
    (h : (k, a) ∈ es) : findIn k es = some a := by
  induction es with
  | nil => cases h
  | cons e es ih =>
    obtain ⟨j, b⟩ := e
    obtain ⟨hj, hes⟩ := List.nodup_cons.mp hd
    rcases List.mem_cons.mp h with he | he
    · obtain ⟨rfl, rfl⟩ := Prod.mk.inj he
      rw [findIn, if_pos rfl]
    · have hjk : j ≠ k := by
        rintro rfl
        exact hj (List.mem_map.mpr ⟨_, he, rfl⟩)
      rw [findIn, if_neg hjk]
      exact ih hes he

/-- Writing to a new key adds its entry at the end. -/
theorem insertIn_of_absent {k : κ} {es : List (κ × α)} (h : k ∉ es.map Prod.fst) (a : α) :
    insertIn k a es = es ++ [(k, a)] := by
  induction es with
  | nil => rfl
  | cons e es ih =>
    obtain ⟨j, b⟩ := e
    rw [List.map_cons, List.mem_cons, not_or] at h
    rw [insertIn, if_neg (Ne.symm h.1), ih h.2, List.cons_append]

/-- Writing to a key that is there leaves the keys alone. -/
theorem keys_insertIn_of_present {k : κ} {es : List (κ × α)} (h : k ∈ es.map Prod.fst)
    (a : α) : (insertIn k a es).map Prod.fst = es.map Prod.fst := by
  induction es with
  | nil => cases h
  | cons e es ih =>
    obtain ⟨j, b⟩ := e
    by_cases hj : j = k
    · simp [insertIn, hj]
    · have hk : k ∈ es.map Prod.fst := by
        rcases List.mem_cons.mp h with h | h
        · exact absurd h.symm hj
        · exact h
      rw [insertIn, if_neg hj, List.map_cons, List.map_cons, ih hk]

theorem insertIn_insertIn (k : κ) (a b : α) (es : List (κ × α)) :
    insertIn k b (insertIn k a es) = insertIn k b es := by
  induction es with
  | nil => simp [insertIn]
  | cons e es ih =>
    obtain ⟨j, c⟩ := e
    by_cases hj : j = k
    · simp [insertIn, hj]
    · simp [insertIn, hj, ih]

/-- The last of two values written to one key stays. -/
theorem insert_insert (t : Table κ α) (k : κ) (a b : α) :
    (t.insert k a).insert k b = t.insert k b :=
  congrArg Table.mk (insertIn_insertIn k a b t.entries)

/-! ### Distinct keys -/

/-- No key has two entries. -/
def Distinct (t : Table κ α) : Prop :=
  t.keys.Nodup

omit [DecidableEq κ] in
theorem distinct_empty : (empty : Table κ α).Distinct :=
  List.nodup_nil

theorem Distinct.insert {t : Table κ α} (h : t.Distinct) (k : κ) (a : α) :
    (t.insert k a).Distinct := by
  show ((insertIn k a t.entries).map Prod.fst).Nodup
  by_cases hk : k ∈ t.entries.map Prod.fst
  · rw [keys_insertIn_of_present hk]
    exact h
  · rw [insertIn_of_absent hk, List.map_append]
    exact List.nodup_append.mpr ⟨h, List.nodup_singleton k, by
      intro j hj i hi
      obtain rfl := List.mem_singleton.mp hi
      rintro rfl
      exact hk hj⟩

/-- The entries of a table are what is found in it. -/
theorem mem_entries_iff {t : Table κ α} (h : t.Distinct) {k : κ} {a : α} :
    (k, a) ∈ t.entries ↔ t.find? k = some a :=
  ⟨findIn_of_mem h, mem_of_findIn⟩

theorem mem_keys_iff {t : Table κ α} (h : t.Distinct) {k : κ} :
    k ∈ t.keys ↔ ∃ a, t.find? k = some a := by
  constructor
  · intro hk
    obtain ⟨⟨_, a⟩, he, rfl⟩ := List.mem_map.mp hk
    exact ⟨a, (mem_entries_iff h).mp he⟩
  · rintro ⟨a, ha⟩
    exact List.mem_map_of_mem ((mem_entries_iff h).mpr ha)

/-- Writing takes no key away. -/
theorem exists_find?_insert {t : Table κ α} {j : κ} {b : α} (h : t.find? j = some b) (k : κ)
    (a : α) : ∃ c, (t.insert k a).find? j = some c := by
  rw [find?_insert]
  split
  · exact ⟨a, rfl⟩
  · exact ⟨b, h⟩

/-! ### Changing the values -/

/-- Replace every value by a function of its key and itself. -/
def mapValues (f : κ → α → β) (t : Table κ α) : Table κ β :=
  ⟨t.entries.map fun e => (e.1, f e.1 e.2)⟩

theorem find?_mapValues (f : κ → α → β) (t : Table κ α) (k : κ) :
    (t.mapValues f).find? k = (t.find? k).map (f k) := by
  obtain ⟨es⟩ := t
  show findIn k (es.map fun e => (e.1, f e.1 e.2)) = (findIn k es).map (f k)
  induction es with
  | nil => rfl
  | cons e es ih =>
    obtain ⟨j, b⟩ := e
    by_cases h : j = k
    · subst h
      simp [findIn]
    · simp [findIn, h, ih]

theorem contains_mapValues (f : κ → α → β) (t : Table κ α) (k : κ) :
    (t.mapValues f).contains k = t.contains k := by
  rw [contains, contains, find?_mapValues, Option.isSome_map]

theorem mapValues_insert (f : κ → α → β) (t : Table κ α) (k : κ) (a : α) :
    (t.insert k a).mapValues f = (t.mapValues f).insert k (f k a) := by
  obtain ⟨es⟩ := t
  show Table.mk ((insertIn k a es).map fun e => (e.1, f e.1 e.2))
    = Table.mk (insertIn k (f k a) (es.map fun e => (e.1, f e.1 e.2)))
  congr 1
  induction es with
  | nil => rfl
  | cons e es ih =>
    obtain ⟨j, b⟩ := e
    by_cases h : j = k
    · simp [insertIn, h]
    · simp [insertIn, h, ih]

/-- A function that differs from another at one key only gives the same entries
but for the one of that key. -/
theorem map_eq_insertIn {f g : κ → α → β} {es : List (κ × α)} (hd : (es.map Prod.fst).Nodup)
    {k : κ} {a : α} (hk : findIn k es = some a)
    (h : ∀ e ∈ es, e.1 ≠ k → g e.1 e.2 = f e.1 e.2) :
    (es.map fun e => (e.1, g e.1 e.2))
      = insertIn k (g k a) (es.map fun e => (e.1, f e.1 e.2)) := by
  induction es with
  | nil => cases hk
  | cons e es ih =>
    obtain ⟨j, b⟩ := e
    obtain ⟨hj, hes⟩ := List.nodup_cons.mp hd
    by_cases hjk : j = k
    · subst hjk
      rw [findIn, if_pos rfl] at hk
      obtain rfl := Option.some.inj hk
      -- the other keys differ from this one, so nothing changes behind it
      have hrest : ∀ e ∈ es, (e.1, g e.1 e.2) = (e.1, f e.1 e.2) := by
        intro e he
        have hne : e.1 ≠ j := by
          rintro rfl
          exact hj (List.mem_map.mpr ⟨e, he, rfl⟩)
        rw [h e (List.mem_cons_of_mem _ he) hne]
      rw [List.map_cons, List.map_cons, insertIn, if_pos rfl, List.map_congr_left hrest]
    · rw [findIn, if_neg hjk] at hk
      have hhead : g j b = f j b := h (j, b) List.mem_cons_self hjk
      rw [List.map_cons, List.map_cons, insertIn, if_neg hjk, hhead,
        ih hes hk fun e he => h e (List.mem_cons_of_mem _ he)]

theorem mapValues_update {f g : κ → α → β} {t : Table κ α} (hd : t.Distinct) {k : κ} {a : α}
    (hk : t.find? k = some a) (h : ∀ j b, j ≠ k → t.find? j = some b → g j b = f j b) :
    t.mapValues g = (t.mapValues f).insert k (g k a) := by
  have he : ∀ e ∈ t.entries, e.1 ≠ k → g e.1 e.2 = f e.1 e.2 := by
    rintro ⟨j, b⟩ hb hne
    exact h j b hne ((mem_entries_iff hd).mp hb)
  exact congrArg Table.mk (map_eq_insertIn hd hk he)

end LineScript.Table
