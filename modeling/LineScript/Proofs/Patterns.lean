/-
LineScript/Proofs/Patterns.lean

Patterns of characters, and the order in which they are tried.

A pattern says which texts belong to a class of tokens (`Pattern.Matches`).  It also
says in which order the fronts of a text are tried that belong to it
(`Pattern.takes`): the first of two alternatives before the second, and one more
repetition before none.  The two agree on which fronts there are
(`mem_takes_iff`).

The front that is tried first need not be the longest: of the alternatives `a` and
`ab` the first one wins.  `Eager p` says that it is.  Whether a pattern is eager is
decided part by part:

* a part with at most one front may be put before an eager one (`Rigid`);
* a repetition may, if what comes behind it takes nothing where the repetition could
  have gone on (`Eager.manySeq`);
* an optional part may, if what comes behind it cannot stand in its place;
* of two alternatives only one may apply.
-/
import LineScript.Proofs.Spelling

namespace LineScript

/-- A pattern of characters. -/
inductive Pattern where
  /-- Nothing. -/
  | empty
  /-- A character of a class. -/
  | one (p : Char → Bool)
  /-- A pattern and then another. -/
  | seq (a b : Pattern)
  /-- A pattern, or else another. -/
  | alt (a b : Pattern)
  /-- A pattern any number of times, as often as it goes. -/
  | many (a : Pattern)

namespace Pattern

/-- A pattern, or nothing. -/
def opt (a : Pattern) : Pattern :=
  alt a empty

/-- A pattern at least once, as often as it goes. -/
def many1 (a : Pattern) : Pattern :=
  seq a (many a)

/-- These characters. -/
def exactly : List Char → Pattern
  | [] => empty
  | c :: r => seq (one (· == c)) (exactly r)

/-! ### Texts of a pattern -/

/-- The texts that belong to a pattern. -/
inductive Matches : Pattern → List Char → Prop
  | empty : Matches empty []
  | one {p : Char → Bool} {c : Char} : p c = true → Matches (one p) [c]
  | seq {a b : Pattern} {v w : List Char} : Matches a v → Matches b w → Matches (seq a b) (v ++ w)
  | left {a b : Pattern} {w : List Char} : Matches a w → Matches (alt a b) w
  | right {a b : Pattern} {w : List Char} : Matches b w → Matches (alt a b) w
  | stop {a : Pattern} : Matches (many a) []
  | again {a : Pattern} {v w : List Char} : Matches a v → Matches (many a) w →
    Matches (many a) (v ++ w)

section Matches

variable {a b : Pattern} {p : Char → Bool} {w : List Char}

theorem matches_empty_iff : Matches empty w ↔ w = [] :=
  ⟨fun h => by cases h; rfl, fun h => h ▸ .empty⟩

theorem matches_one_iff : Matches (one p) w ↔ ∃ c, w = [c] ∧ p c = true := by
  constructor
  · rintro ⟨⟩
    exact ⟨_, rfl, ‹_›⟩
  · rintro ⟨c, rfl, hc⟩
    exact .one hc

theorem matches_seq_iff :
    Matches (seq a b) w ↔ ∃ u v, w = u ++ v ∧ Matches a u ∧ Matches b v := by
  constructor
  · rintro ⟨⟩
    exact ⟨_, _, rfl, ‹_›, ‹_›⟩
  · rintro ⟨u, v, rfl, hu, hv⟩
    exact .seq hu hv

theorem matches_alt_iff : Matches (alt a b) w ↔ Matches a w ∨ Matches b w := by
  constructor
  · rintro (_ | _ | _ | h | h)
    · exact .inl h
    · exact .inr h
  · rintro (h | h)
    · exact .left h
    · exact .right h

theorem matches_opt_iff : Matches (opt a) w ↔ w = [] ∨ Matches a w := by
  rw [opt, matches_alt_iff, matches_empty_iff, or_comm]

/-- A character in front of a pattern. -/
theorem matches_one_seq_iff :
    Matches (seq (one p) b) w ↔ ∃ c r, w = c :: r ∧ p c = true ∧ Matches b r := by
  rw [matches_seq_iff]
  constructor
  · rintro ⟨u, v, rfl, hu, hv⟩
    obtain ⟨c, rfl, hc⟩ := matches_one_iff.mp hu
    exact ⟨c, v, rfl, hc, hv⟩
  · rintro ⟨c, r, rfl, hc, hr⟩
    exact ⟨[c], r, rfl, .one hc, hr⟩

theorem matches_many_one_iff : Matches (many (one p)) w ↔ ∀ c ∈ w, p c = true := by
  constructor
  · intro h
    generalize ha : many (one p) = a at h
    induction h with
    | empty | one | seq | left | right => cases ha
    | stop => simp
    | again hv _ _ ih =>
      cases ha
      obtain ⟨c, rfl, hc⟩ := matches_one_iff.mp hv
      rw [List.singleton_append, List.forall_mem_cons]
      exact ⟨hc, ih rfl⟩
  · intro h
    induction w with
    | nil => exact .stop
    | cons c w ih =>
      rw [List.forall_mem_cons] at h
      exact .again (.one h.1) (ih h.2)

theorem matches_exactly_iff {cs : List Char} : Matches (exactly cs) w ↔ w = cs := by
  induction cs generalizing w with
  | nil => exact matches_empty_iff
  | cons c r ih =>
    rw [exactly, matches_one_seq_iff]
    constructor
    · rintro ⟨d, v, rfl, hd, hv⟩
      rw [ih.mp hv, beq_iff_eq.mp hd]
    · rintro rfl
      exact ⟨c, r, rfl, beq_self_eq_true c, ih.mpr rfl⟩

/-- A repetition is nothing, or starts with a part that is something. -/
theorem Matches.many_cases (h : Matches (many a) w) :
    w = [] ∨ ∃ u v, w = u ++ v ∧ u ≠ [] ∧ Matches a u ∧ Matches (many a) v := by
  generalize hp : many a = p at h
  induction h with
  | empty | one | seq | left | right => cases hp
  | stop => exact .inl rfl
  | @again a u v hu hv _ ih =>
    cases hp
    by_cases hne : u = []
    · subst hne
      exact ih rfl
    · exact .inr ⟨u, v, rfl, hne, hu, hv⟩

end Matches

/-! ### Fronts in the order of their trial -/

/-- Put characters that have been taken in front of what is taken behind them. -/
def behind (taken : List Char) (xs : List (List Char × List Char)) :
    List (List Char × List Char) :=
  xs.map fun x => (taken ++ x.1, x.2)

/-- Take again and again, at most `n` times and each time something; more before
less. -/
def repeated (step : List Char → List (List Char × List Char)) :
    Nat → List Char → List (List Char × List Char)
  | 0, cs => [([], cs)]
  | n + 1, cs =>
    (((step cs).filter (·.1 ≠ [])).flatMap fun x => behind x.1 (repeated step n x.2)) ++ [([], cs)]

/-- The ways to take a text of a pattern from the front of another, in the order in
which they are tried, each with what it leaves. -/
def takes : Pattern → List Char → List (List Char × List Char)
  | empty => fun cs => [([], cs)]
  | one p => fun cs => match cs with
    | [] => []
    | c :: r => if p c then [([c], r)] else []
  | seq a b => fun cs => (takes a cs).flatMap fun x => behind x.1 (takes b x.2)
  | alt a b => fun cs => takes a cs ++ takes b cs
  | many a => fun cs => repeated (takes a) cs.length cs

section Takes

variable {a b : Pattern} {p : Char → Bool} {cs w r : List Char}

theorem mem_behind_iff {taken : List Char} {xs : List (List Char × List Char)} :
    (w, r) ∈ behind taken xs ↔ ∃ v, w = taken ++ v ∧ (v, r) ∈ xs := by
  simp only [behind, List.mem_map, Prod.mk.injEq, Prod.exists]
  constructor
  · rintro ⟨v, r', hv, rfl, rfl⟩
    exact ⟨v, rfl, hv⟩
  · rintro ⟨v, rfl, hv⟩
    exact ⟨v, r, hv, rfl, rfl⟩

/-- Repetition takes the texts that are repetitions, if it may go on long enough. -/
theorem mem_repeated_iff {step : List Char → List (List Char × List Char)}
    (hstep : ∀ {cs w r}, (w, r) ∈ step cs ↔ Matches a w ∧ w ++ r = cs) {n : Nat}
    (hn : cs.length ≤ n) : (w, r) ∈ repeated step n cs ↔ Matches (many a) w ∧ w ++ r = cs := by
  -- induction on the bound for the length, since each round takes something
  induction n generalizing cs w r with
  | zero =>
    obtain rfl := List.length_eq_zero_iff.mp (Nat.le_zero.mp hn)
    simp only [repeated, List.mem_singleton, Prod.mk.injEq, List.append_eq_nil_iff]
    constructor
    · rintro ⟨rfl, rfl⟩
      exact ⟨.stop, rfl, rfl⟩
    · exact fun h => h.2
  | succ n ih =>
    simp only [repeated, List.mem_append, List.mem_flatMap, List.mem_filter, List.mem_singleton,
      Prod.exists, mem_behind_iff, hstep, decide_eq_true_eq, Prod.mk.injEq]
    constructor
    · -- one round and what the others take, or no round at all
      rintro (⟨u, s, ⟨⟨hu, rfl⟩, hne⟩, v, rfl, hv⟩ | ⟨rfl, rfl⟩)
      · have hshorter : s.length ≤ n := by
          have hpos := List.length_pos_iff.mpr hne
          rw [List.length_append] at hn
          omega
        obtain ⟨hmatches, rfl⟩ := (ih hshorter).mp hv
        exact ⟨.again hu hmatches, List.append_assoc u v r⟩
      · exact ⟨.stop, rfl⟩
    · rintro ⟨hw, rfl⟩
      rcases hw.many_cases with rfl | ⟨u, v, rfl, hne, hu, hv⟩
      · exact .inr ⟨rfl, rfl⟩
      · have hshorter : (v ++ r).length ≤ n := by
          have hpos := List.length_pos_iff.mpr hne
          rw [List.append_assoc, List.length_append] at hn
          omega
        exact .inl ⟨u, v ++ r, ⟨⟨hu, (List.append_assoc u v r).symm⟩, hne⟩, v, rfl,
          (ih hshorter).mpr ⟨hv, rfl⟩⟩

/-- **The fronts that are tried are those that belong to the pattern.** -/
theorem mem_takes_iff : (w, r) ∈ takes a cs ↔ Matches a w ∧ w ++ r = cs := by
  induction a generalizing cs w r with
  | empty =>
    simp only [takes, List.mem_singleton, Prod.mk.injEq, matches_empty_iff]
    constructor
    · rintro ⟨rfl, rfl⟩
      exact ⟨rfl, rfl⟩
    · rintro ⟨rfl, rfl⟩
      exact ⟨rfl, rfl⟩
  | one p =>
    rw [matches_one_iff]
    constructor
    · intro h
      rcases cs with - | ⟨c, cs⟩
      · cases h
      · simp only [takes, List.mem_ite_nil_right, List.mem_singleton, Prod.mk.injEq] at h
        obtain ⟨hc, rfl, rfl⟩ := h
        exact ⟨⟨c, rfl, hc⟩, rfl⟩
    · rintro ⟨⟨c, rfl, hc⟩, rfl⟩
      simp [takes, hc]
  | seq a b iha ihb =>
    simp only [takes, List.mem_flatMap, Prod.exists, mem_behind_iff, iha, ihb, matches_seq_iff]
    constructor
    · rintro ⟨u, s, ⟨hu, rfl⟩, v, rfl, hv, rfl⟩
      exact ⟨⟨u, v, rfl, hu, hv⟩, List.append_assoc u v r⟩
    · rintro ⟨⟨u, v, rfl, hu, hv⟩, rfl⟩
      exact ⟨u, v ++ r, ⟨hu, (List.append_assoc u v r).symm⟩, v, rfl, hv, rfl⟩
  | alt a b iha ihb =>
    simp only [takes, List.mem_append, iha, ihb, matches_alt_iff, or_and_right]
  -- the bound is the length of the text itself
  | many a ih => exact mem_repeated_iff ih le_rfl

theorem takes_eq_nil_iff : takes a cs = [] ↔ ∀ w, Matches a w → ¬ w <+: cs := by
  rw [List.eq_nil_iff_forall_not_mem]
  constructor
  · rintro h w hw ⟨r, hr⟩
    exact h (w, r) (mem_takes_iff.mpr ⟨hw, hr⟩)
  · rintro h ⟨w, r⟩ hx
    obtain ⟨hw, hr⟩ := mem_takes_iff.mp hx
    exact h w hw ⟨r, hr⟩

/-- An optional part that is not there takes nothing. -/
theorem takes_opt_of_nil (h : takes a cs = []) : takes (opt a) cs = [([], cs)] := by
  simp [opt, takes, h]

/-! ### Patterns that start with a class -/

/-- Texts of the pattern start with a character of the class. -/
def StartsWith (p : Char → Bool) (a : Pattern) : Prop :=
  ∀ w, Matches a w → ∃ c r, w = c :: r ∧ p c = true

theorem startsWith_one (p : Char → Bool) : StartsWith p (one p) := by
  intro w hw
  obtain ⟨c, rfl, hc⟩ := matches_one_iff.mp hw
  exact ⟨c, [], rfl, hc⟩

theorem StartsWith.seq (h : StartsWith p a) (b : Pattern) : StartsWith p (seq a b) := by
  intro w hw
  obtain ⟨u, v, rfl, hu, -⟩ := matches_seq_iff.mp hw
  obtain ⟨c, r, rfl, hc⟩ := h u hu
  exact ⟨c, r ++ v, rfl, hc⟩

theorem StartsWith.alt (ha : StartsWith p a) (hb : StartsWith p b) : StartsWith p (alt a b) := by
  intro w hw
  rcases matches_alt_iff.mp hw with hw | hw
  · exact ha w hw
  · exact hb w hw

theorem StartsWith.mono {q : Char → Bool} (h : StartsWith p a)
    (hpq : ∀ c, p c = true → q c = true) : StartsWith q a := by
  intro w hw
  obtain ⟨c, r, rfl, hc⟩ := h w hw
  exact ⟨c, r, rfl, hpq c hc⟩

/-- A text that starts with a character of another class has no such front. -/
theorem StartsWith.takes_eq_nil (h : StartsWith p a) {c : Char} (hc : p c = false)
    (cs : List Char) : takes a (c :: cs) = [] := by
  rw [takes_eq_nil_iff]
  intro w hw hfront
  obtain ⟨d, r, rfl, hd⟩ := h w hw
  obtain rfl : d = c := (List.cons_prefix_cons.mp hfront).1
  rw [hc] at hd
  cases hd

theorem StartsWith.exists_cons (h : StartsWith p a) (hne : takes a cs ≠ []) :
    ∃ c r, cs = c :: r ∧ p c = true := by
  obtain ⟨⟨w, r⟩, hx⟩ := List.exists_mem_of_ne_nil _ hne
  obtain ⟨hw, rfl⟩ := mem_takes_iff.mp hx
  obtain ⟨c, w, rfl, hc⟩ := h w hw
  exact ⟨c, w ++ r, rfl, hc⟩

/-- Two patterns that start with different classes have no front of one text both. -/
theorem StartsWith.disjoint {q : Char → Bool} (ha : StartsWith p a) (hb : StartsWith q b)
    (hpq : ∀ c, p c = true → q c = false) (hne : takes a cs ≠ []) : takes b cs = [] := by
  obtain ⟨c, r, rfl, hc⟩ := ha.exists_cons hne
  exact hb.takes_eq_nil (hpq c hc) r

/-! ### Longest first -/

/-- Longer fronts come before shorter ones. -/
def LongestFirst (xs : List (List Char × List Char)) : Prop :=
  xs.Pairwise fun x y => y.1.length ≤ x.1.length

/-- A pattern whose longest front is tried first. -/
def Eager (a : Pattern) : Prop :=
  ∀ cs, LongestFirst (takes a cs)

/-- A pattern with at most one front of every text. -/
def Rigid (a : Pattern) : Prop :=
  ∀ cs, (takes a cs).length ≤ 1

/-- What holds of any two in order holds of one. -/
theorem Rigid.pairwise (h : Rigid a) (R : List Char × List Char → List Char × List Char → Prop)
    (cs : List Char) : (takes a cs).Pairwise R := by
  have hlength := h cs
  rcases hx : takes a cs with - | ⟨x, - | ⟨y, xs⟩⟩
  · exact .nil
  · exact List.pairwise_singleton R x
  · rw [hx] at hlength
    simp at hlength

theorem LongestFirst.behind {xs : List (List Char × List Char)} (h : LongestFirst xs)
    (taken : List Char) : LongestFirst (behind taken xs) := by
  refine List.pairwise_map.mpr (h.imp fun hle => ?_)
  simpa using hle

theorem rigid_one (p : Char → Bool) : Rigid (one p) := by
  intro cs
  rcases cs with - | ⟨c, cs⟩
  · simp [takes]
  · by_cases hc : p c = true <;> simp [takes, hc]

theorem Rigid.seq (ha : Rigid a) (hb : Rigid b) : Rigid (seq a b) := by
  intro cs
  have hlength := ha cs
  rcases hx : takes a cs with - | ⟨x, - | ⟨y, xs⟩⟩
  · simp [takes, hx]
  · simpa [takes, hx, Pattern.behind] using hb x.2
  · rw [hx] at hlength
    simp at hlength

theorem rigid_exactly (w : List Char) : Rigid (exactly w) := by
  induction w with
  | nil => exact fun _ => le_rfl
  | cons c w ih => exact (rigid_one _).seq ih

theorem Rigid.alt (ha : Rigid a) (hb : Rigid b) (h : ∀ cs, takes a cs = [] ∨ takes b cs = []) :
    Rigid (alt a b) := by
  intro cs
  rcases h cs with hnil | hnil
  · simpa [takes, hnil] using hb cs
  · simpa [takes, hnil] using ha cs

theorem Rigid.eager (h : Rigid a) : Eager a :=
  h.pairwise _

/-- Fronts of two parts are in order if those of the second are, and if those behind
an earlier front of the first are never shorter on the whole. -/
theorem LongestFirst.seq (hb : Eager b)
    (h : (takes a cs).Pairwise fun x y =>
      ∀ u ∈ takes b x.2, ∀ v ∈ takes b y.2, (y.1 ++ v.1).length ≤ (x.1 ++ u.1).length) :
    LongestFirst (takes (seq a b) cs) := by
  show ((takes a cs).flatMap fun x => Pattern.behind x.1 (takes b x.2)).Pairwise _
  rw [List.pairwise_flatMap]
  refine ⟨fun x _ => (hb x.2).behind x.1, h.imp fun hxy => ?_⟩
  rintro ⟨w, r⟩ hw ⟨w', r'⟩ hw'
  obtain ⟨u, rfl, hu⟩ := mem_behind_iff.mp hw
  obtain ⟨v, rfl, hv⟩ := mem_behind_iff.mp hw'
  exact hxy _ hu _ hv

/-- Three parts are taken in the same order, whichever two are put together first. -/
theorem takes_seq_assoc {c : Pattern} :
    takes (seq (seq a b) c) cs = takes (seq a (seq b c)) cs := by
  simp only [takes, Pattern.behind, List.flatMap_assoc, List.flatMap_map, List.map_flatMap,
    List.map_map, Function.comp_def, List.append_assoc]

/-- What follows an alternative may as well follow each of the two. -/
theorem takes_alt_seq {c : Pattern} :
    takes (seq (Pattern.alt a b) c) cs = takes (Pattern.alt (seq a c) (seq b c)) cs :=
  List.flatMap_append

theorem Eager.assoc {c : Pattern} (h : Eager (Pattern.seq a (Pattern.seq b c))) :
    Eager (Pattern.seq (Pattern.seq a b) c) :=
  fun cs => takes_seq_assoc ▸ h cs

theorem Eager.altSeq {c : Pattern}
    (h : Eager (Pattern.alt (Pattern.seq a c) (Pattern.seq b c))) :
    Eager (Pattern.seq (Pattern.alt a b) c) :=
  fun cs => takes_alt_seq ▸ h cs

theorem Eager.rigidSeq (ha : Rigid a) (hb : Eager b) : Eager (Pattern.seq a b) :=
  fun cs => LongestFirst.seq hb (ha.pairwise _ cs)

theorem Eager.opt (h : Eager a) : Eager (opt a) := by
  intro cs
  refine List.pairwise_append.mpr ⟨h cs, List.pairwise_singleton _ _, ?_⟩
  rintro x - y hy
  rw [List.mem_singleton.mp hy]
  exact Nat.zero_le _

theorem Eager.alt (ha : Eager a) (hb : Eager b) (h : ∀ cs, takes a cs = [] ∨ takes b cs = []) :
    Eager (alt a b) := by
  intro cs
  show LongestFirst (takes a cs ++ takes b cs)
  rcases h cs with hnil | hnil
  · rw [hnil, List.nil_append]
    exact hb cs
  · rw [hnil, List.append_nil]
    exact ha cs

/-- An optional part comes before an eager one that cannot stand in its place. -/
theorem Eager.optSeq (ha : Rigid a) (hb : Eager b)
    (h : ∀ cs, takes a cs ≠ [] → takes b cs = []) : Eager (Pattern.seq (Pattern.opt a) b) := by
  intro cs
  refine LongestFirst.seq hb ?_
  refine List.pairwise_append.mpr ⟨ha.pairwise _ cs, List.pairwise_singleton _ _, ?_⟩
  rintro x hx y hy u - v hv
  rw [List.mem_singleton.mp hy, h cs (List.ne_nil_of_mem hx)] at hv
  cases hv

/-- Where a repetition stops early it could have gone on. -/
theorem pairwise_repeated (ha : Rigid a) (n : Nat) (cs : List Char) :
    (repeated (takes a) n cs).Pairwise fun x y =>
      y.1.length ≤ x.1.length ∧ takes a y.2 ≠ [] := by
  induction n generalizing cs with
  | zero => exact List.pairwise_singleton _ _
  | succ n ih =>
    rw [repeated]
    refine List.pairwise_append.mpr ⟨?_, List.pairwise_singleton _ _, ?_⟩
    · rw [List.pairwise_flatMap]
      refine ⟨fun x _ => List.pairwise_map.mpr ((ih x.2).imp fun hxy => ?_), ?_⟩
      · simpa using hxy
      · exact (ha.pairwise _ cs).filter _
    · rintro x hx y hy
      rw [List.mem_singleton.mp hy]
      obtain ⟨z, hz, -⟩ := List.mem_flatMap.mp hx
      exact ⟨Nat.zero_le _, List.ne_nil_of_mem (List.mem_filter.mp hz).1⟩

/-- A repetition comes before an eager part that takes nothing where the repetition
could have gone on. -/
theorem Eager.manySeq (ha : Rigid a) (hb : Eager b)
    (h : ∀ cs, takes a cs ≠ [] → ∀ v ∈ takes b cs, v.1 = []) :
    Eager (Pattern.seq (many a) b) := by
  intro cs
  refine LongestFirst.seq hb ((pairwise_repeated ha _ cs).imp fun hxy => ?_)
  intro u _ v hv
  rw [h _ hxy.2 v hv, List.append_nil, List.length_append]
  exact hxy.1.trans (Nat.le_add_right _ _)

theorem Rigid.many_eager (ha : Rigid a) : Eager (many a) :=
  fun cs => (pairwise_repeated ha _ cs).imp And.left

/-- **The front that is tried first is the longest**, if the pattern is eager. -/
theorem Eager.longest (h : Eager a) (hfirst : (takes a cs).head? = some (w, r)) :
    Matches a w ∧ w ++ r = cs ∧ ∀ v, Matches a v → v <+: cs → v.length ≤ w.length := by
  obtain ⟨xs, hxs⟩ := List.head?_eq_some_iff.mp hfirst
  obtain ⟨hw, hr⟩ := mem_takes_iff.mp (hxs ▸ List.mem_cons_self : (w, r) ∈ takes a cs)
  refine ⟨hw, hr, ?_⟩
  rintro v hv ⟨s, hs⟩
  have hmem : (v, s) ∈ takes a cs := mem_takes_iff.mpr ⟨hv, hs⟩
  have horder := h cs
  rw [hxs] at hmem horder
  rcases List.mem_cons.mp hmem with heq | hmem
  · cases heq
    exact le_rfl
  · exact (List.pairwise_cons.mp horder).1 _ hmem

end Takes

end Pattern

end LineScript
