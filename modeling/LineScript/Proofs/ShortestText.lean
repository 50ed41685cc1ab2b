/-
LineScript/Proofs/ShortestText.lean

The shortest text of a floating-point number reads back as the number.

`search` walks down the grids of powers of ten.  What it finds on one of them rounds to
the magnitude that it looks for (`roundsTo_of_fits`), and it finds something on every
grid that is finer than half the distance to the next magnitude (`fits_of_fine`).  The
walk starts at an exponent that is known from the power of the magnitude, and 24 steps
lead to a grid that fine (`fine_of_coarse`).

The digits are then laid out, and reading goes back over the layout: whichever notation
is chosen, the number that is read has the value of the digits with the point at its
place (`readsAs_write`).  So what is read rounds to the magnitude, and is the number again
(`read_toText`).
-/
import LineScript.Number.Shortest
import LineScript.Proofs.Literals
import LineScript.Proofs.Rounding

namespace LineScript.Number

open Binary64 (IsMagnitude RoundsTo reachBelow)
open Token (IsDigits IsSign)

/-! ### Grid points -/

section Grid

variable {m : Nat} {q p : Int} {c : Nat}

/-- A quarter of the unit of a magnitude, over the common unit of a grid. -/
def quarter (q p : Int) : Nat :=
  twoPow (q - 2).toNat * tenPow (-p).toNat

/-- A step of the grid, over the common unit. -/
def gridStep (q p : Int) : Nat :=
  tenPow p.toNat * twoPow (2 - q).toNat

/-- Whether a multiple of the grid is found to round to the magnitude. -/
def fits (m : Nat) (q p : Int) (c : Nat) : Bool :=
  let low := (4 * m - if m = twoPow 52 ∧ -1074 < q then 1 else 2) * quarter q p
  let high := (4 * m + 2) * quarter q p
  if m % 2 = 0 then low ≤ c * gridStep q p && c * gridStep q p ≤ high
  else low < c * gridStep q p && c * gridStep q p < high

/-- The grid point below the magnitude and the one above it are tried, and the better one
is taken if both fit. -/
theorem gridPoint?_eq (m : Nat) (q p : Int) :
    gridPoint? m q p =
      let value := 4 * m * quarter q p
      let c := value / gridStep q p
      let below := value - c * gridStep q p
      let above := (c + 1) * gridStep q p - value
      if fits m q p c then
        if fits m q p (c + 1) then
          if below < above then some c
          else if above < below then some (c + 1)
          else some (c + c % 2)
        else some c
      else if fits m q p (c + 1) then some (c + 1)
      else none :=
  rfl

/-- A point of the grid that is found fits.  None is found only if the one above the
magnitude does not. -/
theorem gridPoint?_cases (m : Nat) (q p : Int) :
    (∃ c, gridPoint? m q p = some c ∧ fits m q p c = true) ∨
      gridPoint? m q p = none ∧ fits m q p (4 * m * quarter q p / gridStep q p + 1) = false := by
  rw [gridPoint?_eq]
  dsimp only
  generalize 4 * m * quarter q p / gridStep q p = c
  split_ifs with hc hnext hbelow habove hnext
  · exact .inl ⟨c, rfl, hc⟩
  · exact .inl ⟨c + 1, rfl, hnext⟩
  · refine .inl ⟨c + c % 2, rfl, ?_⟩
    rcases Nat.mod_two_eq_zero_or_one c with hparity | hparity <;> rw [hparity]
    · exact hc
    · exact hnext
  · exact .inl ⟨c, rfl, hc⟩
  · exact .inl ⟨c + 1, rfl, hnext⟩
  · exact .inr ⟨rfl, Bool.eq_false_iff.mpr hnext⟩

theorem quarter_pos (q p : Int) : 0 < quarter q p :=
  Nat.mul_pos (Nat.pow_pos (by decide)) (Nat.pow_pos (by decide))

theorem gridStep_pos (q p : Int) : 0 < gridStep q p :=
  Nat.mul_pos (Nat.pow_pos (by decide)) (Nat.pow_pos (by decide))

/-- The common unit divides out. -/
theorem gridStep_mul (q p : Int) :
    (gridStep q p : ℚ) * 2 ^ (q - 2) = 10 ^ p * quarter q p := by
  have hneg : 2 - q = -(q - 2) := by omega
  rw [gridStep, quarter, Nat.cast_mul, Nat.cast_mul, cast_twoPow, cast_twoPow, cast_tenPow,
    cast_tenPow, zpow_eq_div two_ne_zero (q - 2), zpow_eq_div (by norm_num : (10 : ℚ) ≠ 0) p, hneg]
  field_simp

/-- A point of the grid, as a rational, over the common unit. -/
theorem point_mul_quarter (q p : Int) (c : Nat) :
    (c * 10 ^ p : ℚ) * quarter q p = ((c * gridStep q p : Nat) : ℚ) * 2 ^ (q - 2) := by
  rw [Nat.cast_mul, mul_assoc, ← gridStep_mul, mul_assoc]

/-- Quarters and points of the grid compare as the rationals that they stand for. -/
theorem quarters_le_iff {a : Nat} :
    a * quarter q p ≤ c * gridStep q p ↔ (a : ℚ) * 2 ^ (q - 2) ≤ c * 10 ^ p := by
  have hquarter : (0 : ℚ) < quarter q p := by exact_mod_cast quarter_pos q p
  rw [← mul_le_mul_iff_of_pos_right hquarter, point_mul_quarter, mul_right_comm,
    mul_le_mul_iff_of_pos_right (two_zpow_pos (q - 2))]
  exact_mod_cast Iff.rfl

theorem le_quarters_iff {a : Nat} :
    c * gridStep q p ≤ a * quarter q p ↔ (c : ℚ) * 10 ^ p ≤ a * 2 ^ (q - 2) := by
  have hquarter : (0 : ℚ) < quarter q p := by exact_mod_cast quarter_pos q p
  rw [← mul_le_mul_iff_of_pos_right hquarter, point_mul_quarter, mul_right_comm,
    mul_le_mul_iff_of_pos_right (two_zpow_pos (q - 2))]
  exact_mod_cast Iff.rfl

theorem quarters_lt_iff {a : Nat} :
    a * quarter q p < c * gridStep q p ↔ (a : ℚ) * 2 ^ (q - 2) < c * 10 ^ p := by
  rw [← not_le, ← not_le, le_quarters_iff]

theorem lt_quarters_iff {a : Nat} :
    c * gridStep q p < a * quarter q p ↔ (c : ℚ) * 10 ^ p < a * 2 ^ (q - 2) := by
  rw [← not_le, ← not_le, quarters_le_iff]

/-- The ends of the interval that is tried, in quarters. -/
theorem ends_eq (hm : IsMagnitude m q) :
    ((4 * m - if m = twoPow 52 ∧ -1074 < q then 1 else 2 : Nat) : ℚ) * 2 ^ (q - 2)
        = (m - reachBelow m q) * 2 ^ q ∧
      ((4 * m + 2 : Nat) : ℚ) * 2 ^ (q - 2) = (m + 1 / 2) * 2 ^ q := by
  have hpos := hm.pos
  have hfour : (2 : ℚ) ^ q = 4 * 2 ^ (q - 2) := by
    rw [zpow_sub₀ two_ne_zero]
    norm_num
    ring
  rw [hfour]
  constructor
  · -- the lower end is nearer where the power of two changes
    rw [Nat.cast_sub (by split_ifs <;> omega), reachBelow]
    have htwo : twoPow 52 = 2 ^ 52 := rfl
    rw [htwo]
    push_cast
    split_ifs <;> ring
  · push_cast
    ring

/-- What fits rounds to the magnitude. -/
theorem roundsTo_of_fits (hm : IsMagnitude m q) (h : fits m q p c = true) :
    RoundsTo m q (c * 10 ^ p) := by
  obtain ⟨hlow, hhigh⟩ := ends_eq hm
  unfold fits at h
  dsimp only at h
  by_cases heven : m % 2 = 0
  · rw [if_pos heven, Bool.and_eq_true, decide_eq_true_eq, decide_eq_true_eq, quarters_le_iff,
      le_quarters_iff, hlow, hhigh] at h
    exact ⟨h.1, h.2, fun hodd => absurd hodd (by omega)⟩
  · rw [if_neg heven, Bool.and_eq_true, decide_eq_true_eq, decide_eq_true_eq, quarters_lt_iff,
      lt_quarters_iff, hlow, hhigh] at h
    exact ⟨h.1.le, h.2.le, fun _ => h⟩

/-- The point above the magnitude fits if the grid is finer than half a unit. -/
theorem fits_of_fine (hm : IsMagnitude m q) (h : (10 : ℚ) ^ p < 2 ^ (q - 1)) :
    fits m q p (4 * m * quarter q p / gridStep q p + 1) = true := by
  have hpos := hm.pos
  have hstep : gridStep q p < 2 * quarter q p := by
    have htwo : (2 : ℚ) ^ (q - 1) = 2 * 2 ^ (q - 2) := by
      rw [two_zpow_eq_double, sub_sub]
      norm_num
    have hone : 1 * gridStep q p < 2 * quarter q p := by
      rw [lt_quarters_iff, Nat.cast_one, one_mul, Nat.cast_two, ← htwo]
      exact h
    rwa [Nat.one_mul] at hone
  -- the point is above the magnitude, by no more than a step
  have hdiv := Nat.div_add_mod' (4 * m * quarter q p) (gridStep q p)
  have hmod := Nat.mod_lt (4 * m * quarter q p) (gridStep_pos q p)
  have hlow : (4 * m - if m = twoPow 52 ∧ -1074 < q then 1 else 2) * quarter q p
      ≤ 4 * m * quarter q p := Nat.mul_le_mul_right _ (Nat.sub_le _ _)
  have hnext (k : Nat) : (k + 1) * gridStep q p = k * gridStep q p + gridStep q p :=
    Nat.succ_mul k _
  have hhigh : (4 * m + 2) * quarter q p = 4 * m * quarter q p + 2 * quarter q p :=
    Nat.add_mul _ _ _
  unfold fits
  dsimp only
  rw [hnext, hhigh]
  by_cases heven : m % 2 = 0
  · rw [if_pos heven, Bool.and_eq_true, decide_eq_true_eq, decide_eq_true_eq]
    omega
  · rw [if_neg heven, Bool.and_eq_true, decide_eq_true_eq, decide_eq_true_eq]
    omega

end Grid

/-! ### The walk down the grids -/

/-- A walk that reaches a grid finer than half a unit finds a point that rounds to the
magnitude. -/
theorem search_roundsTo {m : Nat} {q : Int} (hm : IsMagnitude m q) (n : Nat) (p : Int)
    (h : (10 : ℚ) ^ (p - n) < 2 ^ (q - 1)) :
    RoundsTo m q ((search m q (n + 1) p).1 * 10 ^ (search m q (n + 1) p).2) := by
  induction n generalizing p with
  | zero =>
    rw [Nat.cast_zero, sub_zero] at h
    rcases gridPoint?_cases m q p with ⟨c, hfound, hfits⟩ | ⟨-, hmissed⟩
    · rw [search, hfound]
      exact roundsTo_of_fits hm hfits
    · -- the grid is fine enough to meet the interval
      rw [fits_of_fine hm h] at hmissed
      cases hmissed
  | succ n ih =>
    rw [search]
    rcases gridPoint?_cases m q p with ⟨c, hfound, hfits⟩ | ⟨hmissed, -⟩
    · rw [hfound]
      exact roundsTo_of_fits hm hfits
    · rw [hmissed]
      refine ih (p - 1) ?_
      rwa [sub_sub, add_comm, ← Nat.cast_succ]

/-- Ten steps of ten are more than 33 of two. -/
theorem two_pow_lt_ten_pow {n k : Nat} (hn : n ≠ 0) (h : 10 * k ≤ 33 * n) : 2 ^ k < 10 ^ n := by
  refine lt_of_pow_lt_pow_left₀ 10 (Nat.zero_le _) ?_
  calc (2 ^ k) ^ 10 = 2 ^ (10 * k) := by rw [← Nat.pow_mul, Nat.mul_comm]
    _ ≤ 2 ^ (33 * n) := Nat.pow_le_pow_right (by decide) h
    _ = (2 ^ 33) ^ n := Nat.pow_mul 2 33 n
    _ < (10 ^ 10) ^ n := Nat.pow_lt_pow_left (by decide) hn
    _ = (10 ^ n) ^ 10 := by rw [← Nat.pow_mul, ← Nat.pow_mul, Nat.mul_comm]

/-- Three steps of ten are fewer than ten of two. -/
theorem ten_pow_lt_two_pow {n k : Nat} (hk : k ≠ 0) (h : 10 * n ≤ 3 * k) : 10 ^ n < 2 ^ k := by
  refine lt_of_pow_lt_pow_left₀ 10 (Nat.zero_le _) ?_
  calc (10 ^ n) ^ 10 = 10 ^ (10 * n) := by rw [← Nat.pow_mul, Nat.mul_comm]
    _ ≤ 10 ^ (3 * k) := Nat.pow_le_pow_right (by decide) h
    _ = (10 ^ 3) ^ k := Nat.pow_mul 10 3 k
    _ < (2 ^ 10) ^ k := Nat.pow_lt_pow_left (by decide) hk
    _ = (2 ^ k) ^ 10 := by rw [← Nat.pow_mul, ← Nat.pow_mul, Nat.mul_comm]

/-- **The walk reaches a grid finer than half a unit.** -/
theorem fine_of_coarse {m : Nat} {q : Int} (hm : IsMagnitude m q) :
    (10 : ℚ) ^ (coarseExponent m q - 23) < 2 ^ (q - 1) := by
  have hlog : m.log2 < 53 := (Nat.log2_lt hm.pos.ne').mpr hm.lt
  have hleast := hm.least
  have hmost := hm.most
  unfold coarseExponent
  generalize he : ((m.log2 : Int) + q) * 30103 / 100000 + 2 - 23 = e
  -- powers are compared in whole numbers, so the sign of the exponent matters
  rcases Int.lt_or_le e 0 with hneg | hnonneg
  · obtain ⟨n, rfl⟩ : ∃ n : Nat, e = -n := ⟨(-e).toNat, by omega⟩
    have hlt : 2 ^ (1 - q).toNat < 10 ^ n := two_pow_lt_ten_pow (by omega) (by omega)
    calc (10 : ℚ) ^ (-n : Int) = (10 ^ n)⁻¹ := by rw [zpow_neg, zpow_natCast]
      _ < (2 ^ (1 - q).toNat)⁻¹ := inv_strictAnti₀ (by positivity) (by exact_mod_cast hlt)
      _ = 2 ^ (-((1 - q).toNat : Int)) := by rw [zpow_neg, zpow_natCast]
      _ ≤ 2 ^ (q - 1) := zpow_le_zpow_right₀ (by norm_num) (by omega)
  · obtain ⟨n, rfl⟩ := Int.eq_ofNat_of_zero_le hnonneg
    have hlt : 10 ^ n < 2 ^ (q - 1).toNat := ten_pow_lt_two_pow (by omega) (by omega)
    calc (10 : ℚ) ^ (n : Int) = 10 ^ n := zpow_natCast 10 n
      _ < 2 ^ (q - 1).toNat := by exact_mod_cast hlt
      _ = 2 ^ (((q - 1).toNat : Nat) : Int) := (zpow_natCast 2 _).symm
      _ = 2 ^ (q - 1) := by rw [Int.toNat_of_nonneg (by omega)]

/-! ### The digits -/

section Digits

variable {ds : List Char}

theorem ofDigits_append_zeros (ds : List Char) (k : Nat) :
    ofDigits (ds ++ List.replicate k '0') = ofDigits ds * 10 ^ k := by
  induction k with
  | zero => simp
  | succ k ih =>
    rw [List.replicate_succ', ← List.append_assoc, ofDigits_concat, ih, Nat.pow_succ]
    show 10 * (ofDigits ds * 10 ^ k) + 0 = _
    ring

theorem ofDigits_zeros_append (k : Nat) (ds : List Char) :
    ofDigits (List.replicate k '0' ++ ds) = ofDigits ds := by
  induction k with
  | zero => rfl
  | succ k ih => exact ih

theorem isDigits_zeros (k : Nat) : IsDigits (List.replicate k '0') := by
  intro c hc
  rw [List.eq_of_mem_replicate hc]
  decide

/-- Only zeros are dropped. -/
theorem exists_dropTrailingZeros (ds : List Char) :
    ∃ k, ds = dropTrailingZeros ds ++ List.replicate k '0' := by
  refine ⟨(ds.reverse.takeWhile (· == '0')).length, ?_⟩
  have hzeros : ds.reverse.takeWhile (· == '0')
      = List.replicate (ds.reverse.takeWhile (· == '0')).length '0' :=
    List.eq_replicate_iff.mpr
      ⟨rfl, fun c hc => beq_iff_eq.mp (List.mem_takeWhile_imp (p := (· == '0')) hc)⟩
  have hsplit := congrArg List.reverse
    (List.takeWhile_append_dropWhile (p := (· == '0')) (l := ds.reverse))
  rw [List.reverse_append, List.reverse_reverse, hzeros, List.reverse_replicate] at hsplit
  exact hsplit.symm

/-- The shortest digits, with the point at its place, round to the magnitude. -/
theorem shortestDigits_roundsTo {m : Nat} {q : Int} (hm : IsMagnitude m q) :
    IsDigits (shortestDigits m q).1 ∧ (shortestDigits m q).1 ≠ [] ∧
      RoundsTo m q (ofDigits (shortestDigits m q).1 *
        10 ^ ((shortestDigits m q).2 - (shortestDigits m q).1.length)) := by
  have hround := search_roundsTo hm 23 (coarseExponent m q) (fine_of_coarse hm)
  unfold shortestDigits
  dsimp only
  generalize (search m q 24 (coarseExponent m q)).1 = c at hround ⊢
  generalize (search m q 24 (coarseExponent m q)).2 = p at hround ⊢
  obtain ⟨k, hk⟩ := exists_dropTrailingZeros (toDigits c)
  have hdigits : IsDigits (toDigits c) := fun _ hd => isDigit_of_mem_toDigits hd
  have hvalue := ofDigits_toDigits c
  generalize toDigits c = ds at hk hdigits hvalue ⊢
  generalize dropTrailingZeros ds = es at hk ⊢
  subst hk
  rw [ofDigits_append_zeros] at hvalue
  have hpoint : (((es ++ List.replicate k '0').length : Int) + p - es.length) = p + k := by
    rw [List.length_append, List.length_replicate]
    omega
  have hsame : (ofDigits es : ℚ) * 10 ^ (p + k) = c * 10 ^ p := by
    rw [← hvalue, zpow_add₀ (by norm_num), zpow_natCast]
    push_cast
    ring
  rw [hpoint, hsame]
  refine ⟨fun d hd => hdigits d (List.mem_append_left _ hd), ?_, hround⟩
  -- no digits would be zero, which rounds to no magnitude
  rintro rfl
  have hpos := hround.pos hm
  rw [← hsame] at hpos
  simp at hpos

end Digits

/-! ### Reading a layout -/

section Reading

variable {s w f t : List Char}

theorem readSign_append (hs : IsSign s) (ht : ∀ c ∈ t.head?, isDigit c = true) :
    Decimal.readSign (s ++ t) = (decide (s = ['-']), t) := by
  rcases hs with rfl | rfl
  · exact readSign_of_isDigit ht
  · rfl

/-- What is behind a run of digits is left. -/
theorem dropWhile_append (hw : IsDigits w) (ht : ∀ c ∈ t.head?, isDigit c = false) :
    (w ++ t).dropWhile isDigit = t := by
  rw [List.dropWhile_append_of_pos hw]
  rcases t with - | ⟨c, t⟩
  · rfl
  · rw [List.dropWhile_cons, ht c rfl]
    rfl

/-- A decimal is read by its parts: a sign, digits, and what is read behind them. -/
theorem read_append (hs : IsSign s) (hne : w ≠ []) (hw : IsDigits w)
    (ht : ∀ c ∈ t.head?, isDigit c = false) :
    Decimal.read (s ++ (w ++ t)) =
      ⟨decide (s = ['-']), ofDigits (w ++ (Decimal.readFraction t).1),
        Decimal.readExponent (Decimal.readFraction t).2 - (Decimal.readFraction t).1.length⟩ := by
  have hstart : ∀ c ∈ (w ++ t).head?, isDigit c = true := by
    rw [List.head?_append_of_ne_nil _ hne]
    exact fun c hc => hw c (List.mem_of_head? hc)
  rw [Decimal.read, readSign_append hs hstart]
  dsimp only
  rw [Token.takeWhile_append_of_head hw ht, dropWhile_append hw ht]

/-- Digits behind a point. -/
theorem readFraction_point (hf : IsDigits f) (ht : ∀ c ∈ t.head?, isDigit c = false) :
    Decimal.readFraction ('.' :: (f ++ t)) = (f, t) := by
  rw [Decimal.readFraction, Token.takeWhile_append_of_head hf ht, dropWhile_append hf ht]

end Reading

/-! ### Laying digits out -/

/-- The texts of finite numbers: digits around a point, or a digit, with a point and
more digits behind it or without, and an exponent with its sign and at least two
digits. -/
inductive IsFloatText : List Char → Prop
  | positional {s w f : List Char} : IsSign s → w ≠ [] → IsDigits w → f ≠ [] → IsDigits f →
    IsFloatText (s ++ (w ++ '.' :: f))
  | exponential {s t es : List Char} {d sign : Char} : IsSign s → isDigit d = true →
    t = [] ∨ (∃ f, f ≠ [] ∧ IsDigits f ∧ t = '.' :: f) → sign = '+' ∨ sign = '-' →
    2 ≤ es.length → IsDigits es → IsFloatText (s ++ (d :: (t ++ 'e' :: sign :: es)))

section Layout

variable {s ds : List Char} {point : Int}

/-- Positional notation is digits around a point, of the value of the digits with the
point at its place. -/
theorem positional_parts (hds : IsDigits ds) (hne : ds ≠ []) (point : Int) :
    ∃ w f, positional ds point = w ++ '.' :: f ∧ w ≠ [] ∧ IsDigits w ∧ f ≠ [] ∧ IsDigits f ∧
      (ofDigits (w ++ f) : ℚ) * 10 ^ (-f.length : Int)
        = ofDigits ds * 10 ^ (point - ds.length) := by
  rcases Int.lt_or_le 0 point with hpoint | hpoint
  · obtain ⟨n, rfl⟩ := Int.eq_ofNat_of_zero_le hpoint.le
    rw [positional, if_neg (by omega), Int.toNat_natCast]
    dsimp only
    rcases Nat.lt_or_ge n ds.length with hlt | hge
    · -- the point stands between the digits
      have hwhole : ds.take n ≠ [] := by
        rw [Ne, List.take_eq_nil_iff]
        rintro (hzero | hnil)
        · omega
        · exact hne hnil
      have hfraction : ds.drop n ≠ [] := by
        rw [Ne, List.drop_eq_nil_iff]
        omega
      rw [if_neg (by simpa using hlt), Nat.sub_eq_zero_of_le hlt.le, List.replicate_zero,
        List.append_nil]
      refine ⟨ds.take n, ds.drop n, rfl, hwhole, fun c hc => hds c (List.mem_of_mem_take hc),
        hfraction, fun c hc => hds c (List.mem_of_mem_drop hc), ?_⟩
      rw [List.take_append_drop, List.length_drop, Nat.cast_sub hlt.le, neg_sub]
    · -- the digits are filled up with zeros
      rw [List.take_of_length_le hge, List.drop_eq_nil_of_le hge,
        if_pos (show ([] : List Char).isEmpty = true from rfl)]
      refine ⟨ds ++ List.replicate (n - ds.length) '0', ['0'], rfl, by simp [hne],
        List.forall_mem_append.mpr ⟨hds, isDigits_zeros _⟩, by simp, isDigits_zeros 1, ?_⟩
      rw [ofDigits_concat, ofDigits_append_zeros, ← Nat.cast_sub hge, zpow_natCast]
      show ((10 * (ofDigits ds * 10 ^ (n - ds.length)) + 0 : Nat) : ℚ) * 10 ^ (-1 : Int) = _
      push_cast
      ring
  · -- zeros stand between the point and the digits
    rw [positional, if_pos hpoint]
    refine ⟨['0'], List.replicate (-point).toNat '0' ++ ds, rfl, by simp, isDigits_zeros 1,
      by simp [hne], List.forall_mem_append.mpr ⟨isDigits_zeros _, hds⟩, ?_⟩
    have hzeros := ofDigits_zeros_append ((-point).toNat + 1) ds
    rw [List.replicate_succ, List.cons_append] at hzeros
    rw [List.singleton_append, hzeros]
    congr 2
    rw [List.length_append, List.length_replicate]
    omega

/-- Exponent notation is a digit and those behind it, with a point between them if there
are any, and the exponent. -/
theorem exponential_parts (hne : ds ≠ []) (e : Int) :
    ∃ d f t sign es, ds = d :: f ∧ exponential 2 ds e = d :: (t ++ 'e' :: sign :: es) ∧
      (f = [] ∧ t = [] ∨ f ≠ [] ∧ t = '.' :: f) ∧ (sign = '+' ∨ sign = '-') ∧ 2 ≤ es.length ∧
      IsDigits es ∧ Decimal.readExponent ('e' :: sign :: es) = e := by
  obtain ⟨d, f, rfl⟩ := List.exists_cons_of_ne_nil hne
  have hes : IsDigits (List.replicate (2 - (toDigits e.natAbs).length) '0' ++ toDigits e.natAbs) :=
    List.forall_mem_append.mpr ⟨isDigits_zeros _, fun _ hc => isDigit_of_mem_toDigits hc⟩
  have hlength : 2 ≤ (List.replicate (2 - (toDigits e.natAbs).length) '0' ++
      toDigits e.natAbs).length := by
    rw [List.length_append, List.length_replicate]
    omega
  have hvalue : ofDigits ((List.replicate (2 - (toDigits e.natAbs).length) '0' ++
      toDigits e.natAbs).takeWhile isDigit) = e.natAbs := by
    rw [List.takeWhile_eq_self_iff.mpr hes, ofDigits_zeros_append, ofDigits_toDigits]
  unfold exponential
  dsimp only
  generalize List.replicate (2 - (toDigits e.natAbs).length) '0' ++ toDigits e.natAbs = es
    at hes hlength hvalue ⊢
  have hsign : (if e < 0 then '-' else '+') = '+' ∨ (if e < 0 then '-' else '+') = '-' := by
    split_ifs
    · exact .inr rfl
    · exact .inl rfl
  -- the exponent is read back with its sign
  have hread : Decimal.readExponent ('e' :: (if e < 0 then '-' else '+') :: es) = e := by
    split_ifs with hneg
    · show -(ofDigits (es.takeWhile isDigit) : Int) = e
      rw [hvalue]
      omega
    · show (ofDigits (es.takeWhile isDigit) : Int) = e
      rw [hvalue]
      omega
  rcases f with - | ⟨d', f⟩
  · exact ⟨d, [], [], _, es, rfl, rfl, .inl ⟨rfl, rfl⟩, hsign, hlength, hes, hread⟩
  · exact ⟨d, d' :: f, '.' :: d' :: f, _, es, rfl, rfl, .inr ⟨by simp, rfl⟩, hsign, hlength, hes,
      hread⟩

/-- A text of a number that is read with a sign and a value. -/
structure ReadsAs (cs s : List Char) (v : ℚ) : Prop where
  text : IsFloatText cs
  negative : (Decimal.read cs).negative = decide (s = ['-'])
  value : ((Decimal.read cs).digits : ℚ) * 10 ^ (Decimal.read cs).exponent = v

theorem isDigit_head?_point (t : List Char) : ∀ c ∈ ('.' :: t).head?, isDigit c = false := by
  rintro c ⟨⟩
  decide

theorem isDigit_head?_letter (t : List Char) : ∀ c ∈ ('e' :: t).head?, isDigit c = false := by
  rintro c ⟨⟩
  decide

theorem readsAs_positional (hs : IsSign s) (hds : IsDigits ds) (hne : ds ≠ []) (point : Int) :
    ReadsAs (s ++ positional ds point) s (ofDigits ds * 10 ^ (point - ds.length)) := by
  obtain ⟨w, f, hw, hwne, hwdigits, hfne, hfdigits, hvalue⟩ := positional_parts hds hne point
  have hfraction := readFraction_point hfdigits (t := []) (by simp)
  rw [List.append_nil] at hfraction
  have hread := read_append hs hwne hwdigits (isDigit_head?_point f)
  rw [hfraction] at hread
  rw [hw]
  refine ⟨.positional hs hwne hwdigits hfne hfdigits, by rw [hread], ?_⟩
  rw [hread]
  show (ofDigits (w ++ f) : ℚ) * 10 ^ ((0 : Int) - f.length) = _
  rw [zero_sub, hvalue]

theorem readsAs_exponential (hs : IsSign s) (hds : IsDigits ds) (hne : ds ≠ []) (point : Int) :
    ReadsAs (s ++ exponential 2 ds (point - 1)) s (ofDigits ds * 10 ^ (point - ds.length)) := by
  obtain ⟨d, f, t, sign, es, rfl, htext, hf, hsign, hlength, hes, hexponent⟩ :=
    exponential_parts hne (point - 1)
  have hd : IsDigits [d] := fun c hc => hds c (List.mem_cons.mpr (.inl (by simpa using hc)))
  have hfdigits : IsDigits f := fun c hc => hds c (List.mem_cons_of_mem d hc)
  have hfraction : Decimal.readFraction (t ++ 'e' :: sign :: es) = (f, 'e' :: sign :: es) := by
    rcases hf with ⟨rfl, rfl⟩ | ⟨-, rfl⟩
    · rfl
    · exact readFraction_point hfdigits (isDigit_head?_letter _)
  have hbehind : ∀ c ∈ (t ++ 'e' :: sign :: es).head?, isDigit c = false := by
    rcases hf with ⟨-, rfl⟩ | ⟨-, rfl⟩
    · exact isDigit_head?_letter _
    · exact isDigit_head?_point _
  have hread := read_append hs (List.cons_ne_nil d []) hd hbehind
  rw [hfraction, List.singleton_append, hexponent] at hread
  rw [htext]
  refine ⟨.exponential hs (hd d List.mem_cons_self) ?_ hsign hlength hes, by rw [hread], ?_⟩
  · exact hf.imp And.right fun h => ⟨f, h.1, hfdigits, h.2⟩
  · -- the point stands behind the first digit, so the others are behind it
    rw [hread]
    show (ofDigits (d :: f) : ℚ) * 10 ^ (point - 1 - f.length) = _
    congr 2
    rw [List.length_cons]
    push_cast
    ring

/-- **What is laid out is the text of a number, and is read with the value of the digits
with the point at its place.** -/
theorem readsAs_write (hs : IsSign s) (hds : IsDigits ds) (hne : ds ≠ []) (point : Int) :
    ReadsAs (s ++ Layout.standard.write ds point) s (ofDigits ds * 10 ^ (point - ds.length)) := by
  rw [Layout.write]
  split_ifs
  · exact readsAs_positional hs hds hne point
  · exact readsAs_exponential hs hds hne point

end Layout

/-! ### The text of a number -/

namespace Binary64

variable {x : Binary64}

/-- The sign of a number, as it is written. -/
def signText (x : Binary64) : List Char :=
  if x.isNegative then ['-'] else []

theorem isSign_signText (x : Binary64) : IsSign x.signText := by
  unfold signText
  split_ifs
  · exact .inr rfl
  · exact .inl rfl

theorem signText_eq_iff : decide (x.signText = ['-']) = x.isNegative := by
  unfold signText
  split_ifs with h
  · rw [h]
    rfl
  · rw [Bool.eq_false_iff.mpr h]
    rfl

theorem toList_toText (hx : x.isFinite = true) :
    x.toText.toList = x.signText ++ x.magnitudeText := by
  have hnumber : x.isNaN = false := by
    rw [isNaN, Bool.and_eq_false_imp]
    intro htop
    rw [isFinite, bne, htop] at hx
    cases hx
  rw [toText, hnumber]
  exact String.toList_ofList

/-- **A finite number is written as the text of one, and reads back.** -/
theorem read_toText (hx : x.isFinite = true) :
    IsFloatText x.toText.toList ∧ ofDecimal (Decimal.read x.toText.toList) = x := by
  have hs := isSign_signText x
  rw [toList_toText hx]
  -- zero is written without a search
  by_cases hzero : x.isZero = true
  · have htext : x.magnitudeText = ['0'] ++ ['.', '0'] := by
      rw [magnitudeText, hzero]
      rfl
    have hbits : x.magnitudeBits = 0 := beq_iff_eq.mp hzero
    have hread := read_append hs (List.cons_ne_nil '0' []) (isDigits_zeros 1)
      (isDigit_head?_point ['0'])
    rw [htext]
    refine ⟨.positional hs (List.cons_ne_nil _ _) (isDigits_zeros 1) (List.cons_ne_nil _ _)
      (isDigits_zeros 1), ?_⟩
    rw [hread, signText_eq_iff]
    show zero x.isNegative = x
    rw [zero, ← hbits, ofMagnitudeBits_eq hx]
  · rw [Bool.not_eq_true] at hzero
    obtain ⟨hm, -⟩ := isMagnitude hx hzero
    obtain ⟨hds, hne, hround⟩ := shortestDigits_roundsTo hm
    have htext : x.magnitudeText = Layout.standard.write (shortestDigits x.significand x.power).1
        (shortestDigits x.significand x.power).2 := by
      rw [magnitudeText, hzero, hx]
      rfl
    have hreads := readsAs_write hs hds hne (shortestDigits x.significand x.power).2
    rw [htext]
    refine ⟨hreads.text, ofDecimal_eq hx hzero (hreads.negative.trans signText_eq_iff) ?_⟩
    rwa [hreads.value]

end Binary64

end LineScript.Number
