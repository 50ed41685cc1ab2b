/-
LineScript/Proofs/Rounding.lean

Which decimals are read as which floating-point number.

A finite number that is not zero has a magnitude `m · 2 ^ q`, and there is one way to
write it so (`IsMagnitude`).  A rational rounds to it if it lies no further away than
half way to a neighbour, and nearer than that if `m` is odd (`RoundsTo`).  Below a
power of two the neighbours are half as far apart.

Main result: a decimal whose value rounds to a magnitude is read as the number of that
magnitude (`ofDecimal_of_roundsTo`).  `ofRatio` rounds in units of a power of two that
depends on the quotient alone (`unitPower_spec`); there is only one such power
(`IsUnitOf.unique`), and it is the power of the magnitude, or the one below if the
quotient lies below a power of two that it rounds to.
-/
import LineScript.Number.Binary64
import Mathlib.Algebra.Order.Field.Power
import Mathlib.Tactic.Linarith
import Mathlib.Tactic.NormNum
import Mathlib.Tactic.Positivity
import Mathlib.Tactic.FieldSimp
import Mathlib.Tactic.Ring

namespace LineScript.Number

/-! ### Powers -/

theorem cast_twoPow (n : Nat) : ((twoPow n : Nat) : ℚ) = 2 ^ n :=
  Nat.cast_pow 2 n

theorem cast_tenPow (n : Nat) : ((tenPow n : Nat) : ℚ) = 10 ^ n :=
  Nat.cast_pow 10 n

/-- A power with a whole exponent, as a quotient of two with natural ones. -/
theorem zpow_eq_div {b : ℚ} (hb : b ≠ 0) (k : Int) : b ^ k = b ^ k.toNat / b ^ (-k).toNat := by
  rw [← zpow_natCast, ← zpow_natCast, ← zpow_sub₀ hb]
  congr 1
  omega

theorem two_zpow_pos (q : Int) : (0 : ℚ) < 2 ^ q :=
  zpow_pos (by norm_num) q

/-- A power of two is twice the one below. -/
theorem two_zpow_eq_double (q : Int) : (2 : ℚ) ^ q = 2 * 2 ^ (q - 1) := by
  rw [← zpow_one_add₀ two_ne_zero]
  congr 1
  omega

theorem ten_zpow_pos (p : Int) : (0 : ℚ) < 10 ^ p :=
  zpow_pos (by norm_num) p

namespace Binary64

/-! ### Rounding a quotient -/

/-- A quotient no further than a half from a whole number is rounded to it, if the
number is even or the quotient nearer. -/
theorem roundDiv_eq {n d r : Nat} (hd : 0 < d) (hlow : 2 * (r * d) ≤ 2 * n + d)
    (hhigh : 2 * n ≤ 2 * (r * d) + d)
    (hodd : r % 2 = 1 → 2 * (r * d) < 2 * n + d ∧ 2 * n < 2 * (r * d) + d) :
    roundDiv n d = r := by
  have hn : n / d * d + n % d = n := Nat.div_add_mod' n d
  have ht : n % d < d := Nat.mod_lt n hd
  unfold roundDiv
  dsimp only
  generalize n / d = k at hn ⊢
  generalize n % d = t at hn ht ⊢
  have hge : k ≤ r := by
    have hlt : k * d < (r + 1) * d := by
      rw [Nat.add_mul, Nat.one_mul]
      omega
    exact Nat.le_of_lt_succ (Nat.lt_of_mul_lt_mul_right hlt)
  have hle : r ≤ k + 1 := by
    have hlt : r * d < (k + 2) * d := by
      rw [Nat.add_mul]
      omega
    exact Nat.le_of_lt_succ (Nat.lt_of_mul_lt_mul_right hlt)
  -- the number is the quotient without its fraction, or the next one
  rcases Nat.lt_or_eq_of_le hge with hlt | rfl
  · obtain rfl : r = k + 1 := by omega
    rw [Nat.add_mul, Nat.one_mul] at hlow hhigh hodd
    split_ifs <;> omega
  · split_ifs <;> omega

/-- The fraction that is rounded is the quotient in units of the power. -/
theorem scale_div (num den : Nat) (q : Int) :
    ((scale num den q).1 : ℚ) / (scale num den q).2 = num / den / 2 ^ q := by
  simp only [scale, Nat.cast_mul, cast_twoPow]
  rw [zpow_eq_div two_ne_zero q]
  field_simp

theorem scale_pos {den : Nat} (h : 0 < den) (num : Nat) (q : Int) : 0 < (scale num den q).2 :=
  Nat.mul_pos h (Nat.pow_pos (by decide))

/-! ### The unit of a quotient -/

/-- In units of `2 ^ q` a quotient has 53 binary digits before the point, or fewer if
`q` is the least power. -/
structure IsUnitOf (q : Int) (v : ℚ) : Prop where
  least : -1074 ≤ q
  lt : v < 2 ^ 53 * 2 ^ q
  le : q = -1074 ∨ 2 ^ 52 * 2 ^ q ≤ v

theorem IsUnitOf.le_of_lt {q q' : Int} {v : ℚ} (h : IsUnitOf q v) (h' : IsUnitOf q' v) :
    q' ≤ q := by
  rcases h'.le with rfl | hle
  · exact h.least
  · have hlt : (2 : ℚ) ^ (q' + 52) < 2 ^ (q + 53) := by
      rw [zpow_add₀ two_ne_zero, zpow_add₀ two_ne_zero, mul_comm, mul_comm ((2 : ℚ) ^ q)]
      exact_mod_cast hle.trans_lt h.lt
    have hexponents := (zpow_lt_zpow_iff_right₀ (by norm_num)).mp hlt
    omega

/-- A quotient has one unit. -/
theorem IsUnitOf.unique {q q' : Int} {v : ℚ} (h : IsUnitOf q v) (h' : IsUnitOf q' v) : q = q' :=
  le_antisymm (h'.le_of_lt h) (h.le_of_lt h')

/-- Bounds of a natural number by the power of two that it starts with. -/
theorem log2_bounds {n : Nat} (h : n ≠ 0) :
    (2 : ℚ) ^ (n.log2 : Int) ≤ n ∧ (n : ℚ) < 2 ^ (n.log2 + 1 : Int) := by
  have hlow := Nat.log2_self_le h
  have hhigh := Nat.lt_log2_self (n := n)
  constructor
  · rw [zpow_natCast]
    exact_mod_cast hlow
  · exact_mod_cast hhigh

/-- The quotient of two numbers lies between the powers that they start with. -/
theorem ratio_bounds {num den : Nat} (hnum : num ≠ 0) (hden : den ≠ 0) :
    (2 : ℚ) ^ ((num.log2 : Int) - den.log2 - 1) < num / den ∧
      (num : ℚ) / den < 2 ^ ((num.log2 : Int) - den.log2 + 1) := by
  obtain ⟨hnumlow, hnumhigh⟩ := log2_bounds hnum
  obtain ⟨hdenlow, hdenhigh⟩ := log2_bounds hden
  have hpos : (0 : ℚ) < den := by exact_mod_cast Nat.pos_of_ne_zero hden
  -- each bound takes the one end of the numerator and the other of the denominator
  constructor
  · rw [lt_div_iff₀ hpos]
    calc (2 : ℚ) ^ ((num.log2 : Int) - den.log2 - 1) * den
        < 2 ^ ((num.log2 : Int) - den.log2 - 1) * 2 ^ (den.log2 + 1 : Int) :=
          mul_lt_mul_of_pos_left hdenhigh (two_zpow_pos _)
      _ = 2 ^ (num.log2 : Int) := by
          rw [← zpow_add₀ two_ne_zero]
          congr 1
          omega
      _ ≤ num := hnumlow
  · rw [div_lt_iff₀ hpos]
    calc (num : ℚ) < 2 ^ (num.log2 + 1 : Int) := hnumhigh
      _ = 2 ^ ((num.log2 : Int) - den.log2 + 1) * 2 ^ (den.log2 : Int) := by
          rw [← zpow_add₀ two_ne_zero]
          congr 1
          omega
      _ ≤ 2 ^ ((num.log2 : Int) - den.log2 + 1) * den :=
          mul_le_mul_of_nonneg_left hdenlow (two_zpow_pos _).le

/-- A number of units is not reached exactly if the quotient is smaller. -/
theorem div_scale_lt_iff {den : Nat} (hden : den ≠ 0) (num : Nat) (q : Int) (k : Nat) :
    (scale num den q).1 / (scale num den q).2 < k ↔ (num : ℚ) / den < k * 2 ^ q := by
  have hpos := scale_pos (Nat.pos_of_ne_zero hden) num q
  have hcast : (0 : ℚ) < (scale num den q).2 := by exact_mod_cast hpos
  rw [Nat.div_lt_iff_lt_mul hpos, ← div_lt_iff₀ (two_zpow_pos q), ← scale_div,
    div_lt_iff₀ hcast]
  exact_mod_cast Iff.rfl

/-- **The power in whose units a quotient is rounded is its unit.** -/
theorem unitPower_spec {num den : Nat} (hnum : num ≠ 0) (hden : den ≠ 0) :
    IsUnitOf (unitPower num den) (num / den) := by
  obtain ⟨hlow, hhigh⟩ := ratio_bounds hnum hden
  unfold unitPower
  dsimp only
  generalize hq : max ((num.log2 : Int) - den.log2 - 53) (-1074) = q
  have hunit := div_scale_lt_iff hden num q (twoPow 53)
  rw [cast_twoPow] at hunit
  generalize (num : ℚ) / den = v at hlow hhigh hunit ⊢
  have hshift (k j : Int) : (2 : ℚ) ^ k * 2 ^ j = 2 ^ (k + j) := (zpow_add₀ two_ne_zero k j).symm
  -- the quotient of the lengths is right or one too small
  split_ifs with hlt
  · refine ⟨by omega, hunit.mp hlt, or_iff_not_imp_left.mpr fun hleast => ?_⟩
    calc (2 : ℚ) ^ 52 * 2 ^ q = 2 ^ ((num.log2 : Int) - den.log2 - 1) := by
          rw [← zpow_natCast, hshift]
          congr 1
          push_cast
          omega
      _ ≤ v := hlow.le
  · refine ⟨by omega, ?_, .inr ?_⟩
    · calc v < 2 ^ ((num.log2 : Int) - den.log2 + 1) := hhigh
        _ ≤ 2 ^ (53 + (q + 1)) := zpow_le_zpow_right₀ (by norm_num) (by omega)
        _ = 2 ^ 53 * 2 ^ (q + 1) := by rw [← hshift]; norm_num
    · calc (2 : ℚ) ^ 52 * 2 ^ (q + 1) = 2 ^ 53 * 2 ^ q := by
            rw [zpow_add_one₀ two_ne_zero]
            ring
        _ ≤ v := not_lt.mp (mt hunit.mpr hlt)

/-! ### The rationals that round to a magnitude -/

/-- The magnitude `m · 2 ^ q` of a finite number that is not zero, written in the way
of its fields. -/
structure IsMagnitude (m : Nat) (q : Int) : Prop where
  pos : 0 < m
  lt : m < 2 ^ 53
  least : -1074 ≤ q
  most : q ≤ 971
  normal : q = -1074 ∨ 2 ^ 52 ≤ m

/-- How far below a magnitude the rationals start that round to it, in units of its
power. -/
def reachBelow (m : Nat) (q : Int) : ℚ :=
  if m = 2 ^ 52 ∧ -1074 < q then 1 / 4 else 1 / 2

/-- The rationals that round to a magnitude; the ends of the interval do so if the
significand is even. -/
structure RoundsTo (m : Nat) (q : Int) (v : ℚ) : Prop where
  low : (m - reachBelow m q) * 2 ^ q ≤ v
  high : v ≤ (m + 1 / 2) * 2 ^ q
  inside : m % 2 = 1 → (m - reachBelow m q) * 2 ^ q < v ∧ v < (m + 1 / 2) * 2 ^ q

section Magnitude

variable {m : Nat} {q : Int} {v : ℚ}

theorem reachBelow_le (m : Nat) (q : Int) : reachBelow m q ≤ 1 / 2 := by
  unfold reachBelow
  split_ifs <;> norm_num

theorem RoundsTo.pos (hm : IsMagnitude m q) (h : RoundsTo m q v) : 0 < v := by
  have hone : (1 : ℚ) ≤ m := by exact_mod_cast hm.pos
  have hbelow := reachBelow_le m q
  exact (mul_pos (by linarith) (two_zpow_pos q)).trans_le h.low

/-- A quotient that a whole number of units is near enough to is rounded to that
number. -/
theorem roundDiv_scale {num den : Nat} (hden : den ≠ 0) {r : Nat}
    (hlow : (r - 1 / 2) * 2 ^ q ≤ (num : ℚ) / den) (hhigh : (num : ℚ) / den ≤ (r + 1 / 2) * 2 ^ q)
    (hodd : r % 2 = 1 →
      (r - 1 / 2) * 2 ^ q < (num : ℚ) / den ∧ (num : ℚ) / den < (r + 1 / 2) * 2 ^ q) :
    roundDiv (scale num den q).1 (scale num den q).2 = r := by
  have hpos := scale_pos (Nat.pos_of_ne_zero hden) num q
  have htwo := two_zpow_pos q
  rw [← le_div_iff₀ htwo, ← scale_div] at hlow
  rw [← div_le_iff₀ htwo, ← scale_div] at hhigh
  rw [← lt_div_iff₀ htwo, ← div_lt_iff₀ htwo, ← scale_div] at hodd
  generalize (scale num den q).1 = n at hlow hhigh hodd ⊢
  generalize (scale num den q).2 = d at hpos hlow hhigh hodd ⊢
  have hd : (0 : ℚ) < d := by exact_mod_cast hpos
  rw [le_div_iff₀ hd] at hlow
  rw [div_le_iff₀ hd] at hhigh
  rw [lt_div_iff₀ hd, div_lt_iff₀ hd] at hodd
  -- the bounds are compared over the scaled denominator, in whole numbers
  refine roundDiv_eq hpos ?_ ?_ fun hr => ⟨?_, ?_⟩
  · have h : (2 * (r * d) : ℚ) ≤ 2 * n + d := by linarith
    exact_mod_cast h
  · have h : (2 * n : ℚ) ≤ 2 * (r * d) + d := by linarith
    exact_mod_cast h
  · have h : (2 * (r * d) : ℚ) < 2 * n + d := by linarith [(hodd hr).1]
    exact_mod_cast h
  · have h : (2 * n : ℚ) < 2 * (r * d) + d := by linarith [(hodd hr).2]
    exact_mod_cast h

/-- What rounds to a magnitude has its power as the unit, or lies below the power of
two that it rounds to and has the unit below. -/
theorem RoundsTo.isUnitOf_or (hm : IsMagnitude m q) (h : RoundsTo m q v) :
    IsUnitOf q v ∨ IsUnitOf (q - 1) v ∧ m = 2 ^ 52 ∧ -1074 < q ∧ v < 2 ^ 52 * 2 ^ q := by
  have htwo := two_zpow_pos q
  have hlt : v < 2 ^ 53 * 2 ^ q := by
    have hm53 : (m : ℚ) + 1 ≤ 2 ^ 53 := by exact_mod_cast hm.lt
    exact h.high.trans_lt (mul_lt_mul_of_pos_right (by linarith) htwo)
  by_cases hle : q = -1074 ∨ 2 ^ 52 * 2 ^ q ≤ v
  · exact .inl ⟨hm.least, hlt, hle⟩
  · rw [not_or, not_le] at hle
    obtain ⟨hleast, hbelow⟩ := hle
    have hq : -1074 < q := lt_of_le_of_ne hm.least (Ne.symm hleast)
    -- nothing below that power of two rounds to more than it
    have hpower : m = 2 ^ 52 := by
      refine le_antisymm (le_of_not_gt fun hgt => ?_) (hm.normal.resolve_left hleast)
      have hmore : (2 ^ 52 + 1 : ℚ) ≤ m := by exact_mod_cast hgt
      have hreach := reachBelow_le m q
      have hcontra := (mul_lt_mul_iff_of_pos_right htwo).mp (h.low.trans_lt hbelow)
      linarith
    have hlow := h.low
    rw [hpower, reachBelow, if_pos ⟨rfl, hq⟩, two_zpow_eq_double] at hlow
    rw [two_zpow_eq_double] at hbelow
    have hone := two_zpow_pos (q - 1)
    refine .inr ⟨⟨by omega, by linarith, .inr ?_⟩, hpower, hq, by rwa [two_zpow_eq_double]⟩
    push_cast at hlow
    linarith

/-- A quotient below a power of two that it rounds to is rounded up to twice as many
units of half the size. -/
theorem roundDiv_of_below {num den : Nat} (hden : den ≠ 0) (hpower : m = 2 ^ 52)
    (hleast : -1074 < q) (h : RoundsTo m q (num / den))
    (hbelow : (num : ℚ) / den < 2 ^ 52 * 2 ^ q) :
    roundDiv (scale num den (q - 1)).1 (scale num den (q - 1)).2 = twoPow 53 := by
  have hlow := h.low
  rw [hpower, reachBelow, if_pos ⟨rfl, hleast⟩, two_zpow_eq_double] at hlow
  rw [two_zpow_eq_double] at hbelow
  have hone := two_zpow_pos (q - 1)
  refine roundDiv_scale hden ?_ ?_ fun hodd => absurd hodd (by decide)
  · rw [cast_twoPow]
    push_cast at hlow
    linarith
  · rw [cast_twoPow]
    linarith

/-- A quotient that rounds to a magnitude is read as the number of that magnitude. -/
theorem ofRatio_of_roundsTo {num den : Nat} (hm : IsMagnitude m q) (h : RoundsTo m q (num / den))
    (negative : Bool) :
    ofRatio negative num den
      = ofMagnitudeBits negative ((q + 1074).toNat * twoPow 52 + m) := by
  have hpos := h.pos hm
  have hnum : num ≠ 0 := by
    rintro rfl
    simp at hpos
  have hden : den ≠ 0 := by
    rintro rfl
    simp at hpos
  have hunit := unitPower_spec hnum hden
  rw [ofRatio, if_neg hnum]
  dsimp only
  have htwo := two_zpow_pos q
  rcases h.isUnitOf_or hm with hq | ⟨hq, hpower, hleast, hbelow⟩
  · have hhalf : ((m : ℚ) - 1 / 2) * 2 ^ q ≤ (m - reachBelow m q) * 2 ^ q :=
      mul_le_mul_of_nonneg_right (by linarith [reachBelow_le m q]) htwo.le
    have hround : roundDiv (scale num den q).1 (scale num den q).2 = m :=
      roundDiv_scale hden (hhalf.trans h.low) h.high fun hodd =>
        ⟨hhalf.trans_lt (h.inside hodd).1, (h.inside hodd).2⟩
    rw [hunit.unique hq, hround]
  · -- the carry of the rounding goes into the exponent field
    have hround := roundDiv_of_below hden hpower hleast h hbelow
    have hbits : (q - 1 + 1074).toNat * twoPow 52 + twoPow 53
        = (q + 1074).toNat * twoPow 52 + twoPow 52 := by
      have hnext : (q + 1074).toNat = (q - 1 + 1074).toNat + 1 := by omega
      have hpow : twoPow 53 = twoPow 52 + twoPow 52 := by decide
      rw [hnext, hpow, Nat.succ_mul, Nat.add_assoc]
    rw [hunit.unique hq, hround, hbits, hpower]
    rfl

/-! ### Decimals -/

/-- What rounds to a magnitude is not much smaller than the least of them. -/
theorem RoundsTo.least_le (hm : IsMagnitude m q) (h : RoundsTo m q v) :
    (2 : ℚ) ^ (-1075 : Int) ≤ v := by
  have hone : (1 : ℚ) ≤ m := by exact_mod_cast hm.pos
  have hbelow := reachBelow_le m q
  calc (2 : ℚ) ^ (-1075 : Int) = 1 / 2 * 2 ^ (-1074 : Int) := by
        rw [show (-1075 : Int) = -1074 - 1 by norm_num, zpow_sub_one₀ two_ne_zero]
        ring
    _ ≤ (m - reachBelow m q) * 2 ^ q :=
        mul_le_mul (by linarith) (zpow_le_zpow_right₀ (by norm_num) hm.least)
          (two_zpow_pos _).le (by linarith)
    _ ≤ v := h.low

/-- What rounds to a magnitude is smaller than the first power of two above all of
them. -/
theorem RoundsTo.lt_most (hm : IsMagnitude m q) (h : RoundsTo m q v) :
    v < (2 : ℚ) ^ (1024 : Int) := by
  have hlt : (m : ℚ) + 1 ≤ 2 ^ 53 := by exact_mod_cast hm.lt
  calc v ≤ (m + 1 / 2) * 2 ^ q := h.high
    _ < 2 ^ 53 * 2 ^ q := mul_lt_mul_of_pos_right (by linarith) (two_zpow_pos q)
    _ ≤ 2 ^ 53 * 2 ^ (971 : Int) :=
        mul_le_mul_of_nonneg_left (zpow_le_zpow_right₀ (by norm_num) hm.most) (by norm_num)
    _ = 2 ^ (1024 : Int) := by
        rw [← zpow_natCast, ← zpow_add₀ two_ne_zero]
        norm_num

theorem two_zpow_le_ten_pow (n : Nat) : (2 : ℚ) ^ (3 * n : Int) ≤ 10 ^ n := by
  calc (2 : ℚ) ^ (3 * n : Int) = 8 ^ n := by
        rw [zpow_mul, zpow_natCast]
        norm_num
    _ ≤ 10 ^ n := pow_le_pow_left₀ (by norm_num) (by norm_num) n

/-- A decimal that rounds to a magnitude has no exponent so large that it is taken for
infinity. -/
theorem exponent_le_of_roundsTo (hm : IsMagnitude m q) {d : Nat} {e : Int}
    (h : RoundsTo m q (d * 10 ^ e)) : e ≤ 400 := by
  by_contra! hlt
  obtain ⟨n, rfl⟩ := Int.eq_ofNat_of_zero_le (by omega : 0 ≤ e)
  have hpos := h.pos hm
  have hd : (1 : ℚ) ≤ d := by
    have hne : d ≠ 0 := by
      rintro rfl
      simp at hpos
    exact_mod_cast Nat.pos_of_ne_zero hne
  -- so great a power would be past the largest magnitude
  have hlarge : (2 : ℚ) ^ (1024 : Int) ≤ d * 10 ^ (n : Int) := by
    calc (2 : ℚ) ^ (1024 : Int) ≤ 2 ^ (3 * n : Int) :=
          zpow_le_zpow_right₀ (by norm_num) (by omega)
      _ ≤ 10 ^ n := two_zpow_le_ten_pow n
      _ = 1 * 10 ^ (n : Int) := by rw [one_mul, zpow_natCast]
      _ ≤ d * 10 ^ (n : Int) := mul_le_mul_of_nonneg_right hd (ten_zpow_pos _).le
  exact absurd (h.lt_most hm) (not_lt.mpr hlarge)

/-- Nor is it so small that it is taken for zero. -/
theorem le_exponent_of_roundsTo (hm : IsMagnitude m q) {d : Nat} {e : Int}
    (h : RoundsTo m q (d * 10 ^ e)) : -400 ≤ e + d.log2 := by
  by_contra! hlt
  obtain ⟨n, rfl⟩ : ∃ n : Nat, e = -n := ⟨(-e).toNat, by omega⟩
  have hd : d ≠ 0 := by
    rintro rfl
    have hpos := h.pos hm
    simp at hpos
  -- so small a power would be below half of the least magnitude
  have hsmall : d * (10 : ℚ) ^ (-n : Int) < 2 ^ (-1075 : Int) := by
    calc d * (10 : ℚ) ^ (-n : Int) ≤ d * 2 ^ (-(3 * n) : Int) := by
          rw [zpow_neg, zpow_neg, zpow_natCast]
          exact mul_le_mul_of_nonneg_left (inv_anti₀ (two_zpow_pos _) (two_zpow_le_ten_pow n))
            (Nat.cast_nonneg d)
      _ < 2 ^ (d.log2 + 1 : Int) * 2 ^ (-(3 * n) : Int) :=
          mul_lt_mul_of_pos_right (log2_bounds hd).2 (two_zpow_pos _)
      _ = 2 ^ (d.log2 + 1 - 3 * n : Int) := by rw [← zpow_add₀ two_ne_zero, sub_eq_add_neg]
      _ ≤ 2 ^ (-1075 : Int) := zpow_le_zpow_right₀ (by norm_num) (by omega)
  exact absurd (h.least_le hm) (not_le.mpr hsmall)

/-- **A decimal whose value rounds to a magnitude is read as the number of that
magnitude.** -/
theorem ofDecimal_of_roundsTo (hm : IsMagnitude m q) {d : Decimal}
    (h : RoundsTo m q (d.digits * 10 ^ d.exponent)) :
    ofDecimal d = ofMagnitudeBits d.negative ((q + 1074).toNat * twoPow 52 + m) := by
  have hlarge := exponent_le_of_roundsTo hm h
  have hsmall := le_exponent_of_roundsTo hm h
  have hne : d.digits ≠ 0 := by
    intro hzero
    have hpos := h.pos hm
    simp [hzero] at hpos
  have hratio : ((d.digits * tenPow d.exponent.toNat : Nat) : ℚ) / tenPow (-d.exponent).toNat
      = d.digits * 10 ^ d.exponent := by
    rw [Nat.cast_mul, cast_tenPow, cast_tenPow, zpow_eq_div (by norm_num) d.exponent, mul_div_assoc]
  rw [ofDecimal, if_neg hne, if_neg (by omega), if_neg (by omega)]
  exact ofRatio_of_roundsTo hm (by rwa [hratio]) d.negative

end Magnitude

/-! ### The magnitude of a number -/

section Fields

variable {x : Binary64}

/-- The bits below the sign are the fields. -/
theorem magnitudeBits_eq (x : Binary64) :
    x.magnitudeBits = x.exponentField * twoPow 52 + x.fractionField :=
  (Nat.div_add_mod' x.magnitudeBits (twoPow 52)).symm

theorem fractionField_lt (x : Binary64) : x.fractionField < twoPow 52 :=
  Nat.mod_lt _ (by decide)

theorem exponentField_lt (hx : x.isFinite = true) : x.exponentField < topExponent := by
  have hlt : x.exponentField < topExponent + 1 := by
    refine Nat.div_lt_of_lt_mul ?_
    exact (Nat.mod_lt _ (by decide)).trans_eq (by decide : twoPow 63 = twoPow 52 * _)
  exact lt_of_le_of_ne (Nat.le_of_lt_succ hlt) (bne_iff_ne.mp hx)

/-- The sign and the bits below it give the number back. -/
theorem ofMagnitudeBits_eq (hx : x.isFinite = true) :
    ofMagnitudeBits x.isNegative x.magnitudeBits = x := by
  have hcap : x.magnitudeBits ≤ topExponent * twoPow 52 := by
    rw [magnitudeBits_eq]
    have hfield := Nat.mul_le_mul_right (twoPow 52) (exponentField_lt hx)
    rw [Nat.succ_mul] at hfield
    exact (Nat.add_le_add_left (fractionField_lt x).le _).trans hfield
  have hbits : x.magnitudeBits + (if x.isNegative then twoPow 63 else 0) = x.bits.toNat := by
    have hlt : x.bits.toNat < twoPow 63 + twoPow 63 := x.bits.toNat_lt
    unfold magnitudeBits isNegative
    generalize x.bits.toNat = n at hlt ⊢
    -- the sign is the highest bit
    by_cases hn : twoPow 63 ≤ n
    · rw [decide_eq_true hn, if_pos rfl, Nat.mod_eq_sub_mod hn, Nat.mod_eq_of_lt (by omega)]
      omega
    · rw [decide_eq_false hn, Nat.mod_eq_of_lt (by omega)]
      rfl
  unfold ofMagnitudeBits
  rw [min_eq_left hcap]
  dsimp only
  rw [hbits, UInt64.ofNat_toNat]

/-- The magnitude of a finite number that is not zero, and the bits that it gives. -/
theorem isMagnitude (hx : x.isFinite = true) (hzero : x.isZero = false) :
    IsMagnitude x.significand x.power ∧
      (x.power + 1074).toNat * twoPow 52 + x.significand = x.magnitudeBits := by
  have hfield := exponentField_lt hx
  have hfraction := fractionField_lt x
  have hbits := magnitudeBits_eq x
  have hne : x.magnitudeBits ≠ 0 := beq_eq_false_iff_ne.mp hzero
  have hdouble : 2 ^ 53 = twoPow 52 + twoPow 52 := by decide
  unfold significand power
  generalize x.exponentField = e at hfield hbits ⊢
  generalize x.fractionField = f at hfraction hbits ⊢
  rw [topExponent] at hfield
  split_ifs with he
  · -- subnormal: the fraction field is the significand
    subst he
    rw [Nat.zero_mul, Nat.zero_add] at hbits
    refine ⟨⟨by omega, by omega, le_refl _, by norm_num, .inl rfl⟩, ?_⟩
    rw [hbits]
    simp
  · -- normal: the hidden bit is put in front
    refine ⟨⟨by omega, by omega, by omega, by omega, .inr (Nat.le_add_right _ _)⟩, ?_⟩
    obtain ⟨k, rfl⟩ := Nat.exists_eq_succ_of_ne_zero he
    have hk : ((k.succ : Int) - 1075 + 1074).toNat = k := by omega
    rw [hbits, hk, Nat.succ_mul, Nat.add_assoc]

/-- **A decimal with the sign of a number that rounds to its magnitude is read as the
number.** -/
theorem ofDecimal_eq (hx : x.isFinite = true) (hzero : x.isZero = false) {d : Decimal}
    (hsign : d.negative = x.isNegative)
    (h : RoundsTo x.significand x.power (d.digits * 10 ^ d.exponent)) : ofDecimal d = x := by
  obtain ⟨hm, hbits⟩ := isMagnitude hx hzero
  rw [ofDecimal_of_roundsTo hm h, hbits, hsign, ofMagnitudeBits_eq hx]

end Fields

end Binary64

end LineScript.Number
