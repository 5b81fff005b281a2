import Mathlib.Data.Int.Log
import Mathlib.Data.Rat.Floor
import Mathlib.Tactic.FieldSimp
import Mathlib.Tactic.Linarith
import Mathlib.Tactic.NormNum
import Mathlib.Tactic.Ring

/-!
# Rounding

Truncation, rounding to the nearest integer with ties to the even one, and the
nearest binary floating-point number of a rational. The exponent is unbounded:
overflow and subnormal numbers are left out.
-/

namespace Jumbox

namespace Rounding

/-- The integer part, towards zero. -/
def truncate {T : Type*} [Field T] [LinearOrder T] [FloorRing T] (x : T) : ℤ :=
  if 0 ≤ x then ⌊x⌋ else ⌈x⌉

/-- The nearest integer; of two, the even one. -/
def halfEven (q : ℚ) : ℤ :=
  if q - ⌊q⌋ < 1 / 2 then ⌊q⌋
  else if 1 / 2 < q - ⌊q⌋ then ⌊q⌋ + 1
  else if ⌊q⌋ % 2 = 0 then ⌊q⌋ else ⌊q⌋ + 1

/-- The gap between the numbers of `p` significant bits around `q`. -/
def ulp (p : ℕ) (q : ℚ) : ℚ := 2 ^ (Int.log 2 |q| - (p - 1 : ℤ))

/-- The nearest number of `p` significant bits. -/
def toBits (p : ℕ) (q : ℚ) : ℚ := if q = 0 then 0 else halfEven (q / ulp p q) * ulp p q

/-- The nearest double. -/
def toDouble (q : ℚ) : ℚ := toBits 53 q

theorem truncate_of_nonneg {T : Type*} [Field T] [LinearOrder T] [FloorRing T] {x : T}
    (h : 0 ≤ x) : truncate x = ⌊x⌋ := if_pos h

theorem halfEven_intCast (n : ℤ) : halfEven n = n := by
  simp [halfEven]

theorem abs_halfEven_sub_le (q : ℚ) : |(halfEven q : ℚ) - q| ≤ 1 / 2 := by
  have hlow := Int.floor_le q
  have hhigh := Int.lt_floor_add_one q
  unfold halfEven
  split_ifs with hbelow habove
  · rw [abs_le]
    constructor <;> linarith
  · rw [abs_le]
    push_cast
    constructor <;> linarith
  · rw [abs_le]
    constructor <;> linarith
  · rw [abs_le]
    push_cast
    constructor <;> linarith

variable {p : ℕ} {q : ℚ}

theorem ulp_pos : 0 < ulp p q := zpow_pos (by norm_num) _

/-- Rounding moves a number by half a gap at most. -/
theorem abs_toBits_sub_le : |toBits p q - q| ≤ ulp p q / 2 := by
  have hpos := ulp_pos (p := p) (q := q)
  unfold toBits
  split_ifs with hzero
  · rw [hzero, sub_zero, abs_zero]
    linarith [ulp_pos (p := p) (q := 0)]
  · have hscaled : (halfEven (q / ulp p q) : ℚ) * ulp p q - q =
        ((halfEven (q / ulp p q) : ℚ) - q / ulp p q) * ulp p q := by
      field_simp
    rw [hscaled, abs_mul, abs_of_pos hpos]
    have hnear := mul_le_mul_of_nonneg_right (abs_halfEven_sub_le (q / ulp p q)) hpos.le
    linarith

/-- Below `2 ^ k` the gap is at most `2 ^ (k - p)`. -/
theorem ulp_le {k : ℤ} (hq : q ≠ 0) (h : |q| < 2 ^ k) : ulp p q ≤ 2 ^ (k - p) := by
  have hlog : Int.log 2 |q| < k := (Int.lt_zpow_iff_log_lt (by norm_num) (abs_pos.mpr hq)).mp h
  apply zpow_le_zpow_right₀ (by norm_num)
  omega

theorem le_halfEven {n : ℤ} (h : n ≤ q) : n ≤ halfEven q := by
  have hfloor : n ≤ ⌊q⌋ := Int.le_floor.mpr h
  unfold halfEven
  split_ifs <;> omega

theorem halfEven_le {n : ℤ} (h : q ≤ n) : halfEven q ≤ n := by
  rcases h.lt_or_eq with hlt | rfl
  · have hfloor : ⌊q⌋ < n := Int.floor_lt.mpr hlt
    unfold halfEven
    split_ifs <;> omega
  · rw [halfEven_intCast]

section Integers

variable (hlog : Int.log 2 |q| < p)
include hlog

/-- Below `2 ^ p` every integer is a multiple of the gap. -/
theorem exists_div_ulp (n : ℤ) : ∃ k : ℤ, (n : ℚ) / ulp p q = k := by
  refine ⟨n * 2 ^ ((p - 1 : ℤ) - Int.log 2 |q|).toNat, ?_⟩
  have hexp : Int.log 2 |q| - (p - 1 : ℤ) = -(((p - 1 : ℤ) - Int.log 2 |q|).toNat : ℤ) := by
    omega
  rw [ulp, hexp, zpow_neg, div_inv_eq_mul, zpow_natCast]
  push_cast
  rfl

theorem le_toBits {n : ℤ} (h : n ≤ q) : n ≤ toBits p q := by
  unfold toBits
  split_ifs with hzero
  · rwa [hzero] at h
  · obtain ⟨k, hk⟩ := exists_div_ulp hlog n
    rw [← div_le_iff₀ ulp_pos, hk]
    have hle : (k : ℚ) ≤ q / ulp p q := by
      rw [← hk]
      exact div_le_div_of_nonneg_right h ulp_pos.le
    exact_mod_cast le_halfEven hle

theorem toBits_le {n : ℤ} (h : q ≤ n) : toBits p q ≤ n := by
  unfold toBits
  split_ifs with hzero
  · rwa [hzero] at h
  · obtain ⟨k, hk⟩ := exists_div_ulp hlog n
    rw [← le_div_iff₀ ulp_pos, hk]
    have hle : q / ulp p q ≤ k := by
      rw [← hk]
      exact div_le_div_of_nonneg_right h ulp_pos.le
    exact_mod_cast halfEven_le hle

/-- Rounding carries a number to the next integer at most. -/
theorem floor_toBits_mem : ⌊toBits p q⌋ = ⌊q⌋ ∨ toBits p q = ⌊q⌋ + 1 := by
  have hlow : (⌊q⌋ : ℚ) ≤ toBits p q := le_toBits hlog (Int.floor_le q)
  have hhigh : toBits p q ≤ (⌊q⌋ + 1 : ℤ) := toBits_le hlog (Int.lt_succ_floor q).le
  push_cast at hhigh
  rcases hhigh.lt_or_eq with hlt | heq
  · exact .inl (Int.floor_eq_iff.mpr ⟨hlow, hlt⟩)
  · exact .inr heq

/-- A number that lies below the next integer by more than half a gap is not
carried over. -/
theorem floor_toBits (h : q + ulp p q / 2 < ⌊q⌋ + 1) : ⌊toBits p q⌋ = ⌊q⌋ := by
  apply Int.floor_eq_iff.mpr
  refine ⟨le_toBits hlog (Int.floor_le q), ?_⟩
  have hnear := (abs_le.mp (abs_toBits_sub_le (p := p) (q := q))).2
  linarith

end Integers

theorem log_lt_of_abs_lt {p : ℕ} (hp : 0 < p) {q : ℚ} (h : |q| < 2 ^ p) : Int.log 2 |q| < p := by
  rcases eq_or_ne q 0 with rfl | hq
  · rw [abs_zero, Int.log_zero_right]
    exact_mod_cast hp
  · apply (Int.lt_zpow_iff_log_lt (by norm_num) (abs_pos.mpr hq)).mp
    exact_mod_cast h

/-- An integer of at most `p` bits is one of the numbers rounded to. -/
theorem toBits_intCast {p : ℕ} (hp : 0 < p) {n : ℤ} (h : |n| < 2 ^ p) : toBits p n = n := by
  have hlog : Int.log 2 |(n : ℚ)| < p := log_lt_of_abs_lt hp (by exact_mod_cast h)
  exact le_antisymm (toBits_le hlog le_rfl) (le_toBits hlog le_rfl)

end Rounding

end Jumbox
