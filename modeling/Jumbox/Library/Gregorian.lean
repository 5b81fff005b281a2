import Mathlib.Data.Nat.Notation
import Mathlib.Tactic.Basic

/-!
# The Gregorian calendar

Dates of the proleptic calendar and the numbers of their days, where day 1 is the
first of January of the year 1. The date of a day is found in cycles of 400, 100, 4
years and one year; within a year the month is estimated and then corrected.
-/

namespace Jumbox

namespace Gregorian

structure Date where
  year : ℕ
  month : ℕ
  day : ℕ
deriving DecidableEq

def isLeap (year : ℕ) : Bool := year % 4 = 0 && (year % 100 ≠ 0 || year % 400 = 0)

/-- The days before a month, in a year of 365 days. -/
def daysBefore (month : ℕ) : ℕ :=
  [0, 0, 31, 59, 90, 120, 151, 181, 212, 243, 273, 304, 334].getD month 0

def daysIn (month : ℕ) : ℕ := [0, 31, 28, 31, 30, 31, 30, 31, 31, 30, 31, 30, 31].getD month 0

def daysBeforeMonth (leap : Bool) (month : ℕ) : ℕ :=
  daysBefore month + if 2 < month && leap then 1 else 0

def daysInMonth (leap : Bool) (month : ℕ) : ℕ := daysIn month + if month = 2 && leap then 1 else 0

def daysBeforeYear (year : ℕ) : ℕ :=
  (year - 1) * 365 + (year - 1) / 4 - (year - 1) / 100 + (year - 1) / 400

def toOrdinal (d : Date) : ℕ :=
  daysBeforeYear d.year + daysBeforeMonth (isLeap d.year) d.month + d.day

/-- The month and the day of a day of the year, counted from 0. -/
def monthOf (leap : Bool) (n : ℕ) : ℕ × ℕ :=
  let month := (n + 50) / 32
  let preceding := daysBeforeMonth leap month
  -- the estimate may be one month too late
  if n < preceding then (month - 1, n - (preceding - daysInMonth leap (month - 1)) + 1)
  else (month, n - preceding + 1)

def ofOrdinal (ordinal : ℕ) : Date :=
  let n := ordinal - 1
  let n400 := n / 146097
  let n := n % 146097
  let n100 := n / 36524
  let n := n % 36524
  let n4 := n / 1461
  let n := n % 1461
  let n1 := n / 365
  let n := n % 365
  let year := n400 * 400 + 1 + n100 * 100 + n4 * 4 + n1
  -- the last day of a cycle
  if n1 = 4 ∨ n100 = 4 then ⟨year - 1, 12, 31⟩
  else
    let month := monthOf (n1 = 3 && (n4 ≠ 24 || n100 = 3)) n
    ⟨year, month.1, month.2⟩

/-- A date that is on the calendar. -/
def Valid (d : Date) : Prop :=
  1 ≤ d.year ∧ 1 ≤ d.month ∧ d.month ≤ 12 ∧ 1 ≤ d.day ∧ d.day ≤ daysInMonth (isLeap d.year) d.month

theorem monthOf_spec : ∀ leap, ∀ n < 366, n < (if leap then 366 else 365) →
    daysBeforeMonth leap (monthOf leap n).1 + (monthOf leap n).2 = n + 1 ∧
      1 ≤ (monthOf leap n).1 ∧ (monthOf leap n).1 ≤ 12 ∧
      1 ≤ (monthOf leap n).2 ∧ (monthOf leap n).2 ≤ daysInMonth leap (monthOf leap n).1 := by
  decide +kernel

section Cycles

variable {a b c d : ℕ} (hb : b ≤ 3) (hc : c ≤ 24) (hd : d ≤ 3)
include hb hc hd

theorem daysBeforeYear_cycles : daysBeforeYear (a * 400 + 1 + b * 100 + c * 4 + d) =
    a * 146097 + b * 36524 + c * 1461 + d * 365 := by
  have hyear : a * 400 + 1 + b * 100 + c * 4 + d - 1 = a * 400 + b * 100 + c * 4 + d := by omega
  have h4 : (a * 400 + b * 100 + c * 4 + d) / 4 = a * 100 + b * 25 + c := by omega
  have h100 : (a * 400 + b * 100 + c * 4 + d) / 100 = a * 4 + b := by omega
  have h400 : (a * 400 + b * 100 + c * 4 + d) / 400 = a := by omega
  rw [daysBeforeYear, hyear, h4, h100, h400]
  omega

theorem isLeap_cycles : isLeap (a * 400 + 1 + b * 100 + c * 4 + d) =
    (d = 3 && (c ≠ 24 || b = 3) : Bool) := by
  rw [Bool.eq_iff_iff]
  simp only [isLeap, Bool.and_eq_true, Bool.or_eq_true, decide_eq_true_eq]
  omega

end Cycles

theorem last_of_leapYear {y : ℕ} (hy : 1 ≤ y) (h : isLeap y = true) :
    toOrdinal ⟨y, 12, 31⟩ = daysBeforeYear y + 366 ∧ Valid ⟨y, 12, 31⟩ := by
  have hdays : daysBeforeMonth true 12 = 335 ∧ daysInMonth true 12 = 31 := by decide
  constructor
  · rw [toOrdinal, h, hdays.1]
    show daysBeforeYear y + 335 + 31 = daysBeforeYear y + 366
    omega
  · refine ⟨hy, (by decide : 1 ≤ 12), (by decide : 12 ≤ 12), (by decide : 1 ≤ 31), ?_⟩
    exact (congrArg (daysInMonth · 12) h).trans hdays.2 ▸ Nat.le_refl 31

/-- The days of a date that is found are the days one started with. -/
theorem ofOrdinal_spec {n : ℕ} (h : 1 ≤ n) :
    toOrdinal (ofOrdinal n) = n ∧ Valid (ofOrdinal n) := by
  obtain ⟨a, ha⟩ : ∃ a, a = (n - 1) / 146097 := ⟨_, rfl⟩
  obtain ⟨r, hr⟩ : ∃ r, r = (n - 1) % 146097 := ⟨_, rfl⟩
  obtain ⟨b, hb⟩ : ∃ b, b = r / 36524 := ⟨_, rfl⟩
  obtain ⟨s, hs⟩ : ∃ s, s = r % 36524 := ⟨_, rfl⟩
  obtain ⟨c, hc⟩ : ∃ c, c = s / 1461 := ⟨_, rfl⟩
  obtain ⟨t, ht⟩ : ∃ t, t = s % 1461 := ⟨_, rfl⟩
  obtain ⟨d, hd⟩ : ∃ d, d = t / 365 := ⟨_, rfl⟩
  obtain ⟨u, hu⟩ : ∃ u, u = t % 365 := ⟨_, rfl⟩
  have hsum : n = a * 146097 + b * 36524 + c * 1461 + d * 365 + u + 1 := by omega
  have hc24 : c ≤ 24 := by omega
  rw [ofOrdinal]
  simp only [← ha, ← hr, ← hb, ← hs, ← hc, ← ht, ← hd, ← hu]
  split
  · rename_i hlast
    -- the year that ends is a leap year
    rcases hlast with hd4 | hb4
    · have hyear : a * 400 + 1 + b * 100 + c * 4 + d - 1 = a * 400 + 1 + b * 100 + c * 4 + 3 := by
        omega
      have hleap : isLeap (a * 400 + 1 + b * 100 + c * 4 + 3) = true := by
        rw [isLeap_cycles (by omega) hc24 (Nat.le_refl _)]
        simp only [Bool.and_eq_true, Bool.or_eq_true, decide_eq_true_eq]
        exact ⟨trivial, .inl (by omega)⟩
      rw [hyear]
      obtain ⟨hlast, hvalid⟩ := last_of_leapYear (by omega) hleap
      refine ⟨?_, hvalid⟩
      rw [hlast, daysBeforeYear_cycles (by omega) hc24 (Nat.le_refl _)]
      omega
    · have hyear : a * 400 + 1 + b * 100 + c * 4 + d - 1 = a * 400 + 1 + 3 * 100 + 24 * 4 + 3 := by
        omega
      have hleap : isLeap (a * 400 + 1 + 3 * 100 + 24 * 4 + 3) = true := by
        rw [isLeap_cycles (Nat.le_refl _) (Nat.le_refl _) (Nat.le_refl _)]
        decide
      rw [hyear]
      obtain ⟨hlast, hvalid⟩ := last_of_leapYear (by omega) hleap
      refine ⟨?_, hvalid⟩
      rw [hlast, daysBeforeYear_cycles (Nat.le_refl _) (Nat.le_refl _) (Nat.le_refl _)]
      omega
  · rename_i hinner
    rw [not_or] at hinner
    have hb3 : b ≤ 3 := by omega
    have hd3 : d ≤ 3 := by omega
    rw [← isLeap_cycles (a := a) hb3 hc24 hd3]
    obtain ⟨leap, hleap⟩ : ∃ leap, leap = isLeap (a * 400 + 1 + b * 100 + c * 4 + d) := ⟨_, rfl⟩
    obtain ⟨hdays, hmonth, hmonth', hday, hday'⟩ := monthOf_spec leap u (by omega)
      (by split <;> omega)
    rw [← hleap]
    constructor
    · rw [toOrdinal]
      dsimp only
      rw [daysBeforeYear_cycles hb3 hc24 hd3, ← hleap]
      omega
    · refine ⟨?_, hmonth, hmonth', hday, ?_⟩
      · show 1 ≤ a * 400 + 1 + b * 100 + c * 4 + d
        omega
      · dsimp only
        rw [← hleap]
        exact hday'

end Gregorian

end Jumbox
