import Jumbox.Domain.Basic
import Jumbox.Library.Gregorian
import Mathlib.Tactic.Ring

/-!
# The ISO texts of instants

`datetime.isoformat` of a value in UTC, and `datetime.fromisoformat`, of which only
the texts of that form are modelled.
-/

namespace Jumbox

/-- The clock shows a `datetime`. -/
def OnClock (now : ℤ) : Prop := -62135596800000000 ≤ now ∧ now ≤ maxInstant

/-- The seconds between the first of January of the year 1 and the epoch. -/
def epochSeconds : ℤ := 62135596800

/-! ## Numbers of fixed width -/

def padded : ℕ → ℕ → Str
  | 0, _ => []
  | width + 1, n => Nat.digitChar (n / 10 ^ width % 10) :: padded width n

/-- `width` digits behind those of `acc`. -/
def readFixed : ℕ → ℕ → Str → Option (ℕ × Str)
  | 0, acc, text => some (acc, text)
  | _ + 1, _, [] => none
  | width + 1, acc, c :: rest =>
      if c.isDigit then readFixed width (10 * acc + (c.toNat - 48)) rest else none

theorem digitChar_spec : ∀ d < 10,
    (Nat.digitChar d).isDigit = true ∧ (Nat.digitChar d).toNat - 48 = d := by
  decide

theorem readFixed_padded (width acc n : ℕ) (rest : Str) :
    readFixed width acc (padded width n ++ rest) =
      some (acc * 10 ^ width + n % 10 ^ width, rest) := by
  induction width generalizing acc with
  | zero => simp [readFixed, padded, Nat.mod_one]
  | succ width ih =>
      obtain ⟨hdigit, hvalue⟩ := digitChar_spec (n / 10 ^ width % 10) (Nat.mod_lt _ (by decide))
      rw [padded, List.cons_append, readFixed, if_pos hdigit, hvalue, ih]
      congr 2
      rw [Nat.mod_pow_succ, pow_succ]
      ring

theorem readFixed_padded_zero {width n : ℕ} (h : n < 10 ^ width) (rest : Str) :
    readFixed width 0 (padded width n ++ rest) = some (n, rest) := by
  rw [readFixed_padded, zero_mul, zero_add, Nat.mod_eq_of_lt h]

/-! ## `isoformat` -/

structure Clock where
  hour : ℕ
  minute : ℕ
  second : ℕ
  microsecond : ℕ

/-- The time of a day, from its microseconds. -/
def Clock.ofMicros (n : ℕ) : Clock where
  hour := n / 3600000000
  minute := n / 60000000 % 60
  second := n / 1000000 % 60
  microsecond := n % 1000000

def Clock.toMicros (c : Clock) : ℕ :=
  ((c.hour * 60 + c.minute) * 60 + c.second) * 1000000 + c.microsecond

/-- The microseconds since the first of January of the year 1. -/
def sinceYearOne (t : ℤ) : ℕ := (t + epochSeconds * 1000000).toNat

def dateText (d : Gregorian.Date) : Str :=
  padded 4 d.year ++ '-' :: (padded 2 d.month ++ '-' :: padded 2 d.day)

def clockText (c : Clock) : Str :=
  padded 2 c.hour ++ ':' :: (padded 2 c.minute ++ ':' :: (padded 2 c.second ++
    if c.microsecond = 0 then [] else '.' :: padded 6 c.microsecond))

def isoformat (t : ℤ) : Str :=
  dateText (Gregorian.ofOrdinal (sinceYearOne t / 86400000000 + 1)) ++
    'T' :: (clockText (Clock.ofMicros (sinceYearOne t % 86400000000)) ++ "+00:00".toList)

/-! ## `fromisoformat` -/

/-- The number of the given width, and what comes behind the character after it. -/
def readThen (width : ℕ) (after : Char) (text : Str) : Option (ℕ × Str) :=
  (readFixed width 0 text).bind fun p =>
    match p.2 with
    | [] => none
    | c :: rest => if c = after then some (p.1, rest) else none

def readFractionOf (text : Str) : Option (ℕ × Str) :=
  match text with
  | '.' :: rest => readFixed 6 0 rest
  | _ => some (0, text)

/-- The instant of a date and a time in UTC, if both exist. -/
def instant (d : Gregorian.Date) (c : Clock) : Option ℤ :=
  if 1 ≤ d.year ∧ 1 ≤ d.month ∧ d.month ≤ 12 ∧ 1 ≤ d.day ∧
      d.day ≤ Gregorian.daysInMonth (Gregorian.isLeap d.year) d.month ∧
      c.hour < 24 ∧ c.minute < 60 ∧ c.second < 60 then
    some (((Gregorian.toOrdinal d - 1) * 86400000000 + c.toMicros : ℕ) - epochSeconds * 1000000)
  else none

def fromisoformat (text : Str) : Option ℤ := do
  let (year, text) ← readThen 4 '-' text
  let (month, text) ← readThen 2 '-' text
  let (day, text) ← readThen 2 'T' text
  let (hour, text) ← readThen 2 ':' text
  let (minute, text) ← readThen 2 ':' text
  let (second, text) ← readFixed 2 0 text
  let (microsecond, text) ← readFractionOf text
  if text = "+00:00".toList then instant ⟨year, month, day⟩ ⟨hour, minute, second, microsecond⟩
  else none

/-! ## An instant is read back -/

theorem readThen_padded {width n : ℕ} (h : n < 10 ^ width) (after : Char) (rest : Str) :
    readThen width after (padded width n ++ after :: rest) = some (n, rest) := by
  rw [readThen, readFixed_padded_zero h, Option.bind_some]
  exact if_pos rfl

theorem toMicros_ofMicros (n : ℕ) : (Clock.ofMicros n).toMicros = n := by
  simp only [Clock.toMicros, Clock.ofMicros]
  omega

theorem year_lt {n : ℕ} (h₁ : 1 ≤ n) (h : n ≤ 3652059) : (Gregorian.ofOrdinal n).year < 10000 := by
  have hordinal := (Gregorian.ofOrdinal_spec h₁).1
  rw [← not_le]
  intro hyear
  rw [Gregorian.toOrdinal, Gregorian.daysBeforeYear] at hordinal
  have hday := (Gregorian.ofOrdinal_spec h₁).2.2.2.2.1
  omega

theorem daysInMonth_lt (leap : Bool) (month : ℕ) (h : month ≤ 12) :
    Gregorian.daysInMonth leap month < 100 := by
  revert leap month
  decide

theorem readFractionOf_text {n : ℕ} (h : n < 1000000) :
    readFractionOf ((if n = 0 then [] else '.' :: padded 6 n) ++ "+00:00".toList) =
      some (n, "+00:00".toList) := by
  split
  · rename_i hzero
    rw [hzero]
    rfl
  · rw [List.cons_append, readFractionOf]
    exact readFixed_padded_zero h _

/-- The texts of a date and a time that exist are read back. -/
theorem fromisoformat_text {d : Gregorian.Date} {c : Clock} (hyear : d.year < 10000)
    (hvalid : Gregorian.Valid d) (hhour : c.hour < 24) (hminute : c.minute < 60)
    (hsecond : c.second < 60) (hmicro : c.microsecond < 1000000) :
    fromisoformat (dateText d ++ 'T' :: (clockText c ++ "+00:00".toList)) =
      some (((Gregorian.toOrdinal d - 1) * 86400000000 + c.toMicros : ℕ) -
        epochSeconds * 1000000) := by
  obtain ⟨hy, hm, hm', hd, hd'⟩ := hvalid
  have hday := daysInMonth_lt (Gregorian.isLeap d.year) d.month hm'
  have htext : dateText d ++ 'T' :: (clockText c ++ "+00:00".toList) =
      padded 4 d.year ++ '-' :: (padded 2 d.month ++ '-' :: (padded 2 d.day ++
        'T' :: (padded 2 c.hour ++ ':' :: (padded 2 c.minute ++ ':' :: (padded 2 c.second ++
          ((if c.microsecond = 0 then [] else '.' :: padded 6 c.microsecond) ++
            "+00:00".toList)))))) := by
    simp only [dateText, clockText, List.append_assoc, List.cons_append]
  rw [htext, fromisoformat]
  simp only [readThen_padded (show d.year < 10 ^ 4 by omega),
    readThen_padded (show d.month < 10 ^ 2 by omega),
    readThen_padded (show d.day < 10 ^ 2 by omega),
    readThen_padded (show c.hour < 10 ^ 2 by omega),
    readThen_padded (show c.minute < 10 ^ 2 by omega),
    readFixed_padded_zero (show c.second < 10 ^ 2 by omega), readFractionOf_text hmicro,
    bind, Option.bind_some, if_true]
  exact if_pos ⟨hy, hm, hm', hd, hd', hhour, hminute, hsecond⟩

theorem fromisoformat_isoformat {t : ℤ} (h : OnClock t) : fromisoformat (isoformat t) = some t := by
  obtain ⟨hlow, hhigh⟩ := h
  unfold maxInstant at hhigh
  obtain ⟨m, hm⟩ : ∃ m, m = sinceYearOne t := ⟨_, rfl⟩
  have hmt : (m : ℤ) = t + epochSeconds * 1000000 := by
    rw [hm, sinceYearOne, epochSeconds]
    omega
  have hdays : m / 86400000000 + 1 ≤ 3652059 := by
    unfold epochSeconds at hmt
    omega
  obtain ⟨hordinal, hvalid⟩ := Gregorian.ofOrdinal_spec (n := m / 86400000000 + 1) (by omega)
  rw [isoformat, ← hm, fromisoformat_text (year_lt (by omega) hdays) hvalid
    (show _ / 3600000000 < 24 by omega) (Nat.mod_lt _ (by decide)) (Nat.mod_lt _ (by decide))
    (Nat.mod_lt _ (by decide)), hordinal, toMicros_ofMicros]
  congr 1
  omega

end Jumbox
