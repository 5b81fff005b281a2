import Jumbox.Platform.Uuid

/-!
# Decimal numbers

`str(n)` and `int(text)`, with the limit on the number of digits that both have.
Which characters are decimal digits is a parameter outside of ASCII.
-/

namespace Jumbox

namespace Decimal

/-- `sys.get_int_max_str_digits()` -/
def maxStrDigits : ℕ := 4300

/-- The values of the decimal digits of Unicode. -/
structure Digits where
  value : Char → Option ℕ
  ascii : ∀ c, c.toNat < 128 → value c = if c.isDigit then some (c.toNat - 48) else none

/-- The digits of ASCII alone. -/
def Digits.asciiOnly : Digits where
  value c := if c.isDigit then some (c.toNat - 48) else none
  ascii _ _ := rfl

/-- `str(n)`, where it raises nothing. -/
def write (n : ℤ) : Option Str :=
  if (Nat.toDigits 10 n.natAbs).length ≤ maxStrDigits then some (Str.ofInt n) else none

/-- What `int` skips at both ends: not the separators that `str.strip` takes off. -/
def isBlank (c : Char) : Bool := Str.isSpace c && !(28 ≤ c.toNat && c.toNat ≤ 31)

variable (digits : Digits)

/-- The digits after the first one, with single underscores between them. -/
def readDigits : ℕ → Str → Option ℕ
  | n, [] => some n
  | n, '_' :: c :: rest => (digits.value c).bind fun d => readDigits (10 * n + d) rest
  | n, c :: rest => (digits.value c).bind fun d => readDigits (10 * n + d) rest

def readNat : Str → Option ℕ
  | [] => none
  | c :: rest => (digits.value c).bind fun d => readDigits digits d rest

/-- `int(text)`, where it raises nothing. -/
def read (text : Str) : Option ℤ :=
  let signed := Uuid.readSign ((text.dropWhile isBlank).rdropWhile isBlank)
  (readNat digits signed.2).bind fun n =>
    if (signed.2.filter (· ≠ '_')).length ≤ maxStrDigits then some (signed.1 * n) else none

/-! ## Reading back what was written -/

variable {digits}

theorem value_of_isDigit {c : Char} (h : c.isDigit = true) :
    digits.value c = some (c.toNat - 48) := by
  have hdigit := Str.toNat_of_isDigit h
  rw [digits.ascii c (by omega), if_pos h]

theorem readDigits_eq {s : Str} (h : ∀ c ∈ s, c.isDigit = true) (n : ℕ) :
    readDigits digits n s = some (Nat.ofDigitChars 10 s n) := by
  induction s generalizing n with
  | nil => rfl
  | cons c rest ih =>
      have hc : c.isDigit = true := h c List.mem_cons_self
      have hne : c ≠ '_' := by
        rintro rfl
        exact absurd hc (by decide)
      rw [readDigits.eq_3 _ _ _ _ fun _ _ heq _ => hne heq, value_of_isDigit hc, Option.bind_some,
        ih fun d hd => h d (List.mem_cons_of_mem _ hd), Nat.ofDigitChars_cons]
      rfl

theorem readNat_toDigits (n : ℕ) : readNat digits (Nat.toDigits 10 n) = some n := by
  have hdigits : ∀ c ∈ Nat.toDigits 10 n, c.isDigit = true := fun c hc =>
    Nat.isDigit_of_mem_toDigits (by decide) (by decide) hc
  have hvalue := Nat.ofDigitChars_ten_toDigits (n := n)
  obtain ⟨c, rest, heq⟩ := List.exists_cons_of_ne_nil (Nat.toDigits_ne_nil (n := n) (b := 10))
  rw [heq] at hdigits hvalue ⊢
  rw [readNat, value_of_isDigit (hdigits c List.mem_cons_self), Option.bind_some,
    readDigits_eq fun d hd => hdigits d (List.mem_cons_of_mem _ hd), ← hvalue,
    Nat.ofDigitChars_cons]
  simp

/-- A written number is its digits, after a minus sign if it is negative. -/
theorem ofInt_eq (n : ℤ) :
    Str.ofInt n = if 0 ≤ n then Nat.toDigits 10 n.natAbs else '-' :: Nat.toDigits 10 n.natAbs := by
  cases n with
  | ofNat m =>
      have hnonneg : 0 ≤ Int.ofNat m := Int.natCast_nonneg m
      rw [if_pos hnonneg]
      show (Nat.repr m).toList = _
      rw [Nat.repr_eq_ofList_toDigits, String.toList_ofList]
      rfl
  | negSucc m =>
      rw [if_neg (Int.negSucc_lt_zero m).not_ge]
      show ("-" ++ Nat.repr (m + 1)).toList = _
      rw [Nat.repr_eq_ofList_toDigits, String.toList_append, String.toList_ofList,
        String.toList_ofList]
      rfl

/-- Nothing of a written number is blank. -/
theorem trim_ofInt (n : ℤ) :
    ((Str.ofInt n).dropWhile isBlank).rdropWhile isBlank = Str.ofInt n := by
  have hblank : ∀ c ∈ Str.ofInt n, isBlank c = false := by
    have hdigit : ∀ c ∈ Nat.toDigits 10 n.natAbs, isBlank c = false := by
      intro c hc
      have hspace := Str.isSpace_of_isDigit (Nat.isDigit_of_mem_toDigits (by decide) (by decide) hc)
      rw [isBlank, hspace, Bool.false_and]
    rw [ofInt_eq]
    split
    · exact hdigit
    · intro c hc
      rcases List.mem_cons.mp hc with rfl | hc
      · decide
      · exact hdigit c hc
  have hfront : (Str.ofInt n).dropWhile isBlank = Str.ofInt n := by
    apply List.dropWhile_eq_self_iff.mpr
    intro hpos
    rw [hblank _ (List.getElem_mem hpos)]
    decide
  rw [hfront]
  apply List.rdropWhile_eq_self_iff.mpr
  intro hne
  rw [hblank _ (List.getLast_mem hne)]
  decide

theorem readSign_ofInt (n : ℤ) :
    Uuid.readSign (Str.ofInt n) = (if 0 ≤ n then 1 else -1, Nat.toDigits 10 n.natAbs) := by
  rw [ofInt_eq]
  split
  · obtain ⟨c, rest, heq⟩ :=
      List.exists_cons_of_ne_nil (Nat.toDigits_ne_nil (n := n.natAbs) (b := 10))
    have hc : c.isDigit = true := by
      apply Nat.isDigit_of_mem_toDigits (b := 10) (n := n.natAbs) (by decide) (by decide)
      rw [heq]
      exact List.mem_cons_self
    rw [heq]
    unfold Uuid.readSign
    split
    · rename_i hsame
      rw [(List.cons.inj hsame).1] at hc
      exact absurd hc (by decide)
    · rename_i hsame
      rw [(List.cons.inj hsame).1] at hc
      exact absurd hc (by decide)
    · rfl
  · rfl

/-- Where writing a number raises nothing, the text is read back as the number. -/
theorem read_write {n : ℤ} {text : Str} (h : write n = some text) : read digits text = some n := by
  unfold write at h
  split at h
  · rename_i hlength
    obtain rfl := Option.some.inj h
    have hdigits : (Nat.toDigits 10 n.natAbs).filter (· ≠ '_') = Nat.toDigits 10 n.natAbs := by
      apply List.filter_eq_self.mpr
      intro c hc
      have hdigit := Nat.isDigit_of_mem_toDigits (by decide) (by decide) hc
      apply decide_eq_true
      rintro rfl
      exact absurd hdigit (by decide)
    have hsign : (if 0 ≤ n then 1 else -1) * (n.natAbs : ℤ) = n := by
      split <;> omega
    unfold read
    dsimp only
    rw [trim_ofInt, readSign_ofInt, readNat_toDigits, Option.bind_some, hdigits, if_pos hlength,
      hsign]
  · cases h

end Decimal

end Jumbox
