import Mathlib.Data.Nat.Digits.Lemmas
import Mathlib.Data.Set.Function

/-!
# Numerals of a fixed length

A loop that divides by the base and puts the letter of each remainder in front
writes a numeral, the most significant letter first. The numerals of length `n`
number exactly the values below `b ^ n` (`bijOn_numeral`).
-/

namespace Jumbox

universe u

namespace Positional

variable {α : Type u} (b : ℕ) (letter : ℕ → α)

/-- `n` divisions; the letters written so far are `written`. -/
def divLoop : ℕ → ℕ → List α → List α
  | 0, _, written => written
  | n + 1, value, written => divLoop n (value / b) (letter (value % b) :: written)

def numeral (n value : ℕ) : List α := divLoop b letter n value []

variable {b letter}

/-- The least significant digit, and the digits of the quotient. -/
theorem digitsAppend_succ (hb : 1 < b) (n value : ℕ) :
    Nat.digitsAppend b (n + 1) value = value % b :: Nat.digitsAppend b n (value / b) := by
  unfold Nat.digitsAppend
  rcases Nat.eq_zero_or_pos value with rfl | hpos
  · simp [List.replicate_succ]
  · rw [Nat.digits_def' hb hpos, List.cons_append, List.length_cons, Nat.add_sub_add_right]

theorem divLoop_eq (hb : 1 < b) {n value : ℕ} (hvalue : value < b ^ n) (written : List α) :
    divLoop b letter n value written =
      ((Nat.digitsAppend b n value).map letter).reverse ++ written := by
  induction n generalizing value written with
  | zero =>
      obtain rfl : value = 0 := by simpa using hvalue
      simp [divLoop, Nat.digitsAppend]
  | succ n ih =>
      have hquotient : value / b < b ^ n := by
        apply Nat.div_lt_of_lt_mul
        rwa [← pow_succ']
      rw [divLoop, ih hquotient, digitsAppend_succ hb, List.map_cons, List.reverse_cons,
        List.append_assoc]
      rfl

theorem bijOn_map_letter (hletter : Set.InjOn letter {d | d < b}) (n : ℕ) :
    Set.BijOn (List.map letter) {digits | digits.length = n ∧ ∀ d ∈ digits, d < b}
      {text | text.length = n ∧ ∀ c ∈ text, ∃ d < b, letter d = c} := by
  refine ⟨?_, ?_, ?_⟩
  · rintro digits ⟨hlength, hlt⟩
    refine ⟨(List.length_map letter).trans hlength, ?_⟩
    intro c hc
    obtain ⟨d, hd, rfl⟩ := List.mem_map.mp hc
    exact ⟨d, hlt d hd, rfl⟩
  · -- letters are read back one by one
    have hread := hletter.leftInvOn_invFunOn
    have hreads : Set.LeftInvOn (List.map (Function.invFunOn letter {d | d < b})) (List.map letter)
        {digits | digits.length = n ∧ ∀ d ∈ digits, d < b} := by
      rintro digits ⟨-, hlt⟩
      rw [List.map_map]
      conv => rhs; rw [← List.map_id digits]
      exact List.map_congr_left fun d hd => hread (hlt d hd)
    exact hreads.injOn
  · rintro text ⟨hlength, hletters⟩
    choose! digit hdigit hread using hletters
    refine ⟨text.map digit, ⟨?_, ?_⟩, ?_⟩
    · exact (List.length_map digit).trans hlength
    · intro d hd
      obtain ⟨c, hc, rfl⟩ := List.mem_map.mp hd
      exact hdigit c hc
    · rw [List.map_map]
      conv => rhs; rw [← List.map_id text]
      exact List.map_congr_left hread

/-- Every text of `n` letters is the numeral of one value below `b ^ n`. -/
theorem bijOn_numeral (hb : 1 < b) (hletter : Set.InjOn letter {d | d < b}) (n : ℕ) :
    Set.BijOn (numeral b letter n) {value | value < b ^ n}
      {text | text.length = n ∧ ∀ c ∈ text, ∃ d < b, letter d = c} := by
  have hreverse : Set.BijOn List.reverse
      {text | text.length = n ∧ ∀ c ∈ text, ∃ d < b, letter d = c}
      {text | text.length = n ∧ ∀ c ∈ text, ∃ d < b, letter d = c} := by
    refine ⟨?_, List.reverse_injective.injOn, ?_⟩
    · rintro text ⟨hlength, hletters⟩
      exact ⟨List.length_reverse.trans hlength, fun c hc => hletters c (List.mem_reverse.mp hc)⟩
    · rintro text ⟨hlength, hletters⟩
      refine ⟨text.reverse, ⟨List.length_reverse.trans hlength, ?_⟩, List.reverse_reverse text⟩
      exact fun c hc => hletters c (List.mem_reverse.mp hc)
  have hall := hreverse.comp ((bijOn_map_letter hletter n).comp (Nat.bijOn_digitsAppend hb n))
  refine hall.congr ?_
  intro value hvalue
  rw [numeral, divLoop_eq hb hvalue, List.append_nil]
  rfl

end Positional

end Jumbox
