import Mathlib.Data.List.GetD
import Mathlib.Probability.Distributions.Uniform
import Jumbox.Library.Positional
import Jumbox.Uploads.TransferService

/-!
# Transfer codes as numerals

`TransferCodeGenerator.generate` for every length. A code is the numeral of the
drawn value in base 32, so the values below `32 ^ n` and the texts of `n` letters
correspond one to one, and a uniform draw gives every text the same chance.
-/

namespace Jumbox

namespace TransferCodeGenerator

open TransferService (base32Alphabet generateLoop)
open scoped ENNReal

/-- `generate(length)` on the value that `secrets.randbelow(32 ** length)` returns. -/
def generate (length : ℕ) (value : Fin (32 ^ length)) : Str := generateLoop length value []

/-- The texts of `n` letters of the alphabet. -/
def Codes (n : ℕ) : Set Str := {code | code.length = n ∧ ∀ c ∈ code, c ∈ base32Alphabet}

/-- The length that the service asks for. -/
theorem generate_six (value : Fin (32 ^ 6)) : generate 6 value = TransferService.generate value :=
  rfl

/-- `BASE32_ALPHABET[remainder]` -/
def letter (remainder : ℕ) : Char := base32Alphabet.getD remainder 'A'

theorem generateLoop_eq (n value : ℕ) (reversed : Str) :
    generateLoop n value reversed = Positional.divLoop 32 letter n value reversed := by
  induction n generalizing value reversed with
  | zero => rfl
  | succ n ih => exact ih _ _

/-- No letter stands twice in the alphabet. -/
theorem letter_injOn : Set.InjOn letter {d | d < 32} := by
  have hpairs : ∀ d < 32, ∀ e < 32, letter d = letter e → d = e := by decide +kernel
  intro d hd e he hsame
  exact hpairs d hd e he hsame

theorem mem_base32Alphabet_iff {c : Char} : c ∈ base32Alphabet ↔ ∃ d < 32, letter d = c := by
  have hlength : base32Alphabet.length = 32 := by decide
  constructor
  · intro hc
    obtain ⟨d, hd, rfl⟩ := List.mem_iff_getElem.mp hc
    exact ⟨d, hlength ▸ hd, List.getD_eq_getElem _ _ hd⟩
  · rintro ⟨d, hd, rfl⟩
    have hd' : d < base32Alphabet.length := hlength ▸ hd
    rw [letter, List.getD_eq_getElem _ _ hd']
    exact List.getElem_mem hd'

/-- The loop numbers the codes. -/
theorem bijOn_generateLoop (n : ℕ) :
    Set.BijOn (fun value => generateLoop n value []) {value | value < 32 ^ n} (Codes n) := by
  have hnumeral := Positional.bijOn_numeral (b := 32) (by decide) letter_injOn n
  have hcodes : {text | text.length = n ∧ ∀ c ∈ text, ∃ d < 32, letter d = c} = Codes n := by
    simp only [Codes, mem_base32Alphabet_iff]
  rw [hcodes] at hnumeral
  refine hnumeral.congr fun value _ => ?_
  exact (generateLoop_eq n value []).symm

theorem generate_injective (n : ℕ) : Function.Injective (generate n) := by
  intro v w hsame
  exact Fin.ext ((bijOn_generateLoop n).injOn v.isLt w.isLt hsame)

theorem range_generate (n : ℕ) : Set.range (generate n) = Codes n := by
  ext code
  constructor
  · rintro ⟨v, rfl⟩
    exact (bijOn_generateLoop n).mapsTo v.isLt
  · intro hcode
    obtain ⟨value, hvalue, rfl⟩ := (bijOn_generateLoop n).surjOn hcode
    exact ⟨⟨value, hvalue⟩, rfl⟩

/-- The chance of a code that a draw among `32 ^ n` values gives. -/
theorem map_uniform_generate (n : ℕ) (v : Fin (32 ^ n)) :
    (PMF.uniformOfFintype (Fin (32 ^ n))).map (generate n) (generate n v) =
      ((32 : ℝ≥0∞) ^ n)⁻¹ := by
  rw [PMF.map_apply, tsum_eq_single v]
  · rw [if_pos rfl, PMF.uniformOfFintype_apply, Fintype.card_fin]
    norm_cast
  · intro w hw
    apply if_neg
    intro hsame
    exact hw (generate_injective n hsame).symm

/-- Different values have different codes, every text of the length is the code of a
value, and all of them come up with the same chance. -/
theorem generate_exact_numbering (n : ℕ) :
    Function.Injective (generate n) ∧ Set.range (generate n) = Codes n ∧
      ∀ code ∈ Codes n,
        (PMF.uniformOfFintype (Fin (32 ^ n))).map (generate n) code = ((32 : ℝ≥0∞) ^ n)⁻¹ := by
  refine ⟨generate_injective n, range_generate n, ?_⟩
  intro code hcode
  rw [← range_generate n] at hcode
  obtain ⟨v, rfl⟩ := hcode
  exact map_uniform_generate n v

end TransferCodeGenerator

end Jumbox
