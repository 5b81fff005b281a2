import Mathlib.Data.List.Basic
import Mathlib.Data.List.DropRight

/-!
# Strings, bytes and hexadecimal text

A Python `str` is a sequence of code points, so the model's strings are lists of
characters and literals are written `"text".toList`. `lower` and `upper` fold
ASCII letters only: the strings compared after folding are hexadecimal digests
and share codes, and no character outside ASCII folds to a character of either.
-/

namespace Jumbox

abbrev Bytes := List UInt8

abbrev Str := List Char

namespace Str

def lower (s : Str) : Str := s.map Char.toLower

def upper (s : Str) : Str := s.map Char.toUpper

/-- The characters `str.strip` removes. -/
def isSpace (c : Char) : Bool :=
  let n := c.toNat
  (9 ≤ n && n ≤ 13) || (28 ≤ n && n ≤ 32) || n == 0x85 || n == 0xa0 || n == 0x1680 ||
    (0x2000 ≤ n && n ≤ 0x200a) || n == 0x2028 || n == 0x2029 || n == 0x202f ||
    n == 0x205f || n == 0x3000

def strip (s : Str) : Str := (s.dropWhile isSpace).rdropWhile isSpace

/-- `s.replace(a, b)` for single characters. -/
def replace (a b : Char) (s : Str) : Str := s.map fun c => if c = a then b else c

/-- `s.replace(text, "")`, where the next `skip` characters are already removed. -/
def removeFrom (text : Str) : ℕ → Str → Str
  | _, [] => []
  | skip + 1, _ :: rest => removeFrom text skip rest
  | 0, c :: rest =>
      if text <+: c :: rest then removeFrom text (text.length - 1) rest
      else c :: removeFrom text 0 rest

def remove (text s : Str) : Str := removeFrom text 0 s

theorem remove_eq_self {text s : Str} {c : Char} (h : c ∈ text) (hs : c ∉ s) :
    remove text s = s := by
  unfold remove
  induction s with
  | nil => rfl
  | cons d rest ih =>
      rw [removeFrom, if_neg fun hpre => hs (hpre.subset h)]
      rw [ih fun hmem => hs (List.mem_cons_of_mem _ hmem)]

/-- What `strip` takes off, in front and behind. -/
theorem strip_spec (s : Str) : ∃ pre post, (∀ c ∈ pre, isSpace c = true) ∧
    (∀ c ∈ post, isSpace c = true) ∧ s = pre ++ strip s ++ post := by
  refine ⟨s.takeWhile isSpace, (s.dropWhile isSpace).rtakeWhile isSpace, ?_, ?_, ?_⟩
  · intro c hc
    exact List.mem_takeWhile_imp hc
  · intro c hc
    exact List.mem_rtakeWhile_imp hc
  · rw [List.append_assoc, strip, List.rdropWhile_append_rtakeWhile, List.takeWhile_append_dropWhile]

theorem strip_eq_self {s : Str} (h : ∀ c ∈ s, isSpace c = false) : strip s = s := by
  obtain ⟨pre, post, hpre, hpost, heq⟩ := strip_spec s
  have hnone : ∀ x : Str, (∀ c ∈ x, isSpace c = true) → (∀ c ∈ x, c ∈ s) → x = [] := by
    intro x hx hsub
    refine List.eq_nil_iff_forall_not_mem.mpr fun c hc => ?_
    have hspace := hx c hc
    rw [h c (hsub c hc)] at hspace
    cases hspace
  have hpre' : pre = [] := hnone pre hpre fun c hc => by rw [heq]; simp [hc]
  have hpost' : post = [] := hnone post hpost fun c hc => by rw [heq]; simp [hc]
  rw [hpre', hpost', List.nil_append, List.append_nil] at heq
  exact heq.symm

/-- Blanks around a text that starts and ends with something else. -/
theorem strip_surrounded {pre post mid : Str} {a b : Char} (hpre : ∀ c ∈ pre, isSpace c = true)
    (hpost : ∀ c ∈ post, isSpace c = true) (ha : isSpace a = false) (hb : isSpace b = false) :
    strip (pre ++ (a :: (mid ++ [b])) ++ post) = a :: (mid ++ [b]) := by
  rw [strip, List.append_assoc, List.dropWhile_append_of_pos hpre, List.cons_append,
    List.dropWhile_cons_of_neg (by simp [ha]), ← List.cons_append, List.rdropWhile,
    List.reverse_append, List.dropWhile_append_of_pos (by simpa using hpost), ← List.rdropWhile]
  apply List.rdropWhile_eq_self_iff.mpr
  intro hne
  simp [hb]

theorem isUpper_iff {c : Char} : c.isUpper = true ↔ 65 ≤ c.toNat ∧ c.toNat ≤ 90 := by
  show decide (c.val ≥ 'A'.val ∧ c.val ≤ 'Z'.val) = true ↔ _
  rw [decide_eq_true_eq]
  exact and_congr UInt32.le_iff_toNat_le UInt32.le_iff_toNat_le

theorem isLower_iff {c : Char} : c.isLower = true ↔ 97 ≤ c.toNat ∧ c.toNat ≤ 122 := by
  show (decide (c.val ≥ 'a'.val) && decide (c.val ≤ 'z'.val)) = true ↔ _
  rw [Bool.and_eq_true, decide_eq_true_eq, decide_eq_true_eq]
  exact and_congr UInt32.le_iff_toNat_le UInt32.le_iff_toNat_le

theorem toUpper_eq_self {c : Char} (h : c.toUpper.isUpper = false) : c.toUpper = c := by
  unfold Char.toUpper at h ⊢
  split at h
  · rename_i hlower
    exfalso
    have hlow : 97 ≤ c.val.toNat := UInt32.le_iff_toNat_le.mp hlower.1
    have hhigh : c.val.toNat ≤ 122 := UInt32.le_iff_toNat_le.mp hlower.2
    have hshift : (c.val + ('A'.val - 'a'.val)).toNat = c.val.toNat - 32 := by
      have hdiff : ('A'.val - 'a'.val).toNat = 4294967264 := by decide
      rw [UInt32.toNat_add, hdiff]
      omega
    rw [← Bool.not_eq_true, isUpper_iff] at h
    apply h
    show 65 ≤ (c.val + ('A'.val - 'a'.val)).toNat ∧ (c.val + ('A'.val - 'a'.val)).toNat ≤ 90
    omega
  · rename_i hlower
    rw [dif_neg hlower]

/-- A text whose folding has no capital letter is its own folding. -/
theorem upper_eq_self {s : Str} (h : ∀ c ∈ upper s, c.isUpper = false) : upper s = s := by
  conv => rhs; rw [← List.map_id s]
  apply List.map_congr_left
  intro c hc
  exact toUpper_eq_self (h _ (List.mem_map_of_mem hc))

/-- Folding leaves what is no letter where it is, and folds no letter to it. -/
theorem toLower_eq_iff {c a : Char} (ha : a.isAlpha = false) : c.toLower = a ↔ c = a := by
  unfold Char.toLower
  split
  · rename_i hupper
    have hlow : 65 ≤ c.val.toNat := UInt32.le_iff_toNat_le.mp hupper.1
    have hhigh : c.val.toNat ≤ 90 := UInt32.le_iff_toNat_le.mp hupper.2
    have hshift : (c.val + ('a'.val - 'A'.val)).toNat = c.val.toNat + 32 := by
      have hdiff : ('a'.val - 'A'.val).toNat = 32 := by decide
      rw [UInt32.toNat_add, hdiff]
      omega
    have hletter : ¬ (65 ≤ a.val.toNat ∧ a.val.toNat ≤ 90) ∧
        ¬ (97 ≤ a.val.toNat ∧ a.val.toNat ≤ 122) := by
      obtain ⟨hupper, hlower⟩ := Bool.or_eq_false_iff.mp ha
      rw [← Bool.not_eq_true, isUpper_iff] at hupper
      rw [← Bool.not_eq_true, isLower_iff] at hlower
      exact ⟨hupper, hlower⟩
    constructor
    · intro h
      have hval : c.val.toNat + 32 = a.val.toNat := by
        rw [← hshift, ← h]
      omega
    · rintro rfl
      omega
  · rfl

theorem toNat_of_isDigit {c : Char} (h : c.isDigit = true) : 48 ≤ c.toNat ∧ c.toNat ≤ 57 :=
  Char.isDigit_iff_toNat.mp h

theorem isSpace_of_isDigit {c : Char} (h : c.isDigit = true) : isSpace c = false := by
  have hdigit := toNat_of_isDigit h
  simp only [isSpace, Bool.or_eq_false_iff, Bool.and_eq_false_iff, decide_eq_false_iff_not,
    beq_eq_false_iff_ne]
  omega

theorem toUpper_of_isDigit {c : Char} (h : c.isDigit = true) : c.toUpper = c := by
  unfold Char.toUpper
  rw [dif_neg]
  rintro ⟨hlow, -⟩
  have hlower : 97 ≤ c.toNat := UInt32.le_iff_toNat_le.mp hlow
  have hdigit := toNat_of_isDigit h
  omega

theorem isUpper_of_isDigit {c : Char} (h : c.isDigit = true) : c.isUpper = false := by
  rw [← Bool.not_eq_true, isUpper_iff]
  have hdigit := toNat_of_isDigit h
  omega

/-- `f"{n}"`. -/
def ofInt (n : Int) : Str := (toString n).toList

end Str

/-! ## Hexadecimal digits -/

def hexDigits : Str := "0123456789abcdef".toList

def hexDigit (n : Fin 16) : Char := hexDigits.get n

/-- The last hexadecimal digit of a number. -/
def nibble (n : ℕ) : Fin 16 := Fin.ofNat 16 n

theorem hexDigit_injective : Function.Injective hexDigit := by
  intro a b
  revert a b
  decide

theorem hexDigit_ne_slash (n : Fin 16) : hexDigit n ≠ '/' := by
  revert n
  decide

theorem toLower_hexDigit (n : Fin 16) : (hexDigit n).toLower = hexDigit n := by
  revert n
  decide

end Jumbox
