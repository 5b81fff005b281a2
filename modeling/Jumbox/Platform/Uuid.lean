import Jumbox.Platform.Text
import Mathlib.Algebra.Order.Ring.Nat

/-!
# UUIDs

A UUID is its 32 hexadecimal digits. `str` is the canonical 8-4-4-4-12 text that
the source puts into directory and file names; all the path arguments need is
that it is injective, of fixed length, and free of separators. `parse` reads such
a text back.
-/

namespace Jumbox

structure Uuid where
  digits : List (Fin 16)
  length_digits : digits.length = 32
deriving DecidableEq

namespace Uuid

/-- The UUID of a number below `2 ^ 128`. -/
def ofNat (n : ℕ) : Uuid where
  digits := (List.range 32).map fun i => nibble (n >>> (4 * (31 - i)))
  length_digits := by simp

/-- `str(uuid)`. -/
def str (u : Uuid) : Str :=
  let hex := u.digits.map hexDigit
  hex.take 8 ++ '-' :: ((hex.drop 8).take 4 ++ '-' :: ((hex.drop 12).take 4 ++
    '-' :: ((hex.drop 16).take 4 ++ '-' :: hex.drop 20)))

@[simp] theorem length_str (u : Uuid) : u.str.length = 36 := by
  have h := u.length_digits
  simp only [str, List.length_append, List.length_cons, List.length_take, List.length_drop,
    List.length_map, h]
  omega

theorem slash_notMem_str (u : Uuid) : '/' ∉ u.str := by
  have hmap : ∀ l : List (Fin 16), '/' ∉ l.map hexDigit := by
    intro l h
    obtain ⟨n, -, hn⟩ := List.mem_map.mp h
    exact hexDigit_ne_slash n hn
  simp only [str, ← List.map_drop, ← List.map_take, List.mem_append, List.mem_cons, not_or]
  refine ⟨hmap _, by decide, hmap _, by decide, hmap _, by decide, hmap _, by decide, hmap _⟩

theorem str_injective : Function.Injective str := by
  intro u v h
  have hu : (u.digits.map hexDigit).length = 32 := by simp [u.length_digits]
  have hv : (v.digits.map hexDigit).length = 32 := by simp [v.length_digits]
  have hdigits : u.digits.map hexDigit = v.digits.map hexDigit := by
    simp only [str] at h
    generalize u.digits.map hexDigit = a at h hu
    generalize v.digits.map hexDigit = b at h hv
    obtain ⟨h₁, h⟩ := List.append_inj h (by simp [hu, hv])
    obtain ⟨h₂, h⟩ := List.append_inj (List.cons.inj h).2 (by simp [hu, hv])
    obtain ⟨h₃, h⟩ := List.append_inj (List.cons.inj h).2 (by simp [hu, hv])
    obtain ⟨h₄, h⟩ := List.append_inj (List.cons.inj h).2 (by simp [hu, hv])
    have h₅ := (List.cons.inj h).2
    have hsplit : ∀ l : Str, l = l.take 8 ++ ((l.drop 8).take 4 ++ ((l.drop 12).take 4 ++
        ((l.drop 16).take 4 ++ l.drop 20))) := by
      intro l
      rw [show l.drop 20 = (l.drop 16).drop 4 by simp, List.take_append_drop,
        show l.drop 16 = (l.drop 12).drop 4 by simp, List.take_append_drop,
        show l.drop 12 = (l.drop 8).drop 4 by simp, List.take_append_drop,
        List.take_append_drop]
    rw [hsplit a, hsplit b, h₁, h₂, h₃, h₄, h₅]
  have := hexDigit_injective.list_map hdigits
  cases u
  cases v
  simpa using this

/-! ## Reading a UUID -/

/-- The value of a hexadecimal digit. -/
def hexValue (c : Char) : Option (Fin 16) :=
  (List.finRange 16).find? fun n => hexDigit n = c.toLower

/-- One more digit after a number. -/
def push (n : ℕ) (d : Fin 16) : ℕ := 16 * n + d

/-- The digits of `int(s, 16)`, with single underscores between them. -/
def readDigits : ℕ → Str → Option ℕ
  | n, [] => some n
  | n, '_' :: c :: rest => (hexValue c).bind fun d => readDigits (push n d) rest
  | n, c :: rest => (hexValue c).bind fun d => readDigits (push n d) rest

def readSign : Str → ℤ × Str
  | '-' :: rest => (-1, rest)
  | '+' :: rest => (1, rest)
  | s => (1, s)

/-- The digits after an optional `0x`. -/
def dropBase : Str → Str
  | '0' :: x :: rest =>
      if x = 'x' ∨ x = 'X' then (if rest.head? = some '_' then rest.tail else rest)
      else '0' :: x :: rest
  | s => s

/-- `int(s, 16)`, for ASCII digits. -/
def readInt (s : Str) : Option ℤ :=
  let signed := readSign (Str.strip s)
  match dropBase signed.2 with
  | [] => none
  | c :: rest => (hexValue c).bind fun d => (readDigits d rest).map fun n : ℕ => signed.1 * n

/-- `UUID(hex)`, where it raises nothing. -/
def parse (hex : Str) : Option Uuid :=
  let hex := Str.remove "uuid:".toList (Str.remove "urn:".toList hex)
  let hex := ((hex.dropWhile isBrace).rdropWhile isBrace).filter (· ≠ '-')
  if hex.length ≠ 32 then none
  else
    match readInt hex with
    | none => none
    | some n => if 0 ≤ n ∧ n < 2 ^ 128 then some (ofNat n.toNat) else none
where
  isBrace (c : Char) : Bool := c.toNat = 0x7b ∨ c.toNat = 0x7d

/-- The number that digits spell. -/
def value (digits : List (Fin 16)) : ℕ := digits.foldl push 0

theorem value_snoc (digits : List (Fin 16)) (d : Fin 16) :
    value (digits ++ [d]) = 16 * value digits + d := by
  rw [value, List.foldl_append]
  rfl

theorem value_lt (digits : List (Fin 16)) : value digits < 16 ^ digits.length := by
  induction digits using List.reverseRecOn with
  | nil => decide
  | append_singleton digits d ih =>
      rw [value_snoc, List.length_append, List.length_singleton, pow_succ]
      omega

/-- The digits of a number are read off its value. -/
theorem map_nibble_value (digits : List (Fin 16)) :
    (List.range digits.length).map
      (fun i => nibble (value digits >>> (4 * (digits.length - 1 - i)))) = digits := by
  induction digits using List.reverseRecOn with
  | nil => rfl
  | append_singleton digits d ih =>
      rw [List.length_append, List.length_singleton, List.range_succ, List.map_append, value_snoc]
      congr 1
      · conv_rhs => rw [← ih]
        apply List.map_congr_left
        intro i hi
        have hlt := List.mem_range.mp hi
        have hshift : 4 * (digits.length + 1 - 1 - i) = 4 + 4 * (digits.length - 1 - i) := by omega
        have hdrop : (16 * value digits + d) >>> 4 = value digits := by
          rw [Nat.shiftRight_eq_div_pow]
          omega
        rw [hshift, Nat.shiftRight_add, hdrop]
      · have hlast : digits.length + 1 - 1 - digits.length = 0 := by omega
        rw [List.map_singleton, hlast]
        simp [nibble, Fin.ext_iff, Fin.ofNat]

theorem ofNat_value (u : Uuid) : ofNat (value u.digits) = u := by
  have hdigits := map_nibble_value u.digits
  rw [u.length_digits] at hdigits
  obtain ⟨digits, hlength⟩ := u
  exact (Uuid.mk.injEq ..).mpr hdigits

theorem hexValue_hexDigit (n : Fin 16) : hexValue (hexDigit n) = some n := by
  revert n
  decide

theorem readDigits_map (n : ℕ) (digits : List (Fin 16)) :
    readDigits n (digits.map hexDigit) = some (digits.foldl push n) := by
  induction digits generalizing n with
  | nil => rfl
  | cons d digits ih =>
      have hne : hexDigit d ≠ '_' := by
        revert d
        decide
      rw [List.map_cons, readDigits.eq_3 _ _ _ fun _ _ h _ => hne h, hexValue_hexDigit,
        Option.bind_some, ih]
      rfl

theorem strip_map (digits : List (Fin 16)) :
    Str.strip (digits.map hexDigit) = digits.map hexDigit := by
  have hspace : ∀ d, Str.isSpace (hexDigit d) = false := by decide
  have hmem : ∀ c ∈ digits.map hexDigit, Str.isSpace c = false := by
    intro c hc
    obtain ⟨d, -, rfl⟩ := List.mem_map.mp hc
    exact hspace d
  have hfront : (digits.map hexDigit).dropWhile Str.isSpace = digits.map hexDigit := by
    apply List.dropWhile_eq_self_iff.mpr
    intro hpos
    rw [hmem _ (List.getElem_mem hpos)]
    decide
  rw [Str.strip, hfront]
  apply List.rdropWhile_eq_self_iff.mpr
  intro hne
  rw [hmem _ (List.getLast_mem hne)]
  decide

theorem readSign_hexDigit (d : Fin 16) (rest : Str) :
    readSign (hexDigit d :: rest) = (1, hexDigit d :: rest) := by
  have hminus : hexDigit d ≠ '-' := by
    revert d
    decide
  have hplus : hexDigit d ≠ '+' := by
    revert d
    decide
  unfold readSign
  split
  · rename_i heq
    exact absurd (List.cons.inj heq).1 hminus
  · rename_i heq
    exact absurd (List.cons.inj heq).1 hplus
  · rfl

theorem dropBase_map (digits : List (Fin 16)) :
    dropBase (digits.map hexDigit) = digits.map hexDigit := by
  have hletter : ∀ d, ¬ (hexDigit d = 'x' ∨ hexDigit d = 'X') := by decide
  unfold dropBase
  split
  · rename_i x rest heq
    have hx : x ∈ digits.map hexDigit := by
      rw [heq]
      exact List.mem_cons_of_mem _ List.mem_cons_self
    obtain ⟨d, -, rfl⟩ := List.mem_map.mp hx
    rw [if_neg (hletter d), heq]
  · rfl

theorem readInt_map {digits : List (Fin 16)} (h : digits ≠ []) :
    readInt (digits.map hexDigit) = some (value digits : ℤ) := by
  obtain ⟨d, rest, rfl⟩ := List.exists_cons_of_ne_nil h
  have hsign : readSign (Str.strip ((d :: rest).map hexDigit)) =
      (1, (d :: rest).map hexDigit) := by
    rw [strip_map]
    exact readSign_hexDigit d _
  have hvalue : value (d :: rest) = rest.foldl push d := by
    rw [value, List.foldl_cons, push, mul_zero, zero_add]
  simp only [readInt, hsign, dropBase_map]
  simp only [List.map_cons, hexValue_hexDigit, Option.bind_some, readDigits_map, Option.map_some,
    one_mul, hvalue]

/-- A written UUID consists of digits and hyphens. -/
theorem mem_str {u : Uuid} {c : Char} (h : c ∈ u.str) : c = '-' ∨ ∃ d, c = hexDigit d := by
  have hmap : ∀ l : List (Fin 16), c ∈ l.map hexDigit → c = '-' ∨ ∃ d, c = hexDigit d := by
    intro l hc
    obtain ⟨d, -, rfl⟩ := List.mem_map.mp hc
    exact .inr ⟨d, rfl⟩
  simp only [str, ← List.map_drop, ← List.map_take, List.mem_append, List.mem_cons] at h
  rcases h with h | h | h | h | h | h | h | h | h
  all_goals first | exact hmap _ h | exact .inl h

/-- Removing the hyphens leaves the digits. -/
theorem filter_str (u : Uuid) : u.str.filter (· ≠ '-') = u.digits.map hexDigit := by
  have hdigit : ∀ d, decide (hexDigit d ≠ '-') = true := by decide
  have hkeep : ∀ l : List (Fin 16), (l.map hexDigit).filter (· ≠ '-') = l.map hexDigit := by
    intro l
    apply List.filter_eq_self.mpr
    intro c hc
    obtain ⟨d, -, rfl⟩ := List.mem_map.mp hc
    exact hdigit d
  have hsplit : ∀ (k n : ℕ) (l : List (Fin 16)),
      (l.drop k).take n ++ l.drop (k + n) = l.drop k := by
    intro k n l
    rw [← List.drop_drop, List.take_append_drop]
  simp only [str, ← List.map_drop, ← List.map_take, List.filter_append, List.filter_cons_of_neg,
    hkeep, ne_eq, not_true_eq_false, decide_false, Bool.false_eq_true, not_false_eq_true]
  simp only [← List.map_append]
  congr 1
  rw [hsplit 16 4, hsplit 12 4, hsplit 8 4, List.take_append_drop]

/-- A written UUID is read back. -/
theorem parse_str (u : Uuid) : parse u.str = some u := by
  have hdigit : ∀ d, hexDigit d ≠ ':' ∧ parse.isBrace (hexDigit d) = false := by decide
  have hcolon : ':' ∉ u.str := by
    intro hmem
    rcases mem_str hmem with h | ⟨d, h⟩
    · exact absurd h (by decide)
    · exact (hdigit d).1 h.symm
  have hbrace : ∀ c ∈ u.str, parse.isBrace c = false := by
    intro c hc
    rcases mem_str hc with rfl | ⟨d, rfl⟩
    · decide
    · exact (hdigit d).2
  have hfront : u.str.dropWhile parse.isBrace = u.str := by
    apply List.dropWhile_eq_self_iff.mpr
    intro hpos
    rw [hbrace _ (List.getElem_mem hpos)]
    decide
  have hback : u.str.rdropWhile parse.isBrace = u.str := by
    apply List.rdropWhile_eq_self_iff.mpr
    intro hne
    rw [hbrace _ (List.getLast_mem hne)]
    decide
  have hnil : u.digits ≠ [] := by
    intro h
    exact absurd u.length_digits (by rw [h]; decide)
  have hbound : value u.digits < 2 ^ 128 := by
    have hlt := value_lt u.digits
    rw [u.length_digits] at hlt
    exact hlt
  have hread : readInt (u.digits.map hexDigit) = some (value u.digits : ℤ) := readInt_map hnil
  unfold parse
  rw [Str.remove_eq_self (c := ':') (by decide) hcolon,
    Str.remove_eq_self (c := ':') (by decide) hcolon]
  simp only [hfront, hback, filter_str, List.length_map, u.length_digits, hread]
  rw [if_neg (by decide), if_pos ⟨by omega, by exact_mod_cast hbound⟩, Int.toNat_natCast,
    ofNat_value]

end Uuid

end Jumbox
