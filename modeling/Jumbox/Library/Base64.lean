import Mathlib.Data.List.DropRight
import Mathlib.Data.Nat.Notation
import Mathlib.Tactic.Ring

/-!
# Base64

Padded base64 over any alphabet of 64 digits, and a decoder that skips what is
no digit and stops at the first padding that fills its group. Dropping the
padding loses nothing: it can be restored from the length.
-/

namespace Jumbox

namespace Base64

/-- Three bytes make four digits; the last group is padded. -/
def encode (digit : ℕ → Char) : List UInt8 → List Char
  | [] => []
  | [a] => [digit (a.toNat / 4), digit (a.toNat % 4 * 16), '=', '=']
  | [a, b] =>
      [digit (a.toNat / 4), digit (a.toNat % 4 * 16 + b.toNat / 16), digit (b.toNat % 16 * 4), '=']
  | a :: b :: c :: rest =>
      digit (a.toNat / 4) :: digit (a.toNat % 4 * 16 + b.toNat / 16) ::
        digit (b.toNat % 16 * 4 + c.toNat / 64) :: digit (c.toNat % 64) :: encode digit rest

inductive DecodeError where
  /-- One digit is left over; the number of digits in all. -/
  | oneMore (digits : ℕ)
  | padding
deriving DecidableEq

/-- The decoder in the middle of a text: `quad` digits of the group are read,
`left` holds their bits not written yet, `pads` paddings came last, and `written`
bytes have been written. -/
def decodeFrom (value : Char → Option ℕ) (quad left pads written : ℕ) :
    List Char → Except DecodeError (List UInt8)
  | [] =>
      match quad with
      | 0 => .ok []
      | 1 => .error (.oneMore (written / 3 * 4 + 1))
      | _ => .error .padding
  | c :: rest =>
      if c = '=' then
        if 2 ≤ quad then
          if 4 ≤ quad + (pads + 1) then .ok []
          else decodeFrom value quad left (pads + 1) written rest
        else decodeFrom value quad left pads written rest
      else
        match value c with
        | none => decodeFrom value quad left pads written rest
        | some v =>
            match quad with
            | 0 => decodeFrom value 1 v 0 written rest
            | 1 => (decodeFrom value 2 (v % 16) 0 (written + 1) rest).map
                (UInt8.ofNat (left * 4 + v / 16) :: ·)
            | 2 => (decodeFrom value 3 (v % 4) 0 (written + 1) rest).map
                (UInt8.ofNat (left * 16 + v / 4) :: ·)
            | _ => (decodeFrom value 0 0 0 (written + 1) rest).map
                (UInt8.ofNat (left * 64 + v) :: ·)

def decode (value : Char → Option ℕ) (text : List Char) : Except DecodeError (List UInt8) :=
  decodeFrom value 0 0 0 0 text

/-- The text without its padding. -/
def strip (text : List Char) : List Char := text.rdropWhile (· = '=')

/-- The paddings that bring a text to whole groups. -/
def padding (text : List Char) : List Char := List.replicate ((4 - text.length % 4) % 4) '='

/-! ## Reading back what was written -/

/-- `value` reads the digits, and none of them is the padding. -/
structure Reads (digit : ℕ → Char) (value : Char → Option ℕ) : Prop where
  value : ∀ n < 64, value (digit n) = some n
  notPad : ∀ n < 64, digit n ≠ '='

variable {digit : ℕ → Char} {value : Char → Option ℕ}

section Digits

variable (h : Reads digit value) {v : ℕ} (hv : v < 64) (left written : ℕ) (rest : List Char)
include h hv

theorem decodeFrom_first :
    decodeFrom value 0 left 0 written (digit v :: rest) = decodeFrom value 1 v 0 written rest := by
  rw [decodeFrom, if_neg (h.notPad v hv), h.value v hv]
  rfl

theorem decodeFrom_second :
    decodeFrom value 1 left 0 written (digit v :: rest) =
      (decodeFrom value 2 (v % 16) 0 (written + 1) rest).map
        (UInt8.ofNat (left * 4 + v / 16) :: ·) := by
  rw [decodeFrom, if_neg (h.notPad v hv), h.value v hv]
  rfl

theorem decodeFrom_third :
    decodeFrom value 2 left 0 written (digit v :: rest) =
      (decodeFrom value 3 (v % 4) 0 (written + 1) rest).map
        (UInt8.ofNat (left * 16 + v / 4) :: ·) := by
  rw [decodeFrom, if_neg (h.notPad v hv), h.value v hv]
  rfl

theorem decodeFrom_fourth :
    decodeFrom value 3 left 0 written (digit v :: rest) =
      (decodeFrom value 0 0 0 (written + 1) rest).map (UInt8.ofNat (left * 64 + v) :: ·) := by
  rw [decodeFrom, if_neg (h.notPad v hv), h.value v hv]
  rfl

end Digits

theorem ofNat_eq (a : UInt8) {n : ℕ} (h : n = a.toNat) : UInt8.ofNat n = a := by
  rw [h, UInt8.ofNat_toNat]

/-- Decoding what was encoded gives the bytes back. The induction is on groups of
three bytes; the last two cases are the padded groups. -/
theorem decodeFrom_encode (h : Reads digit value) (bytes : List UInt8) (written : ℕ) :
    decodeFrom value 0 0 0 written (encode digit bytes) = .ok bytes := by
  induction bytes using encode.induct generalizing written with
  | case1 => rfl
  | case2 a =>
      have ha := a.toNat_lt
      rw [encode, decodeFrom_first h (by omega), decodeFrom_second h (by omega), decodeFrom,
        if_pos rfl, if_pos (by omega), if_neg (by omega), decodeFrom, if_pos rfl,
        if_pos (by omega), if_pos (by omega)]
      rw [ofNat_eq a (by omega)]
      rfl
  | case3 a b =>
      have ha := a.toNat_lt
      have hb := b.toNat_lt
      rw [encode, decodeFrom_first h (by omega), decodeFrom_second h (by omega),
        decodeFrom_third h (by omega), decodeFrom, if_pos rfl, if_pos (by omega),
        if_pos (by omega)]
      rw [ofNat_eq a (by omega), ofNat_eq b (by omega)]
      rfl
  | case4 a b c rest ih =>
      have ha := a.toNat_lt
      have hb := b.toNat_lt
      have hc := c.toNat_lt
      rw [encode, decodeFrom_first h (by omega), decodeFrom_second h (by omega),
        decodeFrom_third h (by omega), decodeFrom_fourth h (by omega), ih]
      rw [ofNat_eq a (by omega), ofNat_eq b (by omega), ofNat_eq c (by omega)]
      rfl

/-- The digits of the text come first, then at most two paddings. -/
theorem encode_eq_append (digit : ℕ → Char) (bytes : List UInt8) :
    ∃ body n, encode digit bytes = body ++ List.replicate n '=' ∧ n < 3 ∧
      (body.length + n) % 4 = 0 ∧ ∀ c ∈ body, ∃ v < 64, c = digit v := by
  induction bytes using encode.induct with
  | case1 => exact ⟨[], 0, rfl, by omega, rfl, by simp⟩
  | case2 a =>
      have ha := a.toNat_lt
      refine ⟨[digit (a.toNat / 4), digit (a.toNat % 4 * 16)], 2, rfl, by omega, by simp, ?_⟩
      intro c hc
      rcases List.mem_pair.mp hc with rfl | rfl
      · exact ⟨_, by omega, rfl⟩
      · exact ⟨_, by omega, rfl⟩
  | case3 a b =>
      have ha := a.toNat_lt
      have hb := b.toNat_lt
      refine ⟨[digit (a.toNat / 4), digit (a.toNat % 4 * 16 + b.toNat / 16),
        digit (b.toNat % 16 * 4)], 1, rfl, by omega, by simp, ?_⟩
      intro c hc
      simp only [List.mem_cons, List.not_mem_nil, or_false] at hc
      rcases hc with rfl | rfl | rfl
      · exact ⟨_, by omega, rfl⟩
      · exact ⟨_, by omega, rfl⟩
      · exact ⟨_, by omega, rfl⟩
  | case4 a b c rest ih =>
      have ha := a.toNat_lt
      have hb := b.toNat_lt
      have hc := c.toNat_lt
      obtain ⟨body, n, heq, hn, hlen, hdigits⟩ := ih
      refine ⟨digit (a.toNat / 4) :: digit (a.toNat % 4 * 16 + b.toNat / 16) ::
        digit (b.toNat % 16 * 4 + c.toNat / 64) :: digit (c.toNat % 64) :: body, n, ?_, hn, ?_, ?_⟩
      · rw [encode, heq]
        rfl
      · simp only [List.length_cons]
        omega
      · intro d hd
        simp only [List.mem_cons] at hd
        rcases hd with rfl | rfl | rfl | rfl | hd
        · exact ⟨_, by omega, rfl⟩
        · exact ⟨_, by omega, rfl⟩
        · exact ⟨_, by omega, rfl⟩
        · exact ⟨_, by omega, rfl⟩
        · exact hdigits d hd

/-- The digits alone, and the paddings that their number asks for. -/
theorem strip_encode (h : Reads digit value) (bytes : List UInt8) :
    (∀ c ∈ strip (encode digit bytes), ∃ v < 64, c = digit v) ∧
      strip (encode digit bytes) ++ padding (strip (encode digit bytes)) = encode digit bytes := by
  obtain ⟨body, n, heq, hn, hlen, hdigits⟩ := encode_eq_append digit bytes
  have hstrip : strip (encode digit bytes) = body := by
    rw [heq, strip, List.rdropWhile, List.reverse_append, List.reverse_replicate,
      List.dropWhile_append_of_pos (by simp)]
    apply List.rdropWhile_eq_self_iff.mpr
    intro hne
    obtain ⟨v, hv, hlast⟩ := hdigits _ (List.getLast_mem hne)
    simpa [hlast] using h.notPad v hv
  have hpad : (4 - body.length % 4) % 4 = n := by omega
  rw [hstrip, padding, hpad]
  exact ⟨hdigits, heq.symm⟩

/-- Dropping the padding and restoring it changes nothing that is decoded. -/
theorem decode_strip_encode (h : Reads digit value) (bytes : List UInt8) :
    decode value (strip (encode digit bytes) ++ padding (strip (encode digit bytes))) =
      .ok bytes := by
  rw [(strip_encode h bytes).2]
  exact decodeFrom_encode h bytes 0

/-! ## The digits without the padding -/

/-- The values of the digits that stand for the bytes. -/
def sextets : List UInt8 → List ℕ
  | [] => []
  | [a] => [a.toNat / 4, a.toNat % 4 * 16]
  | [a, b] => [a.toNat / 4, a.toNat % 4 * 16 + b.toNat / 16, b.toNat % 16 * 4]
  | a :: b :: c :: rest =>
      a.toNat / 4 :: (a.toNat % 4 * 16 + b.toNat / 16) :: (b.toNat % 16 * 4 + c.toNat / 64) ::
        c.toNat % 64 :: sextets rest

theorem sextets_lt {bytes : List UInt8} : ∀ v ∈ sextets bytes, v < 64 := by
  induction bytes using sextets.induct with
  | case1 => simp [sextets]
  | case2 a =>
      have ha := a.toNat_lt
      simp only [sextets, List.mem_cons, List.not_mem_nil, or_false]
      omega
  | case3 a b =>
      have ha := a.toNat_lt
      have hb := b.toNat_lt
      simp only [sextets, List.mem_cons, List.not_mem_nil, or_false]
      omega
  | case4 a b c rest ih =>
      have ha := a.toNat_lt
      have hb := b.toNat_lt
      have hc := c.toNat_lt
      intro v hv
      simp only [sextets, List.mem_cons] at hv
      rcases hv with rfl | rfl | rfl | rfl | hv
      · omega
      · omega
      · omega
      · omega
      · exact ih v hv

theorem encode_eq_sextets (digit : ℕ → Char) (bytes : List UInt8) :
    ∃ n, encode digit bytes = (sextets bytes).map digit ++ List.replicate n '=' := by
  induction bytes using sextets.induct with
  | case1 => exact ⟨0, rfl⟩
  | case2 a => exact ⟨2, rfl⟩
  | case3 a b => exact ⟨1, rfl⟩
  | case4 a b c rest ih =>
      obtain ⟨n, heq⟩ := ih
      refine ⟨n, ?_⟩
      rw [encode, heq]
      rfl

theorem strip_encode_eq (h : Reads digit value) (bytes : List UInt8) :
    strip (encode digit bytes) = (sextets bytes).map digit := by
  obtain ⟨n, heq⟩ := encode_eq_sextets digit bytes
  rw [heq, strip, List.rdropWhile, List.reverse_append, List.reverse_replicate,
    List.dropWhile_append_of_pos (by simp)]
  apply List.rdropWhile_eq_self_iff.mpr
  intro hne
  obtain ⟨v, hv, hlast⟩ := List.mem_map.mp (List.getLast_mem hne)
  simpa [← hlast] using h.notPad v (sextets_lt v hv)

end Base64

end Jumbox
