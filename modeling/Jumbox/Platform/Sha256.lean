import Jumbox.Platform.Text

/-!
# SHA-256

`hashlib.sha256(data).hexdigest()`, as FIPS 180-4 defines it. The rest of the
development uses two facts about it only: the digest text is not empty, and it
is written in lower-case letters. `hmac` is the keyed digest of RFC 2104, of which
nothing is used.
-/

namespace Jumbox

namespace Sha256

abbrev Word := BitVec 32

/-- The 64 round constants. -/
def constants : List Word := [
  0x428a2f98, 0x71374491, 0xb5c0fbcf, 0xe9b5dba5, 0x3956c25b, 0x59f111f1, 0x923f82a4, 0xab1c5ed5,
  0xd807aa98, 0x12835b01, 0x243185be, 0x550c7dc3, 0x72be5d74, 0x80deb1fe, 0x9bdc06a7, 0xc19bf174,
  0xe49b69c1, 0xefbe4786, 0x0fc19dc6, 0x240ca1cc, 0x2de92c6f, 0x4a7484aa, 0x5cb0a9dc, 0x76f988da,
  0x983e5152, 0xa831c66d, 0xb00327c8, 0xbf597fc7, 0xc6e00bf3, 0xd5a79147, 0x06ca6351, 0x14292967,
  0x27b70a85, 0x2e1b2138, 0x4d2c6dfc, 0x53380d13, 0x650a7354, 0x766a0abb, 0x81c2c92e, 0x92722c85,
  0xa2bfe8a1, 0xa81a664b, 0xc24b8b70, 0xc76c51a3, 0xd192e819, 0xd6990624, 0xf40e3585, 0x106aa070,
  0x19a4c116, 0x1e376c08, 0x2748774c, 0x34b0bcb5, 0x391c0cb3, 0x4ed8aa4a, 0x5b9cca4f, 0x682e6ff3,
  0x748f82ee, 0x78a5636f, 0x84c87814, 0x8cc70208, 0x90befffa, 0xa4506ceb, 0xbef9a3f7, 0xc67178f2]

/-- The eight working variables. -/
structure State where
  a : Word
  b : Word
  c : Word
  d : Word
  e : Word
  f : Word
  g : Word
  h : Word

def initial : State :=
  ⟨0x6a09e667, 0xbb67ae85, 0x3c6ef372, 0xa54ff53a, 0x510e527f, 0x9b05688c, 0x1f83d9ab, 0x5be0cd19⟩

def ch (x y z : Word) : Word := (x &&& y) ^^^ (~~~x &&& z)

def maj (x y z : Word) : Word := (x &&& y) ^^^ (x &&& z) ^^^ (y &&& z)

def bigSigma₀ (x : Word) : Word := x.rotateRight 2 ^^^ x.rotateRight 13 ^^^ x.rotateRight 22

def bigSigma₁ (x : Word) : Word := x.rotateRight 6 ^^^ x.rotateRight 11 ^^^ x.rotateRight 25

def sigma₀ (x : Word) : Word := x.rotateRight 7 ^^^ x.rotateRight 18 ^^^ (x >>> 3)

def sigma₁ (x : Word) : Word := x.rotateRight 17 ^^^ x.rotateRight 19 ^^^ (x >>> 10)

def round (s : State) (k w : Word) : State :=
  let t₁ := s.h + bigSigma₁ s.e + ch s.e s.f s.g + k + w
  let t₂ := bigSigma₀ s.a + maj s.a s.b s.c
  ⟨t₁ + t₂, s.a, s.b, s.c, s.d + t₁, s.e, s.f, s.g⟩

/-- The schedule word after a window of sixteen, oldest first. -/
def nextWord (w : List Word) : Word :=
  sigma₁ (w.getD 14 0) + w.getD 9 0 + sigma₀ (w.getD 1 0) + w.getD 0 0

/-- The rounds, with the message schedule kept as a sliding window. -/
def rounds (s : State) : List Word → List Word → State
  | [], _ => s
  | k :: ks, w => rounds (round s k (w.getD 0 0)) ks (w.drop 1 ++ [nextWord w])

def compress (s : State) (block : List Word) : State :=
  let r := rounds s constants block
  ⟨s.a + r.a, s.b + r.b, s.c + r.c, s.d + r.d, s.e + r.e, s.f + r.f, s.g + r.g, s.h + r.h⟩

/-- Four bytes, most significant first. -/
def wordOf (b : Bytes) : Word :=
  b.foldl (fun acc x => (acc <<< 8) ||| BitVec.ofNat 32 x.toNat) 0

def words : ℕ → Bytes → List Word
  | 0, _ => []
  | n + 1, b => wordOf (b.take 4) :: words n (b.drop 4)

def lengthBytes (n : ℕ) : Bytes :=
  (List.range 8).map fun i => UInt8.ofNat (n >>> (8 * (7 - i)))

def pad (m : Bytes) : Bytes :=
  m ++ 0x80 :: (List.replicate ((119 - m.length % 64) % 64) 0 ++ lengthBytes (8 * m.length))

def blocks : ℕ → State → Bytes → State
  | 0, s, _ => s
  | n + 1, s, b => blocks n (compress s (words 16 b)) (b.drop 64)

def digest (m : Bytes) : State :=
  let padded := pad m
  blocks (padded.length / 64) initial padded

def hexWord (w : Word) : Str :=
  (List.range 8).map fun i => hexDigit (nibble (w.toNat >>> (4 * (7 - i))))

def wordBytes (w : Word) : Bytes :=
  (List.range 4).map fun i => UInt8.ofNat (w.toNat >>> (8 * (3 - i)))

def digestBytes (m : Bytes) : Bytes :=
  let s := digest m
  wordBytes s.a ++ wordBytes s.b ++ wordBytes s.c ++ wordBytes s.d ++
    wordBytes s.e ++ wordBytes s.f ++ wordBytes s.g ++ wordBytes s.h

/-- `hmac.new(key, m, hashlib.sha256).digest()`. -/
def hmac (key m : Bytes) : Bytes :=
  let key := if 64 < key.length then digestBytes key else key
  let block := key ++ List.replicate (64 - key.length) 0
  digestBytes (block.map (· ^^^ 0x5c) ++ digestBytes (block.map (· ^^^ 0x36) ++ m))

end Sha256

open Sha256 in
def hexdigest (m : Bytes) : Str :=
  let s := digest m
  hexWord s.a ++ hexWord s.b ++ hexWord s.c ++ hexWord s.d ++
    hexWord s.e ++ hexWord s.f ++ hexWord s.g ++ hexWord s.h

theorem lower_hexWord (w : Sha256.Word) : Str.lower (Sha256.hexWord w) = Sha256.hexWord w := by
  simp only [Str.lower, Sha256.hexWord, List.map_map]
  exact List.map_congr_left fun i _ => toLower_hexDigit _

/-- Digests are written in lower case, so folding one changes nothing. -/
theorem lower_hexdigest (m : Bytes) : Str.lower (hexdigest m) = hexdigest m := by
  have happ : ∀ a b : Str, Str.lower (a ++ b) = Str.lower a ++ Str.lower b := by
    intro a b
    simp [Str.lower]
  simp only [hexdigest, happ, lower_hexWord]

theorem length_hexdigest (m : Bytes) : (hexdigest m).length = 64 := by
  simp [hexdigest, Sha256.hexWord]

theorem hexdigest_ne_nil (m : Bytes) : hexdigest m ≠ [] := by
  intro h
  have hlen := length_hexdigest m
  simp [h] at hlen

example : hexdigest [0x61, 0x62, 0x63] =
    "ba7816bf8f01cfea414140de5dae2223b00361a396177a9cb410ff61f20015ad".toList := by
  decide +kernel

example : Sha256.hmac (List.replicate 20 0x0b) [0x48, 0x69, 0x20, 0x54, 0x68, 0x65, 0x72, 0x65] = [
    0xb0, 0x34, 0x4c, 0x61, 0xd8, 0xdb, 0x38, 0x53, 0x5c, 0xa8, 0xaf, 0xce, 0xaf, 0x0b, 0xf1, 0x2b,
    0x88, 0x1d, 0xc2, 0x00, 0xc9, 0x83, 0x3d, 0xa7, 0x26, 0xe9, 0x37, 0x6c, 0x2e, 0x32, 0xcf, 0xf7] := by
  decide +kernel

-- nothing below looks inside a digest, and unification must not try to
attribute [irreducible] hexdigest Sha256.hmac

end Jumbox
