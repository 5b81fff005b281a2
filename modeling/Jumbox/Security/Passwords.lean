import Jumbox.Library.Fields
import Jumbox.Platform.Decimal
import Jumbox.Security.TokenService

/-!
# `PBKDF2PasswordHasher`

The password hasher of `application/security.py`. A stored hash is the name of the
algorithm, the number of iterations, the salt and the digest, between dollar signs.
`hashlib.pbkdf2_hmac("sha256", ...)` is a parameter, and so is the salt.
-/

namespace Jumbox

/-! ## The standard library -/

namespace UrlsafeBase64

/-- `base64.urlsafe_b64encode(bytes).decode("ascii")` -/
def urlsafeB64encode (bytes : Bytes) : Str := Base64.encode digit bytes

/-- `base64.urlsafe_b64decode(s.encode("ascii"))` -/
def urlsafeB64decode (s : Str) : Except Error Bytes :=
  match Str.encodeAscii s with
  | .error e => .error e
  | .ok _ =>
      match Base64.decode value s with
      | .ok bytes => .ok bytes
      | .error (.oneMore digits) =>
          .error ⟨.valueError,
            "Invalid base64-encoded string: number of data characters (".toList ++
              Str.ofInt digits ++ ") cannot be 1 more than a multiple of 4".toList⟩
      | .error .padding => .error ⟨.valueError, "Incorrect padding".toList⟩

/-- The segments of a token are read with the same decoder. -/
theorem decodeSegment_eq (s : Str) :
    HMACTokenService.decodeSegment s = urlsafeB64decode (s ++ Base64.padding s) := rfl

theorem decode_encode (bytes : Bytes) : urlsafeB64decode (urlsafeB64encode bytes) = .ok bytes := by
  have hsegment := HMACTokenService.decodeSegment_base64url bytes
  rwa [decodeSegment_eq, HMACTokenService.base64url,
    (Base64.strip_encode reads bytes).2] at hsegment

theorem dollar_notMem_encode (bytes : Bytes) : '$' ∉ urlsafeB64encode bytes := by
  obtain ⟨body, n, heq, -, -, hdigits⟩ := Base64.encode_eq_append digit bytes
  have hdigit : ∀ v < 64, digit v ≠ '$' := by decide +kernel
  rw [urlsafeB64encode, heq, List.mem_append]
  rintro (hmem | hmem)
  · obtain ⟨v, hv, hdollar⟩ := hdigits _ hmem
    exact hdigit v hv hdollar.symm
  · exact absurd (List.eq_of_mem_replicate hmem) (by decide)

end UrlsafeBase64

/-- `hashlib.pbkdf2_hmac("sha256", password, salt, iterations)` -/
abbrev Pbkdf2 := Bytes → Bytes → ℤ → Except Error Bytes

/-! ## The hasher -/

structure PBKDF2PasswordHasher where
  iterations : ℤ := 310000

namespace PBKDF2PasswordHasher

open UrlsafeBase64

def algorithmName : Str := "pbkdf2_sha256".toList

/-- `hash_password`, with the bytes that `secrets.token_bytes(16)` returned. -/
def hashPassword (hasher : PBKDF2PasswordHasher) (pbkdf2 : Pbkdf2) (salt : Bytes)
    (password : Str) : Except Error Str := do
  let digest ← pbkdf2 password.encodeUtf8 salt hasher.iterations
  match Decimal.write hasher.iterations with
  | none => throw ⟨.valueError,
      ("Exceeds the limit (4300 digits) for integer string conversion; " ++
        "use sys.set_int_max_str_digits() to increase the limit").toList⟩
  | some iterations =>
      return algorithmName ++ '$' :: (iterations ++ '$' ::
        (urlsafeB64encode salt ++ '$' :: urlsafeB64encode digest))

/-- `int(iterations)` -/
def readIterations (digits : Decimal.Digits) (iterations : Str) : Except Error ℤ :=
  match Decimal.read digits iterations with
  | none => .error ⟨.valueError, "invalid literal for int() with base 10".toList⟩
  | some n => .ok n

/-- The `try` block of `verify_password`. -/
def checkFields (pbkdf2 : Pbkdf2) (digits : Decimal.Digits) (password passwordHash : Str) :
    Except Error Bool :=
  match Fields.splitMax '$' 3 passwordHash with
  | [algorithm, iterations, salt, digest] => do
      if algorithm ≠ algorithmName then
        return false
      let saltBytes ← urlsafeB64decode salt
      let expectedDigest ← urlsafeB64decode digest
      let rounds ← readIterations digits iterations
      let candidateDigest ← pbkdf2 password.encodeUtf8 saltBytes rounds
      return candidateDigest = expectedDigest
  | fields => .error ⟨.valueError,
      "not enough values to unpack (expected 4, got ".toList ++ Str.ofInt fields.length ++
        ")".toList⟩

/-- `verify_password`; the settings of the hasher are not read. -/
def verifyPassword (_ : PBKDF2PasswordHasher) (pbkdf2 : Pbkdf2) (digits : Decimal.Digits)
    (password passwordHash : Str) : Except Error Bool :=
  match checkFields pbkdf2 digits password passwordHash with
  | .ok verdict => .ok verdict
  | .error e =>
      if e.kind = .valueError ∨ e.kind = .typeError then .ok false else .error e

/-! ## The fields of a stored hash -/

theorem dollar_notMem_write {n : ℤ} {text : Str} (h : Decimal.write n = some text) :
    '$' ∉ text := by
  have hdigits : '$' ∉ Nat.toDigits 10 n.natAbs := by
    intro hmem
    have hdigit := Nat.isDigit_of_mem_toDigits (by decide) (by decide) hmem
    exact absurd hdigit (by decide)
  unfold Decimal.write at h
  split at h
  · obtain rfl := Option.some.inj h
    rw [Decimal.ofInt_eq]
    split
    · exact hdigits
    · exact List.not_mem_cons_of_ne_of_not_mem (by decide) hdigits
  · cases h

/-- The four fields are found again. -/
theorem splitMax_hash {n : ℤ} {iterations : Str} (h : Decimal.write n = some iterations)
    (salt digest : Bytes) :
    Fields.splitMax '$' 3 (algorithmName ++ '$' :: (iterations ++ '$' ::
        (urlsafeB64encode salt ++ '$' :: urlsafeB64encode digest))) =
      [algorithmName, iterations, urlsafeB64encode salt, urlsafeB64encode digest] := by
  have hfields : ∀ field ∈ [algorithmName, iterations, urlsafeB64encode salt], '$' ∉ field := by
    intro field hfield
    simp only [List.mem_cons, List.not_mem_nil, or_false] at hfield
    rcases hfield with rfl | rfl | rfl
    · decide
    · exact dollar_notMem_write h
    · exact dollar_notMem_encode salt
  have hsplit := Fields.splitMax_intercalate hfields (urlsafeB64encode digest)
  simpa [List.intercalate] using hsplit

section Stored

variable {pbkdf2 : Pbkdf2} {salt : Bytes} {writer : PBKDF2PasswordHasher}

theorem hashPassword_eq_ok {p hash : Str} :
    writer.hashPassword pbkdf2 salt p = .ok hash ↔
      ∃ digest iterations, pbkdf2 p.encodeUtf8 salt writer.iterations = .ok digest ∧
        Decimal.write writer.iterations = some iterations ∧
        hash = algorithmName ++ '$' :: (iterations ++ '$' ::
          (urlsafeB64encode salt ++ '$' :: urlsafeB64encode digest)) := by
  unfold hashPassword
  cases hdigest : pbkdf2 p.encodeUtf8 salt writer.iterations with
  | error e => simp [bind, Except.bind]
  | ok digest =>
      cases hwrite : Decimal.write writer.iterations with
      | none => simp [bind, Except.bind, throw, throwThe, MonadExceptOf.throw]
      | some iterations => simp [bind, Except.bind, pure, Except.pure, eq_comm]

theorem hashPassword_isOk {p : Str} {digest : Bytes}
    (hdigest : pbkdf2 p.encodeUtf8 salt writer.iterations = .ok digest)
    (hlength : (Nat.toDigits 10 writer.iterations.natAbs).length ≤ Decimal.maxStrDigits) :
    ∃ hash, writer.hashPassword pbkdf2 salt p = .ok hash :=
  ⟨_, hashPassword_eq_ok.mpr ⟨digest, _, hdigest, if_pos hlength, rfl⟩⟩

/-- Whatever the verifying hasher is set to, a password is tried with the salt and
the number of iterations that the hash was made with. -/
theorem verifyPassword_hash {p hash : Str} {digest : Bytes}
    (hdigest : pbkdf2 p.encodeUtf8 salt writer.iterations = .ok digest)
    (h : writer.hashPassword pbkdf2 salt p = .ok hash) (verifier : PBKDF2PasswordHasher)
    (digits : Decimal.Digits) (q : Str) :
    verifier.verifyPassword pbkdf2 digits q hash =
      match pbkdf2 q.encodeUtf8 salt writer.iterations with
      | .ok candidate => .ok (candidate = digest)
      | .error e =>
          if e.kind = .valueError ∨ e.kind = .typeError then .ok false else .error e := by
  obtain ⟨written, iterations, hwritten, hwrite, rfl⟩ := hashPassword_eq_ok.mp h
  obtain rfl : written = digest := Except.ok.inj (hwritten.symm.trans hdigest)
  have hread : readIterations digits iterations = .ok writer.iterations := by
    rw [readIterations, Decimal.read_write hwrite]
  unfold verifyPassword checkFields
  rw [splitMax_hash hwrite]
  simp only [ne_eq, not_true_eq_false, if_false, decode_encode, hread, bind, Except.bind, pure,
    Except.pure]
  cases pbkdf2 q.encodeUtf8 salt writer.iterations with
  | ok candidate => rfl
  | error e => rfl

end Stored

/-- A stored hash accepts a password if and only if its digest is that of the
password the hash was made of. -/
theorem verify_password_iff (pbkdf2 : Pbkdf2) (digits : Decimal.Digits)
    (writer verifier : PBKDF2PasswordHasher) {salt : Bytes} {p hash : Str}
    (h : writer.hashPassword pbkdf2 salt p = .ok hash) :
    (∀ q, verifier.verifyPassword pbkdf2 digits q hash = .ok true ↔
      pbkdf2 q.encodeUtf8 salt writer.iterations = pbkdf2 p.encodeUtf8 salt writer.iterations) ∧
    verifier.verifyPassword pbkdf2 digits p hash = .ok true := by
  obtain ⟨digest, iterations, hdigest, -, -⟩ := hashPassword_eq_ok.mp h
  have hverify := verifyPassword_hash hdigest h verifier digits
  have hiff : ∀ q, verifier.verifyPassword pbkdf2 digits q hash = .ok true ↔
      pbkdf2 q.encodeUtf8 salt writer.iterations = pbkdf2 p.encodeUtf8 salt writer.iterations := by
    intro q
    rw [hverify q, hdigest]
    cases pbkdf2 q.encodeUtf8 salt writer.iterations with
    | ok candidate =>
        rw [Except.ok.injEq, Except.ok.injEq, decide_eq_true_iff]
    | error e =>
        -- neither a refusal nor an exception is an acceptance
        dsimp only
        split
        · simp
        · simp
  exact ⟨hiff, (hiff p).mpr rfl⟩

namespace Sample

/-- A block of the key and the `n` blocks after it, combined. -/
def combine (password : Bytes) : ℕ → Bytes → Bytes
  | 0, block => block
  | n + 1, block => block.zipWith (· ^^^ ·) (combine password n (Sha256.hmac password block))

/-- PBKDF2 with HMAC-SHA256 and a key of one digest, as `hashlib` has it. -/
def pbkdf2 : Pbkdf2 := fun password salt iterations =>
  if iterations < 1 then
    .error ⟨.valueError, "iteration value must be greater than 0.".toList⟩
  else if 2 ^ 31 ≤ iterations then
    .error ⟨.overflowError, "iteration value is too great.".toList⟩
  else
    .ok (combine password (iterations.toNat - 1) (Sha256.hmac password (salt ++ [0, 0, 0, 1])))

example : pbkdf2 (Str.encodeUtf8 "password".toList) (Str.encodeUtf8 "salt".toList) 2 = .ok [
    0xae, 0x4d, 0x0c, 0x95, 0xaf, 0x6b, 0x46, 0xd3, 0x2d, 0x0a, 0xdf, 0xf9, 0x28, 0xf0, 0x6d,
    0xd0, 0x2a, 0x30, 0x3f, 0x8e, 0xf3, 0xc2, 0x51, 0xdf, 0xd6, 0xe2, 0xd8, 0x5a, 0x95, 0x47,
    0x4c, 0x43] := by
  decide +kernel

def salt : Bytes := [7, 1, 8, 2, 8, 1, 8, 2, 8, 4, 5, 9, 0, 4, 5, 2]

def right : Str := "correct horse battery staple".toList

def wrong : Str := "incorrect".toList

end Sample

/-- A hash made with two iterations, and a hasher that would make its own with
310000 of them. -/
theorem verify_password_iff_two :
    ∃ hash, hashPassword ⟨2⟩ Sample.pbkdf2 Sample.salt Sample.right = .ok hash ∧
      verifyPassword {} Sample.pbkdf2 .asciiOnly Sample.right hash = .ok true ∧
      verifyPassword {} Sample.pbkdf2 .asciiOnly Sample.wrong hash ≠ .ok true := by
  obtain ⟨hash, hhash⟩ : ∃ hash,
      hashPassword ⟨2⟩ Sample.pbkdf2 Sample.salt Sample.right = .ok hash :=
    hashPassword_isOk rfl (by decide)
  obtain ⟨hiff, hright⟩ := verify_password_iff Sample.pbkdf2 .asciiOnly ⟨2⟩ {} hhash
  have hdigests : Sample.pbkdf2 Sample.wrong.encodeUtf8 Sample.salt 2 ≠
      Sample.pbkdf2 Sample.right.encodeUtf8 Sample.salt 2 := by
    decide +kernel
  exact ⟨hash, hhash, hright, fun hwrong => hdigests ((hiff Sample.wrong).mp hwrong)⟩

end PBKDF2PasswordHasher

end Jumbox
