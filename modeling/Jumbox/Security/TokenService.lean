import Jumbox.Domain.Basic
import Jumbox.Library.Base64
import Jumbox.Library.Rounding
import Jumbox.Platform.Sha256
import Mathlib.Data.Countable.Basic
import Mathlib.Logic.Denumerable
import Mathlib.Logic.Equiv.List

/-!
# `HMACTokenService`

The token service of `application/security.py` and what the authentication
dependency makes of it. Base64, HMAC, the UUID text and the rounding of
`timestamp()` are those of the standard library; the JSON text of a payload is a
parameter. All subclasses of `ValueError` are recorded as `valueError`.
-/

namespace Jumbox

/-- The claims of a token. -/
structure Payload where
  sub : Str
  email : Str
  admin : Bool
  iss : Str
  iat : ℤ
  exp : ℤ
deriving DecidableEq

/-- `dumps` is `json.dumps(payload, separators=(",", ":"), sort_keys=True).encode("utf-8")`.
`loads` is `json.loads(data.decode("utf-8"))` followed by the look-ups of the
claims, so it fails on whatever is no payload; a missing `admin` is read as false. -/
structure Json where
  dumps : Payload → Bytes
  loads : Bytes → Except Error Payload

def Json.RoundTrips (json : Json) : Prop := ∀ p, json.loads (json.dumps p) = .ok p

/-! ## The standard library -/

namespace Str

/-- `s.encode("utf-8")` -/
def encodeUtf8 (s : Str) : Bytes := s.flatMap String.utf8EncodeChar

/-- `s.encode("ascii")` -/
def encodeAscii (s : Str) : Except Error Bytes :=
  if s.all (·.toNat < 128) then .ok (s.map fun c => UInt8.ofNat c.toNat)
  else .error ⟨.valueError, "ordinal not in range(128)".toList⟩

end Str

namespace UrlsafeBase64

def alphabet : Str :=
  "ABCDEFGHIJKLMNOPQRSTUVWXYZabcdefghijklmnopqrstuvwxyz0123456789-_".toList

def digit (n : ℕ) : Char := alphabet.getD n 'A'

/-- The two digits of the standard alphabet are read as well. -/
def value (c : Char) : Option ℕ :=
  if c = '+' then some 62 else if c = '/' then some 63 else alphabet.idxOf? c

theorem reads : Base64.Reads digit value where
  value := by decide +kernel
  notPad := by decide +kernel

theorem digit_ascii : ∀ n < 64, (digit n).toNat < 128 ∧ digit n ≠ '.' := by decide +kernel

end UrlsafeBase64

/-- `int(datetime.timestamp())` -/
def timestamp (micros : ℤ) : ℤ := Rounding.truncate (Rounding.toDouble (micros / (1000000 : ℤ)))

/-- `datetime.fromtimestamp(seconds, tz=UTC)`, in microseconds. -/
def fromTimestamp (seconds : ℤ) : Except Error ℤ :=
  if -62135596800 ≤ seconds ∧ seconds ≤ 253402300799 then .ok (seconds * 1000000)
  else if -2 ^ 63 ≤ seconds ∧ seconds < 2 ^ 63 then
    .error ⟨.valueError, "year is out of range".toList⟩
  else .error ⟨.overflowError, "timestamp out of range for platform time_t".toList⟩

/-- `UUID(hex)` -/
def Uuid.read (hex : Str) : Except Error Uuid :=
  match Uuid.parse hex with
  | none => .error ⟨.valueError, "badly formed hexadecimal UUID string".toList⟩
  | some u => .ok u

/-! ## The service -/

structure HMACTokenService where
  secretKey : Str
  issuer : Str := "Jumbox".toList
  expiresMinutes : ℤ := 60

namespace HMACTokenService

/-- `_base64url` -/
def base64url (bytes : Bytes) : Str :=
  Base64.strip (Base64.encode UrlsafeBase64.digit bytes)

/-- `_decode_segment` -/
def decodeSegment (s : Str) : Except Error Bytes :=
  let padded := s ++ Base64.padding s
  match Str.encodeAscii padded with
  | .error e => .error e
  | .ok _ =>
      match Base64.decode UrlsafeBase64.value padded with
      | .ok bytes => .ok bytes
      | .error (.oneMore digits) =>
          .error ⟨.valueError,
            "Invalid base64-encoded string: number of data characters (".toList ++
              Str.ofInt digits ++ ") cannot be 1 more than a multiple of 4".toList⟩
      | .error .padding => .error ⟨.valueError, "Incorrect padding".toList⟩

/-- The dump of the header. -/
def header : Str := "\x7b\"alg\":\"HS256\",\"typ\":\"JWT\"\x7d".toList

variable (service : HMACTokenService) (json : Json)

def signature (signingInput : Bytes) : Bytes := Sha256.hmac service.secretKey.encodeUtf8 signingInput

/-- The payload of a token that expires at `expiresAt`. -/
def payload (now expiresAt : ℤ) (user : AuthenticatedUser) : Payload where
  sub := user.userId.str
  email := user.email
  admin := user.isAdmin
  iss := service.issuer
  iat := timestamp now
  exp := timestamp expiresAt

def createAccessToken (now : ℤ) (user : AuthenticatedUser) : Except Error Str := do
  let expiresAt ← addSeconds now (60 * service.expiresMinutes)
  let headerSegment := base64url header.encodeUtf8
  let payloadSegment := base64url (json.dumps (service.payload now expiresAt user))
  let signingInput ← Str.encodeAscii (headerSegment ++ '.' :: payloadSegment)
  return headerSegment ++ '.' :: (payloadSegment ++ '.' :: base64url (service.signature signingInput))

def parseAccessToken (now : ℤ) (token : Str) : Except Error AuthenticatedUser :=
  match token.splitOn '.' with
  | [headerSegment, payloadSegment, signatureSegment] => do
      let signingInput ← Str.encodeAscii (headerSegment ++ '.' :: payloadSegment)
      let signature ← decodeSegment signatureSegment
      if service.signature signingInput ≠ signature then
        throw ⟨.valueError, "Invalid token signature".toList⟩
      let data ← decodeSegment payloadSegment
      let payload ← json.loads data
      let expiresAt ← fromTimestamp payload.exp
      if expiresAt < now then
        throw ⟨.valueError, "Token expired".toList⟩
      let userId ← Uuid.read payload.sub
      return ⟨userId, payload.email, payload.admin⟩
  | _ => .error ⟨.valueError, "Invalid token format".toList⟩

/-- `AuthService.get_current_user` -/
def getCurrentUser (now : ℤ) (token : Str) : Except Error AuthenticatedUser :=
  match service.parseAccessToken json now token with
  | .ok user => .ok user
  | .error e => .error (if e.kind = .valueError then { e with kind := .authenticationError } else e)

/-! ## Segments -/

theorem mem_base64url {bytes : Bytes} {c : Char} (h : c ∈ base64url bytes) :
    c.toNat < 128 ∧ c ≠ '.' := by
  obtain ⟨v, hv, rfl⟩ := (Base64.strip_encode UrlsafeBase64.reads bytes).1 c h
  exact UrlsafeBase64.digit_ascii v hv

theorem encodeAscii_of_ascii {s : Str} (h : ∀ c ∈ s, c.toNat < 128) :
    ∃ bytes, Str.encodeAscii s = .ok bytes := by
  have hall : s.all (·.toNat < 128) = true :=
    List.all_eq_true.mpr fun c hc => decide_eq_true (h c hc)
  exact ⟨_, if_pos hall⟩

theorem encodeAscii_signingInput (a b : Bytes) :
    ∃ bytes, Str.encodeAscii (base64url a ++ '.' :: base64url b) = .ok bytes := by
  apply encodeAscii_of_ascii
  intro c hc
  rcases List.mem_append.mp hc with hc | hc
  · exact (mem_base64url hc).1
  · rcases List.mem_cons.mp hc with rfl | hc
    · decide
    · exact (mem_base64url hc).1

/-- A segment decodes to the bytes it was made of, for every length of them. -/
theorem decodeSegment_base64url (bytes : Bytes) : decodeSegment (base64url bytes) = .ok bytes := by
  have hascii : ∀ c ∈ base64url bytes ++ Base64.padding (base64url bytes), c.toNat < 128 := by
    intro c hc
    rcases List.mem_append.mp hc with hc | hc
    · exact (mem_base64url hc).1
    · rw [List.eq_of_mem_replicate hc]
      decide
  obtain ⟨ascii, hencoded⟩ := encodeAscii_of_ascii hascii
  have hdecoded : Base64.decode UrlsafeBase64.value
      (base64url bytes ++ Base64.padding (base64url bytes)) = .ok bytes :=
    Base64.decode_strip_encode UrlsafeBase64.reads bytes
  simp only [decodeSegment, hencoded, hdecoded]

/-- The three segments are found again. -/
theorem splitOn_segments (a b c : Bytes) :
    (base64url a ++ '.' :: (base64url b ++ '.' :: base64url c)).splitOn '.' =
      [base64url a, base64url b, base64url c] := by
  have hdot : ∀ l ∈ [base64url a, base64url b, base64url c], '.' ∉ l := by
    intro l hl hmem
    simp only [List.mem_cons, List.not_mem_nil, or_false] at hl
    rcases hl with rfl | rfl | rfl
    · exact (mem_base64url hmem).2 rfl
    · exact (mem_base64url hmem).2 rfl
    · exact (mem_base64url hmem).2 rfl
  have hsplit := List.splitOn_intercalate '.' hdot (by simp)
  simpa [List.intercalate] using hsplit

/-! ## Whole seconds -/

section WholeSeconds

variable {micros : ℤ} (h₀ : 0 < micros)
include h₀

theorem seconds_pos : (0 : ℚ) < micros / (1000000 : ℤ) := by
  apply div_pos
  · exact_mod_cast h₀
  · norm_num

omit h₀ in
theorem floor_seconds : ⌊(micros / (1000000 : ℤ) : ℚ)⌋ = micros / 1000000 :=
  Rat.floor_intCast_div_natCast micros 1000000

theorem log_seconds_lt {k : ℕ} (h : micros < 2 ^ k * 1000000) :
    Int.log 2 |(micros / (1000000 : ℤ) : ℚ)| < k := by
  have hpos := seconds_pos h₀
  rw [abs_of_pos hpos, ← Int.lt_zpow_iff_log_lt (by norm_num) hpos, div_lt_iff₀ (by norm_num)]
  exact_mod_cast h

theorem timestamp_eq_floor :
    timestamp micros = ⌊Rounding.toDouble (micros / (1000000 : ℤ))⌋ := by
  apply Rounding.truncate_of_nonneg
  have hpos := seconds_pos h₀
  unfold Rounding.toDouble Rounding.toBits
  rw [if_neg hpos.ne']
  apply mul_nonneg _ Rounding.ulp_pos.le
  have hquot : ((0 : ℤ) : ℚ) ≤ micros / (1000000 : ℤ) / Rounding.ulp 53 (micros / (1000000 : ℤ)) := by
    exact_mod_cast (div_pos hpos Rounding.ulp_pos).le
  exact_mod_cast Rounding.le_halfEven hquot

/-- `timestamp` drops the fraction of a second, or rounds it up to a whole one. -/
theorem timestamp_mem (h : micros ≤ maxInstant) :
    timestamp micros = micros / 1000000 ∨ timestamp micros = micros / 1000000 + 1 := by
  have hlog : Int.log 2 |(micros / (1000000 : ℤ) : ℚ)| < (53 : ℕ) := by
    apply log_seconds_lt h₀
    unfold maxInstant at h
    omega
  rw [timestamp_eq_floor h₀, ← floor_seconds]
  rcases Rounding.floor_toBits_mem hlog with hfloor | hceil
  · exact .inl hfloor
  · refine .inr ?_
    rw [Rounding.toDouble, hceil, ← Int.cast_one, ← Int.cast_add, Int.floor_intCast]

/-- Below `2 ^ 34` seconds a gap is less than two microseconds, so the fraction is
dropped. -/
theorem timestamp_eq (h : micros < 2 ^ 34 * 1000000) : timestamp micros = micros / 1000000 := by
  have hpos := seconds_pos h₀
  have hlog := log_seconds_lt h₀ h
  rw [timestamp_eq_floor h₀, ← floor_seconds]
  apply Rounding.floor_toBits (hlog.trans (by norm_num))
  have hbound : |(micros / (1000000 : ℤ) : ℚ)| < 2 ^ (34 : ℤ) := by
    rw [abs_of_pos hpos]
    exact (Int.lt_zpow_iff_log_lt (by norm_num) hpos).mpr (abs_of_pos hpos ▸ hlog)
  have hulp := Rounding.ulp_le (p := 53) hpos.ne' hbound
  have hgrid : (micros / (1000000 : ℤ) : ℚ) + 1 / 1000000 ≤ ⌊(micros / (1000000 : ℤ) : ℚ)⌋ + 1 := by
    rw [floor_seconds]
    have hint : micros + 1 ≤ (micros / 1000000 + 1) * 1000000 := by omega
    have hcast : (micros : ℚ) + 1 ≤ ((micros / 1000000 : ℤ) + 1) * 1000000 := by exact_mod_cast hint
    have hdiv := div_le_div_of_nonneg_right hcast (by norm_num : (0 : ℚ) ≤ 1000000)
    push_cast at hdiv ⊢
    linarith
  norm_num at hulp
  linarith

end WholeSeconds

/-! ## A token's lifetime -/

variable {service : HMACTokenService} {json : Json}

theorem addSeconds_eq {now seconds later : ℤ} (h : addSeconds now seconds = .ok later) :
    later = now + seconds * 1000000 ∧ later ≤ maxInstant := by
  unfold addSeconds at h
  split at h
  · rename_i hrange
    cases h
    exact ⟨rfl, hrange.1⟩
  · cases h

/-- What becomes of a token that was created, if its own payload can be read back. -/
theorem parse_of_create_at {now : ℤ} {user : AuthenticatedUser} {token : Str}
    (hjson : ∀ expiresAt, addSeconds now (60 * service.expiresMinutes) = .ok expiresAt →
      json.loads (json.dumps (service.payload now expiresAt user)) =
        .ok (service.payload now expiresAt user))
    (h : service.createAccessToken json now user = .ok token) (t : ℤ) :
    service.parseAccessToken json t token =
      match fromTimestamp (timestamp (now + 60 * service.expiresMinutes * 1000000)) with
      | .error e => .error e
      | .ok expiresAt =>
          if expiresAt < t then .error ⟨.valueError, "Token expired".toList⟩ else .ok user := by
  unfold createAccessToken at h
  cases hadd : addSeconds now (60 * service.expiresMinutes) with
  | error e =>
      rw [hadd] at h
      cases h
  | ok expiresAt =>
      rw [hadd] at h
      have hload := hjson expiresAt hadd
      obtain ⟨rfl, -⟩ := addSeconds_eq hadd
      set p := service.payload now (now + 60 * service.expiresMinutes * 1000000) user with hp
      obtain ⟨signingInput, hsigning⟩ := encodeAscii_signingInput header.encodeUtf8 (json.dumps p)
      have htoken : token = base64url header.encodeUtf8 ++ '.' ::
          (base64url (json.dumps p) ++ '.' :: base64url (service.signature signingInput)) := by
        change (Str.encodeAscii _ >>= _) = _ at h
        rw [hsigning] at h
        exact (Except.ok.inj h).symm
      have hread : Uuid.read user.userId.str = .ok user.userId := by
        rw [Uuid.read, Uuid.parse_str]
      unfold parseAccessToken
      rw [htoken, splitOn_segments]
      have hexp : p.exp = timestamp (now + 60 * service.expiresMinutes * 1000000) := rfl
      have hsub : p.sub = user.userId.str := rfl
      simp only [hsigning, decodeSegment_base64url, hload, hexp, hsub, hread, ne_eq,
        not_true_eq_false, if_false, bind, Except.bind, pure, Except.pure]
      cases fromTimestamp (timestamp (now + 60 * service.expiresMinutes * 1000000)) with
      | error e => rfl
      | ok expiresAt =>
          by_cases hexpired : expiresAt < t
          · simp only [if_pos hexpired]
            rfl
          · simp only [if_neg hexpired]
            rfl

theorem parse_of_create (hjson : json.RoundTrips) {now : ℤ} {user : AuthenticatedUser} {token : Str}
    (h : service.createAccessToken json now user = .ok token) (t : ℤ) :
    service.parseAccessToken json t token =
      match fromTimestamp (timestamp (now + 60 * service.expiresMinutes * 1000000)) with
      | .error e => .error e
      | .ok expiresAt =>
          if expiresAt < t then .error ⟨.valueError, "Token expired".toList⟩ else .ok user :=
  parse_of_create_at (fun _ _ => hjson _) h t

theorem fromTimestamp_of_nonneg {seconds : ℤ} (h₀ : 0 ≤ seconds) (h : seconds < 2 ^ 63) :
    fromTimestamp seconds =
      if seconds ≤ 253402300799 then .ok (seconds * 1000000)
      else .error ⟨.valueError, "year is out of range".toList⟩ := by
  unfold fromTimestamp
  by_cases hyear : seconds ≤ 253402300799
  · rw [if_pos ⟨by omega, hyear⟩, if_pos hyear]
  · rw [if_neg fun hrange => hyear hrange.2, if_neg hyear, if_pos ⟨by omega, h⟩]

/-- A token gives its user back until its `exp`, which is the creation time plus
the lifetime, as a double and without its fraction. -/
theorem token_round_trip_until_exp (service : HMACTokenService) (json : Json)
    (hjson : json.RoundTrips) (user : AuthenticatedUser) {t₀ t : ℤ} {token : Str} (ht₀ : 0 ≤ t₀)
    (hminutes : 0 < service.expiresMinutes)
    (hcreate : service.createAccessToken json t₀ user = .ok token) :
    let expiry := t₀ + 60 * service.expiresMinutes * 1000000
    let exp := timestamp expiry
    (t ≤ exp * 1000000 ∧ exp ≤ 253402300799 →
      service.parseAccessToken json t token = .ok user) ∧
    (¬ (t ≤ exp * 1000000 ∧ exp ≤ 253402300799) →
      ∃ message, service.parseAccessToken json t token = .error ⟨.valueError, message⟩) ∧
    (exp = expiry / 1000000 ∨ exp = expiry / 1000000 + 1) ∧
    (expiry < 2 ^ 34 * 1000000 → exp = expiry / 1000000) := by
  intro expiry exp
  have hpos : 0 < expiry := by
    have hlifetime : 0 < 60 * service.expiresMinutes * 1000000 := by omega
    exact Int.add_pos_of_nonneg_of_pos ht₀ hlifetime
  have hmax : expiry ≤ maxInstant := by
    unfold createAccessToken at hcreate
    cases hadd : addSeconds t₀ (60 * service.expiresMinutes) with
    | error e =>
        rw [hadd] at hcreate
        cases hcreate
    | ok later =>
        obtain ⟨rfl, hle⟩ := addSeconds_eq hadd
        exact hle
  have hmem : exp = expiry / 1000000 ∨ exp = expiry / 1000000 + 1 := timestamp_mem hpos hmax
  have hfrom : fromTimestamp exp = if exp ≤ 253402300799 then .ok (exp * 1000000)
      else .error ⟨.valueError, "year is out of range".toList⟩ := by
    unfold maxInstant at hmax
    apply fromTimestamp_of_nonneg
    · omega
    · omega
  have hparse := parse_of_create hjson hcreate t
  change _ = match fromTimestamp exp with | .error e => _ | .ok expiresAt => _ at hparse
  rw [hfrom] at hparse
  refine ⟨?_, ?_, hmem, timestamp_eq hpos⟩
  · rintro ⟨halive, hyear⟩
    rw [hparse, if_pos hyear]
    exact if_neg (not_lt.mpr halive)
  · intro hdead
    by_cases hyear : exp ≤ 253402300799
    · rw [hparse, if_pos hyear]
      exact ⟨_, if_pos (not_le.mp fun halive => hdead ⟨halive, hyear⟩)⟩
    · rw [hparse, if_neg hyear]
      exact ⟨_, rfl⟩

/-- Creating a token fails only where the lifetime leaves the calendar. -/
theorem createAccessToken_isOk {now later : ℤ} (user : AuthenticatedUser)
    (h : addSeconds now (60 * service.expiresMinutes) = .ok later) :
    ∃ token, service.createAccessToken json now user = .ok token := by
  obtain ⟨signingInput, hsigning⟩ := encodeAscii_signingInput header.encodeUtf8
    (json.dumps (service.payload now later user))
  unfold createAccessToken
  rw [h]
  change ∃ token, (Str.encodeAscii _ >>= _) = _
  rw [hsigning]
  exact ⟨_, rfl⟩

/-! ## A written payload -/

theorem countable_payload : Countable Payload := by
  have hchar : Countable Char :=
    Function.Injective.countable (f := Char.toNat) fun _ _ h => Char.toNat_inj.mp h
  apply Function.Injective.countable
    (f := fun p : Payload => (p.sub, p.email, p.admin, p.iss, p.iat, p.exp))
  intro p q h
  cases p
  cases q
  simpa using h

/-- Writes one payload as the given text and every other one as a row of zeros. -/
noncomputable def jsonWriting (p : Payload) (text : Bytes) : Json :=
  open Classical in
  let code : Payload → ℕ := (@exists_injective_nat Payload countable_payload).choose
  { dumps := fun q => if q = p then text else List.replicate (code q) 0
    loads := fun data =>
      if data = text then .ok p
      else if h : ∃ q, code q = data.length then .ok h.choose
      else .error ⟨.valueError, "Expecting value".toList⟩ }

theorem roundTrips_jsonWriting (p : Payload) {text : Bytes} (h : ∃ b ∈ text, b ≠ 0) :
    (jsonWriting p text).RoundTrips := by
  intro q
  have hcode := (@exists_injective_nat Payload countable_payload).choose_spec
  dsimp only [jsonWriting]
  by_cases hq : q = p
  · rw [if_pos hq, if_pos rfl, hq]
  · have hne : List.replicate ((@exists_injective_nat Payload countable_payload).choose q) 0 ≠
        text := by
      rintro rfl
      obtain ⟨b, hb, hzero⟩ := h
      exact hzero (List.eq_of_mem_replicate hb)
    have hex : ∃ q', (@exists_injective_nat Payload countable_payload).choose q' =
        (@exists_injective_nat Payload countable_payload).choose q := ⟨q, rfl⟩
    rw [if_neg hq, if_neg hne, List.length_replicate, dif_pos hex]
    exact congrArg Except.ok (hcode hex.choose_spec)

def sampleUser : AuthenticatedUser where
  userId := Uuid.ofNat 7
  email := "ana@example.com".toList

def sampleService : HMACTokenService where
  secretKey := "seed".toList

/-- The dump of a sample user's payload with these two times. -/
def sampleText (exp iat : Str) : Bytes :=
  Str.encodeUtf8 ("\x7b\"admin\":false,\"email\":\"ana@example.com\",\"exp\":".toList ++ exp ++
    ",\"iat\":".toList ++ iat ++ ",\"iss\":\"Jumbox\",\"sub\":\"".toList ++
    sampleUser.userId.str ++ "\"\x7d".toList)

theorem sampleText_ne_zero (exp iat : Str) : ∃ b ∈ sampleText exp iat, b ≠ 0 := by
  refine ⟨0x7b, ?_, by decide⟩
  apply List.mem_flatMap.mpr
  exact ⟨'\x7b', by simp, by decide⟩

/-- A token made half a second after a full one is good for the whole second in
which its hour ends, and no microsecond longer. -/
theorem token_round_trip_until_exp_hour :
    ∃ json token, sampleService.createAccessToken json 1700000000500000 sampleUser = .ok token ∧
      sampleService.parseAccessToken json 1700003600000000 token = .ok sampleUser ∧
      ∃ message, sampleService.parseAccessToken json 1700003600000001 token =
        .error ⟨.valueError, message⟩ := by
  set json := jsonWriting (sampleService.payload 1700000000500000 1700003600500000 sampleUser)
    (sampleText "1700003600".toList "1700000000".toList)
  have hjson : json.RoundTrips := roundTrips_jsonWriting _ (sampleText_ne_zero _ _)
  obtain ⟨token, hcreate⟩ : ∃ token,
      sampleService.createAccessToken json 1700000000500000 sampleUser = .ok token :=
    createAccessToken_isOk sampleUser (show addSeconds _ _ = .ok 1700003600500000 by decide)
  have hlife := fun t => token_round_trip_until_exp sampleService json hjson sampleUser (t := t)
    (by decide) (by decide) hcreate
  exact ⟨json, token, hcreate, (hlife 1700003600000000).1 (by decide +kernel),
    (hlife 1700003600000001).2.1 (by decide +kernel)⟩

/-- A lifetime that ends one microsecond before a full second, 544 years from now:
the double is the full second, and the token is still good then. -/
theorem token_outlives_floor :
    ¬ ∀ (service : HMACTokenService) (json : Json) (user : AuthenticatedUser) (t₀ t : ℤ)
      (token : Str), json.RoundTrips → 0 ≤ t₀ → 0 ≤ t → 0 < service.expiresMinutes →
      service.createAccessToken json t₀ user = .ok token →
      let expiry := t₀ + 60 * service.expiresMinutes * 1000000
      (t ≤ expiry / 1000000 * 1000000 → service.parseAccessToken json t token = .ok user) ∧
      (¬ t ≤ expiry / 1000000 * 1000000 →
        ∃ message, service.parseAccessToken json t token = .error ⟨.valueError, message⟩) := by
  intro h
  set service : HMACTokenService := { sampleService with expiresMinutes := 286331154 }
  set json := jsonWriting (service.payload 999999 17179869240999999 sampleUser)
    (sampleText "17179869241".toList "0".toList)
  have hjson : json.RoundTrips := roundTrips_jsonWriting _ (sampleText_ne_zero _ _)
  obtain ⟨token, hcreate⟩ : ∃ token, service.createAccessToken json 999999 sampleUser = .ok token :=
    createAccessToken_isOk sampleUser (show addSeconds _ _ = .ok 17179869240999999 by decide)
  have hparse := parse_of_create hjson hcreate 17179869241000000
  have hexp : timestamp (999999 + 60 * service.expiresMinutes * 1000000) = 17179869241 := by
    decide +kernel
  rw [hexp, fromTimestamp_of_nonneg (by decide) (by decide), if_pos (by decide)] at hparse
  obtain ⟨message, hexpired⟩ := (h service json sampleUser 999999 17179869241000000 token hjson
    (by decide) (by decide) (by decide) hcreate).2 (by decide)
  rw [hexpired] at hparse
  cases hparse

end HMACTokenService

end Jumbox
