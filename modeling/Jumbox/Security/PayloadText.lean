import Jumbox.Domain.Isoformat
import Jumbox.Platform.JsonText
import Jumbox.Security.TokenService
import Mathlib.Data.Char
import Mathlib.Data.List.Lex

/-!
# The text of a payload

What `_encode_segment` makes of a payload before it is base64, and what
`parse_access_token` reads of it: the JSON text with its keys sorted. A signed text
that is no payload is refused with one error, which stands for the `KeyError`s and
`TypeError`s of the look-ups.
-/

namespace Jumbox

namespace Str

/-- `data.decode("utf-8")`, where it raises nothing. -/
def decodeUtf8 (data : Bytes) : Option Str := (data.toByteArray.utf8Decode?).map Array.toList

theorem decodeUtf8_encodeUtf8 (s : Str) : decodeUtf8 s.encodeUtf8 = some s := by
  have hencode : s.encodeUtf8.toByteArray = s.utf8Encode := rfl
  rw [decodeUtf8, hencode, List.utf8Decode?_utf8Encode]
  rfl

end Str

namespace Payload

open JsonText (Value)

/-- The dictionary, in the order of the source. -/
def fields (p : Payload) : List (Str × Value) :=
  [("sub".toList, .str p.sub), ("email".toList, .str p.email), ("admin".toList, .bool p.admin),
    ("iss".toList, .str p.iss), ("iat".toList, .int p.iat), ("exp".toList, .int p.exp)]

/-- `sort_keys` -/
def sortKeys (fields : List (Str × Value)) : List (Str × Value) :=
  fields.insertionSort fun a b => a.1 ≤ b.1

/-- `json.dumps(value, separators=(",", ":"), sort_keys=True)`, where it raises nothing. -/
def text (p : Payload) : Option Str := JsonText.write [] (.obj (sortKeys p.fields))

def noPayload : Error := ⟨.typeError, "no payload".toList⟩

/-- The look-ups. -/
def ofValue : Value → Option Payload
  | .obj fields =>
      match JsonText.lookup "sub".toList fields, JsonText.lookup "email".toList fields,
        JsonText.lookup "iss".toList fields, JsonText.lookup "iat".toList fields,
        JsonText.lookup "exp".toList fields with
      | some (.str sub), some (.str email), some (.str iss), some (.int iat), some (.int exp) =>
          match JsonText.lookup "admin".toList fields with
          | none => some { sub, email, iss, iat, exp, admin := false }
          | some (.bool admin) => some { sub, email, iss, iat, exp, admin }
          | _ => none
      | _, _, _, _, _ => none
  | _ => none

/-- `json` as `HMACTokenService` uses it. -/
def pythonJson : Json where
  dumps p :=
    match p.text with
    | some text => text.encodeUtf8
    | none => []
  loads data :=
    match Str.decodeUtf8 data with
    | none => .error ⟨.valueError, "invalid UTF-8".toList⟩
    | some text =>
        match JsonText.read text with
        | none => .error ⟨.valueError, "invalid JSON".toList⟩
        | some value =>
            match ofValue value with
            | none => .error noPayload
            | some p => .ok p

/-! ## A payload is read back -/

theorem sortKeys_fields (p : Payload) : sortKeys p.fields =
    [("admin".toList, .bool p.admin), ("email".toList, .str p.email), ("exp".toList, .int p.exp),
      ("iat".toList, .int p.iat), ("iss".toList, .str p.iss), ("sub".toList, .str p.sub)] := by
  rfl

theorem ofValue_sorted (p : Payload) : ofValue (.obj (sortKeys p.fields)) = some p := by
  rw [sortKeys_fields]
  rfl

/-- A payload is written out if its two numbers are. -/
theorem text_isSome {p : Payload} {iat exp : Str} (hiat : Decimal.write p.iat = some iat)
    (hexp : Decimal.write p.exp = some exp) : p.text.isSome = true := by
  rw [text, sortKeys_fields]
  cases p.admin with
  | true => simp [JsonText.write, JsonText.writeFields, hiat, hexp]
  | false => simp [JsonText.write, JsonText.writeFields, hiat, hexp]

theorem loads_dumps {p : Payload} {text : Str} (h : p.text = some text) :
    pythonJson.loads (pythonJson.dumps p) = .ok p := by
  have hread : JsonText.read text = some (.obj (sortKeys p.fields)) :=
    JsonText.read_write (by simp) h
  simp only [pythonJson, h, Str.decodeUtf8_encodeUtf8, hread, ofValue_sorted]

/-! ## The times of a token -/

theorem write_isSome {n : ℤ} (h : |n| < 2 ^ 53) : ∃ text, Decimal.write n = some text := by
  have hsmall : n.natAbs < 10 ^ 16 := by
    have := abs_lt.mp h
    omega
  have hlength : (Nat.toDigits 10 n.natAbs).length ≤ 16 :=
    (Nat.length_toDigits_le_iff (by decide) (by decide)).mpr hsmall
  exact ⟨_, if_pos (hlength.trans (by decide))⟩

end Payload

/-- The seconds of a `datetime` are a number of 53 bits. -/
theorem abs_timestamp_lt {micros : ℤ} (hlow : -62135596800000000 ≤ micros)
    (hhigh : micros ≤ maxInstant) : |timestamp micros| < 2 ^ 53 := by
  have hmicros : |(micros : ℚ)| ≤ 2 ^ 40 * 1000000 := by
    unfold maxInstant at hhigh
    have : |micros| ≤ 2 ^ 40 * 1000000 := abs_le.mpr ⟨by omega, by omega⟩
    exact_mod_cast this
  have hseconds : |(micros / (1000000 : ℤ) : ℚ)| ≤ 2 ^ 40 := by
    rw [abs_div]
    push_cast
    rw [abs_of_pos (by norm_num : (0 : ℚ) < 1000000), div_le_iff₀ (by norm_num)]
    exact hmicros
  have hlog : Int.log 2 |(micros / (1000000 : ℤ) : ℚ)| < (53 : ℕ) :=
    Rounding.log_lt_of_abs_lt (by norm_num) (hseconds.trans_lt (by norm_num))
  obtain ⟨hge, hle⟩ := abs_le.mp hseconds
  have hlower : ((-2 ^ 40 : ℤ) : ℚ) ≤ Rounding.toDouble (micros / (1000000 : ℤ)) :=
    Rounding.le_toBits hlog (by push_cast; exact hge)
  have hupper : Rounding.toDouble (micros / (1000000 : ℤ)) ≤ ((2 ^ 40 : ℤ) : ℚ) :=
    Rounding.toBits_le hlog (by push_cast; exact hle)
  rw [abs_lt]
  unfold timestamp Rounding.truncate
  split
  · constructor
    · have := Int.le_floor.mpr hlower
      omega
    · have hfloor := Int.floor_mono hupper
      rw [Int.floor_intCast] at hfloor
      omega
  · constructor
    · have hceil := Int.ceil_mono hlower
      rw [Int.ceil_intCast] at hceil
      omega
    · have := Int.ceil_le.mpr hupper
      omega

theorem onClock_of_addSeconds {now seconds later : ℤ} (h : addSeconds now seconds = .ok later) :
    OnClock later := by
  unfold addSeconds at h
  split at h
  · rename_i hrange
    cases h
    exact ⟨by omega, hrange.1⟩
  · cases h

namespace HMACTokenService

variable {service : HMACTokenService} {now : ℤ} {user : AuthenticatedUser} {token : Str}

theorem text_of_payload (user : AuthenticatedUser) (hclock : OnClock now) {expiresAt : ℤ}
    (hadd : addSeconds now (60 * service.expiresMinutes) = .ok expiresAt) :
    ∃ text, (service.payload now expiresAt user).text = some text := by
  have hrange := onClock_of_addSeconds hadd
  obtain ⟨iat, hiat⟩ := Payload.write_isSome (abs_timestamp_lt hclock.1 hclock.2)
  obtain ⟨exp, hexp⟩ := Payload.write_isSome (abs_timestamp_lt hrange.1 hrange.2)
  exact Option.isSome_iff_exists.mp (Payload.text_isSome hiat hexp)

/-- What `parse_access_token` makes of a token. -/
theorem parse_of_create_onClock (hclock : OnClock now)
    (h : service.createAccessToken Payload.pythonJson now user = .ok token) (t : ℤ) :
    service.parseAccessToken Payload.pythonJson t token =
      match fromTimestamp (timestamp (now + 60 * service.expiresMinutes * 1000000)) with
      | .error e => .error e
      | .ok expiresAt =>
          if expiresAt < t then .error ⟨.valueError, "Token expired".toList⟩ else .ok user := by
  refine parse_of_create_at (fun later hadd => ?_) h t
  obtain ⟨text, htext⟩ := text_of_payload user hclock hadd
  exact Payload.loads_dumps htext

/-- What `get_current_user` makes of a token. -/
theorem getCurrentUser_of_create (hclock : OnClock now)
    (h : service.createAccessToken Payload.pythonJson now user = .ok token) {expiresAt : ℤ}
    (hexp : fromTimestamp (timestamp (now + 60 * service.expiresMinutes * 1000000)) =
      .ok expiresAt) (t : ℤ) :
    service.getCurrentUser Payload.pythonJson t token =
      if expiresAt < t then .error ⟨.authenticationError, "Token expired".toList⟩
      else .ok user := by
  have hparse := parse_of_create_onClock hclock h t
  rw [hexp] at hparse
  rw [getCurrentUser, hparse]
  dsimp only
  split
  · rename_i heq
    split at heq
    · cases heq
    · rename_i hgood
      rw [if_neg hgood, Except.ok.inj heq]
  · rename_i heq
    split at heq
    · rename_i hexpired
      rw [if_pos hexpired]
      cases heq
      rfl
    · cases heq

/-- Whoever a token is taken for, it was made for. -/
theorem user_of_create (hclock : OnClock now)
    (h : service.createAccessToken Payload.pythonJson now user = .ok token) {t : ℤ}
    {u : AuthenticatedUser} (hu : service.getCurrentUser Payload.pythonJson t token = .ok u) :
    u = user := by
  rw [getCurrentUser, parse_of_create_onClock hclock h] at hu
  cases hexp : fromTimestamp (timestamp (now + 60 * service.expiresMinutes * 1000000)) with
  | error e =>
      rw [hexp] at hu
      cases hu
  | ok expiresAt =>
      rw [hexp] at hu
      dsimp only at hu
      by_cases hexpired : expiresAt < t
      · rw [if_pos hexpired] at hu
        cases hu
      · rw [if_neg hexpired] at hu
        exact (Except.ok.inj hu).symm

end HMACTokenService

end Jumbox
