import Jumbox.Concurrency.RegisterRace
import Jumbox.Domain.Isoformat
import Jumbox.Security.PayloadText

/-!
# Whom the page shows as signed in

`decodeJwtPayload` of `app.js`: the page reads the payload of the stored token by
itself and shows its address. Of `decodeURIComponent` only texts made of escapes are
modelled. `JSON.parse` reads what `json.loads` reads, except for `NaN` and the
infinities, and takes every number for a double.
-/

namespace Jumbox

namespace Browser

open JsonText (Value)

/-! ## `atob` -/

def atobAlphabet : Str :=
  "ABCDEFGHIJKLMNOPQRSTUVWXYZabcdefghijklmnopqrstuvwxyz0123456789+/".toList

def isAsciiSpace (c : Char) : Bool :=
  c = '\t' || c = '\n' || c = '\x0c' || c = '\r' || c = ' '

/-- One or two paddings at the end. -/
def dropPadding (data : Str) : Str :=
  match data.reverse with
  | '=' :: '=' :: rest => rest.reverse
  | '=' :: rest => rest.reverse
  | _ => data

/-- The bits that fill no byte are dropped. -/
def bytesOf : List ℕ → Bytes
  | a :: b :: c :: d :: rest =>
      UInt8.ofNat (a * 4 + b / 16) :: UInt8.ofNat (b % 16 * 16 + c / 4) ::
        UInt8.ofNat (c % 4 * 64 + d) :: bytesOf rest
  | [a, b, c] => [UInt8.ofNat (a * 4 + b / 16), UInt8.ofNat (b % 16 * 16 + c / 4)]
  | [a, b] => [UInt8.ofNat (a * 4 + b / 16)]
  | _ => []

def atob (data : Str) : Option Bytes :=
  let data := data.filter fun c => !isAsciiSpace c
  let data := if data.length % 4 = 0 then dropPadding data else data
  if data.length % 4 = 1 then none
  else (data.mapM fun c => atobAlphabet.idxOf? c).map bytesOf

/-! ## `decodeURIComponent` -/

/-- `%` and `c.charCodeAt(0).toString(16).padStart(2, '0')` -/
def percent (b : UInt8) : Str :=
  ['%', hexDigit (nibble (b.toNat / 16)), hexDigit (nibble b.toNat)]

def unpercent : Str → Option Bytes
  | [] => some []
  | '%' :: a :: b :: rest =>
      (Uuid.hexValue a).bind fun a => (Uuid.hexValue b).bind fun b =>
        (unpercent rest).map fun bytes => UInt8.ofNat (a.val * 16 + b.val) :: bytes
  | _ => none

def decodeURIComponent (text : Str) : Option Str := (unpercent text).bind Str.decodeUtf8

/-! ## `JSON.parse` -/

def notJson : List Str := ["NaN".toList, "Infinity".toList, "-Infinity".toList]

mutual

/-- What JavaScript makes of a value. -/
def jsValue : Value → Option Value
  | .null => some .null
  | .bool b => some (.bool b)
  | .int n => some (.int (Rounding.truncate (Rounding.toDouble n)))
  | .float lexeme => if lexeme ∈ notJson then none else some (.float lexeme)
  | .str s => some (.str s)
  | .arr elems => (jsElems elems).map .arr
  | .obj fields => (jsFields fields).map .obj

def jsElems : List Value → Option (List Value)
  | [] => some []
  | v :: rest => (jsValue v).bind fun v => (jsElems rest).map fun rest => v :: rest

def jsFields : List (Str × Value) → Option (List (Str × Value))
  | [] => some []
  | (key, v) :: rest =>
      (jsValue v).bind fun v => (jsFields rest).map fun rest => (key, v) :: rest

end

def jsonParse (text : Str) : Option Value := (JsonText.read text).bind jsValue

/-! ## The page -/

/-- `null` where something throws. -/
def decodeJwtPayload (token : Str) : Option Value :=
  match token.splitOn '.' with
  | _ :: payload :: _ =>
      (atob (Str.replace '_' '/' (Str.replace '-' '+' payload))).bind fun json =>
        (decodeURIComponent (json.flatMap percent)).bind jsonParse
  | _ => none

/-- `userDisplay` of `refreshAuthStatus`; nobody is shown without a payload. -/
def userDisplay (token : Str) : Option Value :=
  match decodeJwtPayload token with
  | some (.obj fields) =>
      match JsonText.lookup "email".toList fields with
      | some (.str []) => some (.str "User".toList)
      | some email => some email
      | none => some (.str "User".toList)
  | _ => none

/-! ## The page reads what the server has written -/

theorem bytesOf_sextets (bytes : Bytes) : bytesOf (Base64.sextets bytes) = bytes := by
  induction bytes using Base64.sextets.induct with
  | case1 => rfl
  | case2 a =>
      have ha := a.toNat_lt
      rw [Base64.sextets, bytesOf, Base64.ofNat_eq a (by omega)]
  | case3 a b =>
      have ha := a.toNat_lt
      have hb := b.toNat_lt
      rw [Base64.sextets, bytesOf, Base64.ofNat_eq a (by omega), Base64.ofNat_eq b (by omega)]
  | case4 a b c rest ih =>
      have ha := a.toNat_lt
      have hb := b.toNat_lt
      have hc := c.toNat_lt
      rw [Base64.sextets, bytesOf, Base64.ofNat_eq a (by omega), Base64.ofNat_eq b (by omega),
        Base64.ofNat_eq c (by omega), ih]

theorem length_sextets (bytes : Bytes) : (Base64.sextets bytes).length % 4 ≠ 1 := by
  induction bytes using Base64.sextets.induct with
  | case1 => decide
  | case2 a => exact (by decide : 2 % 4 ≠ 1)
  | case3 a b => exact (by decide : 3 % 4 ≠ 1)
  | case4 a b c rest ih =>
      rw [Base64.sextets]
      simp only [List.length_cons]
      omega

/-- A digit of the URL-safe alphabet in the standard one. -/
def standard (n : ℕ) : Char := atobAlphabet.getD n 'A'

theorem standard_digit : ∀ n < 64,
    (if (if UrlsafeBase64.digit n = '-' then '+' else UrlsafeBase64.digit n) = '_' then '/'
      else (if UrlsafeBase64.digit n = '-' then '+' else UrlsafeBase64.digit n)) = standard n ∧
    atobAlphabet.idxOf? (standard n) = some n ∧ standard n ≠ '=' ∧
    isAsciiSpace (standard n) = false := by
  decide +kernel

theorem mapM_standard {values : List ℕ} (h : ∀ n ∈ values, n < 64) :
    (values.map standard).mapM (fun c => atobAlphabet.idxOf? c) = some values := by
  induction values with
  | nil => rfl
  | cons n values ih =>
      rw [List.map_cons, List.mapM_cons, (standard_digit n (h n List.mem_cons_self)).2.1,
        ih fun m hm => h m (List.mem_cons_of_mem n hm)]
      rfl

theorem atob_segment (bytes : Bytes) :
    atob (Str.replace '_' '/' (Str.replace '-' '+' (HMACTokenService.base64url bytes))) =
      some bytes := by
  have hdigits : ∀ n ∈ Base64.sextets bytes, n < 64 := Base64.sextets_lt
  have hsegment : Str.replace '_' '/' (Str.replace '-' '+' (HMACTokenService.base64url bytes)) =
      (Base64.sextets bytes).map standard := by
    rw [HMACTokenService.base64url, Base64.strip_encode_eq UrlsafeBase64.reads, Str.replace,
      Str.replace, List.map_map, List.map_map]
    apply List.map_congr_left
    intro n hn
    exact (standard_digit n (hdigits n hn)).1
  have hspace : ((Base64.sextets bytes).map standard).filter (fun c => !isAsciiSpace c) =
      (Base64.sextets bytes).map standard := by
    apply List.filter_eq_self.mpr
    intro c hc
    obtain ⟨n, hn, rfl⟩ := List.mem_map.mp hc
    rw [(standard_digit n (hdigits n hn)).2.2.2]
    rfl
  have hpadding : dropPadding ((Base64.sextets bytes).map standard) =
      (Base64.sextets bytes).map standard := by
    have hlast : ∀ rest, ((Base64.sextets bytes).map standard).reverse ≠ '=' :: rest := by
      intro rest heq
      have hmem : '=' ∈ (Base64.sextets bytes).map standard := by
        rw [← List.mem_reverse, heq]
        exact List.mem_cons_self
      obtain ⟨n, hn, hpad⟩ := List.mem_map.mp hmem
      exact (standard_digit n (hdigits n hn)).2.2.1 hpad
    unfold dropPadding
    split
    · rename_i rest heq
      exact absurd heq (hlast _)
    · rename_i rest heq
      exact absurd heq (hlast _)
    · rfl
  rw [hsegment, atob]
  simp only [hspace, hpadding, ite_self, List.length_map]
  rw [if_neg (length_sextets bytes), mapM_standard hdigits, Option.map_some, bytesOf_sextets]

theorem unpercent_flatMap (bytes : Bytes) : unpercent (bytes.flatMap percent) = some bytes := by
  induction bytes with
  | nil => rfl
  | cons b bytes ih =>
      have hb := b.toNat_lt
      show unpercent ('%' :: hexDigit (nibble (b.toNat / 16)) :: hexDigit (nibble b.toNat) ::
        bytes.flatMap percent) = _
      rw [unpercent, Uuid.hexValue_hexDigit, Uuid.hexValue_hexDigit, ih]
      simp only [Option.bind_some, Option.map_some, nibble, Fin.val_ofNat]
      rw [Base64.ofNat_eq b (by omega)]

theorem decodeURIComponent_flatMap (text : Str) :
    decodeURIComponent (text.encodeUtf8.flatMap percent) = some text := by
  rw [decodeURIComponent, unpercent_flatMap, Option.bind_some, Str.decodeUtf8_encodeUtf8]

/-- An integer of 53 bits is a double. -/
theorem truncate_toDouble {n : ℤ} (h : |n| < 2 ^ 53) :
    Rounding.truncate (Rounding.toDouble n) = n := by
  have hdouble : Rounding.toDouble n = n := Rounding.toBits_intCast (by norm_num) h
  rw [hdouble]
  unfold Rounding.truncate
  split
  · exact Int.floor_intCast n
  · exact Int.ceil_intCast n

/-! ## Tokens of the server -/

section Token

variable {service : HMACTokenService} {now : ℤ} {user : AuthenticatedUser} {token : Str}

/-- The payload of a token is its second segment. -/
theorem payload_of_create (h : service.createAccessToken Payload.pythonJson now user = .ok token) :
    ∃ expiresAt header signature,
      addSeconds now (60 * service.expiresMinutes) = .ok expiresAt ∧
      token.splitOn '.' = [header, HMACTokenService.base64url
        (Payload.pythonJson.dumps (service.payload now expiresAt user)), signature] := by
  unfold HMACTokenService.createAccessToken at h
  cases hadd : addSeconds now (60 * service.expiresMinutes) with
  | error e =>
      rw [hadd] at h
      cases h
  | ok expiresAt =>
      rw [hadd] at h
      obtain ⟨signingInput, hsigning⟩ := HMACTokenService.encodeAscii_signingInput
        HMACTokenService.header.encodeUtf8
        (Payload.pythonJson.dumps (service.payload now expiresAt user))
      change (Str.encodeAscii _ >>= _) = _ at h
      rw [hsigning] at h
      obtain rfl := Except.ok.inj h
      exact ⟨expiresAt, _, _, rfl, HMACTokenService.splitOn_segments _ _ _⟩

theorem jsValue_payload {p : Payload} (hiat : |p.iat| < 2 ^ 53) (hexp : |p.exp| < 2 ^ 53) :
    jsValue (.obj (Payload.sortKeys p.fields)) = some (.obj (Payload.sortKeys p.fields)) := by
  rw [Payload.sortKeys_fields]
  simp only [jsValue, jsFields, truncate_toDouble hiat, truncate_toDouble hexp, Option.bind_some,
    Option.map_some]

/-- The page gets the dictionary the server has signed. -/
theorem decodeJwtPayload_of_create (hclock : OnClock now)
    (h : service.createAccessToken Payload.pythonJson now user = .ok token) :
    ∃ expiresAt, addSeconds now (60 * service.expiresMinutes) = .ok expiresAt ∧
      decodeJwtPayload token =
        some (.obj (Payload.sortKeys (service.payload now expiresAt user).fields)) := by
  obtain ⟨expiresAt, header, signature, hadd, hsplit⟩ := payload_of_create h
  have hrange := onClock_of_addSeconds hadd
  obtain ⟨text, htext⟩ := HMACTokenService.text_of_payload user hclock hadd
  have hdumps :
      Payload.pythonJson.dumps (service.payload now expiresAt user) = text.encodeUtf8 := by
    simp only [Payload.pythonJson, htext]
  have hread : JsonText.read text =
      some (.obj (Payload.sortKeys (service.payload now expiresAt user).fields)) :=
    JsonText.read_write (by simp) htext
  refine ⟨expiresAt, hadd, ?_⟩
  rw [decodeJwtPayload, hsplit]
  dsimp only
  rw [atob_segment, Option.bind_some, hdumps, decodeURIComponent_flatMap, Option.bind_some,
    jsonParse, hread, Option.bind_some]
  exact jsValue_payload (abs_timestamp_lt hclock.1 hclock.2) (abs_timestamp_lt hrange.1 hrange.2)

theorem userDisplay_of_create (hclock : OnClock now)
    (h : service.createAccessToken Payload.pythonJson now user = .ok token) :
    userDisplay token =
      some (Value.str (if user.email = [] then "User".toList else user.email)) := by
  obtain ⟨expiresAt, -, hpayload⟩ := decodeJwtPayload_of_create hclock h
  have hemail : ∀ p : Payload,
      JsonText.lookup "email".toList (Payload.sortKeys p.fields) = some (.str p.email) :=
    fun _ => rfl
  rw [userDisplay, hpayload]
  dsimp only
  rw [hemail]
  have hshown : (service.payload now expiresAt user).email = user.email := rfl
  rw [hshown]
  cases user.email with
  | nil => rfl
  | cons c rest => rfl

end Token

/-! ## Everyone who has signed in -/

section Calls

open RegisterRace

variable {ι : Type} [DecidableEq ι]

/-- Whoever has a token from `register` or `login` is shown by the page under the
address of that call, with the identifier and the rights the server has signed; the
server takes this token, and every other one handed out for the address, for that
same user until it expires. -/
theorem page_shows_authenticated_user (service : AuthService)
    (hjson : service.json = Payload.pythonJson) (calls : ι → Call) {users : UserTable}
    {s : RegisterRace.State ι} {ls : List (Step ι)}
    (hclock : ∀ i now, .issue i now ∈ ls → OnClock now)
    (hrun : (system service calls).run (start users) ls = some s) {i : ι} {user : User}
    {result : AuthResult} (hanswered : s.phase i = .answered user (.ok result)) :
    userDisplay result.accessToken =
        some (.str (if (calls i).email = [] then "User".toList else (calls i).email)) ∧
      (∃ fields, decodeJwtPayload result.accessToken = some (.obj fields) ∧
        JsonText.lookup "sub".toList fields = some (.str user.id.str) ∧
        JsonText.lookup "email".toList fields = some (.str (calls i).email) ∧
        JsonText.lookup "admin".toList fields = some (.bool user.isAdmin)) ∧
      ∀ j owner other, s.phase j = .answered owner (.ok other) →
        (calls j).email = (calls i).email →
        ∃ now, .issue j now ∈ ls ∧ ∀ expiresAt,
          fromTimestamp (timestamp (now + 60 * service.tokenService.expiresMinutes * 1000000)) =
            .ok expiresAt →
          ∀ t, service.tokenService.getCurrentUser service.json t other.accessToken =
            if expiresAt < t then .error ⟨.authenticationError, "Token expired".toList⟩
            else .ok ⟨user.id, (calls i).email, user.isAdmin⟩ := by
  have hls : ∀ l ∈ ls, l.At fun i now => .issue i now ∈ ls := by
    intro l hl
    cases l with
    | issue i now => exact hl
    | read i => trivial
    | insert i => trivial
  have hcreated : ∀ j owner other, s.phase j = .answered owner (.ok other) → ∃ now,
      .issue j now ∈ ls ∧ OnClock now ∧ service.tokenService.createAccessToken
        Payload.pythonJson now (AuthService.toAuthUser owner) = .ok other.accessToken := by
    intro j owner other hphase
    obtain ⟨now, hmem, hissue⟩ := issued_of_run hls hrun j owner _ hphase
    exact ⟨now, hmem, hclock j now hmem, hjson ▸ AuthService.issue_eq_ok hissue.symm⟩
  have hrow : ∀ j owner other, s.phase j = .answered owner (.ok other) →
      s.users.getByEmail (calls j).email = some owner := by
    intro j owner other hphase
    exact (inv_of_run hrun).row j owner (by rw [hphase]; rfl)
  have huser := hrow i user result hanswered
  have hemail : user.email = (calls i).email := (UserTable.getByEmail_eq_some.mp huser).2
  obtain ⟨now, -, hnow, hcreate⟩ := hcreated i user result hanswered
  rw [← hemail, hjson]
  refine ⟨userDisplay_of_create hnow hcreate, ?_, ?_⟩
  · obtain ⟨expiresAt, -, hpayload⟩ := decodeJwtPayload_of_create hnow hcreate
    exact ⟨_, hpayload, rfl, rfl, rfl⟩
  · intro j owner other hphase haddress
    -- one address, one row
    have howner := hrow j owner other hphase
    rw [haddress, hemail, huser] at howner
    obtain rfl := Option.some.inj howner
    obtain ⟨now, hmem, hnow, hcreate⟩ := hcreated j user other hphase
    refine ⟨now, hmem, ?_⟩
    intro expiresAt hexp t
    exact HMACTokenService.getCurrentUser_of_create hnow hcreate hexp t

end Calls

def sampleAuth : AuthService := { AuthService.Sample.auth with json := Payload.pythonJson }

/-- The call has its user and asks for a token next. -/
def awaitsToken : RegisterRace.Phase → Bool
  | .known _ => true
  | _ => false

theorem awaitsToken_eq_true {phase : RegisterRace.Phase} (h : awaitsToken phase = true) :
    ∃ user, phase = .known user := by
  unfold awaitsToken at h
  split at h
  · exact ⟨_, rfl⟩
  · cases h

/-- A registration of `race`, and the address the page shows for its token. -/
theorem page_shows_authenticated_user_race :
    ∃ s user result, (RegisterRace.system sampleAuth RegisterRace.race).run
        (RegisterRace.start .empty) [.read 0, .insert 0, .issue 0 1700000000000000] = some s ∧
      s.phase 0 = .answered user (.ok result) ∧
      userDisplay result.accessToken = some (.str "ana@example.com".toList) ∧
      sampleAuth.tokenService.getCurrentUser sampleAuth.json 1700001000000000
        result.accessToken = .ok ⟨user.id, "ana@example.com".toList, user.isAdmin⟩ := by
  have hruns : ((RegisterRace.system sampleAuth RegisterRace.race).run
      (RegisterRace.start .empty) [.read 0, .insert 0]).any
        (fun s => awaitsToken (s.phase 0)) = true := by
    decide +kernel
  obtain ⟨s, hs, hphase⟩ := (Option.any_eq_true _ _).mp hruns
  obtain ⟨user, hknown⟩ := awaitsToken_eq_true hphase
  obtain ⟨token, htoken⟩ : ∃ token, sampleAuth.tokenService.createAccessToken sampleAuth.json
      1700000000000000 (AuthService.toAuthUser user) = .ok token :=
    HMACTokenService.createAccessToken_isOk _
      (show addSeconds 1700000000000000 _ = .ok 1700003600000000 by decide)
  have hissue : sampleAuth.issue 1700000000000000 user = .ok { accessToken := token } := by
    rw [AuthService.issue, htoken]
  have hstep : (RegisterRace.system sampleAuth RegisterRace.race).step s
      (.issue 0 1700000000000000) =
        some (s.setPhase 0 (.answered user (.ok { accessToken := token }))) := by
    simp only [RegisterRace.system, hknown, hissue]
  have hrun := System.run_snoc_eq_some.mpr ⟨s, hs, hstep⟩
  have hphase : (s.setPhase 0 (.answered user (.ok { accessToken := token }))).phase 0 =
      .answered user (.ok { accessToken := token }) :=
    (RegisterRace.setPhase_phase ..).trans (if_pos rfl)
  have honly : ∀ (i : Fin 3) (now : ℤ), RegisterRace.Step.issue i now ∈
      [RegisterRace.Step.read 0, .insert 0] ++ [.issue 0 1700000000000000] →
      now = 1700000000000000 := by
    simp
  obtain ⟨hshown, -, hserver⟩ :=
    page_shows_authenticated_user sampleAuth rfl RegisterRace.race
      (fun i now hmem => by rw [honly i now hmem]; unfold OnClock maxInstant; omega) hrun hphase
  obtain ⟨now, hnow, hserver⟩ := hserver 0 user _ hphase rfl
  obtain rfl := honly 0 now hnow
  have hexp : fromTimestamp (timestamp (1700000000000000 +
      60 * sampleAuth.tokenService.expiresMinutes * 1000000)) = .ok 1700003600000000 := by
    have hminutes : (1700000000000000 : ℤ) + 60 * sampleAuth.tokenService.expiresMinutes *
        1000000 = 1700003600000000 := by
      decide
    rw [hminutes, HMACTokenService.timestamp_eq (by norm_num) (by norm_num)]
    decide
  have haccepted := hserver _ hexp 1700001000000000
  rw [if_neg (by norm_num)] at haccepted
  exact ⟨_, user, _, hrun, hphase, hshown, haccepted⟩

end Browser

end Jumbox
