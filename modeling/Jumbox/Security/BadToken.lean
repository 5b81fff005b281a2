import Jumbox.Security.TokenService

/-!
# Tokens that are not signed

Whatever a client sends as its bearer token, the parser can only fail with a
`ValueError`, and the payload is not looked at until the signature has been found
to be right. The order of the operations is the log of `parseLogged`, which does
what `parse_access_token` does and writes each operation down.
-/

namespace Jumbox

namespace HMACTokenService

variable (service : HMACTokenService) (json : Json)

/-- Three segments separated by dots, all ASCII, of which the third one decodes
to the HMAC of the first two. -/
def WellSigned (token : Str) : Prop :=
  ∃ headerSegment payloadSegment signatureSegment signingInput,
    token.splitOn '.' = [headerSegment, payloadSegment, signatureSegment] ∧
    Str.encodeAscii (headerSegment ++ '.' :: payloadSegment) = .ok signingInput ∧
    (∀ c ∈ signatureSegment, c.toNat < 128) ∧
    Base64.decode UrlsafeBase64.value (signatureSegment ++ Base64.padding signatureSegment) =
      .ok (service.signature signingInput)

/-! ## The operations of the parser -/

inductive Step where
  | encodeSigningInput
  | decodeSignature
  | compareSignatures (equal : Bool)
  | decodePayload
  | loadPayload
deriving DecidableEq

/-- A computation that keeps its log when it raises. -/
abbrev Logged := ExceptT Error (StateM (List Step))

/-- One operation: it is written down, and then it may raise. -/
def logged {α : Type} (step : Step) (result : Except Error α) : Logged α :=
  fun log => (result, log ++ [step])

/-- `compare_digest`, and the error if the signatures differ. -/
def compareSignatures (expected signature : Bytes) : Logged Unit :=
  logged (.compareSignatures (expected = signature))
    (if expected ≠ signature then .error ⟨.valueError, "Invalid token signature".toList⟩
      else .ok ())

/-- What follows the loaded payload: the expiry and the fields of the user. -/
def readUser (now : ℤ) (payload : Payload) : Except Error AuthenticatedUser := do
  let expiresAt ← fromTimestamp payload.exp
  if expiresAt < now then
    throw ⟨.valueError, "Token expired".toList⟩
  let userId ← Uuid.read payload.sub
  return ⟨userId, payload.email, payload.admin⟩

/-- `parse_access_token`, with its operations written down. -/
def parseLogged (now : ℤ) (token : Str) : Logged AuthenticatedUser :=
  match token.splitOn '.' with
  | [headerSegment, payloadSegment, signatureSegment] => do
      let signingInput ← logged .encodeSigningInput
        (Str.encodeAscii (headerSegment ++ '.' :: payloadSegment))
      let signature ← logged .decodeSignature (decodeSegment signatureSegment)
      compareSignatures (service.signature signingInput) signature
      let data ← logged .decodePayload (decodeSegment payloadSegment)
      let payload ← logged .loadPayload (json.loads data)
      liftExcept (readUser now payload)
  | _ => throw ⟨.valueError, "Invalid token format".toList⟩

/-- If the payload is decoded at all, the signatures have been found equal before. -/
def SignatureFirst (log : List Step) : Prop :=
  .decodePayload ∈ log → .compareSignatures true ∈ log.takeWhile (· ≠ .decodePayload)

/-! ## Every failure is a `ValueError` -/

theorem encodeAscii_error {s : Str} {e : Error} (h : Str.encodeAscii s = .error e) :
    e.kind = .valueError := by
  unfold Str.encodeAscii at h
  split at h
  · cases h
  · cases h
    rfl

theorem decodeSegment_error {s : Str} {e : Error} (h : decodeSegment s = .error e) :
    e.kind = .valueError := by
  unfold decodeSegment at h
  dsimp only at h
  cases hascii : Str.encodeAscii (s ++ Base64.padding s) with
  | error e' =>
      rw [hascii] at h
      cases h
      exact encodeAscii_error hascii
  | ok ascii =>
      rw [hascii] at h
      cases hbytes : Base64.decode UrlsafeBase64.value (s ++ Base64.padding s) with
      | ok bytes =>
          rw [hbytes] at h
          cases h
      | error e' =>
          rw [hbytes] at h
          -- either way of `binascii.Error`, which is a `ValueError`
          cases e' with
          | oneMore digits =>
              cases h
              rfl
          | padding =>
              cases h
              rfl

/-- What decodes is ASCII, and its digits are those of base64. -/
theorem decodeSegment_ok {s : Str} {bytes : Bytes} (h : decodeSegment s = .ok bytes) :
    (∀ c ∈ s, c.toNat < 128) ∧
      Base64.decode UrlsafeBase64.value (s ++ Base64.padding s) = .ok bytes := by
  unfold decodeSegment at h
  dsimp only at h
  cases hascii : Str.encodeAscii (s ++ Base64.padding s) with
  | error e =>
      rw [hascii] at h
      cases h
  | ok ascii =>
      rw [hascii] at h
      constructor
      · intro c hc
        unfold Str.encodeAscii at hascii
        split at hascii
        · rename_i hall
          exact of_decide_eq_true (List.all_eq_true.mp hall c (List.mem_append_left _ hc))
        · cases hascii
      · cases hbytes : Base64.decode UrlsafeBase64.value (s ++ Base64.padding s) with
        | ok bytes' =>
            rw [hbytes] at h
            cases h
            rfl
        | error e =>
            rw [hbytes] at h
            cases e <;> cases h

/-! ## What the parser does -/

theorem logged_ok {α β : Type} (step : Step) (a : α) (next : α → Logged β) (log : List Step) :
    (logged step (.ok a) >>= next) log = next a (log ++ [step]) := rfl

theorem logged_error {α β : Type} (step : Step) (e : Error) (next : α → Logged β)
    (log : List Step) :
    (logged step (.error e) >>= next) log = (.error e, log ++ [step]) := rfl

theorem compareSignatures_of_eq {α : Type} {expected signature : Bytes} (h : expected = signature)
    (next : Unit → Logged α) (log : List Step) :
    (compareSignatures expected signature >>= next) log =
      next () (log ++ [.compareSignatures true]) := by
  rw [compareSignatures, decide_eq_true h, if_neg (not_not.mpr h), logged_ok]

theorem compareSignatures_of_ne {α : Type} {expected signature : Bytes} (h : expected ≠ signature)
    (next : Unit → Logged α) (log : List Step) :
    (compareSignatures expected signature >>= next) log =
      (.error ⟨.valueError, "Invalid token signature".toList⟩,
        log ++ [.compareSignatures false]) := by
  rw [compareSignatures, decide_eq_false h, if_pos h, logged_error]

/-- A list has three parts, or a match on three takes its other branch. -/
theorem three_parts (parts : List Str) : (∃ a b c, parts = [a, b, c]) ∨ ∀ {β : Type}
    (f : Str → Str → Str → β) (g : β), (match parts with | [a, b, c] => f a b c | _ => g) = g := by
  rcases parts with _ | ⟨a, _ | ⟨b, _ | ⟨c, _ | ⟨x, rest⟩⟩⟩⟩
  · exact Or.inr fun f g => rfl
  · exact Or.inr fun f g => rfl
  · exact Or.inr fun f g => rfl
  · exact Or.inl ⟨a, b, c, rfl⟩
  · exact Or.inr fun f g => rfl

/-- After the comparison the log only grows, and the result is that of the parser. -/
theorem parseLogged_checked (json : Json) (now : ℤ) (payloadSegment : Str) (log : List Step) :
    ∃ rest, (do
      let data ← logged .decodePayload (decodeSegment payloadSegment)
      let payload ← logged .loadPayload (json.loads data)
      liftExcept (readUser now payload) : Logged AuthenticatedUser) log =
      (do
        let data ← decodeSegment payloadSegment
        let payload ← json.loads data
        readUser now payload, log ++ rest) := by
  cases hdata : decodeSegment payloadSegment with
  | error e => exact ⟨[.decodePayload], logged_error _ _ _ _⟩
  | ok data =>
      rw [logged_ok]
      cases hpayload : json.loads data with
      | error e =>
          refine ⟨[.decodePayload, .loadPayload], ?_⟩
          rw [logged_error, List.append_assoc]
          simp only [bind, Except.bind, hpayload]
          rfl
      | ok payload =>
          refine ⟨[.decodePayload, .loadPayload], ?_⟩
          rw [logged_ok, List.append_assoc]
          simp only [bind, Except.bind, hpayload]
          cases readUser now payload <;> rfl

/-- A token fails before its payload is decoded, or its signature is right and the
payload comes after the comparison. -/
theorem parseLogged_cases (service : HMACTokenService) (json : Json) (now : ℤ) (token : Str) :
    (∃ e log, e.kind = .valueError ∧ service.parseAccessToken json now token = .error e ∧
      service.parseLogged json now token [] = (.error e, log) ∧ .decodePayload ∉ log) ∨
    (service.WellSigned token ∧ ∃ rest, service.parseLogged json now token [] =
      (service.parseAccessToken json now token,
        [.encodeSigningInput, .decodeSignature, .compareSignatures true] ++ rest)) := by
  rcases three_parts (token.splitOn '.') with
    ⟨headerSegment, payloadSegment, signatureSegment, hsplit⟩ | hsplit
  · cases hsigning : Str.encodeAscii (headerSegment ++ '.' :: payloadSegment) with
    | error e =>
        refine Or.inl ⟨e, [.encodeSigningInput], encodeAscii_error hsigning, ?_, ?_, by decide⟩
        · simp only [parseAccessToken, hsplit, hsigning]
          rfl
        · simp only [parseLogged, hsplit, hsigning]
          rfl
    | ok signingInput =>
        cases hdecode : decodeSegment signatureSegment with
        | error e =>
            refine Or.inl ⟨e, [.encodeSigningInput, .decodeSignature], decodeSegment_error hdecode,
              ?_, ?_, by decide⟩
            · simp only [parseAccessToken, hsplit, hsigning, hdecode]
              rfl
            · simp only [parseLogged, hsplit, hsigning, hdecode]
              rfl
        | ok signature =>
            by_cases hequal : service.signature signingInput = signature
            · -- past the comparison anything may happen, but the log has it already
              obtain ⟨hascii, hbytes⟩ := decodeSegment_ok hdecode
              obtain ⟨rest, hrest⟩ := parseLogged_checked json now payloadSegment
                [.encodeSigningInput, .decodeSignature, .compareSignatures true]
              refine Or.inr ⟨⟨headerSegment, payloadSegment, signatureSegment, signingInput, hsplit,
                hsigning, hascii, hequal ▸ hbytes⟩, rest, ?_⟩
              simp only [parseLogged, parseAccessToken, hsplit, hsigning, hdecode, logged_ok,
                compareSignatures_of_eq hequal]
              refine hrest.trans ?_
              simp only [bind, Except.bind, ne_eq, hequal, not_true_eq_false, if_false]
              rfl
            · refine Or.inl ⟨⟨.valueError, "Invalid token signature".toList⟩,
                [.encodeSigningInput, .decodeSignature, .compareSignatures false], rfl, ?_, ?_,
                by decide⟩
              · simp only [parseAccessToken, hsplit, hsigning, hdecode]
                simp only [bind, Except.bind, ne_eq, hequal, not_false_eq_true, if_true]
                rfl
              · simp only [parseLogged, hsplit, hsigning, hdecode, logged_ok]
                exact compareSignatures_of_ne hequal _ _
  · refine Or.inl ⟨⟨.valueError, "Invalid token format".toList⟩, [], rfl, ?_, ?_, List.not_mem_nil⟩
    · exact hsplit _ _
    · exact congrFun (hsplit _ _) []

theorem signatureFirst_of_notMem {log : List Step} (h : .decodePayload ∉ log) :
    SignatureFirst log := fun hmem => absurd hmem h

theorem signatureFirst_of_checked (rest : List Step) :
    SignatureFirst ([.encodeSigningInput, .decodeSignature, .compareSignatures true] ++ rest) := by
  intro _
  simp [List.takeWhile]

/-- A token that is not signed with the service's key is refused with an
authentication error and nothing else, and its payload is never decoded. -/
theorem bad_token_rejected (service : HMACTokenService) (json : Json) (now : ℤ) (token : Str) :
    (¬ service.WellSigned token →
      (∃ message, service.getCurrentUser json now token =
        .error ⟨.authenticationError, message⟩) ∧
      .decodePayload ∉ (service.parseLogged json now token []).2) ∧
    (service.parseLogged json now token []).1 = service.parseAccessToken json now token ∧
    SignatureFirst (service.parseLogged json now token []).2 := by
  rcases parseLogged_cases service json now token with
    ⟨e, log, hkind, hparse, hlogged, hnot⟩ | ⟨hsigned, rest, hlogged⟩
  · rw [hlogged, hparse]
    refine ⟨fun _ => ⟨⟨e.message, ?_⟩, hnot⟩, rfl, signatureFirst_of_notMem hnot⟩
    simp only [getCurrentUser, hparse, hkind, if_true]
  · rw [hlogged]
    exact ⟨fun hbad => absurd hsigned hbad, rfl, signatureFirst_of_checked rest⟩

/-- Three segments, the first of them with a letter outside ASCII. -/
theorem bad_token_rejected_accent : ∃ message,
    sampleService.getCurrentUser ⟨fun _ => [], fun _ => .ok ⟨[], [], true, [], 0, 0⟩⟩ 0
      "é.AA.AA".toList = .error ⟨.authenticationError, message⟩ := by
  refine ((bad_token_rejected _ _ _ _).1 ?_).1
  rintro ⟨headerSegment, payloadSegment, signatureSegment, signingInput, hsplit, hsigning, -⟩
  have hparts : "é.AA.AA".toList.splitOn '.' = ["é".toList, "AA".toList, "AA".toList] := by
    decide
  rw [hparts] at hsplit
  cases hsplit
  have herror : (Str.encodeAscii ("é".toList ++ '.' :: "AA".toList)).isOk = false := by decide
  rw [hsigning] at herror
  cases herror

end HMACTokenService

end Jumbox
