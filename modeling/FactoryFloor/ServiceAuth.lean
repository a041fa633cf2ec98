import FactoryFloor.JsStrings
import FactoryFloor.Relational
import FactoryFloor.Separators
import Mathlib.Algebra.Order.Group.Int
import Mathlib.Algebra.Order.Group.Unbundled.Abs

/-!
# Signed service requests

A service signs the lines of a payload : the version, the key id of the direction, the timestamp, the
nonce, the method, the path and the digest of the body. `verifyServiceRequest` reads the signature from
a header, checks it against its clock and its keys, and consumes the nonce.

A nonce may have line feeds, but a payload is read from both its ends : a request line has none
(`ServiceRequest`), so a payload is that of one request (`signaturePayload_inj`). A header that
`signatureHeader` prints is read back (`parseSignatureHeader_signatureHeader`), and passes every check
when its request is signed with a key of the verifier (`checkServiceRequest_signRequest`).

SHA-256 and HMAC are parameters (`ServiceCrypto`), of which only the shape of a digest is used here.
-/

namespace FactoryFloor

open Relational Separators

/-! ## Keys and requests -/

inductive ServiceAuthDirection where
  | agentToFactory
  | factoryToAgent
deriving DecidableEq, Repr

structure ServiceAuthKeys where
  agentToFactoryKey : JsString
  factoryToAgentKey : JsString
  previousAgentToFactoryKey : Option JsString
  previousFactoryToAgentKey : Option JsString

structure ServiceAuthConfig where
  keys : ServiceAuthKeys
  maxSkewMs : ℤ

/-- `MAX_SKEW_MS`, the `maxSkewMs` of a service that configures none. -/
def maxSkew : ℤ := 30000

/-- `MAX_NONCE_LENGTH`. -/
def maxNonceLength : ℕ := 128

/-- `Number.MAX_SAFE_INTEGER`. -/
def maxSafeInteger : ℕ := 9007199254740991

inductive ServiceAuthError where
  | headerRequired
  | headerMalformed
  | unknownKey
  | invalidTimestamp
  | timestampSkew
  | nonceRequired
  | nonceTooLong
  | signatureMismatch
  | nonceReplayed
deriving DecidableEq, Repr

def ServiceAuthError.message : ServiceAuthError → String
  | .headerRequired => "service_auth_header_required"
  | .headerMalformed => "service_auth_header_malformed"
  | .unknownKey => "service_auth_unknown_key"
  | .invalidTimestamp => "service_auth_invalid_timestamp"
  | .timestampSkew => "service_auth_timestamp_skew"
  | .nonceRequired => "service_auth_nonce_required"
  | .nonceTooLong => "service_auth_nonce_too_long"
  | .signatureMismatch => "service_auth_signature_mismatch"
  | .nonceReplayed => "service_auth_nonce_replayed"

/-- The line feed the lines of a payload are joined with. -/
abbrev lineFeed : Char := '\n'

/-- A request. Its request line has no line feed. -/
structure ServiceRequest where
  method : JsString
  path : JsString
  body : List UInt8
  method_line : lineFeed ∉ method
  path_line : lineFeed ∉ path

/-- 64 lowercase hex digits. -/
def IsHexDigest (s : JsString) : Prop :=
  s.length = 64 ∧ ∀ c ∈ s, c ∈ "0123456789abcdef".toList

/-- What the service gets from outside the repository. -/
structure ServiceCrypto where
  sha256Hex : List UInt8 → JsString
  /-- The HMAC of a payload under a key. -/
  hmacHex : JsString → JsString → JsString
  toUpperCase : JsString → JsString
  sha256Hex_hex : ∀ body, IsHexDigest (sha256Hex body)
  hmacHex_hex : ∀ key payload, IsHexDigest (hmacHex key payload)
  /-- No letter becomes a line feed. -/
  toUpperCase_line : ∀ s, lineFeed ∉ s → lineFeed ∉ toUpperCase s

/-! ## Signing -/

def keyId : ServiceAuthDirection → JsString
  | .agentToFactory => "ff-agent-to-ff-v1".toList
  | .factoryToAgent => "ff-ff-to-agent-v1".toList

def currentKey (keys : ServiceAuthKeys) : ServiceAuthDirection → JsString
  | .agentToFactory => keys.agentToFactoryKey
  | .factoryToAgent => keys.factoryToAgentKey

def verificationKeys (keys : ServiceAuthKeys) (direction : ServiceAuthDirection) : List JsString :=
  let previous := match direction with
    | .agentToFactory => keys.previousAgentToFactoryKey
    | .factoryToAgent => keys.previousFactoryToAgentKey
  match previous with
  | none | some [] => [currentKey keys direction]
  | some previous => [currentKey keys direction, previous]

/-- `signaturePayload`. -/
def signaturePayload (C : ServiceCrypto) (direction : ServiceAuthDirection) (timestamp nonce : JsString)
    (request : ServiceRequest) : JsString :=
  ['1'] ++ lineFeed :: (keyId direction ++ lineFeed :: (timestamp ++ lineFeed ::
    (((nonce ++ lineFeed :: C.toUpperCase request.method) ++ lineFeed :: request.path) ++
      lineFeed :: C.sha256Hex request.body)))

/-- What a header says. -/
structure ServiceSignature where
  keyId : JsString
  timestamp : JsString
  nonce : JsString
  signature : JsString
deriving DecidableEq, Repr

/-- `signRequest`. -/
def signRequest (C : ServiceCrypto) (keys : ServiceAuthKeys) (direction : ServiceAuthDirection)
    (request : ServiceRequest) (now : Time) (nonce : JsString) : ServiceSignature :=
  let timestamp := Nat.toDigits 10 now
  { keyId := FactoryFloor.keyId direction
    timestamp
    nonce
    signature := C.hmacHex (currentKey keys direction)
      (signaturePayload C direction timestamp nonce request) }

/-- `signatureHeader`. -/
def signatureHeader (s : ServiceSignature) : JsString :=
  "HMAC-SHA256".toList ++ ' ' :: (("keyId=".toList ++ s.keyId) ++ ',' ::
    (("timestamp=".toList ++ s.timestamp) ++ ',' :: (("nonce=".toList ++ s.nonce) ++
      ',' :: ("signature=".toList ++ s.signature))))

/-! ## Verifying -/

/-- What follows a name, when something does. -/
def fieldValue (name part : JsString) : Option JsString :=
  if name.isPrefixOf part ∧ part.drop name.length ≠ [] then some (part.drop name.length) else none

/-- `parseSignatureHeader`. What the expression matches between two commas has none. -/
def parseSignatureHeader (header : JsString) : Option ServiceSignature := do
  let scheme := "HMAC-SHA256".toList
  if ¬scheme.isPrefixOf header then none
  let rest := header.drop scheme.length
  if rest.takeWhile isTrimmed = [] then none
  match splitEvery ',' (rest.dropWhile isTrimmed) with
  | [keyId, timestamp, nonce, signature] =>
    let keyId ← fieldValue "keyId=".toList keyId
    let timestamp ← fieldValue "timestamp=".toList timestamp
    let nonce ← fieldValue "nonce=".toList nonce
    let signature ← fieldValue "signature=".toList signature
    return { keyId, timestamp, nonce, signature }
  | _ => none

/-- `TIMESTAMP_PATTERN.test`. -/
def isTimestamp (s : JsString) : Bool :=
  1 ≤ s.length && s.length ≤ 16 && s.all (·.isDigit)

/-- `SIGNATURE_PATTERN.test`. -/
def isSignature (s : JsString) : Bool :=
  s.length = 64 && s.all fun c => c.toLower ∈ "0123456789abcdef".toList

/-- The checks of `verifyServiceRequest`, up to the nonce that it consumes. -/
def checkServiceRequest (C : ServiceCrypto) (config : ServiceAuthConfig)
    (direction : ServiceAuthDirection) (request : ServiceRequest) (header : Option JsString)
    (now : Time) : Except ServiceAuthError ServiceSignature := do
  match header with
  | none | some [] => throw .headerRequired
  | some header =>
    match parseSignatureHeader header with
    | none => throw .headerMalformed
    | some s =>
      if s.keyId ≠ keyId direction then throw .unknownKey
      if !isTimestamp s.timestamp then throw .invalidTimestamp
      let timestampNumber := Nat.ofDigitChars 10 s.timestamp 0
      if maxSafeInteger < timestampNumber then throw .invalidTimestamp
      if config.maxSkewMs < |(now : ℤ) - timestampNumber| then throw .timestampSkew
      if s.nonce.all isTrimmed then throw .nonceRequired
      if maxNonceLength < (s.nonce.flatMap codeUnits).length then throw .nonceTooLong
      if !isSignature s.signature then throw .signatureMismatch
      let payload := signaturePayload C direction s.timestamp s.nonce request
      if ∀ key ∈ verificationKeys config.keys direction,
          s.signature.map Char.toLower ≠ C.hmacHex key payload then throw .signatureMismatch
      return s

/-- A row of `service_request_nonces`. -/
structure NonceRow where
  keyId : JsString
  nonce : JsString
  createdAt : Time
deriving DecidableEq, Repr

/-- The insert of `consumeNonce`, and whether it has inserted. A text column holds no NUL. -/
def consumeNonce (nonces : List NonceRow) (keyId nonce : JsString) (databaseNow : Time) :
    Except SqlError (Bool × List NonceRow) :=
  if Char.ofNat 0 ∈ nonce then .error (.invalidText "text")
  else if nonces.any fun r => r.keyId = keyId ∧ r.nonce = nonce then .ok (false, nonces)
  else .ok (true, nonces ++ [⟨keyId, nonce, databaseNow⟩])

/-- `verifyServiceRequest`, with nothing between its statements : the table it leaves. -/
def verifyServiceRequest (C : ServiceCrypto) (config : ServiceAuthConfig) (nonces : List NonceRow)
    (databaseNow : Time) (direction : ServiceAuthDirection) (request : ServiceRequest)
    (header : Option JsString) (now : Time) :
    Except (ServiceAuthError ⊕ SqlError) (List NonceRow) := do
  let s ← (checkServiceRequest C config direction request header now).mapError .inl
  let (inserted, nonces) ← (consumeNonce nonces s.keyId s.nonce databaseNow).mapError .inr
  if !inserted then throw (.inl .nonceReplayed)
  return nonces

/-- `NONCE_RETENTION_MS`. -/
def nonceRetention : Time := 300000

/-- `NONCE_CLEANUP_INTERVAL_MS`. -/
def nonceCleanupInterval : Time := 30000

/-- The nonces a clean-up leaves. -/
def cleanUpNonces (nonces : List NonceRow) (now : Time) : List NonceRow :=
  nonces.filter fun r => now ≤ r.createdAt + nonceRetention

/-! ## Payloads -/

section Payloads

variable {C : ServiceCrypto} {direction direction' : ServiceAuthDirection}
  {timestamp timestamp' nonce nonce' : JsString} {request request' : ServiceRequest}

theorem IsHexDigest.line {s : JsString} (h : IsHexDigest s) : lineFeed ∉ s := fun hmem => by
  have := h.2 _ hmem
  revert this
  decide

theorem keyId_line : lineFeed ∉ keyId direction := by
  cases direction <;> decide

theorem keyId_injective (h : keyId direction = keyId direction') : direction = direction' := by
  revert h
  cases direction <;> cases direction' <;> decide

/-- A payload is that of one request, up to the case of its method and to the digest of its body. -/
theorem signaturePayload_inj (ht : lineFeed ∉ timestamp) (ht' : lineFeed ∉ timestamp')
    (h : signaturePayload C direction timestamp nonce request =
      signaturePayload C direction' timestamp' nonce' request') :
    direction = direction' ∧ timestamp = timestamp' ∧ nonce = nonce' ∧
      C.toUpperCase request.method = C.toUpperCase request'.method ∧ request.path = request'.path ∧
        C.sha256Hex request.body = C.sha256Hex request'.body := by
  unfold signaturePayload at h
  obtain ⟨-, h⟩ := append_cons_inj (by decide) (by decide) h
  obtain ⟨hkey, h⟩ := append_cons_inj keyId_line keyId_line h
  obtain ⟨htimestamp, h⟩ := append_cons_inj ht ht' h
  obtain ⟨h, hbody⟩ := append_cons_inj_last (C.sha256Hex_hex _).line (C.sha256Hex_hex _).line h
  obtain ⟨h, hpath⟩ := append_cons_inj_last request.path_line request'.path_line h
  obtain ⟨hnonce, hmethod⟩ := append_cons_inj_last (C.toUpperCase_line _ request.method_line)
    (C.toUpperCase_line _ request'.method_line) h
  exact ⟨keyId_injective hkey, htimestamp, hnonce, hmethod, hpath, hbody⟩

end Payloads

/-! ## Headers -/

theorem fieldValue_append {name value : JsString} (h : value ≠ []) :
    fieldValue name (name ++ value) = some value := by
  simp [fieldValue, h]

/-- A printed header is read back. -/
theorem parseSignatureHeader_signatureHeader {s : ServiceSignature}
    (hkeyId : s.keyId ≠ [] ∧ ',' ∉ s.keyId) (htimestamp : s.timestamp ≠ [] ∧ ',' ∉ s.timestamp)
    (hnonce : s.nonce ≠ [] ∧ ',' ∉ s.nonce) (hsignature : s.signature ≠ [] ∧ ',' ∉ s.signature) :
    parseSignatureHeader (signatureHeader s) = some s := by
  have hsplit : splitEvery ',' (("keyId=".toList ++ s.keyId) ++ ',' ::
      (("timestamp=".toList ++ s.timestamp) ++ ',' :: (("nonce=".toList ++ s.nonce) ++
        ',' :: ("signature=".toList ++ s.signature)))) =
      ["keyId=".toList ++ s.keyId, "timestamp=".toList ++ s.timestamp, "nonce=".toList ++ s.nonce,
        "signature=".toList ++ s.signature] := by
    rw [splitEvery_append (by simp [hkeyId.2]), splitEvery_append (by simp [htimestamp.2]),
      splitEvery_append (by simp [hnonce.2]), splitEvery_of_notMem (by simp [hsignature.2])]
  obtain ⟨rest, hname⟩ : ∃ rest, "keyId=".toList = 'k' :: rest := ⟨_, rfl⟩
  have hspace : isTrimmed ' ' = true := rfl
  have hletter : isTrimmed 'k' = false := rfl
  unfold parseSignatureHeader signatureHeader
  generalize "HMAC-SHA256".toList = scheme
  have hscheme : ∀ rest, (scheme.isPrefixOf (scheme ++ rest)) = true := fun rest =>
    List.isPrefixOf_iff_prefix.2 (List.prefix_append _ _)
  have htake : ∀ cs : JsString, (' ' :: 'k' :: cs).takeWhile isTrimmed = [' '] := fun cs => by
    simp [hspace, hletter]
  have hdrop : ∀ cs : JsString, (' ' :: 'k' :: cs).dropWhile isTrimmed = 'k' :: cs := fun cs => by
    simp [hspace, hletter]
  rw [hname] at hsplit ⊢
  simp only [hscheme, List.drop_left, List.cons_append, not_true_eq_false, if_false, htake, hdrop]
  simp only [List.cons_append] at hsplit
  rw [hsplit]
  rw [if_neg (List.cons_ne_nil _ _)]
  have hfirst := @fieldValue_append ('k' :: rest) s.keyId hkeyId.1
  rw [List.cons_append] at hfirst
  simp only [hfirst, fieldValue_append htimestamp.1, fieldValue_append hnonce.1,
    fieldValue_append hsignature.1]
  rfl

/-! ## Fresh signatures -/

section Fresh

variable {C : ServiceCrypto} {direction : ServiceAuthDirection} {request : ServiceRequest}

theorem isTimestamp_toDigits {now : Time} (h : now ≤ maxSafeInteger) :
    isTimestamp (Nat.toDigits 10 now) = true := by
  have hlength : (Nat.toDigits 10 now).length ≤ 16 :=
    (Nat.length_toDigits_le_iff (by decide) (by decide)).2 (h.trans_lt (by decide))
  have hpos : 1 ≤ (Nat.toDigits 10 now).length := Nat.length_toDigits_pos
  have hdigits : ∀ c ∈ Nat.toDigits 10 now, c.isDigit := fun c hc =>
    Nat.isDigit_of_mem_toDigits (by decide) (by decide) hc
  simp only [isTimestamp, Bool.and_eq_true, decide_eq_true_eq, List.all_eq_true]
  exact ⟨⟨hpos, hlength⟩, hdigits⟩

theorem toLower_of_hex {c : Char} (h : c ∈ "0123456789abcdef".toList) : c.toLower = c := by
  have hall : ("0123456789abcdef".toList.all fun c => c.toLower = c) = true := by decide
  simpa using List.all_eq_true.1 hall c h

theorem IsHexDigest.toLower {s : JsString} (h : IsHexDigest s) : s.map Char.toLower = s := by
  rw [List.map_congr_left fun c hc => toLower_of_hex (h.2 c hc), List.map_id']

theorem IsHexDigest.isSignature {s : JsString} (h : IsHexDigest s) : isSignature s = true := by
  simp only [FactoryFloor.isSignature, Bool.and_eq_true, decide_eq_true_eq, List.all_eq_true]
  refine ⟨h.1, fun c hc => ?_⟩
  rw [toLower_of_hex (h.2 c hc)]
  exact h.2 c hc

theorem hex_ne_comma {s : JsString} (h : IsHexDigest s) : s ≠ [] ∧ ',' ∉ s := by
  refine ⟨fun hs => ?_, fun hmem => ?_⟩
  · have hlength := h.1
    rw [hs] at hlength
    cases hlength
  · have := h.2 _ hmem
    revert this
    decide

theorem toDigits_ne_comma (now : Time) :
    Nat.toDigits 10 now ≠ [] ∧ ',' ∉ Nat.toDigits 10 now :=
  ⟨Nat.toDigits_ne_nil, fun hmem => by
    have := Nat.isDigit_of_mem_toDigits (by decide) (by decide) hmem
    revert this
    decide⟩

theorem toDigits_line (now : Time) : lineFeed ∉ Nat.toDigits 10 now := fun hmem => by
  have := Nat.isDigit_of_mem_toDigits (by decide) (by decide) hmem
  revert this
  decide

/-- A fresh signature of one of the verifier's keys passes the checks, when its header is printed. -/
theorem checkServiceRequest_signRequest {config : ServiceAuthConfig} {keys : ServiceAuthKeys}
    {signedAt now : Time} {nonce : JsString} (hsafe : signedAt ≤ maxSafeInteger)
    (hskew : |(now : ℤ) - signedAt| ≤ config.maxSkewMs) (hcomma : ',' ∉ nonce)
    (hblank : ¬nonce.all isTrimmed) (hlength : (nonce.flatMap codeUnits).length ≤ maxNonceLength)
    (hkey : currentKey keys direction ∈ verificationKeys config.keys direction) :
    checkServiceRequest C config direction request
        (some (signatureHeader (signRequest C keys direction request signedAt nonce))) now =
      .ok (signRequest C keys direction request signedAt nonce) := by
  have hnonce : nonce ≠ [] := fun h => hblank (by simp [h])
  have hkeyId : keyId direction ≠ [] ∧ ',' ∉ keyId direction := by
    cases direction <;> decide
  have hparse : parseSignatureHeader
      (signatureHeader (signRequest C keys direction request signedAt nonce)) =
      some (signRequest C keys direction request signedAt nonce) :=
    parseSignatureHeader_signatureHeader hkeyId (toDigits_ne_comma signedAt) ⟨hnonce, hcomma⟩
      (hex_ne_comma (C.hmacHex_hex _ _))
  have hsome : ∃ c cs, signatureHeader (signRequest C keys direction request signedAt nonce) =
      c :: cs := ⟨'H', _, rfl⟩
  obtain ⟨c, cs, hheader⟩ := hsome
  rw [hheader] at hparse ⊢
  unfold checkServiceRequest
  simp only [hparse]
  have hmatched : ¬∀ key ∈ verificationKeys config.keys direction,
      (C.hmacHex (currentKey keys direction)
        (signaturePayload C direction (Nat.toDigits 10 signedAt) nonce request)).map Char.toLower ≠
      C.hmacHex key (signaturePayload C direction (Nat.toDigits 10 signedAt) nonce request) :=
    fun hall => hall _ hkey (C.hmacHex_hex _ _).toLower
  simp only [signRequest, ne_eq, not_true_eq_false, if_false, isTimestamp_toDigits hsafe,
    Bool.not_true, Bool.false_eq_true, hsafe.not_gt, Nat.ofDigitChars_ten_toDigits, hskew.not_gt, hblank,
    hlength.not_gt, (C.hmacHex_hex _ _).isSignature, hmatched]
  rfl

end Fresh

/-! ## Accepted signatures -/

/-- What the checks have found out about the signature they return. -/
structure ServiceSignature.Checked (C : ServiceCrypto) (config : ServiceAuthConfig)
    (direction : ServiceAuthDirection) (request : ServiceRequest) (header : Option JsString)
    (now : Time) (s : ServiceSignature) : Prop where
  parsed : header.bind parseSignatureHeader = some s
  keyId : s.keyId = FactoryFloor.keyId direction
  timestamp : isTimestamp s.timestamp = true
  skew : |(now : ℤ) - Nat.ofDigitChars 10 s.timestamp 0| ≤ config.maxSkewMs
  signature : ∃ key ∈ verificationKeys config.keys direction, s.signature.map Char.toLower =
    C.hmacHex key (signaturePayload C direction s.timestamp s.nonce request)

theorem checkServiceRequest_eq_ok {C : ServiceCrypto} {config : ServiceAuthConfig}
    {direction : ServiceAuthDirection} {request : ServiceRequest} {header : Option JsString}
    {now : Time} {s : ServiceSignature}
    (h : checkServiceRequest C config direction request header now = .ok s) :
    s.Checked C config direction request header now := by
  unfold checkServiceRequest at h
  match header with
  | none => cases h
  | some [] => cases h
  | some (c :: cs) =>
    simp only at h
    cases hparse : parseSignatureHeader (c :: cs) with
    | none =>
      rw [hparse] at h
      cases h
    | some s' =>
      rw [hparse] at h
      simp only at h
      obtain ⟨hkeyId, h⟩ := Except.guard_eq_ok.1 h
      obtain ⟨htimestamp, h⟩ := Except.guard_eq_ok.1 h
      obtain ⟨-, h⟩ := Except.guard_eq_ok.1 h
      obtain ⟨hskew, h⟩ := Except.guard_eq_ok.1 h
      obtain ⟨-, h⟩ := Except.guard_eq_ok.1 h
      obtain ⟨-, h⟩ := Except.guard_eq_ok.1 h
      obtain ⟨-, h⟩ := Except.guard_eq_ok.1 h
      obtain ⟨hmatched, h⟩ := Except.guard_eq_ok.1 h
      obtain rfl := Except.ok.inj h
      push Not at hmatched
      exact ⟨hparse, not_not.1 hkeyId, by simpa using htimestamp, not_lt.1 hskew, hmatched⟩

theorem isTimestamp_line {s : JsString} (h : isTimestamp s = true) : lineFeed ∉ s := fun hmem => by
  simp only [isTimestamp, Bool.and_eq_true, List.all_eq_true] at h
  have := h.2 _ hmem
  revert this
  decide

end FactoryFloor
