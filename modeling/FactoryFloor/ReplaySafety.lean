import FactoryFloor.ServiceAuth
import FactoryFloor.Transition
import Mathlib.Algebra.Order.Group.Abs
import Mathlib.Tactic.IntervalCases

/-!
# Replay safety

Any number of processes verify requests. A verification reads the clock of its process, makes its
checks, and then inserts the nonce under the clock of the database. At most once in every thirty
seconds of a process it goes on to a clean-up, which deletes by the reading of the process.

A nonce is gone only when its signature is too old for any process, if the readings are near the clock
of the database where they meet it : `Agrees` also says that no signature is forged, and that the body
of a request has the digest of no other signed body. `requests_replay_safe` puts this together with
what is accepted at all. A verification that stalls between its reading and its insert accepts a header
a second time (`stalled_replay`).
-/

namespace FactoryFloor

open Relational Transition

/-- A request that somebody has signed. -/
structure SignedRequest where
  key : JsString
  direction : ServiceAuthDirection
  timestamp : Time
  nonce : JsString
  request : ServiceRequest

/-- What was signed. -/
def SignedRequest.payload (C : ServiceCrypto) (r : SignedRequest) : JsString :=
  signaturePayload C r.direction (Nat.toDigits 10 r.timestamp) r.nonce r.request

/-- A verification whose checks have passed. -/
structure ServiceCall where
  process : ℕ
  now : Time
  direction : ServiceAuthDirection
  request : ServiceRequest
  header : JsString
  signature : ServiceSignature
  /-- The nonce is inserted, and the clean-up is due. -/
  cleaning : Bool

/-- A header that was accepted for a request. -/
structure AcceptedRequest where
  direction : ServiceAuthDirection
  request : ServiceRequest
  header : JsString
  signature : ServiceSignature
  createdAt : Time

/-- The clock of the database and its table, the calls of the processes, and what has been signed and
accepted. -/
structure ServiceAuthState where
  clock : Time
  nonces : List NonceRow
  lastCleanupAt : ℕ → Time
  calls : ℕ → Option ServiceCall
  signed : List SignedRequest
  accepted : List AcceptedRequest

inductive ServiceAuthLabel where
  | quiet
  /-- A header is presented to a process. -/
  | presents (now : Time) (process : ℕ) (direction : ServiceAuthDirection) (request : ServiceRequest)
      (signature : ServiceSignature)
  /-- A nonce statement of a call with this reading. -/
  | inserts (now : Time)
  | cleansUp (now : Time)

/-- One step of the processes, of those who sign, and of the database. -/
inductive ServiceAuthStep (C : ServiceCrypto) (processes : ℕ → ServiceAuthConfig) :
    ServiceAuthState → ServiceAuthLabel → ServiceAuthState → Prop
  | tick {s : ServiceAuthState} {clock : Time} (hclock : s.clock ≤ clock) :
      ServiceAuthStep C processes s .quiet { s with clock }
  | signs {s : ServiceAuthState} (keys : ServiceAuthKeys) (direction : ServiceAuthDirection)
      (request : ServiceRequest) (now : Time) (nonce : JsString) :
      ServiceAuthStep C processes s .quiet { s with
        signed := s.signed ++ [⟨currentKey keys direction, direction, now, nonce, request⟩] }
  | presents {s : ServiceAuthState} {n process : ℕ} {now : Time} {direction : ServiceAuthDirection}
      {request : ServiceRequest} {header : JsString} {signature : ServiceSignature}
      (hfree : s.calls n = none)
      (hchecked : checkServiceRequest C (processes process) direction request (some header) now =
        .ok signature) :
      ServiceAuthStep C processes s (.presents now process direction request signature) { s with
        calls := Function.update s.calls n
          (some ⟨process, now, direction, request, header, signature, false⟩) }
  | inserts {s : ServiceAuthState} {n : ℕ} {c : ServiceCall} {nonces : List NonceRow}
      (hcall : s.calls n = some c) (hphase : c.cleaning = false)
      (hinserted : consumeNonce s.nonces c.signature.keyId c.signature.nonce s.clock =
        .ok (true, nonces)) :
      ServiceAuthStep C processes s (.inserts c.now) { s with
        nonces
        lastCleanupAt := if s.lastCleanupAt c.process + nonceCleanupInterval ≤ c.now then
            Function.update s.lastCleanupAt c.process c.now else s.lastCleanupAt
        calls := Function.update s.calls n
          (if s.lastCleanupAt c.process + nonceCleanupInterval ≤ c.now then
            some { c with cleaning := true } else none)
        accepted := s.accepted ++ [⟨c.direction, c.request, c.header, c.signature, s.clock⟩] }
  | cleansUp {s : ServiceAuthState} {n : ℕ} {c : ServiceCall} (hcall : s.calls n = some c)
      (hphase : c.cleaning = true) :
      ServiceAuthStep C processes s (.cleansUp c.now) { s with
        nonces := cleanUpNonces s.nonces c.now
        calls := Function.update s.calls n none }
  /-- A nonce is there already, a statement fails, or a process stops. -/
  | ends {s : ServiceAuthState} (n : ℕ) :
      ServiceAuthStep C processes s .quiet { s with calls := Function.update s.calls n none }

/-- The processes on an empty table. -/
def serviceAuth (C : ServiceCrypto) (processes : ℕ → ServiceAuthConfig) :
    System ServiceAuthState ServiceAuthLabel :=
  ⟨fun s => s.nonces = [] ∧ s.lastCleanupAt = (fun _ => 0) ∧ s.calls = (fun _ => none) ∧
    s.signed = [] ∧ s.accepted = [], ServiceAuthStep C processes⟩

/-- A signature is not forged, and no signed body has the digest of another one. -/
def ServiceAuthState.Unforged (C : ServiceCrypto) (processes : ℕ → ServiceAuthConfig)
    (s : ServiceAuthState) (process : ℕ) (direction : ServiceAuthDirection) (request : ServiceRequest)
    (signature : ServiceSignature) : Prop :=
  (∀ key ∈ verificationKeys (processes process).keys direction,
    signature.signature.map Char.toLower = C.hmacHex key
      (signaturePayload C direction signature.timestamp signature.nonce request) →
    ∃ r ∈ s.signed, r.key = key ∧
      r.payload C = signaturePayload C direction signature.timestamp signature.nonce request) ∧
  ∀ r ∈ s.signed, C.sha256Hex r.request.body = C.sha256Hex request.body →
    r.request.body = request.body

/-- No signature is forged, and the reading of a call is within `δ` of the clock of the database when
it makes its nonce statement. -/
def ServiceAuthState.Agrees (C : ServiceCrypto) (processes : ℕ → ServiceAuthConfig) (δ : Time)
    (s : ServiceAuthState) : ServiceAuthLabel → Prop
  | .quiet => True
  | .presents _ process direction request signature =>
    s.Unforged C processes process direction request signature
  | .inserts now => now ≤ s.clock + δ ∧ s.clock ≤ now + δ
  | .cleansUp now => now ≤ s.clock + δ

/-- The runs in which they agree. -/
abbrev agreeingAuth (C : ServiceCrypto) (processes : ℕ → ServiceAuthConfig) (δ : Time) :
    System ServiceAuthState ServiceAuthLabel :=
  (serviceAuth C processes).restrict (ServiceAuthState.Agrees C processes δ)

/-! ## What was signed -/

/-- A request was signed under a signature : for its direction and path, its body, and its method up to
the case of the letters. -/
structure SignedRequest.Binds (C : ServiceCrypto) (r : SignedRequest)
    (direction : ServiceAuthDirection) (request : ServiceRequest) (signature : ServiceSignature) :
    Prop where
  direction : r.direction = direction
  timestamp : Nat.toDigits 10 r.timestamp = signature.timestamp
  nonce : r.nonce = signature.nonce
  method : C.toUpperCase r.request.method = C.toUpperCase request.method
  path : r.request.path = request.path
  body : r.request.body = request.body

variable {C : ServiceCrypto} {processes : ℕ → ServiceAuthConfig} {δ : Time}
  {s t : ServiceAuthState} {l : ServiceAuthLabel}

/-- The number of a timestamp. -/
def ServiceSignature.time (s : ServiceSignature) : ℕ :=
  Nat.ofDigitChars 10 s.timestamp 0

/-- What holds of the verifications of the processes. -/
structure ServiceAuthState.Sound (C : ServiceCrypto) (processes : ℕ → ServiceAuthConfig) (δ : Time)
    (s : ServiceAuthState) : Prop where
  calls : ∀ n c, s.calls n = some c →
    c.signature.Checked C (processes c.process) c.direction c.request (some c.header) c.now ∧
      ∃ r ∈ s.signed, r.Binds C c.direction c.request c.signature
  accepted : ∀ a ∈ s.accepted, parseSignatureHeader a.header = some a.signature ∧
    ∃ r ∈ s.signed, r.Binds C a.direction a.request a.signature
  /-- An accepted signature was in the window of a process. -/
  window : ∀ a ∈ s.accepted, ∃ p,
    (a.signature.time : ℤ) ≤ a.createdAt + (processes p).maxSkewMs + δ
  /-- Its nonce is there until it is too old. -/
  remembered : ∀ a ∈ s.accepted, (∃ row ∈ s.nonces, row.keyId = a.signature.keyId ∧
    row.nonce = a.signature.nonce ∧ row.createdAt = a.createdAt) ∨
      a.createdAt + nonceRetention < s.clock + δ
  once : (s.accepted.map fun a =>
    (a.signature.keyId, a.signature.timestamp, a.signature.nonce)).Nodup

/-- A nonce is inserted when no row has it. -/
theorem consumeNonce_eq_ok {nonces nonces' : List NonceRow} {keyId nonce : JsString}
    {databaseNow : Time} (h : consumeNonce nonces keyId nonce databaseNow = .ok (true, nonces')) :
    (∀ row ∈ nonces, ¬(row.keyId = keyId ∧ row.nonce = nonce)) ∧
      nonces' = nonces ++ [⟨keyId, nonce, databaseNow⟩] := by
  unfold consumeNonce at h
  split at h
  · cases h
  split at h
  · cases h
  rename_i hfresh
  obtain rfl : nonces ++ [⟨keyId, nonce, databaseNow⟩] = nonces' :=
    (Prod.mk.inj (Except.ok.inj h)).2
  refine ⟨fun row hrow hsame => hfresh ?_, rfl⟩
  exact List.any_eq_true.2 ⟨row, hrow, decide_eq_true hsame⟩

namespace ServiceAuthState.Sound

/-- What a presented header was signed for. -/
theorem binds {p : ℕ} {now : Time} {direction : ServiceAuthDirection} {request : ServiceRequest}
    {header : Option JsString} {signature : ServiceSignature}
    (hchecked : signature.Checked C (processes p) direction request header now)
    (hok : s.Unforged C processes p direction request signature) :
    ∃ r ∈ s.signed, r.Binds C direction request signature := by
  obtain ⟨key, hkey, hmatches⟩ := hchecked.signature
  obtain ⟨r, hr, -, hpayload⟩ := hok.1 key hkey hmatches
  obtain ⟨hdirection, htimestamp, hnonce, hmethod, hpath, hbody⟩ := signaturePayload_inj
    (toDigits_line _) (isTimestamp_line hchecked.timestamp) hpayload
  exact ⟨r, hr, hdirection, htimestamp, hnonce, hmethod, hpath, hok.2 r hr hbody⟩

theorem step_calls (h : s.Sound C processes δ) (hstep : ServiceAuthStep C processes s l t)
    (hok : s.Agrees C processes δ l) (n : ℕ) (c : ServiceCall) (hc : t.calls n = some c) :
    c.signature.Checked C (processes c.process) c.direction c.request (some c.header) c.now ∧
      ∃ r ∈ t.signed, r.Binds C c.direction c.request c.signature := by
  cases hstep with
  | tick => exact h.calls n c hc
  | signs =>
    obtain ⟨hchecked, r, hr, hbinds⟩ := h.calls n c hc
    exact ⟨hchecked, r, List.mem_append_left _ hr, hbinds⟩
  | @presents m p now direction request header signature hfree hchecked =>
    rcases update_eq_some hc with ⟨rfl, hnew⟩ | ⟨-, hc⟩
    · obtain rfl := Option.some.inj hnew
      have hchecked := checkServiceRequest_eq_ok hchecked
      exact ⟨hchecked, binds hchecked hok⟩
    · exact h.calls n c hc
  | inserts hcall =>
    rcases update_eq_some hc with ⟨rfl, hnew⟩ | ⟨-, hc⟩
    · split at hnew
      · obtain rfl := Option.some.inj hnew
        have hchecked := h.calls _ _ hcall
        exact hchecked
      · cases hnew
    · exact h.calls n c hc
  | cleansUp | ends =>
    rcases update_eq_some hc with ⟨-, hnew⟩ | ⟨-, hc⟩
    · cases hnew
    · exact h.calls n c hc

theorem step_accepted (h : s.Sound C processes δ) (hstep : ServiceAuthStep C processes s l t) :
    ∀ a ∈ t.accepted, parseSignatureHeader a.header = some a.signature ∧
      ∃ r ∈ t.signed, r.Binds C a.direction a.request a.signature := by
  intro a ha
  cases hstep with
  | signs =>
    obtain ⟨hparsed, r, hr, hbinds⟩ := h.accepted a ha
    exact ⟨hparsed, r, List.mem_append_left _ hr, hbinds⟩
  | inserts hcall =>
    rcases List.mem_append.1 ha with ha | ha
    · exact h.accepted a ha
    · obtain rfl := List.mem_singleton.1 ha
      exact ⟨(h.calls _ _ hcall).1.parsed, (h.calls _ _ hcall).2⟩
  | _ => exact h.accepted a ha

/-- The window of a call that is about to insert, under the clock of the database. -/
theorem call_window (h : s.Sound C processes δ) {n : ℕ} {c : ServiceCall}
    (hcall : s.calls n = some c) (hok : s.Agrees C processes δ (.inserts c.now)) :
    (c.signature.time : ℤ) ≤ s.clock + (processes c.process).maxSkewMs + δ ∧
      (s.clock : ℤ) ≤ c.signature.time + (processes c.process).maxSkewMs + δ := by
  have hskew := abs_le.1 (h.calls n c hcall).1.skew
  have hfast : (c.now : ℤ) ≤ s.clock + δ := by exact_mod_cast hok.1
  have hslow : (s.clock : ℤ) ≤ c.now + δ := by exact_mod_cast hok.2
  have htime : (c.signature.time : ℤ) = Nat.ofDigitChars 10 c.signature.timestamp 0 := rfl
  constructor <;> omega

theorem step_window (h : s.Sound C processes δ) (hstep : ServiceAuthStep C processes s l t)
    (hok : s.Agrees C processes δ l) :
    ∀ a ∈ t.accepted, ∃ p, (a.signature.time : ℤ) ≤ a.createdAt + (processes p).maxSkewMs + δ := by
  cases hstep with
  | inserts hcall =>
    intro a ha
    rcases List.mem_append.1 ha with ha | ha
    · exact h.window a ha
    · obtain rfl := List.mem_singleton.1 ha
      exact ⟨_, (h.call_window hcall hok).1⟩
  | _ => exact h.window

theorem step_remembered (h : s.Sound C processes δ) (hstep : ServiceAuthStep C processes s l t)
    (hok : s.Agrees C processes δ l) :
    ∀ a ∈ t.accepted, (∃ row ∈ t.nonces, row.keyId = a.signature.keyId ∧
      row.nonce = a.signature.nonce ∧ row.createdAt = a.createdAt) ∨
        a.createdAt + nonceRetention < t.clock + δ := by
  intro a ha
  cases hstep with
  | tick hclock =>
    refine (h.remembered a ha).imp_right fun hold => hold.trans_le ?_
    exact Nat.add_le_add_right hclock δ
  | inserts hcall hphase hinserted =>
    obtain ⟨-, rfl⟩ := consumeNonce_eq_ok hinserted
    rcases List.mem_append.1 ha with ha | ha
    · refine (h.remembered a ha).imp_left ?_
      rintro ⟨row, hrow, hsame⟩
      exact ⟨row, List.mem_append_left _ hrow, hsame⟩
    · obtain rfl := List.mem_singleton.1 ha
      exact Or.inl ⟨_, List.mem_append_right _ (List.mem_singleton_self _), rfl, rfl, rfl⟩
  | @cleansUp n c hcall =>
    rcases h.remembered a ha with ⟨row, hrow, hkeyId, hnonce, hat⟩ | hold
    · by_cases hkept : c.now ≤ row.createdAt + nonceRetention
      · exact Or.inl ⟨row, List.mem_filter.2 ⟨hrow, decide_eq_true hkept⟩, hkeyId, hnonce, hat⟩
      · exact Or.inr ((hat ▸ not_le.1 hkept).trans_le hok)
    · exact Or.inr hold
  | _ => exact h.remembered a ha

/-- A signature whose nonce was forgotten is out of every window. -/
theorem step_once (h : s.Sound C processes δ)
    (hmargin : ∀ p, 2 * (processes p).maxSkewMs + 3 * δ ≤ nonceRetention)
    (hstep : ServiceAuthStep C processes s l t) (hok : s.Agrees C processes δ l) :
    (t.accepted.map fun a =>
      (a.signature.keyId, a.signature.timestamp, a.signature.nonce)).Nodup := by
  cases hstep with
  | @inserts n c nonces hcall hphase hinserted =>
    obtain ⟨hfresh, -⟩ := consumeNonce_eq_ok hinserted
    rw [List.map_append, List.nodup_append]
    refine ⟨h.once, List.nodup_singleton _, ?_⟩
    rintro i hi j hj rfl
    obtain ⟨a, ha, hsame⟩ := List.mem_map.1 hi
    obtain ⟨hkeyId, htimestamp, hnonce⟩ : a.signature.keyId = c.signature.keyId ∧
        a.signature.timestamp = c.signature.timestamp ∧ a.signature.nonce = c.signature.nonce := by
      simpa using hsame.trans (List.mem_singleton.1 hj)
    rcases h.remembered a ha with ⟨row, hrow, hrowKey, hrowNonce, -⟩ | hold
    · exact hfresh row hrow ⟨hrowKey.trans hkeyId, hrowNonce.trans hnonce⟩
    · obtain ⟨p, hwindow⟩ := h.window a ha
      have htime : a.signature.time = c.signature.time := by
        rw [ServiceSignature.time, htimestamp, ServiceSignature.time]
      have hnow := (h.call_window hcall hok).2
      have hold : (a.createdAt : ℤ) + nonceRetention < s.clock + δ := by exact_mod_cast hold
      have hp := hmargin p
      have hq := hmargin c.process
      omega
  | _ => exact h.once

theorem step (h : s.Sound C processes δ)
    (hmargin : ∀ p, 2 * (processes p).maxSkewMs + 3 * δ ≤ nonceRetention)
    (hstep : ServiceAuthStep C processes s l t) (hok : s.Agrees C processes δ l) :
    t.Sound C processes δ where
  calls := h.step_calls hstep hok
  accepted := h.step_accepted hstep
  window := h.step_window hstep hok
  remembered := h.step_remembered hstep hok
  once := h.step_once hmargin hstep hok

theorem reachable (hmargin : ∀ p, 2 * (processes p).maxSkewMs + 3 * δ ≤ nonceRetention)
    (h : (agreeingAuth C processes δ).Reachable s) : s.Sound C processes δ := by
  refine System.Reachable.invariant (S := agreeingAuth C processes δ) (I := Sound C processes δ) ?_
    (fun s l t hs hstep => hs.step hmargin hstep.1 hstep.2) h
  rintro s ⟨-, -, hcalls, -, haccepted⟩
  constructor <;> simp [hcalls, haccepted]

end ServiceAuthState.Sound

/-! ## Replay safety -/

/-- A nonce that no row has is inserted. -/
theorem consumeNonce_fresh {nonces : List NonceRow} {keyId nonce : JsString} {databaseNow : Time}
    (hnul : Char.ofNat 0 ∉ nonce) (hfresh : ∀ row ∈ nonces, ¬(row.keyId = keyId ∧ row.nonce = nonce)) :
    consumeNonce nonces keyId nonce databaseNow =
      .ok (true, nonces ++ [⟨keyId, nonce, databaseNow⟩]) := by
  unfold consumeNonce
  rw [if_neg hnul, if_neg]
  rw [List.any_eq_true]
  rintro ⟨row, hrow, hsame⟩
  exact hfresh row hrow (of_decide_eq_true hsame)

/-- What the verifications of a state keep to. -/
structure ServiceAuthState.ReplaySafe (C : ServiceCrypto) (s : ServiceAuthState) : Prop where
  once : (s.accepted.map (·.header)).Nodup
  onceSigned : (s.accepted.map fun a =>
    (a.signature.keyId, a.signature.timestamp, a.signature.nonce)).Nodup
  binds : ∀ a ∈ s.accepted, parseSignatureHeader a.header = some a.signature ∧
    ∃ r ∈ s.signed, r.Binds C a.direction a.request a.signature

/-- A fresh signature under a key of the verifier is accepted. -/
def AcceptsFresh (C : ServiceCrypto) : Prop :=
  ∀ (config : ServiceAuthConfig) (keys : ServiceAuthKeys) (direction : ServiceAuthDirection)
    (request : ServiceRequest) (signedAt now databaseNow : Time) (nonce : JsString)
    (nonces : List NonceRow),
    currentKey keys direction ∈ verificationKeys config.keys direction →
    signedAt ≤ maxSafeInteger → |(now : ℤ) - signedAt| ≤ config.maxSkewMs →
    ',' ∉ nonce → ¬nonce.all isTrimmed → (nonce.flatMap codeUnits).length ≤ maxNonceLength →
    Char.ofNat 0 ∉ nonce → (∀ row ∈ nonces, ¬(row.keyId = keyId direction ∧ row.nonce = nonce)) →
    verifyServiceRequest C config nonces databaseNow direction request
        (some (signatureHeader (signRequest C keys direction request signedAt nonce))) now =
      .ok (nonces ++ [⟨keyId direction, nonce, databaseNow⟩])

theorem acceptsFresh (C : ServiceCrypto) : AcceptsFresh C := by
  intro config keys direction request signedAt now databaseNow nonce nonces hkey hsafe hskew hcomma
    hblank hlength hnul hfresh
  unfold verifyServiceRequest
  rw [checkServiceRequest_signRequest hsafe hskew hcomma hblank hlength hkey]
  have hinsert : consumeNonce nonces (signRequest C keys direction request signedAt nonce).keyId
      (signRequest C keys direction request signedAt nonce).nonce databaseNow = _ :=
    consumeNonce_fresh hnul hfresh
  simp only [Except.mapError, hinsert, bind, Except.bind]
  rfl

/-- Verifications are replay safe, and accept what is fresh. -/
theorem requests_replay_safe
    (hmargin : ∀ p, 2 * (processes p).maxSkewMs + 3 * δ ≤ nonceRetention)
    (h : (agreeingAuth C processes δ).Reachable s) : s.ReplaySafe C ∧ AcceptsFresh C := by
  have hs := ServiceAuthState.Sound.reachable hmargin h
  refine ⟨⟨?_, hs.once, hs.accepted⟩, acceptsFresh C⟩
  have honce := hs.once
  refine (List.Nodup.of_map (fun a : AcceptedRequest =>
    (a.signature.keyId, a.signature.timestamp, a.signature.nonce)) honce).map_on ?_
  intro a ha b hb hheader
  have hsame : a.signature = b.signature := by
    refine Option.some.inj ((hs.accepted a ha).1.symm.trans ?_)
    rw [hheader]
    exact (hs.accepted b hb).1
  exact List.inj_on_of_nodup_map honce ha hb (by rw [hsame])

/-! ## Two processes -/

/-- The last 64 digits of a number. -/
def hexOf (n : ℕ) : JsString :=
  (List.replicate 64 '0' ++ Nat.toDigits 10 n).drop (Nat.toDigits 10 n).length

theorem mem_hex_of_isDigit {c : Char} (h : c.isDigit) : c ∈ "0123456789abcdef".toList := by
  obtain ⟨hlow, hhigh⟩ := Char.isDigit_iff_toNat.1 h
  rw [← Char.ofNat_toNat c]
  generalize c.toNat = n at hlow hhigh
  change 48 ≤ n at hlow
  change n ≤ 57 at hhigh
  interval_cases n <;> decide

theorem hexOf_hex (n : ℕ) : IsHexDigest (hexOf n) := by
  refine ⟨?_, fun c hc => ?_⟩
  · rw [hexOf, List.length_drop, List.length_append, List.length_replicate, Nat.add_sub_cancel]
  · rcases List.mem_append.1 (List.mem_of_mem_drop hc) with hc | hc
    · rw [List.eq_of_mem_replicate hc]
      decide
    · exact mem_hex_of_isDigit (Nat.isDigit_of_mem_toDigits (by decide) (by decide) hc)

theorem toUpper_ne_lineFeed {c : Char} (h : c ≠ lineFeed) : c.toUpper ≠ lineFeed := by
  intro heq
  unfold Char.toUpper at heq
  split at heq
  · rename_i hlower
    have hval := congrArg (fun c : Char => c.val.toNat) heq
    have hlow : 97 ≤ c.val.toNat := UInt32.le_iff_toNat_le.1 hlower.1
    have hhigh : c.val.toNat ≤ 122 := UInt32.le_iff_toNat_le.1 hlower.2
    have hshift : ('A'.val - 'a'.val).toNat = 4294967264 := by decide
    have hfeed : lineFeed.val.toNat = 10 := by decide
    simp only [UInt32.toNat_add] at hval
    rw [hshift, hfeed] at hval
    omega
  · exact h heq

/-- Digests that add up the characters. -/
def sampleCrypto : ServiceCrypto where
  sha256Hex body := hexOf (body.map UInt8.toNat).sum
  hmacHex key payload := hexOf ((key ++ payload).map Char.toNat).sum
  toUpperCase := List.map Char.toUpper
  sha256Hex_hex _ := hexOf_hex _
  hmacHex_hex _ _ := hexOf_hex _
  toUpperCase_line s hs hmem := by
    obtain ⟨c, hc, heq⟩ := List.mem_map.1 hmem
    exact toUpper_ne_lineFeed (fun h => hs (h ▸ hc)) heq

/-- The keys of a service that has not rotated them. -/
def sampleKeys : ServiceAuthKeys := ⟨['a'], ['f'], none, none⟩

/-- Two processes with the window of a service that configures none. -/
def sampleProcesses (_ : ℕ) : ServiceAuthConfig := ⟨sampleKeys, maxSkew⟩

def launchRequest : ServiceRequest where
  method := "POST".toList
  path := "/activity".toList
  body := [123, 125]
  method_line := by decide
  path_line := by decide

/-- The header of a request to launch, signed at a time with a nonce. -/
def launchHeader (signedAt : Time) (nonce : JsString) : JsString :=
  signatureHeader (signRequest sampleCrypto sampleKeys .agentToFactory launchRequest signedAt nonce)

theorem launchHeader_checked {signedAt now : Time} {nonce : Char} (hsafe : signedAt ≤ maxSafeInteger)
    (hskew : |(now : ℤ) - signedAt| ≤ maxSkew) (hcomma : ',' ≠ nonce) (hblank : isTrimmed nonce = false)
    (p : ℕ) :
    checkServiceRequest sampleCrypto (sampleProcesses p) .agentToFactory launchRequest
        (some (launchHeader signedAt [nonce])) now =
      .ok (signRequest sampleCrypto sampleKeys .agentToFactory launchRequest signedAt [nonce]) := by
  refine checkServiceRequest_signRequest hsafe hskew (by simpa using hcomma) (by simp [hblank]) ?_
    List.mem_cons_self
  have hunits : (codeUnits nonce).length ≤ 2 := by
    unfold codeUnits
    split <;> simp
  simpa using hunits.trans (by decide)

/-- A launch is signed and presented in time, and its nonce is inserted at once. -/
theorem launch_reachable : ∃ s, (agreeingAuth sampleCrypto sampleProcesses 5).Reachable s ∧
    s.accepted.map (·.header) = [launchHeader 0 ['n']] ∧ s.clock = 0 := by
  have h₀ : (agreeingAuth sampleCrypto sampleProcesses 5).Reachable
      ⟨0, [], fun _ => 0, fun _ => none, [], []⟩ := .start ⟨rfl, rfl, rfl, rfl, rfl⟩
  have h₁ := h₀.next ⟨.signs sampleKeys .agentToFactory launchRequest 0 ['n'], trivial⟩
  have h₂ := h₁.next ⟨@ServiceAuthStep.presents _ _ _ 0 0 0 _ _ (launchHeader 0 ['n']) _ rfl
    (launchHeader_checked (by decide) (by decide) (by decide) rfl 0), ?_, ?_⟩
  · have h₃ := h₂.next ⟨@ServiceAuthStep.inserts _ _ _ 0 _ _ rfl rfl
      (consumeNonce_fresh (by decide) (by simp)), by decide, by decide⟩
    exact ⟨_, h₃, rfl, rfl⟩
  · intro key hkey _
    exact ⟨_, List.mem_singleton_self _, (List.mem_singleton.1 hkey).symm, rfl⟩
  · intro r hr _
    rw [List.mem_singleton.1 hr]

/-- A launch that was accepted is not accepted again. -/
theorem requests_replay_safe_launch : ∃ s : ServiceAuthState,
    s.accepted.map (·.header) = [launchHeader 0 ['n']] ∧ s.ReplaySafe sampleCrypto ∧
      AcceptsFresh sampleCrypto := by
  obtain ⟨s, hs, haccepted, -⟩ := launch_reachable
  have hmargin : ∀ p, 2 * (sampleProcesses p).maxSkewMs + 3 * ((5 : Time) : ℤ) ≤ nonceRetention :=
    fun _ => (by decide : 2 * maxSkew + 3 * ((5 : Time) : ℤ) ≤ nonceRetention)
  exact ⟨s, haccepted, requests_replay_safe hmargin hs⟩

/-! ## What is not promised -/

/-- No signature is forged, and the clocks of the processes are that of the database. -/
def ServiceAuthState.Synchronised (C : ServiceCrypto) (processes : ℕ → ServiceAuthConfig)
    (s : ServiceAuthState) : ServiceAuthLabel → Prop
  | .presents now process direction request signature =>
    now = s.clock ∧ s.Unforged C processes process direction request signature
  | _ => True

/-- A verification stalls before its insert until a clean-up has deleted its nonce. -/
theorem stalled_replay : ∃ s,
    ((serviceAuth sampleCrypto sampleProcesses).restrict
      (ServiceAuthState.Synchronised sampleCrypto sampleProcesses)).Reachable s ∧
    s.accepted.map (·.header) =
      [launchHeader 0 ['n'], launchHeader 300001 ['m'], launchHeader 0 ['n']] := by
  have hunforged : ∀ (s : ServiceAuthState) (p : ℕ) (signedAt : Time) (nonce : JsString),
      (∃ r ∈ s.signed, r = ⟨['a'], .agentToFactory, signedAt, nonce, launchRequest⟩) →
      (∀ r ∈ s.signed, r.request = launchRequest) →
      s.Unforged sampleCrypto sampleProcesses p .agentToFactory launchRequest
        (signRequest sampleCrypto sampleKeys .agentToFactory launchRequest signedAt nonce) := by
    rintro s p signedAt nonce ⟨r, hr, rfl⟩ hall
    refine ⟨fun key hkey _ => ⟨_, hr, (List.mem_singleton.1 hkey).symm, rfl⟩, fun r hr _ => ?_⟩
    rw [hall r hr]
  have h₀ : ((serviceAuth sampleCrypto sampleProcesses).restrict
      (ServiceAuthState.Synchronised sampleCrypto sampleProcesses)).Reachable
      ⟨0, [], fun _ => 0, fun _ => none, [], []⟩ := .start ⟨rfl, rfl, rfl, rfl, rfl⟩
  have h₁ := h₀.next ⟨.signs sampleKeys .agentToFactory launchRequest 0 ['n'], trivial⟩
  have h₂ := h₁.next ⟨.signs sampleKeys .agentToFactory launchRequest 300001 ['m'], trivial⟩
  -- the first acceptance
  have h₃ := h₂.next ⟨@ServiceAuthStep.presents _ _ _ 0 0 0 _ _ (launchHeader 0 ['n']) _ rfl
    (launchHeader_checked (by decide) (by decide) (by decide) rfl 0), rfl,
    hunforged _ _ _ _ ⟨_, List.mem_cons_self, rfl⟩ (by simp)⟩
  have h₄ := h₃.next ⟨@ServiceAuthStep.inserts _ _ _ 0 _ _ rfl rfl
    (consumeNonce_fresh (by decide) (by simp)), trivial⟩
  -- the verification that stalls
  have h₅ := h₄.next ⟨@ServiceAuthStep.presents _ _ _ 1 0 0 _ _ (launchHeader 0 ['n']) _ rfl
    (launchHeader_checked (by decide) (by decide) (by decide) rfl 0), rfl,
    hunforged _ _ _ _ ⟨_, List.mem_cons_self, rfl⟩ (by simp)⟩
  have h₆ := h₅.next ⟨@ServiceAuthStep.tick _ _ _ 300001 (Nat.zero_le _), trivial⟩
  -- the one that cleans up
  have h₇ := h₆.next ⟨@ServiceAuthStep.presents _ _ _ 2 0 300001 _ _ (launchHeader 300001 ['m']) _ rfl
    (launchHeader_checked (by decide) (by decide) (by decide) rfl 0), rfl,
    hunforged _ _ _ _ ⟨_, List.mem_cons_of_mem _ List.mem_cons_self, rfl⟩ (by simp)⟩
  have h₈ := h₇.next ⟨@ServiceAuthStep.inserts _ _ _ 2 _ _ rfl rfl
    (consumeNonce_fresh (by decide) (by simp [signRequest])), trivial⟩
  have h₉ := h₈.next ⟨@ServiceAuthStep.cleansUp _ _ _ 2 _ rfl rfl, trivial⟩
  have h₁₀ := h₉.next ⟨@ServiceAuthStep.inserts _ _ _ 1 _ _ rfl rfl
    (consumeNonce_fresh (by decide) (by simp [cleanUpNonces, nonceRetention, signRequest])), trivial⟩
  exact ⟨_, h₁₀, rfl⟩

/-- The request to launch, with a method in lower case. -/
def launchLowerCase : ServiceRequest where
  method := "post".toList
  path := launchRequest.path
  body := launchRequest.body
  method_line := by decide
  path_line := launchRequest.path_line

/-- With synchronised clocks, a header is accepted twice after a stall. A fresh nonce with a NUL is
refused, and a method is signed up to its case. -/
theorem requests_not_replay_safe :
    (∃ s, ((serviceAuth sampleCrypto sampleProcesses).restrict
      (ServiceAuthState.Synchronised sampleCrypto sampleProcesses)).Reachable s ∧
        ¬(s.accepted.map (·.header)).Nodup) ∧
    verifyServiceRequest sampleCrypto (sampleProcesses 0) [] 0 .agentToFactory launchRequest
      (some (launchHeader 0 [Char.ofNat 0])) 0 = .error (.inr (.invalidText "text")) ∧
    launchLowerCase.method ≠ launchRequest.method ∧
      verifyServiceRequest sampleCrypto (sampleProcesses 0) [] 0 .agentToFactory launchRequest
        (some (signatureHeader
          (signRequest sampleCrypto sampleKeys .agentToFactory launchLowerCase 0 ['n']))) 0 =
        .ok [⟨keyId .agentToFactory, ['n'], 0⟩] := by
  refine ⟨?_, ?_, by decide, ?_⟩
  · obtain ⟨s, hs, haccepted⟩ := stalled_replay
    refine ⟨s, hs, fun hnodup => ?_⟩
    rw [haccepted] at hnodup
    simp at hnodup
  · unfold verifyServiceRequest
    rw [launchHeader_checked (by decide) (by decide) (by decide) rfl 0]
    rfl
  · have hsame : signRequest sampleCrypto sampleKeys .agentToFactory launchLowerCase 0 ['n'] =
        signRequest sampleCrypto sampleKeys .agentToFactory launchRequest 0 ['n'] := by
      have hupper : sampleCrypto.toUpperCase launchLowerCase.method =
          sampleCrypto.toUpperCase launchRequest.method := by decide
      unfold signRequest signaturePayload
      rw [hupper]
      rfl
    rw [hsame]
    exact acceptsFresh sampleCrypto (sampleProcesses 0) sampleKeys .agentToFactory launchRequest 0 0 0
      ['n'] [] List.mem_cons_self (by decide) (by decide) (by decide) (by decide) (by decide)
      (by decide) (by simp)

end FactoryFloor
