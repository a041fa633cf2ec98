import FactoryFloor.LeasedGroups
import FactoryFloor.Leasing
import FactoryFloor.Persistence

/-!
# What workers are handed

A poll leases an attempt and hands it to a worker, and later the worker gets its envelope. `HandOut`
is what either says of the attempt, and `State.handedOut` are all that were ever handed out.

`hands_out_once` is about every reachable state. No attempt is handed out twice, and no lease token
is drawn twice. A worker's token is the token of its attempt as long as the attempt has a lease. The
inputs are the deliveries that the digest of the execution names, as they were routed, so the
retries of an execution get the same inputs in the same order. A retry is handed out only after the
attempts before it have ended.
-/

namespace FactoryFloor

open Relational Transition

/-! ## Hand-outs -/

/-- An attempt in the hands of a worker. -/
structure HandOut where
  executionId : Uuid
  attemptId : Uuid
  attemptNumber : ℕ
  leaseToken : LeaseToken
  inputs : List LeasedInput

def LeasedExecutionAttempt.handOut (l : LeasedExecutionAttempt) : HandOut :=
  ⟨l.executionId, l.attemptId, l.attemptNumber, l.leaseToken, l.inputs⟩

def Envelope.handOut (v : Envelope) : HandOut :=
  ⟨v.executionId, v.attemptId, v.attemptNumber, v.leaseToken, v.inputs⟩

/-- Everything that was handed out. A lease whose envelope is built counts once. -/
def State.handedOut (s : State) : List HandOut :=
  s.claimed.map LeasedExecutionAttempt.handOut ++ s.envelopes.map Envelope.handOut

namespace HandOut

/-- The attempt has been leased, and has the lease of the hand-out or none. -/
def Held (h : HandOut) (w : Work) : Prop :=
  ∃ a ∈ w.attempts, a.id = h.attemptId ∧ a.executionId = h.executionId ∧
    a.attemptNumber = h.attemptNumber ∧ a.status ≠ .pending ∧
    ∀ lease, a.lease = some lease → lease.token = h.leaseToken

/-- The inputs are the deliveries that the digest of the execution names, as they were routed. -/
def Given (h : HandOut) (w : Work) : Prop :=
  ∃ e ∈ w.executions, e.id = h.executionId ∧ ∃ ds : List Delivery,
    (∀ d ∈ ds, d ∈ w.deliveries.map Delivery.asRouted) ∧
    e.inputSetDigest = inputSetDigest ds ∧ h.inputs = ds.map Delivery.asInput

end HandOut

variable {P : Platform} {placed : GroupKey → Prop} {allow : Work → List Delivery → Prop}
variable {late : Time → Prop} {db db' : Db} {w w' w'' : Work} {now : Time}

/-! ## What steps keep -/

/-- What a step keeps for those who were handed an attempt. -/
structure KeepsHeld (w w' : Work) : Prop where
  attempts : ∀ a ∈ w.attempts, a.status ≠ .pending → ∃ a' ∈ w'.attempts, a'.id = a.id ∧
    a'.executionId = a.executionId ∧ a'.attemptNumber = a.attemptNumber ∧ a'.status ≠ .pending ∧
    ∀ lease, a'.lease = some lease → ∃ old, a.lease = some old ∧ lease.token = old.token
  executions : ∀ e ∈ w.executions, ∃ e' ∈ w'.executions, e'.id = e.id ∧
    e'.inputSetDigest = e.inputSetDigest
  deliveries : ∀ d ∈ w.deliveries.map Delivery.asRouted, d ∈ w'.deliveries.map Delivery.asRouted
  drawn : w.drawn ≤ w'.drawn

namespace KeepsHeld

theorem refl : KeepsHeld w w :=
  ⟨fun a ha hp => ⟨a, ha, rfl, rfl, rfl, hp, fun lease hl => ⟨lease, hl, rfl⟩⟩,
    fun e he => ⟨e, he, rfl, rfl⟩, fun _ hd => hd, le_rfl⟩

theorem trans (h : KeepsHeld w w') (h' : KeepsHeld w' w'') : KeepsHeld w w'' := by
  refine ⟨fun a ha hp => ?_, fun e he => ?_, fun d hd => h'.deliveries d (h.deliveries d hd),
    h.drawn.trans h'.drawn⟩
  · obtain ⟨b, hb, hid, hexec, hnumber, hbp, hlease⟩ := h.attempts a ha hp
    obtain ⟨c, hc, hid', hexec', hnumber', hcp, hlease'⟩ := h'.attempts b hb hbp
    refine ⟨c, hc, hid'.trans hid, hexec'.trans hexec, hnumber'.trans hnumber, hcp, fun l hl => ?_⟩
    obtain ⟨m, hm, hlm⟩ := hlease' l hl
    obtain ⟨n, hn, hmn⟩ := hlease m hm
    exact ⟨n, hn, hlm.trans hmn⟩
  · obtain ⟨e', he', hid, hdigest⟩ := h.executions e he
    obtain ⟨e'', he'', hid', hdigest'⟩ := h'.executions e' he'
    exact ⟨e'', he'', hid'.trans hid, hdigest'.trans hdigest⟩

/-- An update that touches pending attempts only, or keeps the token of a lease. -/
theorem of_attempts {p : ExecutionAttempt → Bool} {f : ExecutionAttempt → ExecutionAttempt}
    (hf : ExecutionAttempt.Moves f)
    (hlease : ∀ a ∈ w.attempts, p a → a.status ≠ .pending → (f a).status ≠ .pending ∧
      ∀ lease, (f a).lease = some lease → ∃ old, a.lease = some old ∧ lease.token = old.token)
    (new : List ExecutionAttempt) :
    ∀ a ∈ w.attempts, a.status ≠ .pending → ∃ a' ∈ updateWhere p f w.attempts ++ new,
      a'.id = a.id ∧ a'.executionId = a.executionId ∧ a'.attemptNumber = a.attemptNumber ∧
      a'.status ≠ .pending ∧
      ∀ lease, a'.lease = some lease → ∃ old, a.lease = some old ∧ lease.token = old.token := by
  intro a ha hp
  have hmoves := hf.ite p a
  refine ⟨_, List.mem_append_left _ (mem_updateWhere.2 ⟨a, ha, rfl⟩), hmoves.1, hmoves.2.1,
    hmoves.2.2, ?_⟩
  by_cases hpa : p a
  · rw [if_pos hpa]
    exact hlease a ha hpa hp
  · rw [if_neg hpa]
    exact ⟨hp, fun lease hl => ⟨lease, hl, rfl⟩⟩

/-- An attempt that ends has no lease any more. -/
theorem of_closed {p : ExecutionAttempt → Bool} {status : AttemptStatus} {failure : Option Json}
    (hstatus : status.terminal) (new : List ExecutionAttempt) :
    ∀ a ∈ w.attempts, a.status ≠ .pending →
      ∃ a' ∈ updateWhere p (closeAttempt status now failure) w.attempts ++ new,
      a'.id = a.id ∧ a'.executionId = a.executionId ∧ a'.attemptNumber = a.attemptNumber ∧
      a'.status ≠ .pending ∧
      ∀ lease, a'.lease = some lease → ∃ old, a.lease = some old ∧ lease.token = old.token := by
  refine of_attempts (closeAttempt_moves _ _ _) (fun a _ _ _ => ⟨?_, fun lease hl => ?_⟩) new
  · rintro (rfl : status = .pending)
    cases hstatus
  · cases hl

theorem of_deliveries {p : Delivery → Bool} {f : Delivery → Delivery} (hf : Delivery.Moves f)
    (ds : List Delivery) : ∀ d ∈ ds.map Delivery.asRouted,
      d ∈ (updateWhere p f ds).map Delivery.asRouted := by
  rw [map_updateWhere _ hf.asRouted]
  exact fun _ hd => hd

theorem of_executions {q : Execution → Bool} {g : Execution → Execution} (hg : Execution.Moves g)
    (es : List Execution) : ∀ e ∈ es, ∃ e' ∈ updateWhere q g es, e'.id = e.id ∧
      e'.inputSetDigest = e.inputSetDigest := by
  intro e he
  have hmoves := hg.ite q e
  exact ⟨_, mem_updateWhere.2 ⟨e, he, rfl⟩, hmoves.1, hmoves.2.2.2.2⟩

theorem of_step (hw : Work.Coherent P placed w) (h : Work.Step P placed allow late w w') :
    KeepsHeld w w' := by
  have hrefl : KeepsHeld w w := refl
  cases h with
  | draw hn => exact ⟨hrefl.attempts, hrefl.executions, hrefl.deliveries, hn⟩
  | route hn =>
    refine ⟨hrefl.attempts, hrefl.executions, fun d hd => ?_, hn⟩
    rw [List.map_append]
    exact List.mem_append_left _ hd
  | putOff =>
    exact ⟨hrefl.attempts, hrefl.executions, of_deliveries (Delivery.putOff_moves _) _, le_rfl⟩
  | start hn =>
    refine ⟨fun a ha hp => ?_, fun e he => ⟨e, List.mem_append_left _ he, rfl, rfl⟩,
      of_deliveries (Delivery.under_moves _) _, hn⟩
    exact ⟨a, List.mem_append_left _ ha, rfl, rfl, rfl, hp, fun lease hl => ⟨lease, hl, rfl⟩⟩
  | @resume group selected execution attempt lease now n hn hselects hexecution hattempt =>
    refine ⟨?_, hrefl.executions, of_deliveries (Delivery.under_moves _) _, hn⟩
    -- The attempt that is resumed is pending, so nobody was handed it.
    have hpending : ∀ a ∈ w.attempts, decide (a.id = attempt.id) = true → a.status = .pending := by
      intro a ha hid
      rw [hw.attemptsKeyed.eq ha hattempt.1 (by simpa using hid)]
      exact hattempt.2.2.1
    simpa using of_attempts (ExecutionAttempt.under_moves lease now)
      (fun a ha hid hp => absurd (hpending a ha hid) hp) []
  | @extend attempt lease t =>
    refine ⟨?_, hrefl.executions, of_deliveries (Delivery.extend_moves _ _) _, le_rfl⟩
    have hkeep : ∀ a : ExecutionAttempt, (extendLease t a).status ≠ .pending ∧ ∀ l,
        (extendLease t a).lease = some l → ∃ old, a.lease = some old ∧ l.token = old.token := by
      intro a
      refine ⟨by simp [extendLease], fun l hl => ?_⟩
      obtain ⟨old, hold, rfl⟩ := Option.map_eq_some_iff.1 hl
      exact ⟨old, hold, rfl⟩
    simpa using of_attempts (extendLease_moves t) (fun a _ _ _ => hkeep a) []
  | retry hn _ hstatus _ _ _ hf =>
    exact ⟨of_closed hstatus _, hrefl.executions, of_deliveries hf _, hn⟩
  | close _ hstatus _ hg _ _ hf =>
    refine ⟨?_, of_executions hg _, of_deliveries hf _, le_rfl⟩
    simpa using of_closed (w := w) hstatus []
  | cancel _ _ _ hg _ hf =>
    refine ⟨?_, of_executions hg _, of_deliveries hf _, le_rfl⟩
    simpa using of_closed (w := w) rfl []
  | moveRegions => exact ⟨hrefl.attempts, hrefl.executions, hrefl.deliveries, le_rfl⟩

theorem of_refines (h : Refines P placed allow late db db')
    (hw : Work.Coherent P placed db.work) : KeepsHeld db.work db'.work := by
  have hrun : ∀ w, Relation.ReflTransGen (Work.Step P placed allow late) db.work w →
      Work.Coherent P placed w ∧ KeepsHeld db.work w := by
    intro w hsteps
    induction hsteps with
    | refl => exact ⟨hw, .refl⟩
    | tail _ hs ih => exact ⟨ih.1.step hs, ih.2.trans (.of_step ih.1 hs)⟩
  exact (hrun _ h.steps).2

end KeepsHeld

namespace HandOut

variable {h : HandOut}

theorem Held.keeps (hheld : h.Held w) (hk : KeepsHeld w w') : h.Held w' := by
  obtain ⟨a, ha, hid, hexec, hnumber, hp, htoken⟩ := hheld
  obtain ⟨b, hb, hid', hexec', hnumber', hbp, hlease⟩ := hk.attempts a ha hp
  refine ⟨b, hb, hid'.trans hid, hexec'.trans hexec, hnumber'.trans hnumber, hbp, fun l hl => ?_⟩
  obtain ⟨old, hold, heq⟩ := hlease l hl
  exact heq.trans (htoken old hold)

theorem Given.keeps (hgiven : h.Given w) (hk : KeepsHeld w w') : h.Given w' := by
  obtain ⟨e, he, hid, ds, hds, hdigest, hinputs⟩ := hgiven
  obtain ⟨e', he', hid', hdigest'⟩ := hk.executions e he
  exact ⟨e', he', hid'.trans hid, ds, fun d hd => hk.deliveries d (hds d hd),
    hdigest'.trans hdigest, hinputs⟩

end HandOut

/-! ## What a poll hands out -/

/-- What a poll hands out : an attempt that is in nobody's hands, under a new token. -/
structure Hands (P : Platform) (db db' : Db) (h : HandOut) : Prop where
  held : h.Held db'.work
  given : h.Given db'.work
  pending : ∀ a ∈ db.attempts, a.id = h.attemptId → a.status = .pending
  token : ∃ k, db.drawn ≤ k ∧ k < db'.drawn ∧ h.leaseToken = P.token k

theorem syncAttemptDeliveryLease_asRouted {inputs : List ExecutionInput}
    {deliveries deliveries' : List Delivery} {old new : ExecutionAttempt}
    (h : syncAttemptDeliveryLease inputs deliveries old new = .ok deliveries') :
    deliveries'.map Delivery.asRouted = deliveries.map Delivery.asRouted := by
  unfold syncAttemptDeliveryLease at h
  split at h
  · obtain rfl := Except.ok.inj h
    rfl
  · split at h
    · obtain ⟨rfl, -⟩ := update_eq_ok.1 h
      refine map_updateWhere _ ?_ _
      exact fun _ => rfl
    · obtain rfl := Except.ok.inj h
      rfl

theorem updateAttempts_asRouted {p : ExecutionAttempt → Bool}
    {f : ExecutionAttempt → ExecutionAttempt} (h : updateAttempts p f db = .ok db') :
    db'.deliveries.map Delivery.asRouted = db.deliveries.map Delivery.asRouted ∧
      db'.executions = db.executions ∧ db'.drawn = db.drawn ∧
      db'.attempts = updateWhere p f db.attempts := by
  obtain ⟨deliveries, hfold, rfl, -⟩ := updateAttempts_eq_ok.1 h
  refine ⟨?_, rfl, rfl, rfl⟩
  exact Except.foldlM_invariant
    (I := fun ds => ds.map Delivery.asRouted = db.deliveries.map Delivery.asRouted)
    (fun _ _ _ _ hb hstep => (syncAttemptDeliveryLease_asRouted hstep).trans hb) rfl hfold

/-- The attempt that is leased was pending, or is new. -/
theorem leaseAttempt_grants {executionId : Uuid} {owner : String} {expiresAt : Time}
    {attempt : ExecutionAttempt}
    (h : leaseAttempt P now executionId owner expiresAt db = .ok (some attempt, db'))
    (hkeyed : Keyed (·.id) db.attempts)
    (hdrawn : ∀ a ∈ db.attempts, Work.Drawn P 0 db.drawn a.id) :
    (attempt ∈ db'.attempts ∧ attempt.executionId = executionId ∧ attempt.status = .leased) ∧
      (∃ lease, attempt.lease = some lease ∧
        ∃ k, db.drawn ≤ k ∧ k < db'.drawn ∧ lease.token = P.token k) ∧
      (∀ a ∈ db.attempts, a.id = attempt.id → a.status = .pending) ∧
      db'.deliveries.map Delivery.asRouted = db.deliveries.map Delivery.asRouted ∧
      db'.executions = db.executions := by
  rcases leaseAttempt_eq_ok h with ⟨a, ha, hexec, hpending, hsome, hupdate⟩ | ⟨hnone, -⟩ |
    ⟨hnone, a, hsome, hid, hexec, -, hstatus, hlease, -, rfl⟩
  · obtain rfl := Option.some.inj hsome
    obtain ⟨hrouted, hexecutions, hdrawn', hattempts⟩ := updateAttempts_asRouted hupdate
    have hlt : db.drawn < db'.drawn := hdrawn' ▸ Nat.lt_succ_self _
    refine ⟨⟨?_, hexec, rfl⟩, ⟨_, rfl, db.drawn, le_rfl, hlt, rfl⟩, fun b hb hid => ?_, hrouted,
      hexecutions⟩
    · rw [hattempts]
      exact mem_updateWhere.2 ⟨a, ha, if_pos (decide_eq_true rfl)⟩
    · rw [hkeyed.eq hb ha hid, hpending]
  · cases hnone
  · obtain rfl := Option.some.inj hsome
    refine ⟨⟨List.mem_append_right _ (List.mem_singleton_self _), hexec, hstatus⟩,
      ⟨_, hlease, db.drawn + 1, Nat.le_succ _, Nat.lt_succ_self _, rfl⟩,
      fun b hb hbid => ?_, rfl, rfl⟩
    -- The id of a new attempt has not been drawn before.
    exact absurd (hbid.trans hid)
      ((hdrawn b hb).ne ⟨db.drawn, le_rfl, Nat.lt_succ_self _, rfl⟩ le_rfl)

/-- An execution's lease is handed out with the inputs its digest names. -/
theorem leaseExecution_hands {owner : String} {expiresAt : Time} {group : GroupKey}
    {selected : List Delivery} {execution : Execution} {created : Bool}
    {leased : LeasedExecutionAttempt}
    (h : leaseExecution P now owner expiresAt group selected execution created db =
      .ok (some leased, db'))
    (hkeyed : Keyed (·.id) db.attempts)
    (hdrawn : ∀ a ∈ db.attempts, Work.Drawn P 0 db.drawn a.id)
    (hselected : ∀ d ∈ selected, d ∈ db.deliveries) (he : execution ∈ db.executions)
    (hdigest : execution.inputSetDigest = inputSetDigest selected) :
    Hands P db db' leased.handOut := by
  unfold leaseExecution at h
  obtain ⟨⟨admission, db₁⟩, hreserve, h⟩ := Except.bind_eq_ok.1 h
  obtain ⟨reservations, m, hm, rfl⟩ := reserveInTransaction_frame hreserve
  dsimp only at h
  split at h
  · obtain ⟨db₂, -, h⟩ := Except.bind_eq_ok.1 h
    cases h
  obtain ⟨db₂, hinputs, h⟩ := Except.bind_eq_ok.1 h
  obtain ⟨inputs, rfl, -, -⟩ := insertInputs_eq_ok hinputs
  obtain ⟨⟨result, db₃⟩, hattempt, h⟩ := Except.bind_eq_ok.1 h
  cases result with
  | none =>
    obtain ⟨db₄, -, h⟩ := Except.bind_eq_ok.1 h
    cases h
  | some attempt =>
    obtain ⟨db₄, hlease, h⟩ := Except.bind_eq_ok.1 h
    obtain ⟨lease, hsome, h⟩ := Except.bind_eq_ok.1 h
    obtain ⟨hleased, rfl⟩ := Prod.mk.inj (Except.ok.inj h)
    obtain rfl := Option.some.inj hleased
    have hsome := takeFirstOrThrow_eq_ok.1 hsome
    rw [hsome] at hlease
    obtain ⟨rfl, -⟩ := updateDeliveries_eq_ok.1 hlease
    obtain ⟨⟨hmem, hexec, hstatus⟩, ⟨lease', hlease', k, hk, hk', htoken⟩, hpending, hrouted,
      hexecutions⟩ := leaseAttempt_grants hattempt hkeyed fun a ha =>
        (hdrawn a ha).mono le_rfl (hm.trans (Nat.le_add_right _ _))
    obtain rfl := Option.some.inj (hsome.symm.trans hlease')
    refine ⟨⟨attempt, hmem, rfl, hexec, rfl, by simp [hstatus], fun l hl => ?_⟩,
      ⟨execution, ?_, rfl, selected.map Delivery.asRouted, fun d hd => ?_, ?_, ?_⟩, hpending,
      ⟨k, (hm.trans (Nat.le_add_right _ _)).trans hk, hk', htoken⟩⟩
    · rw [Option.some.inj (hl.symm.trans hsome)]
      rfl
    · change execution ∈ db₃.executions
      rw [hexecutions]
      exact he
    · obtain ⟨d₀, hd₀, rfl⟩ := List.mem_map.1 hd
      refine KeepsHeld.of_deliveries (Delivery.under_moves lease) db₃.deliveries _ ?_
      rw [hrouted]
      exact List.mem_map_of_mem (hselected d₀ hd₀)
    · rw [hdigest, inputSetDigest, inputSetDigest, List.map_map]
      rfl
    · rw [List.map_map]
      rfl

theorem tryCandidate_hands (hw : Work.Coherent P placed db.work) {owner : String} {expiresAt : Time}
    {acquired : GroupKey → Bool} {candidate : Delivery} {leased : LeasedExecutionAttempt}
    (h : tryCandidate P now owner expiresAt acquired candidate db = .ok (some leased, db')) :
    Hands P db db' leased.handOut := by
  unfold tryCandidate at h
  dsimp only at h
  split at h
  · cases h
  obtain ⟨region, hregion, h⟩ := Except.bind_eq_ok.1 h
  split at h
  · obtain ⟨db₁, -, h⟩ := Except.bind_eq_ok.1 h
    cases h
  obtain ⟨component, -, h⟩ := Except.bind_eq_ok.1 h
  obtain ⟨revision, -, h⟩ := Except.bind_eq_ok.1 h
  split at h
  · obtain ⟨db₁, -, h⟩ := Except.bind_eq_ok.1 h
    cases h
  rename_i selected hselected
  have hmem : ∀ d ∈ selected, d ∈ db.deliveries :=
    fun d hd => ((mem_selectGroup hselected).2 d hd).1
  obtain ⟨⟨result, db₁⟩, hensure, hlease⟩ := Except.bind_eq_ok.1 h
  rcases ensureExecution_eq_ok hensure with ⟨rfl, -⟩ | ⟨e, he, rfl, rfl, -, hexec⟩ |
    ⟨e, rfl, rfl, hnew⟩
  · obtain ⟨db₂, -, hnone⟩ := Except.bind_eq_ok.1 hlease
    cases hnone
  · simp only [isExecutionOf, Bool.and_eq_true, decide_eq_true_eq] at hexec
    exact leaseExecution_hands hlease hw.attemptsKeyed hw.attemptDrawn hmem he hexec.2
  · have hhands := leaseExecution_hands hlease hw.attemptsKeyed
      (fun a ha => (hw.attemptDrawn a ha).mono le_rfl (Nat.le_succ _)) hmem
      (List.mem_append_right _ (List.mem_singleton_self e)) hnew.digest
    obtain ⟨k, hk, hk', htoken⟩ := hhands.token
    exact ⟨hhands.held, hhands.given, hhands.pending, k, (Nat.le_succ _).trans hk, hk', htoken⟩

theorem tryCandidates_hands {owner : String} {expiresAt : Time} {acquired : GroupKey → Bool}
    {candidates : List Delivery} {leased : LeasedExecutionAttempt}
    (hw : Work.Coherent P placed db.work)
    (h : tryCandidates P now owner expiresAt acquired candidates db = .ok (some leased, db')) :
    Hands P db db' leased.handOut := by
  induction candidates generalizing db with
  | nil => cases h
  | cons c cs ih =>
    unfold tryCandidates at h
    obtain ⟨⟨result, db₁⟩, htry, h⟩ := Except.bind_eq_ok.1 h
    cases result with
    | some l =>
      obtain ⟨hl, rfl⟩ := Prod.mk.inj (Except.ok.inj h)
      exact Option.some.inj hl ▸ tryCandidate_hands hw htry
    | none =>
      have hdeferred := tryCandidate_deferred hw htry
      have hschedules : Schedules P (fun _ _ => True) (fun _ => True) db db₁ := hdeferred.schedules
      obtain ⟨hheld, hgiven, hpending, k, hk, hk', htoken⟩ := ih (hschedules.coherent hw) h
      obtain ⟨p, n, -, hn, hwork⟩ := hdeferred.work
      obtain ⟨-, -, -, -, hattempts, hdrawn⟩ := work_eq_iff.1 hwork
      refine ⟨hheld, hgiven, ?_, k, ?_, hk', htoken⟩
      · rwa [hattempts] at hpending
      · have : db₁.drawn = n := hdrawn
        omega

theorem leaseNextAttempt_hands (hw : Work.Coherent P placed db.work)
    {options : LeaseNextAttemptOptions} {acquired : GroupKey → Bool}
    {leased : LeasedExecutionAttempt}
    (h : leaseNextAttempt P now options acquired db = .ok (some leased, db')) :
    Hands P db db' leased.handOut := by
  unfold leaseNextAttempt at h
  obtain ⟨⟨⟩, -, h⟩ := Except.bind_eq_ok.1 h
  split at h
  · cases h
  · exact tryCandidates_hands hw h

/-! ## Runs -/

variable {s t : State} {l : Label}

/-- A step hands out one attempt or none, and takes none back. -/
theorem Step.handedOut (hs : Step P s l t) : t.handedOut.Perm s.handedOut ∨
    ∃ options acquired leased, leaseNextAttempt P s.now options acquired s.db =
      .ok (some leased, t.db) ∧ t.handedOut = leased.handOut :: s.handedOut := by
  cases hs with
  | @lease options acquired leased db hop =>
    cases leased with
    | none => exact Or.inl (.refl _)
    | some leased => exact Or.inr ⟨options, acquired, leased, hop, rfl⟩
  | @envelope scheduled envelope pre post hmem hop =>
    left
    have hsame : envelope.handOut = scheduled.handOut := by
      unfold buildEnvelope at hop
      obtain ⟨execution, -, hop⟩ := Except.bind_eq_ok.1 hop
      obtain ⟨region, -, hop⟩ := Except.bind_eq_ok.1 hop
      obtain ⟨component, -, hop⟩ := Except.bind_eq_ok.1 hop
      obtain ⟨definition, -, hop⟩ := Except.bind_eq_ok.1 hop
      obtain rfl := Except.ok.inj hop
      rfl
    simp only [State.handedOut, hmem, List.map_append, List.map_cons, hsame]
    exact List.perm_middle.trans (List.perm_middle.symm.append_right _)
  | _ => exact Or.inl (.refl _)

/-- The invariant of what is handed out. -/
structure HeldOnce (P : Platform) (s : State) : Prop where
  once : (s.handedOut.map (·.attemptId)).Nodup
  distinct : (s.handedOut.map (·.leaseToken)).Nodup
  drawn : ∀ h ∈ s.handedOut, ∃ k < s.db.drawn, h.leaseToken = P.token k
  held : ∀ h ∈ s.handedOut, h.Held s.db.work
  given : ∀ h ∈ s.handedOut, h.Given s.db.work

theorem HeldOnce.step (hw : Work.Coherent P placed s.db.work) (h : HeldOnce P s)
    (hk : KeepsHeld s.db.work t.db.work) (hs : Step P s l t) : HeldOnce P t := by
  have hdrawn : s.db.drawn ≤ t.db.drawn := hk.drawn
  rcases Step.handedOut hs with hperm | ⟨options, acquired, leased, hop, hnew⟩
  · refine ⟨(hperm.map _).nodup_iff.2 h.once, (hperm.map _).nodup_iff.2 h.distinct,
      fun o ho => ?_, fun o ho => (h.held o (hperm.mem_iff.1 ho)).keeps hk,
      fun o ho => (h.given o (hperm.mem_iff.1 ho)).keeps hk⟩
    obtain ⟨k, hk', htoken⟩ := h.drawn o (hperm.mem_iff.1 ho)
    exact ⟨k, hk'.trans_le hdrawn, htoken⟩
  · obtain ⟨hheld, hgiven, hpending, k, hle, hlt, htoken⟩ := leaseNextAttempt_hands hw hop
    constructor
    all_goals rw [hnew]
    · -- Whoever held the attempt before holds one that is not pending.
      rw [List.map_cons, List.nodup_cons]
      refine ⟨fun hmem => ?_, h.once⟩
      obtain ⟨o, ho, hid⟩ := List.mem_map.1 hmem
      obtain ⟨a, ha, haid, -, -, hp, -⟩ := h.held o ho
      exact hp (hpending a ha (haid.trans hid))
    · rw [List.map_cons, List.nodup_cons]
      refine ⟨fun hmem => ?_, h.distinct⟩
      obtain ⟨o, ho, hsame⟩ := List.mem_map.1 hmem
      obtain ⟨j, hj, hjtoken⟩ := h.drawn o ho
      have := P.token_injective (hjtoken.symm.trans (hsame.trans htoken))
      omega
    · refine List.forall_mem_cons.2 ⟨⟨k, hlt, htoken⟩, fun o ho => ?_⟩
      obtain ⟨j, hj, hjtoken⟩ := h.drawn o ho
      exact ⟨j, hj.trans_le hdrawn, hjtoken⟩
    · exact List.forall_mem_cons.2 ⟨hheld, fun o ho => (h.held o ho).keeps hk⟩
    · exact List.forall_mem_cons.2 ⟨hgiven, fun o ho => (h.given o ho).keeps hk⟩

theorem reachable_heldOnce (h : (runtime P).Reachable s) : HeldOnce P s := by
  refine h.invariant_of (fun s hs => ?_) fun s l t hr hheld hs => ?_
  · have hnone : s.handedOut = [] := by simp [State.handedOut, hs.claimed, hs.envelopes]
    constructor <;> simp [hnone]
  · have hsound := reachable_sound hr
    exact hheld.step hsound.coherent
      (.of_refines (Step.anyEffect hsound hs).refines hsound.coherent) hs

/-- Attempts of one execution in their order : the earlier ones have ended, and a number names one
attempt. -/
theorem Work.Coherent.numbers (hw : Work.Coherent P placed w) {a b : ExecutionAttempt}
    (ha : a ∈ w.attempts) (hb : b ∈ w.attempts) (hexec : a.executionId = b.executionId) :
    (a.attemptNumber < b.attemptNumber → a.status.terminal) ∧
      (a.attemptNumber = b.attemptNumber → a = b) := by
  obtain ⟨e, he, hid⟩ := hw.attemptExecution a ha
  have hd := hw.discipline e he
  obtain ⟨i, hi, hai⟩ := List.getElem_of_mem (Work.mem_attemptsOf.2 ⟨ha, hid.symm⟩)
  obtain ⟨j, hj, hbj⟩ := List.getElem_of_mem (Work.mem_attemptsOf.2 ⟨hb, hexec.symm.trans hid.symm⟩)
  have hnumber : ∀ n (hn : n < (attemptsOf w.attempts e.id).length),
      (attemptsOf w.attempts e.id)[n].attemptNumber = 1 + n := by
    intro n hn
    have hnumbered : (attemptsOf w.attempts e.id).map (·.attemptNumber) =
        List.range' 1 (attemptsOf w.attempts e.id).length := by
      simpa [historyOf, Function.comp_def] using hd.numbered
    have := List.getElem_of_eq hnumbered (i := n) (by simpa using hn)
    simpa using this
  have hna := hnumber i hi
  have hnb := hnumber j hj
  rw [hai] at hna
  rw [hbj] at hnb
  refine ⟨fun hlt => ?_, fun heq => ?_⟩
  · have hi' : i < (historyOf w.attempts e).attempts.dropLast.length := by
      simp only [historyOf, List.length_dropLast, List.length_map]
      omega
    have hmem := hd.earlier _ (List.getElem_mem hi')
    rw [List.getElem_dropLast] at hmem
    simpa [historyOf, hai] using hmem
  · obtain rfl : i = j := by omega
    exact hai.symm.trans hbj

/-- What is handed out in a state. -/
structure HandsOutOnce (s : State) : Prop where
  once : (s.handedOut.map (·.attemptId)).Nodup
  tokens : (s.handedOut.map (·.leaseToken)).Nodup
  held : ∀ h ∈ s.handedOut, h.Held s.db.work
  given : ∀ h ∈ s.handedOut, h.Given s.db.work
  same : ∀ h ∈ s.handedOut, ∀ h' ∈ s.handedOut, h.executionId = h'.executionId →
    h.inputs = h'.inputs ∧ (h.attemptNumber = h'.attemptNumber → h = h')
  retried : ∀ h ∈ s.handedOut, ∀ h' ∈ s.handedOut, h.executionId = h'.executionId →
    h.attemptNumber < h'.attemptNumber →
    ∀ a ∈ s.db.attempts, a.id = h.attemptId → a.status.terminal

/-- The deliveries that a digest names are determined by it. -/
theorem eq_of_inputSetDigest {ds : List Delivery} (hkeyed : Keyed (·.id) ds) {xs ys : List Delivery}
    (hxs : ∀ d ∈ xs, d ∈ ds) (hys : ∀ d ∈ ys, d ∈ ds)
    (h : inputSetDigest xs = inputSetDigest ys) : xs = ys := by
  induction xs generalizing ys with
  | nil => exact (List.map_eq_nil_iff.1 h.symm).symm
  | cons x xs ih =>
    cases ys with
    | nil => cases h
    | cons y ys =>
      obtain ⟨hhead, htail⟩ := List.cons.inj h
      rw [List.forall_mem_cons] at hxs hys
      rw [hkeyed.eq hxs.1 hys.1 (congrArg InputIdentity.deliveryId hhead), ih hxs.2 hys.2 htail]

/-- Every reachable state has handed out every attempt once, and every execution's inputs to all its
attempts. -/
theorem hands_out_once (hr : (runtime P).Reachable s) : HandsOutOnce s := by
  have hw := (reachable_sound hr).coherent
  have h := reachable_heldOnce hr
  have hrouted : Keyed (·.id) (s.db.deliveries.map Delivery.asRouted) := by
    have hids : (s.db.deliveries.map Delivery.asRouted).map (·.id) =
        s.db.deliveries.map (·.id) := by
      rw [List.map_map]
      rfl
    unfold Keyed
    rw [hids]
    exact hw.deliveriesKeyed
  refine ⟨h.once, h.distinct, h.held, h.given, fun o ho o' ho' hexec => ⟨?_, fun hnumber => ?_⟩,
    fun o ho o' ho' hexec hlt a ha hid => ?_⟩
  · obtain ⟨e, he, hid, ds, hds, hdigest, hinputs⟩ := h.given o ho
    obtain ⟨e', he', hid', ds', hds', hdigest', hinputs'⟩ := h.given o' ho'
    obtain rfl := hw.executionsKeyed.eq he he' (hid.trans (hexec.trans hid'.symm))
    obtain rfl := eq_of_inputSetDigest hrouted hds hds' (hdigest.symm.trans hdigest')
    exact hinputs.trans hinputs'.symm
  · obtain ⟨a, ha, hid, haexec, hanumber, -⟩ := h.held o ho
    obtain ⟨b, hb, hid', hbexec, hbnumber, -⟩ := h.held o' ho'
    obtain rfl := (hw.numbers ha hb (haexec.trans (hexec.trans hbexec.symm))).2
      (hanumber.trans (hnumber.trans hbnumber.symm))
    exact List.inj_on_of_nodup_map h.once ho ho' (hid.symm.trans hid')
  · obtain ⟨b, hb, hbid, hbexec, hbnumber, -⟩ := h.held o ho
    obtain ⟨c, hc, -, hcexec, hcnumber, -⟩ := h.held o' ho'
    obtain rfl : a = b := hw.attemptsKeyed.eq ha hb (hid.trans hbid.symm)
    exact (hw.numbers hb hc (hbexec.trans (hexec.trans hcexec.symm))).1 (by omega)

/-- A run in which a lease expires, and the attempt that replaces it is handed out. -/
def retriedRun : List Action :=
  [.submit (plantCommand "start" "c"), poll, .tick 2000, .scanExpired, .recoverExpired 0,
    .tick 900000, poll]

theorem hands_out_once_retried : ∃ s, runs samplePlatform plant retriedRun = some s ∧
    s.handedOut.map (fun h => (h.attemptNumber, h.inputs.length)) = [(2, 1), (1, 1)] ∧
    HandsOutOnce s := by
  have hsome : (runs samplePlatform plant retriedRun).map (fun s =>
      s.handedOut.map fun h => (h.attemptNumber, h.inputs.length)) = some [(2, 1), (1, 1)] := rfl
  obtain ⟨s, hs, hnumbers⟩ := Option.map_eq_some_iff.1 hsome
  exact ⟨s, hs, hnumbers, hands_out_once (runs_reachable plant_reachable hs)⟩

end FactoryFloor
