import FactoryFloor.Dispatch

/-!
# Charges of network calls

A dispatch that is admitted reserves one row in each budget of its region's ancestors. Settling the
request charges the ledger once and reconciles its rows, in one transaction. So a row that is
reserved has no charge, and a row that is reconciled has one (`Charged`).

The transaction that settles comes after the one that stores the answer, and `reconcilePending`
looks for uncertain actions only. When the call stops in between and the answer was the last one,
no later pass settles the request. `charged_once` is about the runs in which no such call stops
(`settlesTerminal`), and in which no pass completes while such a call has yet to settle.
-/

namespace FactoryFloor

open Relational Transition

variable {P : Platform} {db db' db'' : Db} {s t : Installation} {l : InstallationLabel}

/-! ## Rows of network calls -/

/-- What the runtime does to the rows of network calls : nothing. -/
structure NetworkKept (db db' : Db) : Prop where
  rows : ∀ r ∈ db'.reservations, ∀ id, r.idempotencyKey = .networkCalls id → r ∈ db.reservations
  requests : ∀ r ∈ db.reservations, ∃ r' ∈ db'.reservations, r'.requestId = r.requestId

theorem NetworkKept.of_eq (h : db'.reservations = db.reservations) : NetworkKept db db' :=
  ⟨by rw [h]; exact fun r hr _ _ => hr, by rw [h]; exact fun r hr => ⟨r, hr, rfl⟩⟩

theorem NetworkKept.trans (h : NetworkKept db db') (h' : NetworkKept db' db'') :
    NetworkKept db db'' := by
  refine ⟨fun r hr id hkey => h.rows r (h'.rows r hr id hkey) id hkey, fun r hr => ?_⟩
  obtain ⟨r', hr', hid⟩ := h.requests r hr
  obtain ⟨r'', hr'', hid'⟩ := h'.requests r' hr'
  exact ⟨r'', hr'', hid'.trans hid⟩

/-- The trigger releases no row of a network call. -/
theorem release_network (hr : Reserved P db) (hb : Keyed (·.id) db.budgets) {id : Uuid}
    {old new : Execution} {rows : List ResourceReservation}
    (hrows : ∀ r ∈ rows, r.idempotencyKey = .networkCalls id → r ∈ db.reservations) :
    ∀ r ∈ releaseTerminalExecutionAdmission db.budgets rows old new,
      r.idempotencyKey = .networkCalls id → r ∈ db.reservations := by
  intro r hmem hkey
  unfold releaseTerminalExecutionAdmission at hmem
  split at hmem
  · obtain ⟨y, hy, rfl⟩ := mem_updateWhere.1 hmem
    split at hkey
    · rename_i hcond
      simp only [Bool.and_eq_true, List.any_eq_true, decide_eq_true_eq] at hcond
      obtain ⟨-, b, hbmem, hbid, htype⟩ := hcond
      obtain ⟨c, hc, hcid, hctype⟩ := hr.budget y (hrows y hy hkey)
      obtain rfl := hb.eq hbmem hc (hbid.trans hcid.symm)
      rw [htype, show y.idempotencyKey = .networkCalls id from hkey] at hctype
      simp [ReservationKey.resourceType] at hctype
    · rename_i hcond
      rw [if_neg hcond]
      exact hrows y hy hkey
  · exact hrows r hmem hkey

theorem releasedBy_network (hr : Reserved P db) (hb : Keyed (·.id) db.budgets)
    (p : Execution → Bool) (f : Execution → Execution) {id : Uuid} :
    ∀ r ∈ releasedBy p f db, r.idempotencyKey = .networkCalls id → r ∈ db.reservations := by
  exact releasedBy_induction
    (I := fun rows => ∀ r ∈ rows, r.idempotencyKey = .networkCalls id → r ∈ db.reservations)
    (fun r hmem _ => hmem) fun rows hrows e _ _ => release_network hr hb hrows

theorem AccountStep.network (hr : Reserved P db) (hb : Keyed (·.id) db.budgets)
    (h : AccountStep P db db') : NetworkKept db db' ∧ db'.budgets = db.budgets := by
  cases h with
  | keep hkeep => exact ⟨.of_eq hkeep.reservations, hkeep.budgets⟩
  | admits hbudgets hregions hdrawn hexecutions hnew hrunning hadmits =>
    refine ⟨?_, hbudgets⟩
    cases hadmits with
    | replayed hkey hrows => exact .of_eq hrows
    | reserved hn hkey hroom hkeyed hrows =>
      refine ⟨fun r hr' id hid => ?_, fun r hr' => ⟨r, ?_, rfl⟩⟩
      · rw [hrows] at hr'
        refine (List.mem_append.1 hr').resolve_right fun hnew => ?_
        obtain ⟨b, -, rfl⟩ := List.mem_map.1 hnew
        simp [reservationOf, executionLease] at hid
      · rw [hrows]
        exact List.mem_append_left _ hr'
  | close hf hclosed hbudgets hregions hdrawn hexecutions hreservations =>
    refine ⟨⟨fun r hr' id hkey => ?_, fun r hr' => ?_⟩, hbudgets⟩
    · exact releasedBy_network hr hb _ _ r (hreservations ▸ hr') hkey
    · have hmem : r.asReserved ∈ db'.reservations.map ResourceReservation.asReserved := by
        rw [hreservations, Reserved.releasedBy_asReserved]
        exact List.mem_map_of_mem hr'
      obtain ⟨r', hr'', heq⟩ := List.mem_map.1 hmem
      exact ⟨r', hr'',
        show r'.asReserved.requestId = r.asReserved.requestId from congrArg _ heq⟩

theorem Accounts.network (hr : Reserved P db) (hb : Keyed (·.id) db.budgets)
    (h : Accounts P db db') : NetworkKept db db' := by
  suffices hall : NetworkKept db db' ∧ db'.budgets = db.budgets ∧ Reserved P db' from hall.1
  induction h with
  | refl => exact ⟨.of_eq rfl, rfl, hr⟩
  | tail _ hstep ih =>
    obtain ⟨hkept, hbudgets, hreserved⟩ := ih
    obtain ⟨hkept', hbudgets'⟩ := hstep.network hreserved (hbudgets ▸ hb)
    exact ⟨hkept.trans hkept', hbudgets'.trans hbudgets, hreserved.step hstep⟩

/-! ## What a step charges -/

/-- The ledger rows of a request. -/
def Db.charges (db : Db) (requestId : Uuid) : List ResourceLedgerEntry :=
  db.ledger.filter (·.admissionRequestId = some requestId)

theorem Db.charges_append {new : List ResourceLedgerEntry} (h : db'.ledger = db.ledger ++ new)
    (hnew : ∀ x ∈ new, x.admissionRequestId = none) (requestId : Uuid) :
    db'.charges requestId = db.charges requestId := by
  have hnone : new.filter (·.admissionRequestId = some requestId) = [] :=
    List.filter_eq_nil_iff.2 fun x hx => by simp [hnew x hx]
  rw [Db.charges, h, List.filter_append, hnone, List.append_nil]
  rfl

/-- What a step does to the rows of network calls and their charges. -/
inductive MovesCharges (P : Platform) (s t : Installation) : InstallationLabel → Prop
  | keep {l : InstallationLabel} (hkept : NetworkKept s.db t.db)
      (hledger : ∃ new, t.db.ledger = s.db.ledger ++ new ∧ ∀ x ∈ new, x.admissionRequestId = none)
      (hl : ∀ actionId, l ≠ .settle actionId) : MovesCharges P s t l
  | reserve {a : ExternalAction} {region : Region} {budgets : List ResourceBudget} {n : ℕ}
      (ha : a ∈ s.db.actions) (hstatus : a.status = .authorized) (hn : s.db.drawn ≤ n)
      (hrows : t.db.reservations = s.db.reservations ++
        budgets.map (reservationOf (P.uuid n) (networkCall a region)))
      (hledger : t.db.ledger = s.db.ledger) : MovesCharges P s t (.dispatch a.id)
  | unreserved {actionId : Uuid} (hnone : ∀ r ∈ s.db.reservations,
        r.idempotencyKey ≠ .networkCalls actionId) (hdb : t.db = s.db) :
      MovesCharges P s t (.settle actionId)
  | settle {actionId : Uuid} {r : ResourceReservation} {charges : List ResourceLedgerEntry}
      (hr : r ∈ s.db.reservations) (hkey : r.idempotencyKey = .networkCalls actionId)
      (hrows : t.db.reservations = updateWhere
        (fun x => x.requestId = r.requestId && x.status = .reserved)
        (fun x => { x with status := .reconciled }) s.db.reservations)
      (hledger : t.db.ledger = s.db.ledger ++ charges)
      (hcharges : ∀ x ∈ charges, x.admissionRequestId = some r.requestId ∧
        x.resourceType = "network_calls")
      (hlength : charges.length + (s.db.charges r.requestId).length =
        max 1 (s.db.charges r.requestId).length) : MovesCharges P s t (.settle actionId)

/-- The charges of requests that have rows of network calls. -/
structure Charged (db : Db) : Prop where
  network : ∀ r ∈ db.reservations, ∀ id, r.idempotencyKey = .networkCalls id →
    r.status = .reserved ∧ db.charges r.requestId = [] ∨
      r.status = .reconciled ∧ (db.charges r.requestId).length = 1
  ledger : ∀ x ∈ db.ledger, ∀ requestId, x.admissionRequestId = some requestId →
    x.resourceType = "network_calls" ∧ ∃ r ∈ db.reservations, r.requestId = requestId

/-- The reservations of an action are those under the key of its network call. -/
theorem Reserved.network_iff (hr : Reserved P db) {r : ResourceReservation}
    (hmem : r ∈ db.reservations) {id : Uuid} :
    r.externalActionId = some id ↔ r.idempotencyKey = .networkCalls id := by
  rw [(hr.regular r hmem).action]
  rcases (hr.regular r hmem).key with ⟨e, he⟩ | ⟨a, ha⟩
  · simp [he, ReservationKey.action?]
  · simp [ha, ReservationKey.action?]

/-- What settling the reservation of an action does. -/
theorem settle_charges (hs : Installed P s) (hc : Charged s.db) {actionId : Uuid} {settled : Bool}
    (h : reconcileNetworkReservation actionId s.db = .ok (settled, db')) (ht : t.db = db') :
    MovesCharges P s t (.settle actionId) := by
  have hbudgets := hs.sound.wellFormed.budgets
  unfold reconcileNetworkReservation at h
  split at h
  · rename_i hnone
    obtain ⟨-, rfl⟩ := Prod.mk.inj (Except.ok.inj h)
    refine .unreserved (fun r hr hkey => ?_) ht
    obtain ⟨b, hb, hid, htype⟩ := hs.reserved.budget r hr
    have := List.find?_eq_none.1 hnone r hr
    simp only [(hs.reserved.network_iff hr).2 hkey, decide_true, Bool.true_and, List.any_eq_true,
      Bool.and_eq_true, decide_eq_true_eq, not_exists, not_and] at this
    exact this b hb hid (by rw [htype, hkey]; rfl)
  · rename_i r hfind
    have hr := List.mem_of_find?_eq_some hfind
    have hcond := List.find?_some hfind
    simp only [Bool.and_eq_true, decide_eq_true_eq] at hcond
    have hkey := (hs.reserved.network_iff hr).1 hcond.1
    rcases reconcile_eq_ok h with ⟨hnone, -⟩ | ⟨r', b, ledger, hrb, hledger, rfl⟩
    · -- the row has a budget, so the request has a row
      obtain ⟨b, hb, hid, -⟩ := hs.reserved.budget r hr
      have : (r, b) ∈ requestReservations r.requestId s.db :=
        mem_requestReservations.2 ⟨hr, rfl, hid ▸ hbudgets.find?_eq_some hb⟩
      simp [hnone] at this
    obtain ⟨hr', hrid, hfindb⟩ := mem_requestReservations.1 hrb
    have hkey' := ((hs.reserved.request r' hr' r hr).1 hrid).trans hkey
    have htype : b.resourceType = "network_calls" := by
      obtain ⟨c, hcmem, hcid, hctype⟩ := hs.reserved.budget r' hr'
      obtain ⟨hbmem, hbid⟩ := mem_of_find?_key hfindb
      obtain rfl := hbudgets.eq hcmem hbmem (hcid.trans hbid.symm)
      rw [hctype, hkey']
      rfl
    rcases hledger with ⟨rfl, x, hx, hxid, -⟩ | ⟨rfl, hnew⟩
    · have hledger : t.db.ledger = s.db.ledger ++ [] := by rw [ht]; simp
      refine .settle hr hkey (by rw [ht]) hledger (by simp) ?_
      have : 0 < (s.db.charges r.requestId).length :=
        List.length_pos_of_mem (List.mem_filter.2 ⟨hx, by simpa using hxid⟩)
      simp
      omega
    · have hledger : t.db.ledger = s.db.ledger ++ [chargeOf r.requestId 1 r' b] := by rw [ht]
      refine .settle hr hkey (by rw [ht]) hledger (by simp [chargeOf, htype]) ?_
      have : s.db.charges r.requestId = [] := List.filter_eq_nil_iff.2 fun x hx hxid => by
        have hxid : x.admissionRequestId = some r.requestId := by simpa using hxid
        exact hnew x hx ⟨hxid, (hc.ledger x hx _ hxid).1.trans htype.symm⟩
      simp [this]

theorem InstallationStep.charges (hs : Installed P s) (hc : Charged s.db)
    (hstep : InstallationStep P s l t) : MovesCharges P s t l := by
  have hsame : ∀ {l : InstallationLabel} {t : Installation},
      t.db.reservations = s.db.reservations → t.db.ledger = s.db.ledger →
      (∀ actionId, l ≠ .settle actionId) → MovesCharges P s t l := fun hrows hledger hl =>
    .keep (.of_eq hrows) ⟨[], by simp [hledger], by simp⟩ hl
  cases hstep with
  | runtime hstep hmoves =>
    exact .keep ((hstep.accounts hs.sound).network hs.reserved hs.sound.wellFormed.budgets)
      (hstep.publishes hs.sound hmoves).ledger (by simp)
  | requestApproval | decidePolicy | invoke | reconcile | answer | stop | startPass | passNext
  | finishPass =>
    exact hsame rfl rfl (by simp)
  | decideApproval hop =>
    rcases decideApproval_eq_ok hop with rfl | ⟨approvals, -, rfl⟩ <;> exact hsame rfl rfl (by simp)
  | configureBudgets hop =>
    have hframe := (configureRegionBudgets_configures hop).frame
    exact hsame (by rw [hframe]) (by rw [hframe]) (by simp)
  | persist hmem hop =>
    obtain ⟨action, -, -, attempt, -, -, -, ⟨-, rfl⟩ | ⟨-, -, rfl⟩⟩ := persistResult_eq_ok hop <;>
      exact hsame rfl rfl (by simp)
  | settle hmem hop => exact settle_charges hs hc hop rfl
  | dispatch hop =>
    rcases prepareDispatch_eq_ok hop with
      ⟨-, rfl⟩ | ⟨a, e, r, hrow, hauthorized, ⟨-, -, rfl⟩ | ⟨-, outcome, reservations, n, hreserve, hrest⟩⟩
    · exact hsame rfl rfl (by simp)
    · exact hsame rfl rfl (by simp)
    obtain ⟨ha, rfl, -⟩ := dispatchRow_eq_some hrow
    obtain ⟨rows, m, heq, -, hcases⟩ := reserveInTransaction_eq_ok hreserve
    obtain rfl : reservations = rows := congrArg (fun d : Db => d.reservations) heq
    rcases hrest with ⟨hrefused, -, rfl⟩ | ⟨rfl, hstart⟩
    · rcases hcases with ⟨-, hrows⟩ | ⟨hadmitted, -⟩
      · exact hsame hrows rfl (by simp)
      · exact absurd hadmitted hrefused
    · obtain ⟨attempt, -, -, -, -, -, -, rfl⟩ := startDispatch_eq_ok hstart
      rcases hcases with ⟨hrefused, -⟩ | ⟨-, hadmits⟩
      · exact absurd rfl hrefused
      cases hadmits with
      | replayed hkey hrows => exact hsame hrows rfl (by simp)
      | reserved hn hkey hroom hkeyed hrows => exact .reserve ha hauthorized hn.1 hrows rfl

/-- Rows and charges go together. -/
theorem Charged.step (hs : Installed P s) (h : Charged s.db) (hstep : InstallationStep P s l t) :
    Charged t.db := by
  have hmoves := hstep.charges hs h
  cases hmoves with
  | keep hkept hledger hl =>
    obtain ⟨new, hnew, hnone⟩ := hledger
    refine ⟨fun r hr id hkey => ?_, fun x hx requestId hid => ?_⟩
    · rw [Db.charges_append hnew hnone]
      exact h.network r (hkept.rows r hr id hkey) id hkey
    · rcases List.mem_append.1 (hnew ▸ hx) with hx | hx
      · obtain ⟨htype, r, hr, hrid⟩ := h.ledger x hx requestId hid
        obtain ⟨r', hr', hrid'⟩ := hkept.requests r hr
        exact ⟨htype, r', hr', hrid'.trans hrid⟩
      · simp [hnone x hx] at hid
  | @reserve a region budgets n ha hstatus hn hrows hledger =>
    have hcharges : ∀ requestId, t.db.charges requestId = s.db.charges requestId := fun requestId => by
      simp only [Db.charges, hledger]
    refine ⟨fun r hr id hkey => ?_, fun x hx requestId hid => ?_⟩
    · rw [hcharges]
      rcases List.mem_append.1 (hrows ▸ hr) with hr | hr
      · exact h.network r hr id hkey
      · obtain ⟨b, -, rfl⟩ := List.mem_map.1 hr
        refine Or.inl ⟨rfl, List.filter_eq_nil_iff.2 fun x hx hid => ?_⟩
        -- the id of the request has just been drawn
        obtain ⟨-, r, hr, hrid⟩ := h.ledger x hx (P.uuid n) (of_decide_eq_true hid)
        exact hs.reserved.requestIds r hr n hn hrid.symm
    · obtain ⟨htype, r, hr, hrid⟩ := h.ledger x (hledger ▸ hx) requestId hid
      exact ⟨htype, r, by rw [hrows]; exact List.mem_append_left _ hr, hrid⟩
  | unreserved hnone hdb => rw [hdb]; exact h
  | @settle actionId r charges hr hkey hrows hledger hcharges hlength =>
    have hcount : ∀ requestId, (t.db.charges requestId).length =
        (s.db.charges requestId).length + if requestId = r.requestId then charges.length else 0 := by
      intro requestId
      rw [Db.charges, hledger, List.filter_append, List.length_append]
      congr 1
      split
      · rename_i heq
        rw [List.filter_eq_self.2 fun x hx => by simp [(hcharges x hx).1, heq]]
      · rename_i hne
        rw [List.filter_eq_nil_iff.2 fun x hx => by simp [(hcharges x hx).1, Ne.symm hne]]
        rfl
    have hrequest : ∀ y ∈ s.db.reservations, ∃ y' ∈ t.db.reservations, y'.requestId = y.requestId :=
      fun y hy => by
        refine ⟨_, hrows ▸ mem_updateWhere.2 ⟨y, hy, rfl⟩, ?_⟩
        split <;> rfl
    refine ⟨fun r' hr' id hid => ?_, fun x hx requestId hid => ?_⟩
    · obtain ⟨y, hy, rfl⟩ := mem_updateWhere.1 (hrows ▸ hr')
      have hy' := h.network y hy id (by split at hid <;> exact hid)
      split
      · rename_i hcond
        simp only [Bool.and_eq_true, decide_eq_true_eq] at hcond
        refine Or.inr ⟨rfl, ?_⟩
        change (t.db.charges y.requestId).length = 1
        rcases hy' with ⟨-, hnil⟩ | ⟨hstatus, -⟩
        · rw [hcond.1] at hnil ⊢
          rw [hcount, if_pos rfl]
          simp only [hnil, List.length_nil] at hlength ⊢
          omega
        · simp [hcond.2] at hstatus
      · rename_i hcond
        by_cases hq : y.requestId = r.requestId
        · rcases hy' with ⟨hstatus, -⟩ | ⟨hstatus, hone⟩
          · simp [hq, hstatus] at hcond
          · refine Or.inr ⟨hstatus, ?_⟩
            rw [hcount, if_pos hq]
            rw [hq] at hone ⊢
            omega
        · have hsame := hcount y.requestId
          rw [if_neg hq, Nat.add_zero] at hsame
          rcases hy' with ⟨hstatus, hnil⟩ | ⟨hstatus, hone⟩
          · refine Or.inl ⟨hstatus, List.length_eq_zero_iff.1 ?_⟩
            rw [hsame, hnil]
            rfl
          · exact Or.inr ⟨hstatus, hsame.trans hone⟩
    · rcases List.mem_append.1 (hledger ▸ hx) with hx | hx
      · obtain ⟨htype, y, hy, hyid⟩ := h.ledger x hx requestId hid
        obtain ⟨y', hy', hyid'⟩ := hrequest y hy
        exact ⟨htype, y', hy', hyid'.trans hyid⟩
      · obtain ⟨hxid, htype⟩ := hcharges x hx
        obtain ⟨y', hy', hyid'⟩ := hrequest r hr
        exact ⟨htype, y', hy', hyid'.trans (Option.some.inj (hxid.symm.trans hid))⟩

theorem reachable_charged (h : (installation P).Reachable s) : Charged s.db := by
  refine h.invariant_of (I := fun s => Charged s.db) (fun s (hs : InitialInstallation P s) => ?_)
    fun _ _ _ hs hcharged (hst : InstallationStep P _ _ _) =>
      hcharged.step (reachable_installed hs) hst
  exact ⟨by simp [hs.state.reservations], by simp [hs.state.ledger]⟩

/-! ## Calls that settle -/

/-- Whether a call is about to settle the reservation of an action. -/
def Call.settles (actionId : Uuid) (c : Call) : Bool :=
  match c.phase with
  | .settling id => id = actionId
  | _ => false

/-- How many calls are about to settle the reservation of an action. -/
def settling (s : Installation) (actionId : Uuid) : ℕ :=
  s.calls.countP (·.settles actionId)

/-- A call that settles goes on until it has settled, or stops. -/
theorem InstallationStep.settling (hstep : InstallationStep P s l t) (actionId : Uuid) :
    FactoryFloor.settling s actionId ≤ FactoryFloor.settling t actionId ∨ l = .settle actionId ∨
      l = .stop (.settling actionId) ∧
        FactoryFloor.settling s actionId = FactoryFloor.settling t actionId + 1 := by
  unfold FactoryFloor.settling
  cases hstep with
  | runtime | requestApproval | decidePolicy | configureBudgets | startPass | finishPass =>
    exact Or.inl le_rfl
  | decideApproval hop => exact Or.inl le_rfl
  | dispatch hop => exact Or.inl (by simp [List.countP_append])
  | reconcile hop => exact Or.inl (by simp [List.countP_append])
  | passNext hmem hidle hop => exact Or.inl (by simp [List.countP_append])
  | invoke hmem => exact Or.inl (by simp [hmem, List.countP_append, Call.settles])
  | answer hmem => exact Or.inl (by simp [hmem, List.countP_append, Call.settles])
  | persist hmem hop =>
    exact Or.inl (by simp [hmem, List.countP_append, Call.settles])
  | @settle id pass pre post settled db hmem hop =>
    by_cases hid : id = actionId
    · exact Or.inr (Or.inl (by rw [hid]))
    · exact Or.inl (by simp [hmem, List.countP_append, Call.settles, hid])
  | @stop call pre post hmem =>
    by_cases hcall : call.settles actionId
    · refine Or.inr (Or.inr ⟨?_, ?_⟩)
      · unfold Call.settles at hcall
        split at hcall
        · rename_i id hphase
          rw [hphase, of_decide_eq_true hcall]
        · simp at hcall
      · simp [hmem, List.countP_append, hcall]
        omega
    · exact Or.inl (by simp [hmem, List.countP_append, hcall])

/-- The call that stores a last answer goes on to settle. -/
theorem InstallationStep.settling_persist {actionId : Uuid} {result : ExternalActionProviderResult}
    (hstep : InstallationStep P s (.persist actionId result) t)
    (hresult : result.status ≠ .indeterminate) : 0 < FactoryFloor.settling t actionId := by
  cases hstep with
  | @persist asked _ attemptId _ pass pre post t hmem hop =>
    exact List.countP_pos_iff.2 ⟨⟨pass, .settling actionId⟩, by simp [afterPersist, hresult],
      by simp [Call.settles]⟩

/-- What a step does to the passes : a pass starts with the actions that have their last status. -/
theorem InstallationStep.passes (hstep : InstallationStep P s l t) :
    (∀ p ∈ t.reconciling, p.terminal = terminalActions s.db ∨
      ∃ q ∈ s.reconciling, q.terminal = p.terminal) ∧
    ∀ id ∈ t.recovered, id ∈ s.recovered ∨ ∃ p ∈ s.reconciling, id ∈ p.terminal ∧ l = .finishPass p := by
  have hsame : ∀ p ∈ s.reconciling, p.terminal = terminalActions s.db ∨
      ∃ q ∈ s.reconciling, q.terminal = p.terminal := fun p hp => Or.inr ⟨p, hp, rfl⟩
  cases hstep with
  | runtime | requestApproval | decidePolicy | configureBudgets | invoke | answer | reconcile
  | settle | decideApproval | dispatch | persist =>
    exact ⟨hsame, fun id hid => Or.inl hid⟩
  | stop hmem => exact ⟨fun p hp => hsame p (List.mem_filter.1 hp).1, fun id hid => Or.inl hid⟩
  | startPass hlimit hid =>
    exact ⟨List.forall_mem_cons.2 ⟨Or.inl rfl, hsame⟩, fun id hid => Or.inl hid⟩
  | @passNext id actionId remaining terminal pre post asked hmem hidle hop =>
    refine ⟨fun p hp => ?_, fun id hid => Or.inl hid⟩
    rcases List.mem_append.1 hp with hp | hp
    · exact hsame p (by rw [hmem]; exact List.mem_append_left _ hp)
    · rcases List.mem_cons.1 hp with rfl | hp
      · exact Or.inr ⟨⟨id, actionId :: remaining, terminal⟩, by simp [hmem], rfl⟩
      · exact hsame p (by rw [hmem]; exact List.mem_append_right _ (List.mem_cons_of_mem _ hp))
  | @finishPass id terminal pre post hmem hidle =>
    refine ⟨fun p hp => hsame p ?_, fun id' hid' => ?_⟩
    · rw [hmem]
      rcases List.mem_append.1 hp with hp | hp
      · exact List.mem_append_left _ hp
      · exact List.mem_append_right _ (List.mem_cons_of_mem _ hp)
    · rcases List.mem_append.1 hid' with hid' | hid'
      · exact Or.inr ⟨⟨id, [], terminal⟩, by simp [hmem], hid', rfl⟩
      · exact Or.inl hid'

/-! ## Runs that settle -/

/-- Whether an action has its last status and a row that is still reserved. -/
def unsettled (s : Installation) (actionId : Uuid) : Bool :=
  (s.db.actions.any fun a => a.id = actionId && a.status.last) &&
    s.db.reservations.any fun r => r.externalActionId = some actionId && r.status = .reserved

/-- Whether a step leaves every unsettled action with a call that settles it, and completes no pass
before the actions that had their last status at its start are settled. -/
def settlesTerminal (s : Installation) : InstallationLabel → Bool
  | .stop (.settling actionId) => !unsettled s actionId || 2 ≤ settling s actionId
  | .finishPass pass => pass.terminal.all fun id => !unsettled s id || settling s id = 0
  | _ => true

/-- The runs in which calls that settle do not stop too early. -/
def settlingRuns (P : Platform) : System Installation InstallationLabel :=
  (installation P).restrict fun s l => settlesTerminal s l

/-- An action gets its last status from an answer that is not indeterminate. -/
theorem ActionMove.last {a a' : ExternalAction} (h : ActionMove s l a a') (hlast : a'.status.last) :
    a.status.last ∨ ∃ result, l = .persist a.id result ∧ result.status ≠ .indeterminate := by
  cases h with
  | same => exact Or.inl hlast
  | decided hdecides =>
    simp only [policyDecides, Bool.and_eq_true, Bool.or_eq_true, decide_eq_true_eq] at hdecides
    rcases hdecides.2 with ((h | h) | h) | h <;> simp [h, ExternalActionStatus.last] at hlast
  | approved h hstatus =>
    rcases hstatus with h | h <;> simp [h, ExternalActionStatus.last] at hlast
  | cancelled h => simp [ExternalActionStatus.last] at hlast
  | dispatched h => simp [ExternalActionStatus.last] at hlast
  | @answered _ _ asked attemptId result h hcall =>
    refine Or.inr ⟨result, rfl, fun hr => ?_⟩
    cases asked <;> simp [answeredStatus, hr, ExternalActionStatus.last] at hlast

/-- The last status of an action stays. -/
theorem ActionMove.keeps_last {a a' : ExternalAction} (h : ActionMove s l a a')
    (hlast : a.status.last) : a'.status.last := by
  cases h with
  | same => exact hlast
  | decided hdecides =>
    simp only [policyDecides, Bool.and_eq_true, Bool.or_eq_true, decide_eq_true_eq] at hdecides
    rcases hdecides.1 with h | h <;> simp [h, ExternalActionStatus.last] at hlast
  | approved h | cancelled h | dispatched h => simp [h, ExternalActionStatus.last] at hlast
  | answered h =>
    cases hst : a.status <;>
      simp [hst, ExternalActionStatus.uncertain, ExternalActionStatus.last] at h hlast

/-- A row of an action after a step is reconciled, or it was there, or the action was still
authorized. -/
theorem MovesCharges.row (h : MovesCharges P s t l) (hr : Reserved P s.db) (hc : Charged s.db)
    {r : ResourceReservation} (hmem : r ∈ t.db.reservations) {id : Uuid}
    (hkey : r.idempotencyKey = .networkCalls id) :
    r.status = .reconciled ∨ r ∈ s.db.reservations ∧ l ≠ .settle id ∨
      ∃ a ∈ s.db.actions, a.id = id ∧ a.status = .authorized := by
  cases h with
  | keep hkept hledger hl => exact Or.inr (Or.inl ⟨hkept.rows r hmem id hkey, hl id⟩)
  | @reserve a region budgets n ha hstatus hn hrows hledger =>
    rcases List.mem_append.1 (hrows ▸ hmem) with hmem | hmem
    · exact Or.inr (Or.inl ⟨hmem, by simp⟩)
    · obtain ⟨b, -, rfl⟩ := List.mem_map.1 hmem
      exact Or.inr (Or.inr ⟨a, ha, ReservationKey.networkCalls.inj hkey, hstatus⟩)
  | @unreserved actionId hnone hdb =>
    refine Or.inr (Or.inl ⟨hdb ▸ hmem, fun heq => ?_⟩)
    obtain rfl := InstallationLabel.settle.inj heq
    exact hnone r (hdb ▸ hmem) hkey
  | @settle actionId q charges hq hqkey hrows hledger hcharges hlength =>
    obtain ⟨y, hy, rfl⟩ := mem_updateWhere.1 (hrows ▸ hmem)
    split
    · exact Or.inl rfl
    · rename_i hcond
      rw [if_neg hcond] at hkey
      by_cases hid : actionId = id
      · subst hid
        have hrequest := (hr.request y hy q hq).2 (hkey.trans hqkey.symm)
        rcases hc.network y hy actionId hkey with ⟨hstatus, -⟩ | ⟨hstatus, -⟩
        · simp [hrequest, hstatus] at hcond
        · exact Or.inl hstatus
      · exact Or.inr (Or.inl ⟨hy, fun heq => hid (InstallationLabel.settle.inj heq)⟩)

/-- In a run whose calls settle, an action with its last status is settled, or a call is about to
settle it. -/
structure Settles (s : Installation) : Prop where
  due : ∀ a ∈ s.db.actions, a.status.last → ∀ r ∈ s.db.reservations,
    r.idempotencyKey = .networkCalls a.id → r.status = .reconciled ∨ 0 < settling s a.id
  passes : ∀ p ∈ s.reconciling, ∀ id ∈ p.terminal, ∃ a ∈ s.db.actions, a.id = id ∧ a.status.last
  recovered : ∀ id ∈ s.recovered, (∃ a ∈ s.db.actions, a.id = id ∧ a.status.last) ∧
    ∀ r ∈ s.db.reservations, r.idempotencyKey = .networkCalls id → r.status = .reconciled

/-- A row of a settled action is reconciled. -/
theorem reconciled_of_settled (hr : Reserved P s.db) (hc : Charged s.db) {a : ExternalAction}
    (ha : a ∈ s.db.actions) (hlast : a.status.last) (h : unsettled s a.id = false)
    {r : ResourceReservation} (hmem : r ∈ s.db.reservations)
    (hkey : r.idempotencyKey = .networkCalls a.id) : r.status = .reconciled := by
  rcases hc.network r hmem a.id hkey with ⟨hstatus, -⟩ | ⟨hstatus, -⟩
  · have : unsettled s a.id = true := by
      simp only [unsettled, Bool.and_eq_true, List.any_eq_true, decide_eq_true_eq]
      exact ⟨⟨a, ha, rfl, hlast⟩, r, hmem, (hr.network_iff hmem).2 hkey, hstatus⟩
    simp [h] at this
  · exact hstatus

theorem Settles.step (hs : Installed P s) (hc : Charged s.db) (h : Settles s)
    (hstep : InstallationStep P s l t) (hok : settlesTerminal s l) : Settles t := by
  have hmoves := hstep.actions hs
  have hkept : ∀ id, (∃ a ∈ s.db.actions, a.id = id ∧ a.status.last) →
      ∃ a ∈ t.db.actions, a.id = id ∧ a.status.last := by
    rintro id ⟨a, ha, rfl, hlast⟩
    obtain ⟨a', ha', hmove⟩ := hmoves.kept ha
    exact ⟨a', ha', hmove.id, hmove.keeps_last hlast⟩
  have hrows : ∀ id, (∃ a ∈ s.db.actions, a.id = id ∧ a.status.last) → ∀ r ∈ t.db.reservations,
      r.idempotencyKey = .networkCalls id →
        r.status = .reconciled ∨ r ∈ s.db.reservations ∧ l ≠ .settle id := by
    rintro id ⟨a, ha, rfl, hlast⟩ r hr hkey
    rcases (hstep.charges hs hc).row hs.reserved hc hr hkey with h | h | ⟨b, hb, hid, hstatus⟩
    · exact Or.inl h
    · exact Or.inr h
    · obtain rfl := hs.actions.eq hb ha hid
      simp [hstatus, ExternalActionStatus.last] at hlast
  obtain ⟨hstarted, hfinished⟩ := hstep.passes
  refine ⟨fun a' ha' hlast' r hr hkey => ?_, fun p hp id hid => hkept id ?_, fun id hid => ?_⟩
  · rcases hmoves.mem ha' with ⟨a, ha, hmove⟩ | ⟨hproposed, -⟩
    · rcases hmove.last hlast' with hlast | ⟨result, rfl, hresult⟩
      · rw [hmove.id] at hkey ⊢
        rcases hrows a.id ⟨a, ha, rfl, hlast⟩ r hr hkey with hdone | ⟨hold, hne⟩
        · exact Or.inl hdone
        rcases h.due a ha hlast r hold hkey with hdone | hpos
        · exact Or.inl hdone
        rcases hstep.settling a.id with hle | heq | ⟨rfl, hone⟩
        · exact Or.inr (hpos.trans_le hle)
        · exact absurd heq hne
        · -- the call stops : the row is settled, or another call settles it
          simp only [settlesTerminal, Bool.or_eq_true, Bool.not_eq_true', decide_eq_true_eq] at hok
          rcases hok with hsettled | htwo
          · exact Or.inl (reconciled_of_settled hs.reserved hc ha hlast hsettled hold hkey)
          · exact Or.inr (by omega)
      · rw [hmove.id]
        exact Or.inr (hstep.settling_persist hresult)
    · rw [← hproposed] at hlast'
      simp [ExternalAction.asProposed, ExternalActionStatus.last] at hlast'
  · rcases hstarted p hp with heq | ⟨q, hq, heq⟩
    · rw [heq] at hid
      obtain ⟨a, ha, rfl⟩ := List.mem_map.1 hid
      exact ⟨a, (List.mem_filter.1 ha).1, rfl, (List.mem_filter.1 ha).2⟩
    · exact h.passes q hq id (heq ▸ hid)
  · rcases hfinished id hid with hold | ⟨p, hp, hterminal, rfl⟩
    · obtain ⟨hlast, hdone⟩ := h.recovered id hold
      refine ⟨hkept id hlast, fun r hr hkey => ?_⟩
      rcases hrows id hlast r hr hkey with hdone' | ⟨hr', -⟩
      · exact hdone'
      · exact hdone r hr' hkey
    · obtain ⟨a, ha, rfl, hlast⟩ := h.passes p hp id hterminal
      refine ⟨hkept a.id ⟨a, ha, rfl, hlast⟩, fun r hr hkey => ?_⟩
      rcases hrows a.id ⟨a, ha, rfl, hlast⟩ r hr hkey with hdone | ⟨hold, -⟩
      · exact hdone
      have hpass := List.all_eq_true.1 hok a.id hterminal
      simp only [Bool.or_eq_true, Bool.not_eq_true', decide_eq_true_eq] at hpass
      rcases hpass with hsettled | hnone
      · exact reconciled_of_settled hs.reserved hc ha hlast hsettled hold hkey
      · exact (h.due a ha hlast r hold hkey).resolve_right (by omega)

theorem reachable_settles (h : (settlingRuns P).Reachable s) : Settles s := by
  refine h.invariant_of (fun s (hs : InitialInstallation P s) => ?_) fun s l t hr hsettles hst => ?_
  · exact ⟨by simp [hs.state.actions], by simp [hs.reconciling], by simp [hs.recovered]⟩
  · exact hsettles.step (reachable_installed hr.of_restrict) (reachable_charged hr.of_restrict)
      hst.1 hst.2

/-- The network call of an action is charged once : the rows of its request are reconciled, and the
ledger has one row of the request. -/
def ChargedOnce (s : Installation) (actionId : Uuid) : Prop :=
  ∀ r ∈ s.db.reservations, r.externalActionId = some actionId →
    (∀ r' ∈ s.db.reservations, r'.requestId = r.requestId → r'.status = .reconciled) ∧
      (s.db.charges r.requestId).length = 1

theorem charged_once (h : (settlingRuns P).Reachable s) :
    ∀ actionId ∈ s.recovered, ChargedOnce s actionId := by
  intro actionId hrecovered r hr haction
  have hs := reachable_installed h.of_restrict
  have hc := reachable_charged h.of_restrict
  have hkey := (hs.reserved.network_iff hr).1 haction
  have hdone := ((reachable_settles h).recovered actionId hrecovered).2
  refine ⟨fun r' hr' hid => ?_, ?_⟩
  · exact hdone r' hr' (((hs.reserved.request r' hr' r hr).1 hid).trans hkey)
  · rcases hc.network r hr actionId hkey with ⟨hstatus, -⟩ | ⟨-, hone⟩
    · simp [hdone r hr hkey] at hstatus
    · exact hone

/-- The dispatch fails, and its call is about to settle. -/
def shopFailed : List InstallationAction :=
  shopDispatched ++ [.answer 0 ⟨.failed, .null⟩, .persist 0]

/-- A pass that finds nothing to reconcile. -/
def shopPass : List InstallationAction :=
  [.startPass 0 100, .finishPass 0]

theorem charged_once_shop : ∃ s,
    performs shopPlatform settlesTerminal (shop [shopBudget 10 "network_calls" 5])
        (shopFailed ++ .settle 0 :: shopPass) = some s ∧
      s.recovered = [1014] ∧ s.db.reservations.map (·.externalActionId) = [some 1014] ∧
        ChargedOnce s 1014 := by
  have hsome : (performs shopPlatform settlesTerminal (shop [shopBudget 10 "network_calls" 5])
      (shopFailed ++ .settle 0 :: shopPass)).map
        (fun s => (s.recovered, s.db.reservations.map (·.externalActionId))) =
      some ([1014], [some 1014]) := rfl
  obtain ⟨s, hs, hpair⟩ := Option.map_eq_some_iff.1 hsome
  obtain ⟨hrecovered, hrows⟩ := Prod.mk.inj hpair
  refine ⟨s, hs, hrecovered, hrows, charged_once (P := shopPlatform) ?_ 1014 (by simp [hrecovered])⟩
  exact performs_reachable (shop_initial (by simp [shopBudget]) (by decide) (by decide)) hs

/-- The process stops after it has stored that the dispatch failed. The pass after that finds
nothing, and the reservation is never settled. -/
theorem charge_lost : ∃ s, (installation shopPlatform).Reachable s ∧
    ∃ actionId ∈ s.recovered, ¬ChargedOnce s actionId := by
  have hsome : (performs shopPlatform (fun _ _ => true) (shop [shopBudget 10 "network_calls" 5])
      (shopFailed ++ .stop 0 :: shopPass)).map
        (fun s => (s.recovered, s.db.reservations.map fun r => (r.externalActionId, r.status))) =
      some ([1014], [(some 1014, .reserved)]) := rfl
  obtain ⟨s, hs, hpair⟩ := Option.map_eq_some_iff.1 hsome
  obtain ⟨hrecovered, hrows⟩ := Prod.mk.inj hpair
  refine ⟨s, (performs_reachable (shop_initial (by simp [shopBudget]) (by decide) (by decide)) hs).of_restrict,
    1014, by simp [hrecovered], fun hcharged => ?_⟩
  obtain ⟨r, hr, heq⟩ : ∃ r ∈ s.db.reservations, (r.externalActionId, r.status) =
      (some 1014, .reserved) := List.mem_map.1 (hrows ▸ List.mem_singleton_self _)
  obtain ⟨haction, hstatus⟩ := Prod.mk.inj heq
  simp [(hcharged r hr haction).1 r hr rfl] at hstatus

end FactoryFloor
