import FactoryFloor.WorkerRefines

/-!
# The invariant of the runtime

`Sound` holds of every reachable state : the work is coherent, what is published is of a committed
submission, the foreign keys of the catalog hold, and a recovery pass still has every attempt to
recover that expired before its clock. `Step.effect` says what one step of the runtime does : it
refines steps of the work, and it is quiet or a commit.

A pass releases orphaned deliveries after it has recovered every expired attempt, and no lease is
given that expires before the clock of a pass, so there are none.
-/

namespace FactoryFloor

open Relational Transition

variable {P : Platform} {placed : GroupKey → Prop} {allow : Work → List Delivery → Prop}
variable {late : Time → Prop} {db db' : Db} {now : Time}

/-! ## Regions and catalog -/

/-- What no step changes of a region. -/
def Region.key (r : Region) : Uuid × Option Uuid × Option Uuid :=
  (r.id, r.parentRegionId, r.activeTopologyRevisionId)

theorem Work.Step.regionKeys {w w' : Work} (h : Work.Step P placed allow late w w') :
    w'.regions.map Region.key = w.regions.map Region.key := by
  cases h with
  | moveRegions hf => exact map_updateWhere _ (fun r => by simp [Region.key, hf.id, hf.parent, hf.active]) _
  | _ => rfl

theorem Refines.regionKeys (h : Refines P placed allow late db db') :
    db'.regions.map Region.key = db.regions.map Region.key := by
  have hrun : ∀ w, Relation.ReflTransGen (Work.Step P placed allow late) db.work w →
      w.regions.map Region.key = db.work.regions.map Region.key := by
    intro w hsteps
    induction hsteps with
    | refl => rfl
    | tail _ hs ih => exact hs.regionKeys.trans ih
  exact hrun _ h.steps

/-- The regions correspond by their keys. -/
theorem exists_region_of_keys (h : db'.regions.map Region.key = db.regions.map Region.key)
    {r : Region} (hr : r ∈ db.regions) : ∃ r' ∈ db'.regions, r'.key = r.key :=
  List.mem_map.1 (h ▸ List.mem_map_of_mem hr)

theorem ancestors_congr (h : db'.regions.map Region.key = db.regions.map Region.key) (id : Uuid) :
    db'.ancestors id = db.ancestors id := by
  have hregion : ∀ id, (db'.region? id).map Region.key = (db.region? id).map Region.key := by
    intro id
    have hfind : ∀ rs : List Region, (rs.find? (·.id = id)).map Region.key =
        (rs.map Region.key).find? (·.1 = id) := fun rs => by
      rw [List.find?_map]
      rfl
    rw [Db.region?, Db.region?, hfind, hfind, h]
  have hparent : ∀ id, (db'.region? id).map (·.parentRegionId) =
      (db.region? id).map (·.parentRegionId) := fun id => by
    simpa [Region.key, Function.comp_def] using congrArg (Option.map (·.2.1)) (hregion id)
  have hup : ∀ n id, db'.ancestorsUpTo n id = db.ancestorsUpTo n id := by
    intro n
    induction n with
    | zero => exact fun _ => rfl
    | succ n ih =>
      intro id
      have := hparent id
      unfold Db.ancestorsUpTo
      cases hr' : db'.region? id <;> cases hr : db.region? id <;> simp_all
  have hlength : db'.regions.length = db.regions.length := by
    simpa using congrArg List.length h
  rw [Db.ancestors, Db.ancestors, hlength, hup]

theorem WellFormed.congr (hw : WellFormed db) (hcatalog : db'.toCatalog = db.toCatalog)
    (hbudgets : Keyed (·.id) db'.budgets)
    (hkeys : db'.regions.map Region.key = db.regions.map Region.key) : WellFormed db' := by
  have hback : ∀ r' ∈ db'.regions, ∃ r ∈ db.regions, r.id = r'.id ∧
      r.activeTopologyRevisionId = r'.activeTopologyRevisionId := by
    intro r' hr'
    obtain ⟨r, hr, hkey⟩ := exists_region_of_keys hkeys.symm hr'
    simp only [Region.key, Prod.mk.injEq] at hkey
    exact ⟨r, hr, hkey.1, hkey.2.2⟩
  refine ⟨?_, by rw [hcatalog]; exact hw.components, hbudgets, ?_, ?_, ?_, ?_, ?_, by rw [hcatalog]; exact hw.revisions⟩
  · have hids := congrArg (List.map Prod.fst) hkeys
    simp only [List.map_map, Function.comp_def] at hids
    have hk := hw.regions
    unfold Keyed at hk ⊢
    rwa [show db'.regions.map (·.id) = db.regions.map (·.id) from hids]
  · intro r' hr'
    obtain ⟨r, hr, hid, -⟩ := hback r' hr'
    rw [ancestors_congr hkeys, ← hid]
    exact hw.ancestors r hr
  · intro v hv
    rw [hcatalog] at hv
    obtain ⟨r, hr, hid⟩ := hw.revision v hv
    obtain ⟨r', hr', hkey⟩ := exists_region_of_keys hkeys hr
    exact ⟨r', hr', (congrArg Prod.fst hkey).trans hid⟩
  · intro c hc
    rw [hcatalog] at hc ⊢
    exact hw.component c hc
  · intro r' hr' v hv hactive
    rw [hcatalog] at hv
    obtain ⟨r, hr, hid, hsame⟩ := hback r' hr'
    exact hid ▸ hw.active r hr v hv (hsame.trans hactive)
  · intro k hk
    rw [hcatalog] at hk ⊢
    exact hw.connection k hk

/-! ## Placed groups -/

/-- A group whose region, revision and component instance are there. -/
def Db.Placed (db : Db) (g : GroupKey) : Prop :=
  (∃ r ∈ db.regions, r.id = g.regionId) ∧ (∃ v ∈ db.revisions, v.id = g.topologyRevisionId) ∧
    ∃ c ∈ db.components, c.id = g.targetComponentInstanceId ∧
      c.topologyRevisionId = g.topologyRevisionId

theorem Db.placed_congr (hcatalog : db'.toCatalog = db.toCatalog)
    (hkeys : db'.regions.map Region.key = db.regions.map Region.key) : db'.Placed = db.Placed := by
  have hids : db'.regions.map (·.id) = db.regions.map (·.id) := by
    simpa [Function.comp_def, Region.key] using congrArg (List.map Prod.fst) hkeys
  funext g
  have hregion : (∃ r ∈ db'.regions, r.id = g.regionId) ↔ ∃ r ∈ db.regions, r.id = g.regionId := by
    rw [← List.mem_map, ← List.mem_map, hids]
  simp only [Db.Placed, hregion, hcatalog]

/-- The connections of an execution's revision lead to groups that are placed. -/
theorem connectionsPlaced (hw : Work.Coherent P db.Placed db.work) (hf : WellFormed db) :
    ConnectionsPlaced db.Placed db := by
  intro e he k hk hrevision g hregion hgrevision htarget
  obtain ⟨i, hi, hie, hid⟩ := hw.trigger e he
  obtain ⟨d, hd, hdi, -⟩ := hw.inputDelivery i hi
  obtain ⟨c, hgroup⟩ := hw.group e he
  have hdgroup := hgroup d hd ⟨i, hi, hie, hdi.symm⟩
  obtain ⟨⟨r, hr, hrid⟩, ⟨v, hv, hvid⟩, -⟩ := hw.deliveryPlaced d hd
  rw [hdgroup] at hrid hvid
  obtain ⟨c, hc, hcid, hcv⟩ := hf.connection k hk
  exact ⟨⟨r, hr, hrid.trans hregion.symm⟩, ⟨v, hv, hvid.trans hgrevision.symm⟩, c, hc,
    hcid.trans htarget.symm, hcv.trans (hrevision.trans hgrevision.symm)⟩

/-! ## Expired attempts -/

/-- An attempt that has expired by a time had its lease before, if later leases expire later. -/
theorem Work.Step.expired {w w' : Work} (h : Work.Step P placed allow late w w')
    (hlate : ∀ t, late t → now < t) :
    ∀ a' ∈ w'.attempts, expired now a' → ∃ a ∈ w.attempts, a.id = a'.id ∧ expired now a := by
  have hsame : ∀ a' ∈ w.attempts, FactoryFloor.expired now a' →
      ∃ a ∈ w.attempts, a.id = a'.id ∧ FactoryFloor.expired now a := fun a ha he => ⟨a, ha, rfl, he⟩
  have hupdate : ∀ {p : ExecutionAttempt → Bool} {f : ExecutionAttempt → ExecutionAttempt},
      (∀ a, FactoryFloor.expired now (f a) = false) → ∀ a' ∈ updateWhere p f w.attempts,
      FactoryFloor.expired now a' → ∃ a ∈ w.attempts, a.id = a'.id ∧ FactoryFloor.expired now a := by
    intro p f hf a' ha' he
    obtain ⟨a, ha, rfl⟩ := mem_updateWhere.1 ha'
    split at he
    · simp [hf a] at he
    · rename_i hp
      exact ⟨a, ha, by simp [hp], he⟩
  have hclosed : ∀ status t failure a,
      FactoryFloor.expired now (closeAttempt status t failure a) = false := fun _ _ _ _ => by
    simp [FactoryFloor.expired, closeAttempt]
  cases h with
  | draw | route | putOff | moveRegions => exact hsame
  | @start group selected region execution attempt lease inputs n hn hallow hselects hregion hgroup
      hexecution hexecutionId hattempt hattemptId htoken hl =>
    intro a' ha' he
    rcases List.mem_append.1 ha' with ha' | ha'
    · exact hsame a' ha' he
    · obtain rfl := List.mem_singleton.1 ha'
      simp only [FactoryFloor.expired, Bool.and_eq_true, hattempt.2.2.2.1, Option.any_some,
        decide_eq_true_eq] at he
      exact absurd (hlate _ hl) (not_lt.2 he.2)
  | resume hn hselects hexecution hattempt htoken hl =>
    have := not_le.2 (hlate _ hl)
    exact hupdate fun a => by simp [FactoryFloor.expired, ExecutionAttempt.under, this]
  | extend hattempt hl =>
    have := not_le.2 (hlate _ hl)
    refine hupdate fun a => ?_
    cases hlease : a.lease <;> simp [FactoryFloor.expired, extendLease, hlease, this]
  | @retry attempt next execution status t failure p f n hn hattempt hstatus hexecution hnext =>
    intro a' ha' he
    rcases List.mem_append.1 ha' with ha' | ha'
    · exact hupdate (hclosed _ _ _) a' ha' he
    · obtain rfl := List.mem_singleton.1 ha'
      simp [FactoryFloor.expired, hnext.2.2.2.1] at he
  | close => exact hupdate (hclosed _ _ _)
  | cancel => exact hupdate (hclosed _ _ _)

theorem Refines.expired (h : Refines P placed allow late db db') (hlate : ∀ t, late t → now < t) :
    ∀ a' ∈ db'.attempts, expired now a' → ∃ a ∈ db.attempts, a.id = a'.id ∧ expired now a := by
  have hrun : ∀ w, Relation.ReflTransGen (Work.Step P placed allow late) db.work w →
      ∀ a' ∈ w.attempts, FactoryFloor.expired now a' →
        ∃ a ∈ db.work.attempts, a.id = a'.id ∧ FactoryFloor.expired now a := by
    intro w hsteps
    induction hsteps with
    | refl => exact fun a ha he => ⟨a, ha, rfl, he⟩
    | tail _ hs ih =>
      intro a' ha' he
      obtain ⟨a, ha, hid, he⟩ := hs.expired hlate a' ha' he
      obtain ⟨a₀, ha₀, hid₀, he₀⟩ := ih a ha he
      exact ⟨a₀, ha₀, hid₀.trans hid, he₀⟩
  exact hrun _ h.steps

/-- An attempt is not expired after its recovery. -/
theorem recoverExpired_done (hk : Keyed (·.id) db.attempts) {attemptId : Uuid}
    {recovered : RecoveredAttempt} (h : recoverExpired P now attemptId db = .ok (recovered, db')) :
    ∀ a ∈ db'.attempts, a.id = attemptId → ¬expired now a := by
  unfold recoverExpired at h
  split at h
  · rename_i hnone
    obtain ⟨-, rfl⟩ := Prod.mk.inj (Except.ok.inj h)
    rintro a ha rfl
    rw [Db.attempt?, hk.find?_eq_some ha] at hnone
    simpa using hnone
  · rename_i attempt hattempt
    obtain ⟨execution, -, h⟩ := Except.bind_eq_ok.1 h
    obtain ⟨region, -, h⟩ := Except.bind_eq_ok.1 h
    have hid : attempt.id = attemptId := (mem_of_find?_key (Option.filter_eq_some_iff.1 hattempt).1).2
    unfold recoverAttempt at h
    obtain ⟨db₁, h₁, h⟩ := Except.bind_eq_ok.1 h
    obtain ⟨rfl, -⟩ := (updateAttempts_eq_ok_of_closed fun _ => rfl).1 h₁
    have hclosed : ∀ a ∈ updateWhere (·.id = attempt.id) (closeAttempt .abandoned now none) db.attempts,
        a.id = attemptId → ¬expired now a := by
      intro a ha haid
      obtain ⟨b, -, rfl⟩ := mem_updateWhere.1 ha
      split
      · simp [expired, closeAttempt]
      · rename_i hne
        simp only [hne] at haid
        exact absurd (haid.trans hid.symm) (by simpa using hne)
    dsimp only at h
    split at h
    · obtain ⟨db₂, h₂, h⟩ := Except.bind_eq_ok.1 h
      obtain ⟨db₃, h₃, h⟩ := Except.bind_eq_ok.1 h
      obtain ⟨-, rfl⟩ := Prod.mk.inj (Except.ok.inj h)
      obtain ⟨rfl, -⟩ := updateDeliveries_eq_ok.1 h₃
      unfold insertNextAttempt at h₂
      obtain ⟨attempts, hinsert, h₂⟩ := Except.bind_eq_ok.1 h₂
      obtain rfl := Except.ok.inj h₂
      rcases insertOrIgnore_eq_ok (sql_eq_ok.1 hinsert) with ⟨rfl, -⟩ | ⟨rfl, -, -⟩
      · exact hclosed
      · intro a ha
        rcases List.mem_append.1 ha with ha | ha
        · exact hclosed a ha
        · intro _
          rw [List.mem_singleton.1 ha]
          simp [expired, nextAttempt, AttemptStatus.active]
    · split at h
      · obtain ⟨db₂, h₂, h⟩ := Except.bind_eq_ok.1 h
        obtain ⟨db₃, h₃, h⟩ := Except.bind_eq_ok.1 h
        obtain ⟨-, rfl⟩ := Prod.mk.inj (Except.ok.inj h)
        obtain ⟨rfl, -⟩ := updateExecutions_eq_ok.1 h₂
        obtain ⟨rfl, -⟩ := updateDeliveries_eq_ok.1 h₃
        exact hclosed
      · obtain ⟨-, rfl⟩ := Prod.mk.inj (Except.ok.inj h)
        exact hclosed

/-! ## The invariant -/

/-- The invariant of the runtime. -/
structure Sound (P : Platform) (s : State) : Prop where
  coherent : Work.Coherent P s.db.Placed s.db.work
  backed : Backed s.db
  wellFormed : WellFormed s.db
  passes : ∀ p ∈ s.passes, p.now ≤ s.now ∧ ∀ a ∈ s.db.attempts, expired p.now a → a.id ∈ p.remaining

theorem Initial.sound {s : State} (h : Initial P s) : Sound P s := by
  refine ⟨⟨⟨?_, ?_, ?_, ?_, ?_, ?_, ?_, ?_, ?_, ?_, ?_, ?_, ?_⟩, ⟨?_, ?_, ?_, ?_, ?_, ?_, ?_, ?_, ?_⟩,
    h.wellFormed.regions⟩, ⟨h.artifacts.1, ?_, ?_, ?_, ?_, ?_, ?_⟩, h.wellFormed, ?_⟩
  all_goals simp [Db.work, Sourced, Keyed, h.deliveries, h.executions, h.inputs, h.attempts,
    h.submissions, h.outputs, h.events, h.actions, h.ledger, h.passes]

/-- Whether a poll may start the execution it leases, if it starts one. -/
def Allows (P : Platform) (allow : Work → List Delivery → Prop) (s : State) (l : Label) : Prop :=
  ∀ options acquired, l = .lease options acquired →
    ∀ c db, LeasesAt P s.now options acquired c s.db db →
      ∀ selected, db.Starts s.now c selected → allow db.work selected

/-- What one step of the runtime does. -/
structure Effect (P : Platform) (allow : Work → List Delivery → Prop) (s : State) (l : Label)
    (t : State) : Prop where
  refines : Refines P s.db.Placed allow (s.now < ·) s.db t.db
  publishes : Quiet P s.db t.db ∨ ∃ env result submissionDigest disposition locked db₁ db₂,
    l = .commit env result submissionDigest ∧ CommitEnv.of env s ∧
    Commits P env result submissionDigest disposition locked s.db db₁ db₂ t.db

variable {s t : State} {l : Label}

theorem Effect.unchanged (h : t.db = s.db) : Effect P allow s l t :=
  ⟨h ▸ Refines.refl, Or.inl (h ▸ Quiet.refl)⟩

theorem Effect.schedules (h : Schedules P allow (s.now < ·) s.db t.db) : Effect P allow s l t :=
  ⟨h.refines, Or.inl (Quiet.of_schedules h)⟩

theorem Effect.aside (h : Aside P s.db t.db) : Effect P allow s l t :=
  ⟨h.refines, Or.inl h.quiet⟩

theorem lt_add_of_valid {ms : ℤ} (h : validLeaseDuration ms) (now : Time) : now < now + ms.toNat := by
  simp only [validLeaseDuration, Bool.and_eq_true, decide_eq_true_eq] at h
  have : 0 < ms.toNat := Int.lt_toNat.2 h.1
  exact Nat.lt_add_of_pos_right this

theorem Step.effect (hs : Sound P s) (hallow : Allows P allow s l)
    (h : Step P s l t) : Effect P allow s l t := by
  have hw := hs.coherent
  cases h with
  | tick | envelope | uploadBlob | read | recoverSubmission | reject | crashProcess | crashPass
  | scanExpired => exact Effect.unchanged rfl
  | submit hop =>
    rcases submit_eq_ok hop with rfl | ⟨command, hrecords⟩
    · exact Effect.unchanged rfl
    · refine ⟨hrecords.refines fun r hr v hv hactive c hc hcv _ => ?_, Or.inl hrecords.quiet⟩
      exact ⟨⟨r, hr, rfl⟩, ⟨v, hv, rfl⟩, c, hc, rfl, hcv⟩
  | @lease options acquired leased db hop =>
    exact Effect.schedules (leaseNextAttempt_schedules hw (fun _ hms => lt_add_of_valid hms _)
      (hallow options acquired rfl) hop)
  | heartbeat hduration hop =>
    exact Effect.schedules (heartbeat_schedules hw (lt_add_of_valid hduration _) hop)
  | stage hop => exact Effect.aside (stage_still hop).toAside
  | recordUpload hblob hop => exact Effect.aside (recordUpload_still hop).toAside
  | handoff hop => exact Effect.aside (handoff_still hop).toAside
  | @commit env result submissionDigest disposition db pre post henv hmem hop =>
    refine ⟨commitTx_refines hw hs.backed (connectionsPlaced hw hs.wellFormed) hop, ?_⟩
    rcases commitTx_eq_ok hop with ⟨-, rfl, -⟩ | ⟨locked, db₁, db₂, hc⟩
    · exact Or.inl Quiet.refl
    · exact Or.inr ⟨env, result, submissionDigest, disposition, locked, db₁, db₂, rfl, henv, hc⟩
  | delete hmem => exact Effect.aside (deleteSubmission_still _ _ _).toAside
  | recoverExpired hmem hop => exact Effect.schedules (recoverExpired_schedules hw hop)
  | @releaseOrphans now db pre post hmem hop =>
    have hnone : ∀ a ∈ s.db.attempts, ¬expired now a := fun a ha he => by
      simpa using (hs.passes { now, remaining := [] } (by simp [hmem])).2 a ha he
    exact Effect.unchanged (releaseOrphans_eq_self hw hnone hop)
  | settle hop => exact Effect.schedules (settleCancelling_schedules hw hop)
  | cancelRun hop =>
    obtain ⟨hrefines, hquiet⟩ := cancelRun_refines hw hop
    exact ⟨hrefines, Or.inl hquiet⟩
  | requestCancellation => exact Effect.schedules (requestCancellation_schedules _ _ _)
  | maintain hop => exact Effect.aside (maintain_aside hop)

theorem Effect.placed_eq (h : Effect P allow s l t) : t.db.Placed = s.db.Placed :=
  Db.placed_congr h.refines.catalog h.refines.regionKeys

theorem Effect.backed (hs : Sound P s) (h : Effect P allow s l t) : Backed t.db := by
  rcases h.publishes with hquiet | ⟨env, result, submissionDigest, disposition, locked, db₁, db₂, -, -, hc⟩
  · exact hquiet.backed hs.backed
  · exact hc.backed hs.coherent hs.backed (connectionsPlaced hs.coherent hs.wellFormed)

/-- Every condition on polls allows this one. -/
theorem allows_of_forall (h : ∀ w selected, allow w selected) : Allows P allow s l :=
  fun _ _ _ _ _ _ _ _ => h _ _

/-- What a step of the runtime does, with no condition on polls. -/
theorem Step.anyEffect (hs : Sound P s) (h : Step P s l t) : Effect P (fun _ _ => True) s l t :=
  h.effect hs (allows_of_forall fun _ _ => trivial)

theorem Sound.step (hs : Sound P s) (h : Step P s l t) : Sound P t := by
  have heffect := h.anyEffect hs
  have hrefines := heffect.refines
  refine ⟨?_, heffect.backed hs, hs.wellFormed.congr hrefines.catalog
    (by rw [hrefines.budgets]; exact hs.wellFormed.budgets) hrefines.regionKeys, ?_⟩
  · rw [heffect.placed_eq]
    exact hrefines.coherent hs.coherent
  · have hkeep : ∀ p ∈ s.passes, p.now ≤ s.now ∧ ∀ a ∈ t.db.attempts, expired p.now a →
        a.id ∈ p.remaining := by
      intro p hp
      obtain ⟨hnow, hall⟩ := hs.passes p hp
      refine ⟨hnow, fun a' ha' he => ?_⟩
      obtain ⟨a, ha, hid, he⟩ := hrefines.expired (fun _ ht => hnow.trans_lt ht) a' ha' he
      exact hid ▸ hall a ha he
    cases h with
    | tick hnow => exact fun p hp => ⟨(hkeep p hp).1.trans hnow, (hkeep p hp).2⟩
    | @crashPass pass pre post hmem | @releaseOrphans now db pre post hmem hop =>
      intro p hp
      refine hkeep p (hmem ▸ ?_)
      rcases List.mem_append.1 hp with hp | hp
      · exact List.mem_append_left _ hp
      · exact List.mem_append_right _ (List.mem_cons_of_mem _ hp)
    | @scanExpired now hnow =>
      intro p hp
      rcases List.mem_cons.1 hp with rfl | hp
      · refine ⟨hnow, fun a ha he => ?_⟩
        rw [expiredAttemptIds, (List.perm_insertionSort _ _).mem_iff]
        exact List.mem_map_of_mem (List.mem_filter.2 ⟨ha, he⟩)
      · exact hkeep p hp
    | @recoverExpired now attemptId remaining recovered db pre post hmem hop =>
      intro p hp
      have hold : ∀ p ∈ pre ++ post, p ∈ s.passes := fun p hp => by
        rw [hmem]
        rcases List.mem_append.1 hp with hp | hp
        · exact List.mem_append_left _ hp
        · exact List.mem_append_right _ (List.mem_cons_of_mem _ hp)
      rcases List.mem_append.1 hp with hp | hp
      · exact hkeep p (hold p (List.mem_append_left _ hp))
      rcases List.mem_cons.1 hp with rfl | hp
      · obtain ⟨hnow, hall⟩ := hkeep { now, remaining := attemptId :: remaining } (by simp [hmem])
        refine ⟨hnow, fun a ha he => ?_⟩
        rcases List.mem_cons.1 (hall a ha he) with hid | hid
        · exact absurd he (recoverExpired_done hs.coherent.attemptsKeyed hop a ha hid)
        · exact hid
      · exact hkeep p (hold p (List.mem_append_right _ hp))
    | _ => exact hkeep

/-- Every reachable state is sound. -/
theorem reachable_sound (h : (runtime P).Reachable s) : Sound P s :=
  h.invariant (fun _ hinit => Initial.sound hinit) fun s l t hs (hst : Step P s l t) => hs.step hst

end FactoryFloor
