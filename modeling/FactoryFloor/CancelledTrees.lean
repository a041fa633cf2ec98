import FactoryFloor.Leasing
import FactoryFloor.Persistence

/-!
# Cancelled regions and their subtrees

A recovery pass ends by settling the regions that are being cancelled, one transaction for each. It
may find any reachable state there, whatever its own commits and recoveries and other calls have
done. `forEach_settle` is the effect of that loop : a region that was cancelling is cancelled in its
next epoch and nothing of it runs or waits, and all others are left as they were.

So nothing reaches the regions below a cancelling one. `cancellation_covers_iff` says when the subtree
is cancelled with it : when each region below has been asked to cancel too, or had been cancelled and
has nothing left.
-/

namespace FactoryFloor

open Relational Transition

variable {P : Platform} {s t u : State} {db db' : Db} {now : Time}

/-! ## Settling a region -/

/-- A region after it is settled. -/
def Region.settled (r : Region) : Region :=
  { r with lifecycleStatus := .cancelled, lifecycleEpoch := r.lifecycleEpoch + 1 }

/-- Nothing of a region runs or waits. -/
structure Idle (db : Db) (regionId : Uuid) : Prop where
  executions : ∀ e ∈ db.executions, e.regionId = regionId → e.status ≠ .running
  deliveries : ∀ d ∈ db.deliveries, d.regionId = regionId → d.status ≠ .ready ∧ d.status ≠ .leased

/-- The rows of a region's work. -/
def workIn (db : Db) (regionId : Uuid) : List Execution × List Delivery :=
  (db.executions.filter (·.regionId = regionId), db.deliveries.filter (·.regionId = regionId))

theorem Idle.congr {regionId : Uuid} (h : Idle db regionId)
    (hwork : workIn db' regionId = workIn db regionId) : Idle db' regionId := by
  obtain ⟨hexecutions, hdeliveries⟩ := Prod.mk.inj hwork
  refine ⟨fun e he hid => ?_, fun d hd hid => ?_⟩
  · have hmem : e ∈ db'.executions.filter (·.regionId = regionId) :=
      List.mem_filter.2 ⟨he, by simpa using hid⟩
    exact h.executions e (List.mem_filter.1 (hexecutions ▸ hmem)).1 hid
  · have hmem : d ∈ db'.deliveries.filter (·.regionId = regionId) :=
      List.mem_filter.2 ⟨hd, by simpa using hid⟩
    exact h.deliveries d (List.mem_filter.1 (hdeliveries ▸ hmem)).1 hid

/-- What settling some regions does. -/
structure StopsRegions (ids : List Uuid) (db db' : Db) : Prop where
  regions : ∀ r', r' ∈ db'.regions ↔ ∃ r ∈ db.regions,
    r' = if r.id ∈ ids ∧ r.lifecycleStatus = .cancelling then r.settled else r
  idle : ∀ r ∈ db.regions, r.id ∈ ids → r.lifecycleStatus = .cancelling → Idle db' r.id
  others : ∀ id, (∀ r ∈ db.regions, r.id = id → id ∈ ids → r.lifecycleStatus ≠ .cancelling) →
    workIn db' id = workIn db id

theorem settleCancelling_stops (hkeyed : Keyed (·.id) db.regions) {regionId : Uuid}
    (h : settleCancelling now regionId db = .ok db') : StopsRegions [regionId] db db' := by
  unfold settleCancelling at h
  split at h
  · rename_i hnone
    obtain rfl := Except.ok.inj h
    have hnot : ∀ r ∈ db.regions, r.id ∈ [regionId] → r.lifecycleStatus ≠ .cancelling := by
      intro r hr hid hcancelling
      rw [Db.region?, ← List.mem_singleton.1 hid, hkeyed.find?_eq_some hr] at hnone
      simp [hcancelling] at hnone
    refine ⟨fun r' => ?_, fun r hr hid hcancelling => absurd hcancelling (hnot r hr hid),
      fun _ _ => rfl⟩
    constructor
    · exact fun hr' => ⟨r', hr', by rw [if_neg fun h => hnot r' hr' h.1 h.2]⟩
    · rintro ⟨r, hr, rfl⟩
      rwa [if_neg fun h => hnot r hr h.1 h.2]
  · rename_i region hregion
    obtain ⟨hregion, hcancelling⟩ := Option.filter_eq_some_iff.1 hregion
    obtain ⟨hmem, rfl⟩ := mem_of_find?_key hregion
    have hcancelling : region.lifecycleStatus = .cancelling := by simpa using hcancelling
    obtain ⟨db₁, h₁, h⟩ := Except.bind_eq_ok.1 h
    obtain ⟨db₂, h₂, h⟩ := Except.bind_eq_ok.1 h
    obtain ⟨db₃, h₃, h⟩ := Except.bind_eq_ok.1 h
    obtain ⟨regions, h₄, h⟩ := Except.bind_eq_ok.1 h
    obtain rfl := Except.ok.inj h
    obtain ⟨rfl, -⟩ := (updateAttempts_eq_ok_of_closed fun _ => rfl).1 h₁
    obtain ⟨rfl, -⟩ := updateExecutions_eq_ok.1 h₂
    obtain ⟨rfl, -⟩ := updateDeliveries_eq_ok.1 h₃
    obtain ⟨rfl, -⟩ := update_eq_ok.1 (sql_eq_ok.1 h₄)
    refine ⟨fun r' => ?_, fun r hr hid _ => ?_, fun id hid => ?_⟩
    · simp only [mem_updateWhere, List.mem_singleton, decide_eq_true_eq]
      refine exists_congr fun r => and_congr_right fun hr => ?_
      by_cases hid : r.id = region.id
      · obtain rfl := hkeyed.eq hr hmem hid
        simp [hcancelling, Region.settled, eq_comm]
      · simp [hid, eq_comm]
    · rw [List.mem_singleton.1 hid]
      refine ⟨fun e' he' hin => ?_, fun d' hd' hin => ?_⟩
      · obtain ⟨e, -, rfl⟩ := mem_updateWhere.1 he'
        by_cases hrunning : e.regionId = region.id ∧ e.status = .running
        · simp [hrunning]
        · simp only [Bool.and_eq_true, decide_eq_true_eq, hrunning, if_false] at hin ⊢
          exact fun h => hrunning ⟨hin, h⟩
      · obtain ⟨d, -, rfl⟩ := mem_updateWhere.1 hd'
        by_cases hopen : d.regionId = region.id ∧ (d.status = .ready ∨ d.status = .leased)
        · simp [hopen]
        · simp only [Bool.and_eq_true, Bool.or_eq_true, decide_eq_true_eq, hopen, if_false]
            at hin ⊢
          exact ⟨fun h => hopen ⟨hin, Or.inl h⟩, fun h => hopen ⟨hin, Or.inr h⟩⟩
    · have hne : id ≠ region.id := fun heq =>
        hid region hmem heq.symm (List.mem_singleton.2 heq) hcancelling
      refine Prod.ext ?_ ?_
      · refine filter_updateWhere_of_not fun e _ hp => ?_
        simp only [Bool.and_eq_true, decide_eq_true_eq] at hp
        simp [hp.1, hne.symm]
      · refine filter_updateWhere_of_not fun d _ hp => ?_
        simp only [Bool.and_eq_true, decide_eq_true_eq] at hp
        simp [hp.1, hne.symm]

/-- Regions are settled one after the other. -/
theorem StopsRegions.cons {id : Uuid} {ids : List Uuid} {db₁ : Db} (h : StopsRegions [id] db db₁)
    (h' : StopsRegions ids db₁ db') : StopsRegions (id :: ids) db db' := by
  -- what is left to do in the second part is the work of regions that the first one left alone
  have hkept : ∀ r ∈ db.regions, r.id ∉ [id] ∨ r.lifecycleStatus ≠ .cancelling → r ∈ db₁.regions :=
    fun r hr hnot => (h.regions r).2 ⟨r, hr, by rw [if_neg fun hand => by tauto]⟩
  refine ⟨fun r' => ?_, fun r hr hid hcancelling => ?_, fun x hx => ?_⟩
  · rw [h'.regions]
    constructor
    · rintro ⟨r₁, hr₁, rfl⟩
      obtain ⟨r, hr, rfl⟩ := (h.regions r₁).1 hr₁
      refine ⟨r, hr, ?_⟩
      by_cases hcancelling : r.lifecycleStatus = .cancelling
      · by_cases hid : r.id = id
        · simp [hid, hcancelling, Region.settled]
        · simp [hid, hcancelling]
      · simp [hcancelling]
    · rintro ⟨r, hr, rfl⟩
      refine ⟨_, (h.regions _).2 ⟨r, hr, rfl⟩, ?_⟩
      by_cases hcancelling : r.lifecycleStatus = .cancelling
      · by_cases hid : r.id = id
        · simp [hid, hcancelling, Region.settled]
        · simp [hid, hcancelling]
      · simp [hcancelling]
  · by_cases hfirst : r.id = id
    · refine (h.idle r hr (List.mem_singleton.2 hfirst) hcancelling).congr (h'.others _ ?_)
      rintro r₁ hr₁ hid₁ -
      obtain ⟨r₀, hr₀, rfl⟩ := (h.regions r₁).1 hr₁
      by_cases hsettled : r₀.id ∈ [id] ∧ r₀.lifecycleStatus = .cancelling
      · simp [hsettled, Region.settled]
      · rw [if_neg hsettled] at hid₁ ⊢
        exact fun hc => hsettled ⟨List.mem_singleton.2 (hid₁.trans hfirst), hc⟩
    · have hrest : r.id ∈ ids := (List.mem_cons.1 hid).resolve_left hfirst
      exact h'.idle r (hkept r hr (Or.inl (by simpa using hfirst))) hrest hcancelling
  · rw [h'.others x ?_, h.others x fun r hr hid hmem => hx r hr hid ?_]
    · rw [List.mem_singleton.1 hmem]
      exact List.mem_cons_self
    · rintro r₁ hr₁ hid₁ hmem
      obtain ⟨r, hr, rfl⟩ := (h.regions r₁).1 hr₁
      by_cases hsettled : r.id ∈ [id] ∧ r.lifecycleStatus = .cancelling
      · simp [hsettled, Region.settled]
      · rw [if_neg hsettled] at hid₁ ⊢
        exact hx r hr hid₁ (List.mem_cons_of_mem _ hmem)

/-- The loop of a pass over some regions, with nothing in between its transactions. -/
theorem forEach_settle {ids : List Uuid} (hs : (runtime P).Reachable s)
    (h : forEach (settleCancelling now) ids s.db = (.ok (), db)) :
    (runtime P).Later s { s with db } ∧ StopsRegions ids s.db db := by
  induction ids generalizing s with
  | nil =>
    obtain ⟨-, rfl⟩ := Prod.mk.inj h
    refine ⟨.refl, fun r' => ?_, fun r _ hid => absurd hid List.not_mem_nil, fun _ _ => rfl⟩
    simp
  | cons id ids ih =>
    rw [forEach] at h
    split at h
    · rename_i db₁ hop
      have hstep : Step P s (.settle now id) { s with db := db₁ } := .settle hop
      obtain ⟨hlater, hstops⟩ := ih (s := { s with db := db₁ }) (hs.next hstep) h
      refine ⟨(System.Later.refl.next hstep).trans hlater, StopsRegions.cons ?_ hstops⟩
      exact settleCancelling_stops (reachable_sound hs).wellFormed.regions hop
    · simp at h

/-! ## Regions that have stopped -/

/-- A region that does not run. -/
def Halted (db : Db) (regionId : Uuid) : Prop :=
  ∀ r ∈ db.regions, r.id = regionId → r.lifecycleStatus ≠ .running

/-- No step makes a region run. -/
theorem Halted.later {regionId : Uuid} (hs : (runtime P).Reachable s) (h : Halted s.db regionId)
    (ht : (runtime P).Later s t) : Halted t.db regionId := by
  refine ht.preserves (P := fun u : State => Halted u.db regionId) ?_ hs h
  intro u l v hu hhalted hstep
  have hrefines := (Step.anyEffect (reachable_sound hu) hstep).refines
  refine Refines.invariant (I := fun w => ∀ r ∈ w.regions, r.id = regionId →
    r.lifecycleStatus ≠ .running) hrefines (fun w w' hw hwork => ?_) hhalted
  cases hwork with
  | moveRegions hf hstop hepoch =>
    rintro r' hr' hid
    obtain ⟨r, hr, rfl⟩ := mem_updateWhere.1 hr'
    split
    · exact hstop r
    · rename_i hnot
      rw [if_neg hnot] at hid
      exact hw r hr hid
  | _ => exact hw

/-- A lease and a commit need a running region. -/
structure NoWork (P : Platform) (regionId : Uuid) (u : State) : Prop where
  leases : ∀ options acquired leased db,
    leaseNextAttempt P u.now options acquired u.db = .ok (some leased, db) →
    ∀ e ∈ db.executions, e.id = leased.executionId → e.regionId ≠ regionId
  commits : ∀ env result submissionDigest disposition db,
    commitTx P env result submissionDigest u.db = .ok (disposition, db) →
    ∀ e ∈ u.db.executions, e.id = result.executionId → e.regionId = regionId → db = u.db

/-- The execution of a lease. -/
theorem leaseExecution_leased {owner : String} {expiresAt : Time} {group : GroupKey}
    {selected : List Delivery} {e : Execution} {created : Bool} {leased : LeasedExecutionAttempt}
    (h : leaseExecution P now owner expiresAt group selected e created db = .ok (some leased, db')) :
    leased.executionId = e.id ∧ db'.executions = db.executions := by
  unfold leaseExecution at h
  obtain ⟨⟨admission, db₁⟩, hreserve, h⟩ := Except.bind_eq_ok.1 h
  obtain ⟨reservations, m, hm, rfl⟩ := reserveInTransaction_frame hreserve
  dsimp only at h
  split at h
  · obtain ⟨db₂, -, h⟩ := Except.bind_eq_ok.1 h
    simp [pure, Except.pure] at h
  · obtain ⟨db₂, hinputs, h⟩ := Except.bind_eq_ok.1 h
    obtain ⟨inputs, rfl, -, -⟩ := insertInputs_eq_ok hinputs
    obtain ⟨⟨result, db₃⟩, hattempt, h⟩ := Except.bind_eq_ok.1 h
    cases result with
    | none =>
      obtain ⟨db₄, -, h⟩ := Except.bind_eq_ok.1 h
      simp [pure, Except.pure] at h
    | some a =>
      obtain ⟨db₄, hlease, h⟩ := Except.bind_eq_ok.1 h
      obtain ⟨l, -, h⟩ := Except.bind_eq_ok.1 h
      obtain ⟨hleased, rfl⟩ := Prod.mk.inj (Except.ok.inj h)
      obtain ⟨rfl, -⟩ := updateDeliveries_eq_ok.1 hlease
      refine ⟨by rw [← Option.some.inj hleased], ?_⟩
      rcases leaseAttempt_eq_ok hattempt with
        ⟨b, -, -, -, -, hupdate⟩ | ⟨hnone, -⟩ | ⟨-, b, -, -, -, -, -, -, -, rfl⟩
      · obtain ⟨deliveries, -, rfl, -⟩ := updateAttempts_eq_ok.1 hupdate
        rfl
      · simp at hnone
      · rfl

/-- What a poll leases is in a running region. -/
theorem tryCandidate_leased {owner : String} {expiresAt : Time} {acquired : GroupKey → Bool}
    {candidate : Delivery} {leased : LeasedExecutionAttempt}
    (h : tryCandidate P now owner expiresAt acquired candidate db = .ok (some leased, db')) :
    ∃ region ∈ db.regions, region.lifecycleStatus = .running ∧
      ∃ e ∈ db'.executions, e.id = leased.executionId ∧ e.regionId = region.id := by
  unfold tryCandidate at h
  dsimp only at h
  split at h
  · simp [pure, Except.pure] at h
  obtain ⟨region, hregion, h⟩ := Except.bind_eq_ok.1 h
  obtain ⟨hmem, hid⟩ := mem_of_find?_key (takeFirstOrThrow_eq_ok.1 hregion)
  split at h
  · obtain ⟨db₁, -, h⟩ := Except.bind_eq_ok.1 h
    simp [pure, Except.pure] at h
  rename_i hrunning
  obtain ⟨component, -, h⟩ := Except.bind_eq_ok.1 h
  obtain ⟨revision, -, h⟩ := Except.bind_eq_ok.1 h
  split at h
  · obtain ⟨db₁, -, h⟩ := Except.bind_eq_ok.1 h
    simp [pure, Except.pure] at h
  obtain ⟨⟨result, db₁⟩, hensure, hrest⟩ := Except.bind_eq_ok.1 h
  refine ⟨region, hmem, by simpa using hrunning, ?_⟩
  rcases ensureExecution_eq_ok hensure with
    ⟨rfl, rfl⟩ | ⟨e, he, rfl, rfl, -, hexec⟩ | ⟨e, rfl, rfl, hnew⟩
  · obtain ⟨db₂, -, hrest⟩ := Except.bind_eq_ok.1 hrest
    simp [pure, Except.pure] at hrest
  · obtain ⟨hleased, hexecutions⟩ := leaseExecution_leased hrest
    simp only [isExecutionOf, Bool.and_eq_true, decide_eq_true_eq] at hexec
    exact ⟨e, hexecutions ▸ he, hleased.symm, hexec.1.1.1.1.trans hid.symm⟩
  · obtain ⟨hleased, hexecutions⟩ := leaseExecution_leased hrest
    refine ⟨e, ?_, hleased.symm, ?_⟩
    · rw [hexecutions]
      exact List.mem_append_right _ (List.mem_singleton_self e)
    · exact (congrArg GroupKey.regionId (hnew.group candidate.correlationId)).trans hid.symm

theorem tryCandidates_leased {owner : String} {expiresAt : Time} {acquired : GroupKey → Bool}
    {cs : List Delivery} {placed : GroupKey → Prop} (hw : Work.Coherent P placed db.work)
    {leased : LeasedExecutionAttempt}
    (h : tryCandidates P now owner expiresAt acquired cs db = .ok (some leased, db')) :
    ∃ region ∈ db.regions, region.lifecycleStatus = .running ∧
      ∃ e ∈ db'.executions, e.id = leased.executionId ∧ e.regionId = region.id := by
  induction cs generalizing db with
  | nil => simp [tryCandidates] at h
  | cons c cs ih =>
    unfold tryCandidates at h
    obtain ⟨⟨result, db₁⟩, htry, h⟩ := Except.bind_eq_ok.1 h
    cases result with
    | none =>
      have hdeferred := tryCandidate_deferred hw htry
      have hschedules : Schedules P (fun _ _ => True) (fun _ => True) db db₁ := hdeferred.schedules
      obtain ⟨region, hregion, hrest⟩ := ih (hschedules.coherent hw) h
      exact ⟨region, hdeferred.putOff.regions ▸ hregion, hrest⟩
    | some l =>
      obtain ⟨hleased, rfl⟩ := Prod.mk.inj (Except.ok.inj h)
      obtain rfl := Option.some.inj hleased
      exact tryCandidate_leased htry

/-- A halted region has no work. -/
theorem Halted.noWork {regionId : Uuid} (hu : (runtime P).Reachable u)
    (h : Halted u.db regionId) : NoWork P regionId u := by
  have hsound := reachable_sound hu
  constructor
  · intro options acquired leased db hop e he hid hregion
    have hstep : Step P u (.lease options acquired)
        { u with db, claimed := (some leased).toList ++ u.claimed } := .lease hop
    have hkeyed := (reachable_sound (hu.next hstep)).coherent.executionsKeyed
    unfold leaseNextAttempt at hop
    obtain ⟨⟨⟩, -, hop⟩ := Except.bind_eq_ok.1 hop
    split at hop
    · simp [pure, Except.pure] at hop
    obtain ⟨region, hmem, hrunning, e', he', hid', hregion'⟩ :=
      tryCandidates_leased hsound.coherent hop
    obtain rfl := hkeyed.eq he' he (hid'.trans hid.symm)
    exact h region hmem (hregion'.symm.trans hregion) hrunning
  · intro env result submissionDigest disposition db hop e he hid hregion
    rcases commitTx_eq_ok hop with ⟨-, rfl, -⟩ | ⟨l, db₁, db₂, hc⟩
    · rfl
    · obtain ⟨hmem, hlid⟩ := mem_of_find?_key hc.authorized.execution
      obtain rfl := hsound.coherent.executionsKeyed.eq he hmem (hid.trans hlid.symm)
      obtain ⟨hr, hrid⟩ := mem_of_find?_key hc.authorized.region
      exact absurd hc.authorized.regionRunning (h _ hr (hrid.trans hregion))

/-! ## Subtrees -/

/-- A region that was not cancelled yet is cancelled in its next epoch, nothing of it is left, and
from then on none of its work is leased or committed. -/
structure Stopped (P : Platform) (r : Region) (t : State) : Prop where
  cancelled : ∃ r' ∈ t.db.regions, r'.id = r.id ∧ r'.lifecycleStatus = .cancelled ∧
    r'.lifecycleEpoch =
      if r.lifecycleStatus = .cancelled then r.lifecycleEpoch else r.lifecycleEpoch + 1
  idle : Idle t.db r.id
  noWork : ∀ u, (runtime P).Later t u → NoWork P r.id u

/-- The regions that were being cancelled have stopped, and so has each region below them. -/
def Covers (P : Platform) (s t : State) : Prop :=
  ∀ r ∈ s.db.regions, r.lifecycleStatus = .cancelling → Stopped P r t ∧
    ∀ d ∈ s.db.regions, r.id ∈ s.db.ancestors d.id → Stopped P d t

theorem mem_cancellingRegionIds {id : Uuid} : id ∈ cancellingRegionIds db ↔
    ∃ r ∈ db.regions, r.id = id ∧ r.lifecycleStatus = .cancelling := by
  rw [cancellingRegionIds, (List.perm_insertionSort _ _).mem_iff, List.mem_map]
  simp only [List.mem_filter, decide_eq_true_eq]
  exact exists_congr fun r => by tauto

/-- The pass settles the cancelling regions it finds. Regions below them are covered exactly when they
are being cancelled too, or are cancelled and idle. -/
theorem cancellation_covers_iff (hs : (runtime P).Reachable s)
    (hop : forEach (settleCancelling now) (cancellingRegionIds s.db) s.db = (.ok (), db)) :
    Covers P s { s with db } ↔ ∀ r ∈ s.db.regions, r.lifecycleStatus = .cancelling →
      ∀ d ∈ s.db.regions, r.id ∈ s.db.ancestors d.id →
        d.lifecycleStatus = .cancelling ∨ d.lifecycleStatus = .cancelled ∧ Idle s.db d.id := by
  obtain ⟨hlater, hstops⟩ := forEach_settle hs hop
  have ht := hs.later hlater
  have hkeyed := (reachable_sound ht).wellFormed.regions
  -- a cancelled region stays halted
  have hstopped : ∀ r : Region, ∀ r' ∈ db.regions, r'.id = r.id → r'.lifecycleStatus = .cancelled →
      (r'.lifecycleEpoch =
        if r.lifecycleStatus = .cancelled then r.lifecycleEpoch else r.lifecycleEpoch + 1) →
      Idle db r.id → Stopped P r { s with db } := by
    intro r r' hr' hid hcancelled hepoch hidle
    refine ⟨⟨r', hr', hid, hcancelled, hepoch⟩, hidle, fun u hu => ?_⟩
    refine Halted.noWork (ht.later hu) (Halted.later ht ?_ hu)
    intro x hx hxid
    obtain rfl := hkeyed.eq hx hr' (hxid.trans hid.symm)
    simp [hcancelled]
  have hsettled : ∀ r ∈ s.db.regions, r.lifecycleStatus = .cancelling → Stopped P r { s with db } := by
    intro r hr hcancelling
    have hmem : r.id ∈ cancellingRegionIds s.db := mem_cancellingRegionIds.2 ⟨r, hr, rfl, hcancelling⟩
    refine hstopped r r.settled ((hstops.regions _).2 ⟨r, hr, ?_⟩) rfl rfl ?_
      (hstops.idle r hr hmem hcancelling)
    · rw [if_pos ⟨hmem, hcancelling⟩]
    · simp [hcancelling, Region.settled]
  have hkept : ∀ d ∈ s.db.regions, d.lifecycleStatus ≠ .cancelling →
      d ∈ db.regions ∧ workIn db d.id = workIn s.db d.id := by
    intro d hd hnot
    refine ⟨(hstops.regions d).2 ⟨d, hd, by rw [if_neg fun h => hnot h.2]⟩, hstops.others _ ?_⟩
    intro x hx hxid _
    rwa [(reachable_sound hs).wellFormed.regions.eq hx hd hxid]
  constructor
  · intro h r hr hcancelling d hd hbelow
    by_cases hdc : d.lifecycleStatus = .cancelling
    · exact Or.inl hdc
    · obtain ⟨hmem, hwork⟩ := hkept d hd hdc
      have hd' := (h r hr hcancelling).2 d hd hbelow
      obtain ⟨d', hd'mem, hid, hcancelled, -⟩ := hd'.cancelled
      obtain rfl := hkeyed.eq hd'mem hmem hid
      exact Or.inr ⟨hcancelled, hd'.idle.congr hwork.symm⟩
  · intro h r hr hcancelling
    refine ⟨hsettled r hr hcancelling, fun d hd hbelow => ?_⟩
    rcases h r hr hcancelling d hd hbelow with hdc | ⟨hcancelled, hidle⟩
    · exact hsettled d hd hdc
    · obtain ⟨hmem, hwork⟩ := hkept d hd (by simp [hcancelled])
      exact hstopped d d hmem rfl hcancelled (by rw [if_pos hcancelled]) (hidle.congr hwork)

/-- The plant as a region of a site. -/
def siteTree : State :=
  deploy plantCatalog
    [⟨99, none, "site", .running, 1, none⟩, ⟨100, some 99, "plant", .running, 1, some 200⟩] [] 1000

theorem siteTree_reachable : (runtime samplePlatform).Reachable siteTree :=
  .start (deploy_initial (by decide))

/-- An attempt is leased in the plant, and then some regions are asked to cancel. -/
def siteCancels (regionIds : List Uuid) : Option State :=
  runs samplePlatform siteTree
    ([.submit (plantCommand "start" "order"), poll] ++ regionIds.map (.requestCancellation · 1))

/-- The loop of a pass, with what holds before and after it. -/
def siteSettles (s : State) : Option Db :=
  match forEach (settleCancelling s.now) (cancellingRegionIds s.db) s.db with
  | (.ok (), db) => some db
  | (.error _, _) => none

theorem siteSettles_eq_some (h : siteSettles s = some db) :
    forEach (settleCancelling s.now) (cancellingRegionIds s.db) s.db = (.ok (), db) := by
  unfold siteSettles at h
  split at h
  · rename_i hop
    rw [hop, Option.some.inj h]
  · simp at h

theorem site_covered : ∃ s db, siteCancels [99, 100] = some s ∧ siteSettles s = some db ∧
    s.db.executions.map (·.status) = [.running] ∧ Covers samplePlatform s { s with db } := by
  have hsome : ((siteCancels [99, 100]).bind fun s => (siteSettles s).map fun _ =>
      (s.db.executions.map (·.status), s.db.regions.all (·.lifecycleStatus = .cancelling))) =
      some ([.running], true) := rfl
  obtain ⟨s, hs, hsome⟩ := Option.bind_eq_some_iff.1 hsome
  obtain ⟨db, hdb, heq⟩ := Option.map_eq_some_iff.1 hsome
  obtain ⟨hrunning, hall⟩ := Prod.mk.inj heq
  refine ⟨s, db, hs, hdb, hrunning, (cancellation_covers_iff
    (runs_reachable siteTree_reachable hs) (siteSettles_eq_some hdb)).2 ?_⟩
  intro r _ _ d hd _
  exact Or.inl (by simpa using List.all_eq_true.1 hall d hd)

/-- Only the site is asked to cancel : the plant goes on running. -/
theorem plant_not_covered : ¬∀ (P : Platform) (s : State) (now : Time) (db : Db),
    (runtime P).Reachable s →
    forEach (settleCancelling now) (cancellingRegionIds s.db) s.db = (.ok (), db) →
    Covers P s { s with db } := by
  intro hcovers
  have hsome : ((siteCancels [99]).bind fun s => (siteSettles s).map fun db =>
      (s.db.regions.find? (·.lifecycleStatus = .cancelling)).any fun r =>
        s.db.regions.any fun d => (s.db.ancestors d.id).contains r.id &&
          db.executions.any fun e => e.regionId = d.id && e.status = .running) = some true := rfl
  obtain ⟨s, hs, hsome⟩ := Option.bind_eq_some_iff.1 hsome
  obtain ⟨db, hdb, heq⟩ := Option.map_eq_some_iff.1 hsome
  obtain ⟨r, hr, hany⟩ := (Option.any_eq_true _ _).1 heq
  simp only [List.any_eq_true, Bool.and_eq_true, List.contains_iff_mem, decide_eq_true_eq] at hany
  obtain ⟨d, hd, hbelow, e, he, hin, hrunning⟩ := hany
  have hcovered := hcovers samplePlatform s s.now db (runs_reachable siteTree_reachable hs)
    (siteSettles_eq_some hdb)
  have hstopped := (hcovered r (List.mem_of_find?_eq_some hr) (by simpa using List.find?_some hr)).2
    d hd hbelow
  exact hstopped.idle.executions e he hin hrunning

end FactoryFloor
