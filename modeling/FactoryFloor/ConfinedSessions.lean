import FactoryFloor.ActivitySessions

/-!
# Confined sessions

A session ends when it is revoked, when its instance is closed, and when it, its idle time or its
binding expires. `sessions_confined` is about every state of the service : a refresh that starts after
the end is refused, and a read from then on. What has expired can be renewed only by a refresh or a
join that was going on already (`renewed_after_expiry`). A token is refreshed once at most, and an
instance is joined for what it was first bound to.
-/

namespace FactoryFloor

open Relational Transition

variable {sha256 : JsString → Digest} {s t : ActivityService} {l : Unit}

/-! ## What a step does -/

/-- The columns of a binding that no call changes. -/
def ActivityBinding.identity (b : ActivityBinding) : Uuid × ActivitySessionRequest :=
  (b.id, ⟨b.applicationId, b.instanceId, b.installationId, b.guildId, b.channelId, b.threadId,
    b.principalId, b.adapter, b.boundRunId⟩)

/-- A call of `t` was there before, has just started, or has gone on. -/
theorem ActivityStep.call (h : ActivityStep sha256 s l t) {n : ℕ} {c : ActivityCall}
    (hc : t.calls n = some c) : s.calls n = some c ∨
      (n = s.started ∧ t.started = s.started + 1 ∧ c.now = s.clock ∧ c.phase.Initial) ∨
      ∃ phase, s.calls n = some ⟨c.now, phase⟩ ∧
        (ReadStep sha256 s c.now phase c.phase ∧ t = s.moves n (some c) ∨
          ∃ id principalId expiresAt, c.phase = .createSession id principalId expiresAt) := by
  cases h with
  | tick => exact Or.inl hc
  | starts hphase =>
    rcases update_eq_some hc with ⟨rfl, hnew⟩ | ⟨-, hs⟩
    · obtain rfl := Option.some.inj hnew
      exact Or.inr (Or.inl ⟨rfl, rfl, rfl, hphase⟩)
    · exact Or.inl hs
  | reads hcall hread =>
    rcases update_eq_some hc with ⟨rfl, hnew⟩ | ⟨-, hs⟩
    · obtain rfl := Option.some.inj hnew
      exact Or.inr (Or.inr ⟨_, hcall, Or.inl ⟨hread, rfl⟩⟩)
    · exact Or.inl hs
  | joins hcall | binds hcall =>
    rcases update_eq_some hc with ⟨rfl, hnew⟩ | ⟨-, hs⟩
    · obtain rfl := Option.some.inj hnew
      exact Or.inr (Or.inr ⟨_, hcall, Or.inr ⟨_, _, _, rfl⟩⟩)
    · exact Or.inl hs
  | ends n | createsSession hcall | refreshes hcall | revokes hcall | closes hcall =>
    rcases update_eq_some hc with ⟨-, hnew⟩ | ⟨-, hs⟩
    · cases hnew
    · exact Or.inl hs

/-- A binding stays, and its expiry changes with a join that its test allows. -/
theorem ActivityStep.binding (h : ActivityStep sha256 s l t) (hids : Keyed (·.id) s.bindings)
    {b : ActivityBinding} (hb : b ∈ s.bindings) : ∃ b' ∈ t.bindings, b'.identity = b.identity ∧
      (b.closedAt.isSome → b'.closedAt.isSome) ∧ (b'.expiresAt = b.expiresAt ∨
        ∃ n c request, s.calls n = some c ∧ c.phase.joins = some request ∧ b.key = request.key ∧
          assertBindingMatches b request c.now = .ok ()) := by
  cases h with
  | @joins n now phase request b₀ hcall hphase hb₀ hkey hfree hmatches =>
    refine ⟨_, mem_updateWhere.2 ⟨b, hb, rfl⟩, ?_⟩
    split
    · rename_i hid
      obtain rfl := hids.eq hb hb₀ (of_decide_eq_true hid)
      exact ⟨rfl, id, Or.inr ⟨n, _, request, hcall, hphase, hkey, hmatches⟩⟩
    · exact ⟨rfl, id, Or.inl rfl⟩
  | closes =>
    refine ⟨_, mem_updateWhere.2 ⟨b, hb, rfl⟩, ?_⟩
    split
    · exact ⟨rfl, fun _ => rfl, Or.inl rfl⟩
    · exact ⟨rfl, id, Or.inl rfl⟩
  | binds => exact ⟨b, List.mem_append_left _ hb, rfl, id, Or.inl rfl⟩
  | _ => exact ⟨b, hb, rfl, id, Or.inl rfl⟩

/-- What a step may do to a session. -/
structure ActivitySession.Becomes (s : ActivityService) (row row' : ActivitySession) : Prop where
  id : row'.id = row.id
  instanceBindingId : row'.instanceBindingId = row.instanceBindingId
  expiresAt : row'.expiresAt = row.expiresAt
  revokedAt : row.revokedAt.isSome → row'.revokedAt.isSome
  token : row'.tokenDigest = row.tokenDigest ∧ row'.idleExpiresAt = row.idleExpiresAt ∨
    ∃ n c row₀ expiresAt, s.calls n = some c ∧ c.phase = .refreshBound row₀ expiresAt ∧
      row₀.id = row.id

theorem ActivitySession.Becomes.refl (row : ActivitySession) : row.Becomes s row :=
  ⟨rfl, rfl, rfl, fun h => h, Or.inl ⟨rfl, rfl⟩⟩

/-- A session stays, and its token and its idle expiry change with a refresh. -/
theorem ActivityStep.session (h : ActivityStep sha256 s l t) {row : ActivitySession}
    (hrow : row ∈ s.sessions) : ∃ row' ∈ t.sessions, row.Becomes s row' := by
  cases h with
  | createsSession => exact ⟨row, List.mem_append_left _ hrow, .refl row⟩
  | @refreshes n now expiresAt row₀ digest hcall =>
    refine ⟨_, mem_updateWhere.2 ⟨row, hrow, rfl⟩, ?_⟩
    split
    · rename_i hid
      have hid : row.id = row₀.id ∧ row.tokenDigest = row₀.tokenDigest := of_decide_eq_true hid
      exact ⟨rfl, rfl, rfl, fun h => h, Or.inr ⟨n, _, row₀, expiresAt, hcall, rfl, hid.1.symm⟩⟩
    · exact .refl row
  | revokes | closes =>
    refine ⟨_, mem_updateWhere.2 ⟨row, hrow, rfl⟩, ?_⟩
    split
    · exact ⟨rfl, rfl, rfl, fun _ => rfl, Or.inl ⟨rfl, rfl⟩⟩
    · exact .refl row
  | _ => exact ⟨row, hrow, .refl row⟩

/-! ## What always holds -/

/-- What holds of the tables and the calls in every state. -/
structure ActivityService.Sound (s : ActivityService) : Prop where
  bindingIds : Keyed (·.id) s.bindings
  bindingKeys : Keyed (·.key) s.bindings
  sessionIds : Keyed (·.id) s.sessions
  digests : Keyed (·.tokenDigest) s.sessions
  issued : ∀ r ∈ s.sessions, r.tokenDigest ∈ s.issued
  idle : ∀ r ∈ s.sessions, r.idleExpiresAt ≤ r.expiresAt
  calls : ∀ n c, s.calls n = some c → n < s.started ∧ c.now ≤ s.clock
  /-- A session that a refresh has locked is as it was read. -/
  locked : ∀ n c row, s.calls n = some c → c.phase.locked = some row →
    row ∈ s.sessions ∧ row.refused c.now = false
  lockedOnce : ∀ n c row m c' row', s.calls n = some c → c.phase.locked = some row →
    s.calls m = some c' → c'.phase.locked = some row' → row.id = row'.id → n = m
  /-- A token that was refreshed is dead. -/
  refreshed : ∀ e ∈ s.refreshed, e.tokenDigest ∈ s.issued ∧
    ∀ r ∈ s.sessions, r.tokenDigest ≠ e.tokenDigest
  refreshedOnce : (s.refreshed.map (·.tokenDigest)).Nodup
  past : ∀ e ∈ s.refreshed, e.call < s.started

/-- The row that a session is created with. -/
theorem createSession_eq_ok {id bindingId : Uuid} {digest : Digest} {principalId : String}
    {bindingExpiresAt now : Time} {row : ActivitySession}
    (h : createSession id digest bindingId principalId bindingExpiresAt now = .ok row) :
    row.id = id ∧ row.tokenDigest = digest ∧ row.idleExpiresAt ≤ row.expiresAt := by
  unfold createSession at h
  simp only at h
  split at h
  · cases h
  · obtain rfl := Except.ok.inj h
    exact ⟨rfl, rfl, min_le_right _ _⟩

namespace ActivityService.Sound

theorem bindings (h : s.Sound) (hstep : ActivityStep sha256 s l t) :
    Keyed (·.id) t.bindings ∧ Keyed (·.key) t.bindings := by
  cases hstep with
  | joins => exact ⟨h.bindingIds.updateWhere fun r => rfl, h.bindingKeys.updateWhere fun r => rfl⟩
  | closes => exact ⟨h.bindingIds.updateWhere fun r => rfl, h.bindingKeys.updateWhere fun r => rfl⟩
  | binds hcall habsent hid => exact ⟨h.bindingIds.append hid, h.bindingKeys.append habsent⟩
  | _ => exact ⟨h.bindingIds, h.bindingKeys⟩

/-- The row of a refresh is the one it has locked. -/
theorem locked_eq (h : s.Sound) {n : ℕ} {c : ActivityCall} {row r : ActivitySession}
    (hcall : s.calls n = some c) (hlocked : c.phase.locked = some row) (hr : r ∈ s.sessions)
    (hid : r.id = row.id) : r = row :=
  h.sessionIds.eq hr (h.locked n c row hcall hlocked).1 hid

theorem sessions (h : s.Sound) (hstep : ActivityStep sha256 s l t) :
    Keyed (·.id) t.sessions ∧ Keyed (·.tokenDigest) t.sessions ∧
      (∀ r ∈ t.sessions, r.tokenDigest ∈ t.issued) ∧
      ∀ r ∈ t.sessions, r.idleExpiresAt ≤ r.expiresAt := by
  cases hstep with
  | createsSession hcall hid hdigest hrow =>
    obtain ⟨rfl, rfl, hle⟩ := createSession_eq_ok hrow
    refine ⟨h.sessionIds.append hid, h.digests.append fun r hr heq =>
      hdigest (heq ▸ h.issued r hr), fun r hr => ?_, fun r hr => ?_⟩
    · rcases List.mem_append.1 hr with hr | hr
      · exact List.mem_append_left _ (h.issued r hr)
      · obtain rfl := List.mem_singleton.1 hr
        exact List.mem_append_right _ (List.mem_singleton_self _)
    · rcases List.mem_append.1 hr with hr | hr
      · exact h.idle r hr
      · obtain rfl := List.mem_singleton.1 hr
        exact hle
  | @refreshes n now expiresAt row digest hcall hidle hdigest =>
    refine ⟨h.sessionIds.updateWhere fun r => rfl, ?_, fun r hr => ?_, fun r hr => ?_⟩
    · refine h.digests.updateWhere_fresh (fun r => rfl) (fun r hr r' hr' hp hp' => ?_) fun r hr => ?_
      · have hp : r.id = row.id ∧ _ := of_decide_eq_true hp
        have hp' : r'.id = row.id ∧ _ := of_decide_eq_true hp'
        exact h.sessionIds.eq hr hr' (hp.1.trans hp'.1.symm)
      · exact fun heq => hdigest (heq ▸ h.issued r hr)
    · obtain ⟨r₀, hr₀, rfl⟩ := mem_updateWhere.1 hr
      split
      · exact List.mem_append_right _ (List.mem_singleton_self _)
      · exact List.mem_append_left _ (h.issued r₀ hr₀)
    · obtain ⟨r₀, hr₀, rfl⟩ := mem_updateWhere.1 hr
      split
      · rename_i hid
        have hid : r₀.id = row.id ∧ r₀.tokenDigest = row.tokenDigest := of_decide_eq_true hid
        obtain rfl := h.locked_eq hcall rfl hr₀ hid.1
        exact (min_le_right _ _).trans (min_le_left _ _)
      · exact h.idle r₀ hr₀
  | revokes | closes =>
    refine ⟨h.sessionIds.updateWhere fun r => rfl, h.digests.updateWhere fun r => rfl,
      fun r hr => ?_, fun r hr => ?_⟩
    · obtain ⟨r₀, hr₀, rfl⟩ := mem_updateWhere.1 hr
      split <;> exact h.issued r₀ hr₀
    · obtain ⟨r₀, hr₀, rfl⟩ := mem_updateWhere.1 hr
      split <;> exact h.idle r₀ hr₀
  | _ => exact ⟨h.sessionIds, h.digests, h.issued, h.idle⟩

theorem callsOf (h : s.Sound) (hstep : ActivityStep sha256 s l t) :
    ∀ n c, t.calls n = some c → n < t.started ∧ c.now ≤ t.clock := by
  have hstarted : s.started ≤ t.started ∧ s.clock ≤ t.clock := by
    cases hstep with
    | tick hclock => exact ⟨le_rfl, hclock⟩
    | starts => exact ⟨Nat.le_succ _, le_rfl⟩
    | _ => exact ⟨le_rfl, le_rfl⟩
  intro n c hc
  rcases hstep.call hc with hs | ⟨rfl, hsucc, hnow, -⟩ | ⟨phase, hs, -⟩
  · exact ⟨(h.calls n c hs).1.trans_le hstarted.1, (h.calls n c hs).2.trans hstarted.2⟩
  · exact ⟨hsucc ▸ Nat.lt_succ_self _, hnow.le.trans hstarted.2⟩
  · exact ⟨(h.calls n _ hs).1.trans_le hstarted.1, (h.calls n _ hs).2.trans hstarted.2⟩

/-- A session that is locked stays as it is, unless it is the one that is refreshed. -/
theorem lockedRow (h : s.Sound) (hstep : ActivityStep sha256 s l t) {n : ℕ} {c : ActivityCall}
    {row : ActivitySession} (hs : s.calls n = some c) (hlocked : c.phase.locked = some row)
    (ht : t.calls n = some c) : row ∈ t.sessions := by
  have hrow := (h.locked n c row hs hlocked).1
  cases hstep with
  | createsSession => exact List.mem_append_left _ hrow
  | @refreshes m now expiresAt row₀ digest hcall =>
    refine mem_updateWhere_of_not hrow ?_
    rintro hid
    have hid : row.id = row₀.id ∧ row.tokenDigest = row₀.tokenDigest := of_decide_eq_true hid
    obtain rfl := h.lockedOnce n c row m _ row₀ hs hlocked hcall rfl hid.1
    simp [moves] at ht
  | revokes hcall hfree =>
    refine mem_updateWhere_of_not hrow ?_
    intro hp
    have hp : row.tokenDigest = _ ∧ row.revokedAt = none := of_decide_eq_true hp
    exact hfree row hrow hp.1 ⟨n, c, row, hs, hlocked, rfl⟩
  | closes hcall hfree =>
    refine mem_updateWhere_of_not hrow ?_
    intro hp
    have hp : row.id ∈ _ ∧ row.instanceBindingId = _ ∧ row.revokedAt = none := of_decide_eq_true hp
    exact hfree row.id hp.1 ⟨n, c, row, hs, hlocked, rfl⟩
  | _ => exact hrow

/-- A lock of the state after a step was there before, or its session was free. -/
theorem locks (h : s.Sound) (hstep : ActivityStep sha256 s l t) {n : ℕ} {c : ActivityCall}
    {row : ActivitySession} (ht : t.calls n = some c) (hlocked : c.phase.locked = some row) :
    (∃ c', s.calls n = some c' ∧ c'.phase.locked = some row ∧ c'.now = c.now) ∧ row ∈ t.sessions ∨
      row ∈ t.sessions ∧ row.refused c.now = false ∧ ¬s.SessionLocked row.id ∧
        t = s.moves n (some c) := by
  rcases hstep.call ht with hs | ⟨-, -, -, hinitial⟩ | ⟨phase, hs, ⟨hread, rfl⟩ | ⟨_, _, _, hphase⟩⟩
  · exact Or.inl ⟨⟨c, hs, hlocked, rfl⟩, h.lockedRow hstep hs hlocked ht⟩
  · cases hphase : c.phase <;> simp [hphase, ActivityPhase.Initial, ActivityPhase.locked] at *
  · obtain ⟨now, phase'⟩ := c
    cases hread with
    | refreshLocked hrow hdigest hfree hrefused =>
      obtain rfl := Option.some.inj hlocked
      exact Or.inr ⟨hrow, hrefused, hfree, rfl⟩
    | refreshBound =>
      obtain rfl := Option.some.inj hlocked
      exact Or.inl ⟨⟨_, hs, rfl, rfl⟩, (h.locked n _ _ hs rfl).1⟩
    | joinAbsent => cases hlocked
    | closing => cases hlocked
    | closingSessions => cases hlocked
  · rw [hphase] at hlocked
    cases hlocked

theorem lockedOf (h : s.Sound) (hstep : ActivityStep sha256 s l t) (n : ℕ) (c : ActivityCall)
    (row : ActivitySession) (ht : t.calls n = some c) (hlocked : c.phase.locked = some row) :
    row ∈ t.sessions ∧ row.refused c.now = false := by
  rcases h.locks hstep ht hlocked with ⟨⟨c', hs, hlocked', hnow⟩, hrow⟩ | ⟨hrow, hrefused, -⟩
  · exact ⟨hrow, hnow ▸ (h.locked n c' row hs hlocked').2⟩
  · exact ⟨hrow, hrefused⟩

/-- A step locks one session at most. -/
theorem lockedOnceOf (h : s.Sound) (hstep : ActivityStep sha256 s l t) (n : ℕ) (c : ActivityCall)
    (row : ActivitySession) (m : ℕ) (c' : ActivityCall) (row' : ActivitySession)
    (hn : t.calls n = some c) (hrow : c.phase.locked = some row) (hm : t.calls m = some c')
    (hrow' : c'.phase.locked = some row') (hid : row.id = row'.id) : n = m := by
  by_contra hne
  rcases h.locks hstep hn hrow with ⟨⟨d, hs, hlocked, -⟩, -⟩ | ⟨-, -, hfree, rfl⟩
  · rcases h.locks hstep hm hrow' with ⟨⟨d', hs', hlocked', -⟩, -⟩ | ⟨-, -, hfree', -⟩
    · exact hne (h.lockedOnce n d row m d' row' hs hlocked hs' hlocked' hid)
    · exact hfree' ⟨n, d, row, hs, hlocked, hid⟩
  · have hm' : s.calls m = some c' := by
      simpa [moves, Function.update_of_ne (Ne.symm hne)] using hm
    exact hfree ⟨m, c', row', hm', hrow', hid.symm⟩

theorem refreshedOf (h : s.Sound) (hstep : ActivityStep sha256 s l t) :
    (∀ e ∈ t.refreshed, e.tokenDigest ∈ t.issued ∧ ∀ r ∈ t.sessions, r.tokenDigest ≠ e.tokenDigest) ∧
      (t.refreshed.map (·.tokenDigest)).Nodup := by
  cases hstep with
  | createsSession hcall hid hdigest hrow =>
    obtain ⟨-, rfl, -⟩ := createSession_eq_ok hrow
    refine ⟨fun e he => ⟨List.mem_append_left _ (h.refreshed e he).1, fun r hr => ?_⟩,
      h.refreshedOnce⟩
    rcases List.mem_append.1 hr with hr | hr
    · exact (h.refreshed e he).2 r hr
    · obtain rfl := List.mem_singleton.1 hr
      exact fun heq => hdigest (heq ▸ (h.refreshed e he).1)
  | @refreshes n now expiresAt row digest hcall hidle hdigest hrow =>
    have hrow := (h.locked n _ row hcall rfl).1
    refine ⟨fun e he => ?_, ?_⟩
    · rcases List.mem_append.1 he with he | he
      · refine ⟨List.mem_append_left _ (h.refreshed e he).1, fun r hr => ?_⟩
        obtain ⟨r₀, hr₀, rfl⟩ := mem_updateWhere.1 hr
        split
        · intro heq
          have heq : digest = e.tokenDigest := heq
          exact hdigest (heq ▸ (h.refreshed e he).1)
        · exact (h.refreshed e he).2 r₀ hr₀
      · obtain rfl := List.mem_singleton.1 he
        refine ⟨List.mem_append_left _ (h.issued row hrow), fun r hr => ?_⟩
        obtain ⟨r₀, hr₀, rfl⟩ := mem_updateWhere.1 hr
        split
        · intro heq
          have heq : digest = row.tokenDigest := heq
          exact hdigest (heq ▸ h.issued row hrow)
        · rename_i hne
          intro heq
          obtain rfl := h.digests.eq hr₀ hrow heq
          exact hne (decide_eq_true ⟨rfl, rfl⟩)
    · rw [List.map_append, List.nodup_append]
      refine ⟨h.refreshedOnce, List.nodup_singleton _, ?_⟩
      rintro a ha b hb rfl
      obtain ⟨e, he, rfl⟩ := List.mem_map.1 ha
      obtain heq := List.mem_singleton.1 hb
      exact (h.refreshed e he).2 row hrow heq.symm
  | revokes | closes =>
    refine ⟨fun e he => ⟨(h.refreshed e he).1, fun r hr => ?_⟩, h.refreshedOnce⟩
    obtain ⟨r₀, hr₀, rfl⟩ := mem_updateWhere.1 hr
    split <;> exact (h.refreshed e he).2 r₀ hr₀
  | _ => exact ⟨h.refreshed, h.refreshedOnce⟩

theorem pastOf (h : s.Sound) (hstep : ActivityStep sha256 s l t) :
    ∀ e ∈ t.refreshed, e.call < t.started := by
  cases hstep with
  | starts => exact fun e he => (h.past e he).trans (Nat.lt_succ_self _)
  | refreshes hcall =>
    intro e he
    rcases List.mem_append.1 he with he | he
    · exact h.past e he
    · obtain rfl := List.mem_singleton.1 he
      exact (h.calls _ _ hcall).1
  | _ => exact h.past

theorem step (h : s.Sound) (hstep : ActivityStep sha256 s l t) : t.Sound where
  bindingIds := (h.bindings hstep).1
  bindingKeys := (h.bindings hstep).2
  sessionIds := (h.sessions hstep).1
  digests := (h.sessions hstep).2.1
  issued := (h.sessions hstep).2.2.1
  idle := (h.sessions hstep).2.2.2
  calls := h.callsOf hstep
  locked := h.lockedOf hstep
  lockedOnce := h.lockedOnceOf hstep
  refreshed := (h.refreshedOf hstep).1
  refreshedOnce := (h.refreshedOf hstep).2
  past := h.pastOf hstep

theorem reachable (h : (activityService sha256).Reachable s) : s.Sound := by
  refine h.invariant (I := Sound) ?_ fun s l t hs hstep => hs.step hstep
  rintro s ⟨hb, hs, hc, -, -, -, hr⟩
  constructor <;> simp [hb, hs, hc, hr, Keyed]

end ActivityService.Sound

/-! ## Ended sessions -/

namespace ActivityService

/-- A refresh of the session is going on since before `τ`. -/
def Refreshing (sha256 : JsString → Digest) (s : ActivityService) (row : ActivitySession)
    (τ : Time) : Prop :=
  ∃ n c, s.calls n = some c ∧ c.now < τ ∧
    ((∃ token, c.phase = .refresh token ∧ row.tokenDigest = sha256 token) ∨
      ∃ row₀, c.phase.locked = some row₀ ∧ row₀.id = row.id)

/-- A join of the instance is going on since before `τ`. -/
def Joining (s : ActivityService) (b : ActivityBinding) (τ : Time) : Prop :=
  ∃ n c request, s.calls n = some c ∧ c.now < τ ∧ c.phase.joins = some request ∧
    b.key = request.key

/-- Why a session is over at `τ`. -/
inductive Over (sha256 : JsString → Digest) (s : ActivityService) (τ : Time)
    (row : ActivitySession) : Prop
  | revoked (hrevoked : row.revokedAt.isSome)
  | closed {b : ActivityBinding} (hb : b ∈ s.bindings) (hid : b.id = row.instanceBindingId)
      (hclosed : b.closedAt.isSome)
  | expired (hexpired : row.expiresAt ≤ τ)
  | idle (hidle : row.idleExpiresAt ≤ τ) (hrefreshing : ¬s.Refreshing sha256 row τ)
  | bindingExpired {b : ActivityBinding} (hb : b ∈ s.bindings) (hid : b.id = row.instanceBindingId)
      (hexpired : b.expiresAt ≤ τ) (hjoining : ¬s.Joining b τ)

/-- A session is over at `τ`. -/
def Ended (sha256 : JsString → Digest) (s : ActivityService) (τ : Time) (id : Uuid) : Prop :=
  ∃ row ∈ s.sessions, row.id = id ∧ s.Over sha256 τ row

end ActivityService

section Ended

variable {τ : Time} {id : Uuid}

/-- No call that has the time `τ` or a later one passes the tests of a session that is over. -/
theorem ActivityService.Over.not_accepted (hs : s.Sound) {row : ActivitySession}
    (h : s.Over sha256 τ row) {now : Time} (hnow : τ ≤ now) {b : ActivityBinding}
    (hb : b ∈ s.bindings) (hid : b.id = row.instanceBindingId) :
    row.refused now ∨ b.refused now := by
  have hsame : ∀ b' ∈ s.bindings, b'.id = row.instanceBindingId → b' = b := fun b' hb' hid' =>
    hs.bindingIds.eq hb' hb (hid'.trans hid.symm)
  cases h with
  | revoked hrevoked => exact Or.inl (by simp [ActivitySession.refused, hrevoked])
  | expired hexpired => exact Or.inl (by simp [ActivitySession.refused, hexpired.trans hnow])
  | idle hidle => exact Or.inl (by simp [ActivitySession.refused, hidle.trans hnow])
  | closed hb' hid' hclosed =>
    obtain rfl := hsame _ hb' hid'
    exact Or.inr (by simp [ActivityBinding.refused, hclosed])
  | bindingExpired hb' hid' hexpired =>
    obtain rfl := hsame _ hb' hid'
    exact Or.inr (by simp [ActivityBinding.refused, hexpired.trans hnow])

/-- The session that a refresh has locked, if it is over, is over at a later time than the call's. -/
theorem ActivityService.Sound.locked_live (hs : s.Sound) {n : ℕ} {c : ActivityCall}
    {row : ActivitySession} (hc : s.calls n = some c) (hlocked : c.phase.locked = some row) :
    row.revokedAt = none ∧ c.now < row.expiresAt ∧ c.now < row.idleExpiresAt := by
  have hrefused := (hs.locked n c row hc hlocked).2
  simpa [ActivitySession.refused, and_assoc] using hrefused

theorem assertBindingMatches_eq_ok {b : ActivityBinding} {request : ActivitySessionRequest}
    {now : Time} (h : assertBindingMatches b request now = .ok ()) :
    now < b.expiresAt ∧ b.installationId = request.installationId ∧ b.guildId = request.guildId ∧
      b.channelId = request.channelId ∧ b.threadId = request.threadId ∧
      b.adapter = request.adapter ∧
      (request.boundRunId = none ∨ b.boundRunId = request.boundRunId) := by
  unfold assertBindingMatches at h
  by_cases hadapter : b.adapter = ""
  · rw [if_pos hadapter] at h
    cases h
  by_cases hclosed : b.closedAt.isSome
  · rw [if_neg hadapter, if_pos hclosed] at h
    cases h
  by_cases hexpires : b.expiresAt ≤ now
  · rw [if_neg hadapter, if_neg hclosed, if_pos hexpires] at h
    cases h
  rw [if_neg hadapter, if_neg hclosed, if_neg hexpires] at h
  by_cases hmatches : ¬(b.installationId = request.installationId ∧ b.guildId = request.guildId ∧
      b.channelId = request.channelId ∧ b.threadId = request.threadId) ∨
      ¬b.adapter = request.adapter ∨
      ¬(request.boundRunId = none ∨ b.boundRunId = request.boundRunId)
  · simp only [if_pos hmatches] at h
    cases h
  · push Not at hmatches
    obtain ⟨⟨h₁, h₂, h₃, h₄⟩, h₅, h₆⟩ := hmatches
    exact ⟨not_le.1 hexpires, h₁, h₂, h₃, h₄, h₅, h₆⟩

/-- What is over stays over. -/
theorem ActivityService.Ended.step (hs : s.Sound) (hclock : τ ≤ s.clock) (h : s.Ended sha256 τ id)
    (hstep : ActivityStep sha256 s l t) : t.Ended sha256 τ id := by
  obtain ⟨row, hrow, rfl, hover⟩ := h
  obtain ⟨row', hrow', hbecomes⟩ := hstep.session hrow
  refine ⟨row', hrow', hbecomes.id, ?_⟩
  cases hover with
  | revoked hrevoked => exact .revoked (hbecomes.revokedAt hrevoked)
  | expired hexpired => exact .expired (hbecomes.expiresAt ▸ hexpired)
  | closed hb hid hclosed =>
    obtain ⟨b', hb', hidentity, hclosed', -⟩ := hstep.binding hs.bindingIds hb
    have hid' : b'.id = row'.instanceBindingId :=
      ((congrArg Prod.fst hidentity).trans hid).trans hbecomes.instanceBindingId.symm
    exact .closed hb' hid' (hclosed' hclosed)
  | idle hidle hrefreshing =>
    -- the calls that refresh the session have the time `τ` or a later one
    have hlater : ∀ n c row₀, s.calls n = some c → c.phase.locked = some row₀ → row₀.id = row.id →
        False := by
      intro n c row₀ hc hlocked hid
      obtain rfl := hs.locked_eq hc hlocked hrow hid.symm
      have hlive := (hs.locked_live hc hlocked).2.2
      exact hrefreshing ⟨n, c, hc, hlive.trans_le hidle, Or.inr ⟨_, hlocked, rfl⟩⟩
    rcases hbecomes.token with ⟨htoken, hidle'⟩ | ⟨n, c, row₀, e, hc, hphase, hid⟩
    · refine .idle (hidle' ▸ hidle) ?_
      rintro ⟨n, c, hc, hnow, hrefresh⟩
      rw [htoken, hbecomes.id] at hrefresh
      rcases hstep.call hc with hc | ⟨-, -, hnow', -⟩ | ⟨phase, hc, ⟨hread, -⟩ | ⟨_, _, _, hphase⟩⟩
      · exact hrefreshing ⟨n, c, hc, hnow, hrefresh⟩
      · exact absurd (hnow'.symm.trans_lt hnow) hclock.not_gt
      · obtain ⟨now, phase'⟩ := c
        cases hread with
        | refreshLocked hrow₀ hdigest =>
          obtain ⟨token, hphase, -⟩ | ⟨row₀, hlocked, hid⟩ := hrefresh
          · cases hphase
          · obtain rfl := Option.some.inj hlocked
            obtain rfl := hs.sessionIds.eq hrow₀ hrow hid
            exact hrefreshing ⟨n, _, hc, hnow, Or.inl ⟨_, rfl, hdigest⟩⟩
        | refreshBound =>
          obtain ⟨token, hphase, -⟩ | ⟨row₀, hlocked, hid⟩ := hrefresh
          · cases hphase
          · obtain rfl := Option.some.inj hlocked
            exact hlater n _ _ hc rfl hid
        | _ => simp [ActivityPhase.locked] at hrefresh
      · rw [hphase] at hrefresh
        simp [ActivityPhase.locked] at hrefresh
    · exact (hlater n c row₀ hc (by rw [hphase]; rfl) hid).elim
  | @bindingExpired b hb hid hexpired hjoining =>
    obtain ⟨b', hb', hidentity, -, hexpires⟩ := hstep.binding hs.bindingIds hb
    have hid' : b'.id = row'.instanceBindingId :=
      ((congrArg Prod.fst hidentity).trans hid).trans hbecomes.instanceBindingId.symm
    have hkey : b'.key = b.key := congrArg (fun i => i.2.key) hidentity
    rcases hexpires with hexpires | ⟨n, c, request, hc, hjoins, hbkey, hmatches⟩
    · refine .bindingExpired hb' hid' (hexpires ▸ hexpired) ?_
      rintro ⟨n, c, request, hc, hnow, hjoins, hrkey⟩
      rw [hkey] at hrkey
      rcases hstep.call hc with hc | ⟨-, -, hnow', -⟩ | ⟨phase, hc, ⟨hread, -⟩ | ⟨_, _, _, hphase⟩⟩
      · exact hjoining ⟨n, c, request, hc, hnow, hjoins, hrkey⟩
      · exact absurd (hnow'.symm.trans_lt hnow) hclock.not_gt
      · obtain ⟨now, phase'⟩ := c
        cases hread with
        | joinAbsent =>
          obtain rfl := Option.some.inj hjoins
          exact hjoining ⟨n, _, _, hc, hnow, rfl, hrkey⟩
        | _ => simp [ActivityPhase.joins] at hjoins
      · rw [hphase] at hjoins
        cases hjoins
    · have hlive := (assertBindingMatches_eq_ok hmatches).1
      exact absurd ⟨n, c, request, hc, hlive.trans_le hexpired, hjoins, hbkey⟩ hjoining

/-- What holds from the moment a session is over : calls that start later do not refresh it. -/
structure ActivityService.Barred (sha256 : JsString → Digest) (τ : Time) (id : Uuid) (since : ℕ)
    (t : ActivityService) : Prop where
  clock : τ ≤ t.clock
  ended : t.Ended sha256 τ id
  started : since ≤ t.started
  calls : ∀ n c, since ≤ n → t.calls n = some c → τ ≤ c.now ∧
    ∀ row expiresAt, c.phase = .refreshBound row expiresAt → row.id ≠ id
  refreshed : ∀ e ∈ t.refreshed, e.sessionId = id → e.call < since

theorem ActivityService.Barred.step {since : ℕ} (hs : s.Sound) (h : s.Barred sha256 τ id since)
    (hstep : ActivityStep sha256 s l t) : t.Barred sha256 τ id since := by
  refine ⟨?_, h.ended.step hs h.clock hstep, ?_, fun n c hn hc => ?_, ?_⟩
  · cases hstep with
    | tick hclock => exact h.clock.trans hclock
    | _ => exact h.clock
  · cases hstep with
    | starts => exact h.started.trans (Nat.le_succ _)
    | _ => exact h.started
  · rcases hstep.call hc with hc | ⟨-, -, hnow, hinitial⟩ | ⟨phase, hc, ⟨hread, -⟩ | ⟨_, _, _, hphase⟩⟩
    · exact h.calls n c hn hc
    · refine ⟨hnow.symm ▸ h.clock, fun row expiresAt hphase => ?_⟩
      rw [hphase] at hinitial
      exact hinitial.elim
    · refine ⟨(h.calls n _ hn hc).1, fun row expiresAt hphase hid => ?_⟩
      obtain ⟨now, phase'⟩ := c
      obtain rfl : phase' = _ := hphase
      obtain ⟨row', hrow', hid', hover⟩ := h.ended
      cases hread with
      | refreshBound hb hbid hrefused =>
        obtain rfl := hs.locked_eq hc rfl hrow' (hid'.trans hid.symm)
        have hlocked := (hs.locked n _ _ hc rfl).2
        rcases hover.not_accepted hs (h.calls n _ hn hc).1 hb hbid with hbad | hbad
        · exact absurd hbad (by simp [hlocked])
        · exact absurd hbad (by simp [hrefused])
    · refine ⟨(h.calls n _ hn hc).1, fun row expiresAt hphase' => ?_⟩
      rw [hphase] at hphase'
      cases hphase'
  · cases hstep with
    | refreshes hcall =>
      intro e he hid
      rcases List.mem_append.1 he with he | he
      · exact h.refreshed e he hid
      · obtain rfl := List.mem_singleton.1 he
        by_contra hlate
        exact (h.calls _ _ (not_lt.1 hlate) hcall).2 _ _ rfl hid
    | _ => exact h.refreshed

theorem ActivityService.Ended.barred (hs : s.Sound) (hclock : τ ≤ s.clock)
    (h : s.Ended sha256 τ id) : s.Barred sha256 τ id s.started where
  clock := hclock
  ended := h
  started := le_rfl
  calls n c hn hc := absurd (hs.calls n c hc).1 hn.not_gt
  refreshed e he _ := hs.past e he

/-- The read authorizer accepts no token of a session that is over. -/
theorem ActivityService.Ended.not_resolved (hs : s.Sound) (h : s.Ended sha256 τ id) {now : Time}
    (hnow : τ ≤ now) {token : JsString} {row : ActivitySession} {b : ActivityBinding}
    (hresolved : s.resolveSession sha256 token now = some (row, b)) : row.id ≠ id := by
  rintro rfl
  unfold resolveSession at hresolved
  simp only at hresolved
  split at hresolved
  · cases hresolved
  obtain ⟨row₀, hrow₀, hresolved⟩ := Option.bind_eq_some_iff.1 hresolved
  obtain ⟨b₀, hb₀, hresolved⟩ := Option.bind_eq_some_iff.1 hresolved
  split at hresolved
  · cases hresolved
  rename_i hlive
  obtain ⟨rfl, rfl⟩ : row₀ = row ∧ b₀ = b := by simpa [Prod.ext_iff] using hresolved
  obtain ⟨row', hrow', hid', hover⟩ := h
  obtain rfl := hs.sessionIds.eq hrow' (List.mem_of_find?_eq_some hrow₀) hid'
  have hbid : b₀.id = row'.instanceBindingId := by simpa using List.find?_some hb₀
  rcases hover.not_accepted hs hnow (List.mem_of_find?_eq_some hb₀) hbid with hbad | hbad
  · simp only [ActivitySession.refused, Bool.or_eq_true, decide_eq_true_eq] at hbad
    exact hlive (by tauto)
  · simp only [ActivityBinding.refused, Bool.or_eq_true, decide_eq_true_eq] at hbad
    exact hlive (by tauto)

end Ended

/-! ## Joins -/

/-- What a later join of an instance has in common with the first. -/
structure ActivityJoin.Follows (first j : ActivityJoin) : Prop where
  instanceBindingId : j.instanceBindingId = first.instanceBindingId
  location : (j.request.installationId, j.request.guildId, j.request.channelId, j.request.threadId) =
    (first.request.installationId, first.request.guildId, first.request.channelId,
      first.request.threadId)
  adapter : j.request.adapter = first.request.adapter
  run : j.request.boundRunId = none ∨ j.request.boundRunId = first.request.boundRunId

/-- A binding is as its first join has made it, and the later joins follow the first. -/
def ActivityService.BoundOnce (s : ActivityService) (b : ActivityBinding) : Prop :=
  ∃ pre first post, s.joined = pre ++ first :: post ∧ (∀ j ∈ pre, j.request.key ≠ b.key) ∧
    b.identity = (first.instanceBindingId, first.request) ∧
    ∀ j ∈ post, j.request.key = b.key → first.Follows j

/-- Every join is of a binding, and every binding is bound once. -/
structure ActivityService.Bound (s : ActivityService) : Prop where
  joined : ∀ j ∈ s.joined, ∃ b ∈ s.bindings, b.key = j.request.key
  once : ∀ b ∈ s.bindings, s.BoundOnce b

theorem ActivityService.BoundOnce.append {b : ActivityBinding} (h : s.BoundOnce b)
    {j : ActivityJoin} (hj : j.request.key = b.key → ∀ first : ActivityJoin,
      b.identity = (first.instanceBindingId, first.request) → first.Follows j)
    (hjoined : t.joined = s.joined ++ [j]) {b' : ActivityBinding} (hb' : b'.identity = b.identity) :
    t.BoundOnce b' := by
  obtain ⟨pre, first, post, hs, hpre, hfirst, hpost⟩ := h
  have hkey : b'.key = b.key := congrArg (fun i => i.2.key) hb'
  refine ⟨pre, first, post ++ [j], by rw [hjoined, hs]; simp, hkey ▸ hpre, hb'.trans hfirst,
    fun i hi hik => ?_⟩
  rw [hkey] at hik
  rcases List.mem_append.1 hi with hi | hi
  · exact hpost i hi hik
  · obtain rfl := List.mem_singleton.1 hi
    exact hj hik first hfirst

/-- The rows of an update have the identities of the rows before. -/
theorem ActivityBinding.mem_updateWhere_identity {p : ActivityBinding → Bool}
    {f : ActivityBinding → ActivityBinding} (hf : ∀ b, (f b).identity = b.identity)
    {bindings : List ActivityBinding} {b' : ActivityBinding}
    (hb' : b' ∈ updateWhere p f bindings) : ∃ b ∈ bindings, b'.identity = b.identity := by
  obtain ⟨b, hb, rfl⟩ := mem_updateWhere.1 hb'
  refine ⟨b, hb, ?_⟩
  split
  · exact hf b
  · rfl

theorem ActivityBinding.exists_key_updateWhere {p : ActivityBinding → Bool}
    {f : ActivityBinding → ActivityBinding} (hf : ∀ b, (f b).identity = b.identity)
    {bindings : List ActivityBinding} {key : String × String} (h : ∃ b ∈ bindings, b.key = key) :
    ∃ b' ∈ updateWhere p f bindings, b'.key = key := by
  obtain ⟨b, hb, hkey⟩ := h
  refine ⟨_, mem_updateWhere.2 ⟨b, hb, rfl⟩, ?_⟩
  split
  · exact (congrArg (fun i => i.2.key) (hf b)).trans hkey
  · exact hkey

theorem ActivityService.Bound.step (hs : s.Sound) (h : s.Bound)
    (hstep : ActivityStep sha256 s l t) : t.Bound := by
  cases hstep with
  | @joins n now phase request b₀ hcall hphase hb₀ hkey hfree hmatches =>
    refine ⟨fun j hj => ActivityBinding.exists_key_updateWhere (fun b => by rfl) ?_, fun b' hb' => ?_⟩
    · rcases List.mem_append.1 hj with hj | hj
      · exact h.joined j hj
      · obtain rfl := List.mem_singleton.1 hj
        exact ⟨b₀, hb₀, hkey⟩
    · obtain ⟨b, hb, hsame⟩ := ActivityBinding.mem_updateWhere_identity (fun b => by rfl) hb'
      refine (h.once b hb).append (fun hjkey first hfirst => ?_) rfl hsame
      obtain rfl := hs.bindingKeys.eq hb hb₀ (hjkey.symm.trans hkey.symm)
      obtain ⟨-, h₁, h₂, h₃, h₄, h₅, h₆⟩ := assertBindingMatches_eq_ok hmatches
      obtain ⟨hid, hrequest⟩ := Prod.ext_iff.1 hfirst
      have hrequest : _ = first.request := hrequest
      refine ⟨hid, ?_, ?_, ?_⟩
      · rw [← hrequest]
        exact congrArg₂ Prod.mk h₁.symm (congrArg₂ Prod.mk h₂.symm (congrArg₂ Prod.mk h₃.symm h₄.symm))
      · rw [← hrequest]
        exact h₅.symm
      · rw [← hrequest]
        exact h₆.imp_right Eq.symm
  | @binds n now request id hcall habsent hid =>
    refine ⟨fun j hj => ?_, fun b' hb' => ?_⟩
    · rcases List.mem_append.1 hj with hj | hj
      · obtain ⟨b, hb, hkey⟩ := h.joined j hj
        exact ⟨b, List.mem_append_left _ hb, hkey⟩
      · obtain rfl := List.mem_singleton.1 hj
        exact ⟨_, List.mem_append_right _ (List.mem_singleton_self _), rfl⟩
    · rcases List.mem_append.1 hb' with hb' | hb'
      · exact (h.once b' hb').append (fun hjkey => absurd hjkey.symm (habsent b' hb')) rfl rfl
      · obtain rfl := List.mem_singleton.1 hb'
        refine ⟨s.joined, _, [], rfl, fun j hj hkey => ?_, rfl, by simp⟩
        obtain ⟨b, hb, hbkey⟩ := h.joined j hj
        exact habsent b hb (hbkey.trans hkey)
  | closes =>
    refine ⟨fun j hj => ActivityBinding.exists_key_updateWhere (fun b => by rfl) (h.joined j hj),
      fun b' hb' => ?_⟩
    obtain ⟨b, hb, hsame⟩ := ActivityBinding.mem_updateWhere_identity (fun b => by rfl) hb'
    obtain ⟨pre, first, post, hjoined, hpre, hfirst, hpost⟩ := h.once b hb
    have hkey : b'.key = b.key := congrArg (fun i => i.2.key) hsame
    exact ⟨pre, first, post, hjoined, hkey ▸ hpre, hsame.trans hfirst, hkey ▸ hpost⟩
  | _ => exact ⟨h.joined, h.once⟩

theorem ActivityService.Bound.reachable (h : (activityService sha256).Reachable s) : s.Bound := by
  refine h.invariant_of (I := Bound) ?_ fun s l t hr hs hstep => hs.step (Sound.reachable hr) hstep
  rintro s ⟨hb, -, -, -, -, hj, -⟩
  constructor <;> simp [hb, hj]

/-! ## Confinement -/

/-- What the service keeps to in a state, and from then on. -/
structure ActivityService.Confined (sha256 : JsString → Digest) (s : ActivityService) : Prop where
  /-- A session that is over at `τ` is accepted by no read with that time or a later one, and by no
  refresh that starts from now on. -/
  ended : ∀ τ ≤ s.clock, ∀ row ∈ s.sessions, s.Over sha256 τ row →
    ∀ t, (activityService sha256).Later s t →
      (∀ token now, τ ≤ now → ∀ r b, t.resolveSession sha256 token now = some (r, b) → r.id ≠ row.id) ∧
        ∀ e ∈ t.refreshed, e.sessionId = row.id → e.call < s.started
  /-- One refresh of a token is successful at most, and the token is dead then. -/
  refreshedOnce : (s.refreshed.map (·.tokenDigest)).Nodup
  refreshed : ∀ t, (activityService sha256).Later s t → ∀ e ∈ s.refreshed, ∀ r ∈ t.sessions,
    r.tokenDigest ≠ e.tokenDigest
  idle : ∀ row ∈ s.sessions, row.idleExpiresAt ≤ row.expiresAt
  bound : s.Bound

theorem ActivityService.Sound.later (hs : s.Sound) (h : (activityService sha256).Later s t) :
    t.Sound := by
  induction h with
  | refl => exact hs
  | next _ hstep ih => exact ih.step hstep

theorem ActivityService.Barred.later {τ : Time} {id : Uuid} {since : ℕ} (hs : s.Sound)
    (h : s.Barred sha256 τ id since) (hlater : (activityService sha256).Later s t) :
    t.Barred sha256 τ id since := by
  induction hlater with
  | refl => exact h
  | next hl hstep ih => exact ih.step (hs.later hl) hstep

theorem ActivityStep.refreshed_mono (h : ActivityStep sha256 s l t) {e : ActivityRefresh}
    (he : e ∈ s.refreshed) : e ∈ t.refreshed := by
  cases h with
  | refreshes => exact List.mem_append_left _ he
  | _ => exact he

theorem ActivityService.refreshed_later (h : (activityService sha256).Later s t)
    {e : ActivityRefresh} (he : e ∈ s.refreshed) : e ∈ t.refreshed := by
  induction h with
  | refl => exact he
  | next _ hstep ih => exact hstep.refreshed_mono ih

/-- Sessions are confined in every state of the service. -/
theorem sessions_confined (h : (activityService sha256).Reachable s) : s.Confined sha256 where
  ended τ hclock row hrow hover t hlater := by
    have hs := ActivityService.Sound.reachable h
    have hended : s.Ended sha256 τ row.id := ⟨row, hrow, rfl, hover⟩
    have hbarred := (hended.barred hs hclock).later hs hlater
    exact ⟨fun token now hnow r b hresolved =>
      hbarred.ended.not_resolved (hs.later hlater) hnow hresolved, hbarred.refreshed⟩
  refreshedOnce := (ActivityService.Sound.reachable h).refreshedOnce
  refreshed t hlater e he :=
    (((ActivityService.Sound.reachable h).later hlater).refreshed e
      (ActivityService.refreshed_later hlater he)).2
  idle := (ActivityService.Sound.reachable h).idle
  bound := .reachable h

/-- The first join of an instance. -/
def lounge : ActivitySessionRequest where
  applicationId := "app"
  instanceId := "lounge"
  installationId := "guild"
  guildId := some "guild"
  channelId := none
  threadId := none
  principalId := "ana"
  adapter := "discord"
  boundRunId := none

/-- A session is created at `0`. A refresh starts a millisecond before its idle expiry, and the clock
goes on. -/
def lateRefresh : ActivityService where
  clock := 300001
  bindings := [lounge.binding 10 0]
  sessions := [⟨20, 10, "ana", 1, 3600000, 300000, none, none⟩]
  calls := Function.update (fun _ => none) 1 (some ⟨299999, .refresh ['a']⟩)
  started := 2
  issued := [1]
  joined := [⟨lounge, 10⟩]
  refreshed := []

theorem lateRefresh_reachable : (activityService List.length).Reachable lateRefresh := by
  have h₀ : (activityService List.length).Reachable
      ⟨0, [], [], fun _ => none, 0, [], [], []⟩ := .start ⟨rfl, rfl, rfl, rfl, rfl, rfl, rfl⟩
  have h₁ := h₀.next (@ActivityStep.starts _ _ (.createOrJoin lounge) trivial)
  have h₂ := h₁.next (@ActivityStep.reads _ _ 0 0 _ _ rfl (.joinAbsent fun b hb => nomatch hb))
  have h₃ := h₂.next (@ActivityStep.binds _ _ 0 0 lounge 10 rfl (fun b hb => nomatch hb)
    fun b hb => nomatch hb)
  have h₄ := h₃.next (@ActivityStep.createsSession _ _ 0 0 7200000 10 20 "ana" 1 _ rfl
    (fun r hr => nomatch hr) (fun hd => nomatch hd) rfl)
  have h₅ := h₄.next (@ActivityStep.tick _ _ 299999 (Nat.zero_le _))
  have h₆ := h₅.next (@ActivityStep.starts _ _ (.refresh ['a']) trivial)
  have h₇ := h₆.next (@ActivityStep.tick _ _ 300001 (show 299999 ≤ 300001 by decide))
  refine (?_ : _ = lateRefresh) ▸ h₇
  have hcalls : Function.update (Function.update (Function.update (Function.update (Function.update
      (fun _ => none) 0 (some ⟨0, .createOrJoin lounge⟩)) 0 (some ⟨0, .joinAbsent lounge⟩)) 0
      (some ⟨0, .createSession 10 "ana" 7200000⟩)) 0 none) 1 (some ⟨299999, .refresh ['a']⟩) =
      lateRefresh.calls := by
    simp only [Function.update_idem, lateRefresh]
    congr 1
    exact Function.update_eq_self_iff.2 rfl
  exact congrArg (fun calls => { lateRefresh with calls }) hcalls

/-- A session whose refresh is going on is confined. -/
theorem sessions_confined_lounge : lateRefresh.Confined List.length :=
  sessions_confined lateRefresh_reachable

/-- The idle expiry of a session passes, and its tokens are accepted again. -/
theorem renewed_after_expiry : ∃ s t : ActivityService, (activityService List.length).Reachable s ∧
    (activityService List.length).Later s t ∧ ∃ row ∈ s.sessions, row.idleExpiresAt ≤ s.clock ∧
      (∃ e ∈ t.refreshed, e ∉ s.refreshed ∧ e.sessionId = row.id) ∧
      ∃ token now r b, s.clock ≤ now ∧
        t.resolveSession List.length token now = some (r, b) ∧ r.id = row.id := by
  have hfree : ¬lateRefresh.SessionLocked 20 := by
    rintro ⟨n, c, row, hc, hlocked, -⟩
    by_cases hn : n = 1
    · subst hn
      obtain rfl := Option.some.inj hc
      cases hlocked
    · simp [lateRefresh, hn] at hc
  have h₀ := System.Later.refl (S := activityService List.length) (s := lateRefresh)
  have h₁ := h₀.next (@ActivityStep.reads _ _ 1 299999 _ _ rfl
    (@ReadStep.refreshLocked _ _ _ ['a'] ⟨20, 10, "ana", 1, 3600000, 300000, none, none⟩
      List.mem_cons_self rfl hfree rfl))
  have h₂ := h₁.next (@ActivityStep.reads _ _ 1 299999 _ _ rfl
    (@ReadStep.refreshBound _ _ _ _ (lounge.binding 10 0) List.mem_cons_self rfl rfl))
  have h₃ := h₂.next (@ActivityStep.refreshes _ _ 1 299999 _ _ 2 rfl
    (show 299999 < 599999 by decide) (by decide) ⟨_, List.mem_cons_self, rfl, rfl⟩)
  exact ⟨_, _, lateRefresh_reachable, h₃, _, List.mem_cons_self, by decide,
    ⟨_, List.mem_cons_self, by simp [lateRefresh], rfl⟩, ['a', 'b'], 300001, _, _, le_rfl, rfl, rfl⟩

end FactoryFloor
