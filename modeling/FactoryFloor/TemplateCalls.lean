import FactoryFloor.Instantiation

/-!
# Interleaved instantiations

What a call has read and inserted so far says what it answers. A call that has found an
instantiation answers with its ids, and one that has recorded an instantiation answers with its
own. The unique key on the request id lets one of the calls that race record it, and the one on the
region lets one topology be published, so `TemplateService.Sound` is kept by every statement.
-/

namespace FactoryFloor

open Relational Transition

variable {T : Templates} {s t : TemplateService} {l : TemplateLabel} {rows own : TemplateRows}

/-! ## Rows -/

/-- Rows of which others are a part. -/
structure TemplateRows.Within (rows rows' : TemplateRows) : Prop where
  revisions : ∀ r ∈ rows.revisions, r ∈ rows'.revisions
  components : ∀ c ∈ rows.components, c ∈ rows'.components
  instantiations : ∀ i ∈ rows.instantiations, i ∈ rows'.instantiations
  artifacts : ∀ a ∈ rows.artifacts, a ∈ rows'.artifacts
  stateVersions : ∀ v ∈ rows.stateVersions, v ∈ rows'.stateVersions

theorem TemplateRows.within_append (rows own : TemplateRows) : rows.Within (rows.append own) := by
  constructor <;> exact fun r hr => List.mem_append_left _ hr

theorem TemplateRows.Within.append {rows' : TemplateRows} (h : rows.Within rows')
    (own : TemplateRows) : (rows.append own).Within (rows'.append own) := by
  constructor <;> intro r hr
  · exact List.mem_append.2 ((List.mem_append.1 hr).imp_left (h.revisions r))
  · exact List.mem_append.2 ((List.mem_append.1 hr).imp_left (h.components r))
  · exact List.mem_append.2 ((List.mem_append.1 hr).imp_left (h.instantiations r))
  · exact List.mem_append.2 ((List.mem_append.1 hr).imp_left (h.artifacts r))
  · exact List.mem_append.2 ((List.mem_append.1 hr).imp_left (h.stateVersions r))

theorem TemplateRows.append_assoc (rows own delta : TemplateRows) :
    rows.append (own.append delta) = (rows.append own).append delta := by
  simp [TemplateRows.append]

theorem TemplateRows.append_nil (rows : TemplateRows) : rows.append .nil = rows := by
  simp [TemplateRows.append, TemplateRows.nil]

theorem HasInitialVersion.within {rows' : TemplateRows} {revisionId : Uuid} {state : InitialState}
    (h : HasInitialVersion rows revisionId state) (hw : rows.Within rows') :
    HasInitialVersion rows' revisionId state := by
  obtain ⟨c, hc, hrevision, hname, v, hv, hkey, hschema, a, ha, hid, hdigest⟩ := h
  exact ⟨c, hw.components c hc, hrevision, hname, v, hw.stateVersions v hv, hkey, hschema, a,
    hw.artifacts a ha, hid, hdigest⟩

/-- What one turn of `publishInitialStates` does : the version of the state's component is there, or it
is inserted. -/
structure StatePublished (owner : StateOwner) (state : InitialState) (rows delta : TemplateRows) :
    Prop where
  revisions : delta.revisions = []
  components : delta.components = []
  instantiations : delta.instantiations = []
  version : ∃ component ∈ rows.components,
    component.topologyRevisionId = owner.topologyRevisionId ∧
    component.name = state.componentName ∧
    (delta.stateVersions = [] ∨ ∃ v, delta.stateVersions = [v] ∧
      v.key = (component.id, state.portName, 1) ∧
      v.source = .templateInstantiation owner.instantiationId ∧
      ∀ w ∈ rows.stateVersions, w.key ≠ v.key)
  published : HasInitialVersion (rows.append delta) owner.topologyRevisionId state

theorem publishInitialState_eq_ok {owner : StateOwner} {artifactId : Uuid} {state : InitialState}
    {delta : TemplateRows} (h : publishInitialState owner artifactId state rows = .ok delta) :
    StatePublished owner state rows delta := by
  unfold publishInitialState at h
  split at h
  · simp at h
  rename_i component hcomponent
  have hmem := List.mem_of_find?_eq_some hcomponent
  have hfound := List.find?_some hcomponent
  simp only [Bool.and_eq_true, decide_eq_true_eq] at hfound
  rcases hartifact : findOrInsert (·.digest = state.digest)
      { id := artifactId, digest := state.digest, sizeBytes := state.sizeBytes,
        schemaId := state.schemaId, state := .committed, mediaType := "application/json" }
      rows.artifacts with ⟨artifact, artifacts⟩
  rw [hartifact] at h
  obtain ⟨⟨⟩, hidentity, h⟩ := Except.bind_eq_ok.1 h
  rcases hinline : findOrInsert (·.artifactId = artifact.id)
      ⟨artifact.id, state.canonical, state.sizeBytes⟩ rows.inlinePayloads with ⟨inline, payloads⟩
  rw [hinline] at h
  obtain ⟨⟨⟩, -, h⟩ := Except.bind_eq_ok.1 h
  rcases hversion : findOrInsert (·.key = (component.id, state.portName, 1))
      { componentInstanceId := component.id, statePortName := state.portName, versionNumber := 1,
        artifactId := artifact.id, schemaId := state.schemaId,
        source := .templateInstantiation owner.instantiationId } rows.stateVersions with
    ⟨version, versions⟩
  rw [hversion] at h
  obtain ⟨⟨⟩, hsame, h⟩ := Except.bind_eq_ok.1 h
  obtain rfl := (Except.ok.inj h).symm
  simp only [require_eq_ok, Bool.and_eq_true, decide_eq_true_eq] at hsame
  have hartifact' : artifact.digest = state.digest ∧ artifact ∈ rows.artifacts ++ artifacts := by
    rcases findOrInsert_eq (·.digest = state.digest) _ rows.artifacts with
      ⟨a, ha, hdigest, heq⟩ | ⟨-, heq⟩ <;> rw [heq] at hartifact <;>
      obtain ⟨rfl, rfl⟩ := Prod.mk.inj hartifact
    · exact ⟨of_decide_eq_true hdigest, by simpa using ha⟩
    · exact ⟨rfl, by simp⟩
  have hversion' : version.key = (component.id, state.portName, 1) ∧
      version ∈ rows.stateVersions ++ versions ∧
      (versions = [] ∨ ∃ v, versions = [v] ∧ v.key = (component.id, state.portName, 1) ∧
        v.source = .templateInstantiation owner.instantiationId ∧
        ∀ w ∈ rows.stateVersions, w.key ≠ v.key) := by
    rcases findOrInsert_eq (·.key = (component.id, state.portName, 1)) _ rows.stateVersions with
      ⟨v, hv, hkey, heq⟩ | ⟨hnone, heq⟩ <;> rw [heq] at hversion <;>
      obtain ⟨rfl, rfl⟩ := Prod.mk.inj hversion
    · exact ⟨of_decide_eq_true hkey, by simpa using hv, Or.inl rfl⟩
    · exact ⟨rfl, by simp, Or.inr ⟨_, rfl, rfl, rfl, fun w hw heq =>
        hnone w hw (decide_eq_true heq)⟩⟩
  refine ⟨rfl, rfl, rfl, ⟨component, hmem, hfound.1, hfound.2, hversion'.2.2⟩, component,
    List.mem_append_left _ hmem, hfound.1, hfound.2, version, hversion'.2.1, hversion'.1,
    hsame.1.2, artifact, hartifact'.2, hsame.1.1.symm, hartifact'.1⟩

/-! ## Calls -/

/-- The instantiation that a call has read. -/
def FoundBy (T : Templates) (request : InstantiationRequest) (rows : TemplateRows)
    (existing : Option TemplateInstantiation) : Prop :=
  ∀ i ∈ existing, i ∈ rows.instantiations ∧ i.requestId = request.id T ∧
    i.requestDigest = request.digest T

/-- The revision of a topology, in its region. -/
def HasRevision (request : InstantiationRequest) (rows : TemplateRows) (revisionId : Uuid) : Prop :=
  ∃ r ∈ rows.revisions, r.id = revisionId ∧ r.regionId = request.content.targetRegionId

/-- The instantiation that a result is about. -/
def Answers (T : Templates) (request : InstantiationRequest) (result : InstantiationResult)
    (i : TemplateInstantiation) : Prop :=
  i.requestId = request.id T ∧ i.requestDigest = request.digest T ∧ result.instantiationId = i.id ∧
    result.topologyRevisionId = i.topologyRevisionId ∧
    result.regionId = request.content.targetRegionId

/-- What holds of a call in each of its phases. -/
inductive TemplateCall.Sound (T : Templates) (rows : TemplateRows) : TemplateCall → Prop
  | started {request : InstantiationRequest} {retried : Bool} :
      Sound T rows ⟨request, retried, .started, .nil⟩
  | found {request : InstantiationRequest} {retried : Bool}
      {existing : Option TemplateInstantiation} (hfound : FoundBy T request rows existing) :
      Sound T rows ⟨request, retried, .found existing, .nil⟩
  | inactive {request : InstantiationRequest} {retried : Bool}
      {existing : Option TemplateInstantiation} {resolution : Resolution}
      (hfound : FoundBy T request rows existing)
      (hresolve : T.resolve request.content = .ok resolution) :
      Sound T rows ⟨request, retried, .inactive existing resolution, .nil⟩
  | resolved {request : InstantiationRequest} {retried : Bool}
      {existing : Option TemplateInstantiation} {resolution : Resolution}
      {topology : TopologyResult} {own : TemplateRows}
      (hfound : FoundBy T request rows existing)
      (hresolve : T.resolve request.content = .ok resolution)
      (hregion : topology.regionId = request.content.targetRegionId)
      (hrevision : HasRevision request (rows.append own) topology.revisionId)
      (hinstantiations : own.instantiations = []) (hversions : own.stateVersions = []) :
      Sound T rows ⟨request, retried, .resolved existing resolution topology, own⟩
  | publishing {request : InstantiationRequest} {retried : Bool} {owner : StateOwner}
      {result : InstantiationResult} {remaining : List InitialState} {own : TemplateRows}
      {i : TemplateInstantiation} {resolution : Resolution} {published : List InitialState}
      (hresolve : T.resolve request.content = .ok resolution)
      (hstates : resolution.initialStates = published ++ remaining)
      (hi : i ∈ (rows.append own).instantiations) (hanswers : Answers T request result i)
      (howner : owner.topologyRevisionId = result.topologyRevisionId)
      (hrevision : HasRevision request (rows.append own) result.topologyRevisionId)
      (hpublished : ∀ state ∈ published,
        HasInitialVersion (rows.append own) result.topologyRevisionId state)
      (hrecorded : own.instantiations = [] ∧ result.disposition = .existing ∨
        own.instantiations = [i]) :
      Sound T rows ⟨request, retried, .publishing owner result remaining, own⟩

theorem FoundBy.within {rows' : TemplateRows} {request : InstantiationRequest}
    {existing : Option TemplateInstantiation} (h : FoundBy T request rows existing)
    (hw : rows.Within rows') : FoundBy T request rows' existing :=
  fun i hi => ⟨hw.instantiations i (h i hi).1, (h i hi).2⟩

theorem HasRevision.within {rows' : TemplateRows} {request : InstantiationRequest}
    {revisionId : Uuid} (h : HasRevision request rows revisionId) (hw : rows.Within rows') :
    HasRevision request rows' revisionId := by
  obtain ⟨r, hr, hid⟩ := h
  exact ⟨r, hw.revisions r hr, hid⟩

/-- The commit of another call changes nothing for a call. -/
theorem TemplateCall.Sound.within {rows' : TemplateRows} {c : TemplateCall} (h : c.Sound T rows)
    (hw : rows.Within rows') : c.Sound T rows' := by
  cases h with
  | started => exact .started
  | found hfound => exact .found (hfound.within hw)
  | inactive hfound hresolve => exact .inactive (hfound.within hw) hresolve
  | resolved hfound hresolve hregion hrevision hinstantiations hversions =>
    exact .resolved (hfound.within hw) hresolve hregion (hrevision.within (hw.append _))
      hinstantiations hversions
  | publishing hresolve hstates hi hanswers howner hrevision hpublished hrecorded =>
    exact .publishing hresolve hstates ((hw.append _).instantiations _ hi) hanswers howner
      (hrevision.within (hw.append _)) (fun st hst => (hpublished st hst).within (hw.append _))
      hrecorded

/-! ## The service -/

/-- What an answered call has answered. -/
structure Answered.Sound (T : Templates) (rows : TemplateRows) (a : Answered) : Prop where
  instantiation : ∃ i ∈ rows.instantiations, Answers T a.request a.result i
  revision : HasRevision a.request rows a.result.topologyRevisionId
  initialStates : ∃ resolution, T.resolve a.request.content = .ok resolution ∧
    ∀ state ∈ resolution.initialStates, HasInitialVersion rows a.result.topologyRevisionId state
  existing : a.recorded = false → a.result.disposition = .existing

theorem Answered.Sound.within {rows' : TemplateRows} {a : Answered} (h : a.Sound T rows)
    (hw : rows.Within rows') : a.Sound T rows' := by
  obtain ⟨i, hi, hanswers⟩ := h.instantiation
  obtain ⟨resolution, hresolve, hstates⟩ := h.initialStates
  exact ⟨⟨i, hw.instantiations i hi, hanswers⟩, h.revision.within hw,
    ⟨resolution, hresolve, fun st hst => (hstates st hst).within hw⟩, h.existing⟩

/-- The unique keys of the rows, committed or not. -/
structure KeyedCalls (rows : TemplateRows) (calls : List TemplateCall) : Prop where
  revisionIds : KeyedAcross (·.id) rows.revisions (calls.map (·.own.revisions))
  revisions : KeyedAcross (·.regionId) rows.revisions (calls.map (·.own.revisions))
  requests : KeyedAcross (·.requestId) rows.instantiations (calls.map (·.own.instantiations))
  versions : KeyedAcross (·.key) rows.stateVersions (calls.map (·.own.stateVersions))

/-- What holds of the calls in every state. -/
structure TemplateService.Sound (T : Templates) (s : TemplateService) : Prop where
  keyed : KeyedCalls s.rows s.calls
  active : ActiveRevisions s.regions s.rows
  calls : ∀ c ∈ s.calls, c.Sound T s.rows
  answered : ∀ a ∈ s.answered, a.Sound T s.rows
  /-- Each instantiation was recorded by one answered call. -/
  recorded : ((s.answered.filter (·.recorded)).map (·.request.id T)).Perm
    (s.rows.instantiations.map (·.requestId))

section

variable {c c' : TemplateCall} {pre post : List TemplateCall}

/-- A statement of a call. -/
theorem TemplateService.Sound.statement (h : s.Sound T) (hmem : s.calls = pre ++ c :: post)
    (hsound : c'.Sound T s.rows) (hkeyed : KeyedCalls s.rows (pre ++ c' :: post)) :
    TemplateService.Sound T { s with calls := pre ++ c' :: post } := by
  refine ⟨hkeyed, h.active, fun d hd => ?_, h.answered, h.recorded⟩
  rcases List.mem_append.1 hd with hd | hd
  · exact h.calls d (by simp [hmem, hd])
  · rcases List.mem_cons.1 hd with rfl | hd
    · exact hsound
    · exact h.calls d (by simp [hmem, hd])

/-- A statement that inserts nothing. -/
theorem KeyedCalls.same {rows : TemplateRows} (h : KeyedCalls rows (pre ++ c :: post))
    (hown : c'.own = c.own) : KeyedCalls rows (pre ++ c' :: post) := by
  have hmap : ∀ {α : Type} (f : TemplateRows → List α),
      (pre ++ c' :: post).map (fun d => f d.own) = (pre ++ c :: post).map fun d => f d.own := by
    simp [hown]
  obtain ⟨hids, hrevisions, hrequests, hversions⟩ := h
  exact ⟨hmap (·.revisions) ▸ hids, hmap (·.revisions) ▸ hrevisions,
    hmap (·.instantiations) ▸ hrequests, hmap (·.stateVersions) ▸ hversions⟩

theorem KeyedCalls.rollback {rows : TemplateRows} (h : KeyedCalls rows (pre ++ c :: post)) :
    KeyedCalls rows (pre ++ post) := by
  obtain ⟨hids, hrevisions, hrequests, hversions⟩ := h
  rw [List.map_append, List.map_cons] at hids hrevisions hrequests hversions
  refine ⟨?_, ?_, ?_, ?_⟩ <;> rw [List.map_append]
  · exact hids.rollback
  · exact hrevisions.rollback
  · exact hrequests.rollback
  · exact hversions.rollback

theorem KeyedCalls.commit {rows : TemplateRows} (h : KeyedCalls rows (pre ++ c :: post)) :
    KeyedCalls (rows.append c.own) (pre ++ post) := by
  obtain ⟨hids, hrevisions, hrequests, hversions⟩ := h
  rw [List.map_append, List.map_cons] at hids hrevisions hrequests hversions
  refine ⟨?_, ?_, ?_, ?_⟩ <;> rw [List.map_append]
  · exact hids.commit
  · exact hrevisions.commit
  · exact hrequests.commit
  · exact hversions.commit

theorem KeyedCalls.start {rows : TemplateRows} {calls : List TemplateCall}
    (h : KeyedCalls rows calls) (hown : c.own = .nil) : KeyedCalls rows (c :: calls) := by
  obtain ⟨hids, hrevisions, hrequests, hversions⟩ := h
  refine ⟨?_, ?_, ?_, ?_⟩ <;> rw [List.map_cons, hown]
  · exact hids.begin
  · exact hrevisions.begin
  · exact hrequests.begin
  · exact hversions.begin

theorem KeyedCalls.restart {rows : TemplateRows} (h : KeyedCalls rows (pre ++ post))
    (hown : c.own = .nil) : KeyedCalls rows (pre ++ c :: post) := by
  obtain ⟨hids, hrevisions, hrequests, hversions⟩ := h
  rw [List.map_append] at hids hrevisions hrequests hversions
  refine ⟨?_, ?_, ?_, ?_⟩ <;> rw [List.map_append, List.map_cons, hown]
  · exact hids.restart
  · exact hrevisions.restart
  · exact hrequests.restart
  · exact hversions.restart

/-- Rows with fresh keys of their own. -/
def InsertsFresh {α β : Type} (key : α → β) (rows delta : List α) (others : List (List α)) : Prop :=
  Keyed key delta ∧ ∀ r ∈ delta, FreshAcross key rows others (key r)

theorem InsertsFresh.nil {α β : Type} {key : α → β} {rows : List α} {others : List (List α)} :
    InsertsFresh key rows [] others :=
  ⟨List.nodup_nil, by simp⟩

/-- Rows that a call inserts beside those it has inserted. -/
theorem KeyedCalls.insert {rows : TemplateRows} (delta : TemplateRows)
    (h : KeyedCalls rows (pre ++ c :: post)) (hown : c'.own = c.own.append delta)
    (hids : InsertsFresh (·.id) rows.revisions delta.revisions
      ((pre ++ c :: post).map (·.own.revisions)))
    (hrevisions : InsertsFresh (·.regionId) rows.revisions delta.revisions
      ((pre ++ c :: post).map (·.own.revisions)))
    (hrequests : InsertsFresh (·.requestId) rows.instantiations delta.instantiations
      ((pre ++ c :: post).map (·.own.instantiations)))
    (hversions : InsertsFresh (·.key) rows.stateVersions delta.stateVersions
      ((pre ++ c :: post).map (·.own.stateVersions))) :
    KeyedCalls rows (pre ++ c' :: post) := by
  simp only [List.map_append, List.map_cons] at hids hrevisions hrequests hversions
  obtain ⟨h₀, h₁, h₂, h₃⟩ := h
  rw [List.map_append, List.map_cons] at h₀ h₁ h₂ h₃
  refine ⟨?_, ?_, ?_, ?_⟩ <;> rw [List.map_append, List.map_cons, hown]
  · exact h₀.insert_all hids.1 hids.2
  · exact h₁.insert_all hrevisions.1 hrevisions.2
  · exact h₂.insert_all hrequests.1 hrequests.2
  · exact h₃.insert_all hversions.1 hversions.2

/-- A key that the committed rows do not have, nor the rows of the call that inserts it or of
another call. -/
theorem freshAcross_calls {α β : Type} {key : α → β} {rows : List α} {own : TemplateCall → List α}
    {k : β} (hrows : ∀ r ∈ rows, key r ≠ k) (hown : ∀ r ∈ own c, key r ≠ k)
    (hothers : ∀ d ∈ pre ++ post, ∀ r ∈ own d, key r ≠ k) :
    FreshAcross key rows ((pre ++ c :: post).map own) k := by
  refine ⟨hrows, fun o ho r hr => ?_⟩
  obtain ⟨d, hd, rfl⟩ := List.mem_map.1 ho
  rcases List.mem_append.1 hd with hd | hd
  · exact hothers d (List.mem_append_left _ hd) r hr
  · rcases List.mem_cons.1 hd with rfl | hd
    · exact hown r hr
    · exact hothers d (List.mem_append_right _ hd) r hr

end

theorem activeRevision_eq_some {regionId : Uuid} {regions : List Region} {active : PublishedRevision}
    (h : activeRevision regionId regions rows = some active) :
    active ∈ rows.revisions ∧ ∃ region ∈ regions, region.id = regionId ∧
      region.activeTopologyRevisionId = some active.id := by
  obtain ⟨region, hregion, h⟩ := Option.bind_eq_some_iff.1 h
  obtain ⟨id, hid, h⟩ := Option.bind_eq_some_iff.1 h
  have hactive : active.id = id := by simpa using List.find?_some h
  exact ⟨List.mem_of_find?_eq_some h, region, List.mem_of_find?_eq_some hregion,
    by simpa using List.find?_some hregion, hactive ▸ hid⟩

/-- Activating revisions that are there. -/
theorem ActiveRevisions.activate {regions : List Region} {c : TemplateCall}
    (h : ActiveRevisions regions rows) :
    ActiveRevisions (c.activate regions) (rows.append c.own) := by
  have hfold : ∀ (revisions : List PublishedRevision) (regions : List Region),
      (∀ r ∈ revisions, r ∈ (rows.append c.own).revisions) →
      ActiveRevisions regions (rows.append c.own) →
      ActiveRevisions (revisions.foldl (fun regions r => activateRevision r.regionId r.id regions)
        regions) (rows.append c.own) := by
    intro revisions
    induction revisions with
    | nil => exact fun _ _ h => h
    | cons r revisions ih =>
      intro regions hrevisions hactive
      obtain ⟨hr, hrevisions⟩ := List.forall_mem_cons.1 hrevisions
      refine ih _ hrevisions fun region' hregion' id hid => ?_
      obtain ⟨region, hregion, rfl⟩ := mem_updateWhere.1 hregion'
      by_cases hp : region.id = r.regionId
      · simp only [hp, decide_true, if_true] at hid ⊢
        exact ⟨r, hr, Option.some.inj hid, rfl⟩
      · simp only [hp, decide_false, Bool.false_eq_true, if_false] at hid ⊢
        exact hactive region hregion id hid
  refine hfold c.own.revisions regions (fun r hr => List.mem_append_right _ hr) ?_
  intro region hregion id hid
  obtain ⟨r, hr, hrid⟩ := h region hregion id hid
  exact ⟨r, List.mem_append_left _ hr, hrid⟩

/-- The calls that are left are calls. -/
theorem mem_calls_left {c d : TemplateCall} {pre post : List TemplateCall}
    (hmem : s.calls = pre ++ c :: post) (hd : d ∈ pre ++ post) : d ∈ s.calls := by
  rw [hmem]
  exact List.mem_append.2 ((List.mem_append.1 hd).imp_right (List.mem_cons_of_mem _))

theorem TemplateStep.sound (h : s.Sound T) (hstep : TemplateStep T s l t) : t.Sound T := by
  cases hstep with
  | call =>
    refine ⟨h.keyed.start rfl, h.active, fun c hc => ?_, h.answered, h.recorded⟩
    rcases List.mem_cons.1 hc with rfl | hc
    · exact .started
    · exact h.calls c hc
  | @find c pre post existing hmem hphase hread hdigest =>
    have hc := h.calls c (by simp [hmem])
    have hkeyed := hmem ▸ h.keyed
    obtain ⟨request, retried, phase, own⟩ := c
    obtain rfl : phase = .started := hphase
    cases hc
    refine h.statement hmem (.found fun i hi => ?_) (hkeyed.same rfl)
    obtain rfl := Option.mem_def.1 hi
    have hid := List.find?_some hread
    exact ⟨List.mem_of_find?_eq_some hread, of_decide_eq_true hid, by simpa using hdigest⟩
  | @readActive c pre post existing resolution active topology hmem hphase hresolve hactive
      htopology =>
    have hc := h.calls c (by simp [hmem])
    have hkeyed := hmem ▸ h.keyed
    obtain ⟨request, retried, phase, own⟩ := c
    obtain rfl : phase = .found existing := hphase
    cases hc with
    | found hfound =>
    obtain ⟨⟨⟩, -, htopology⟩ := Except.bind_eq_ok.1 htopology
    obtain rfl := (Except.ok.inj htopology).symm
    obtain ⟨hrevision, region, hregion, hid, hactive⟩ := activeRevision_eq_some hactive
    obtain ⟨r, hr, hrid, hrregion⟩ := h.active region hregion active.id hactive
    refine h.statement hmem (.resolved hfound hresolve rfl ?_ rfl rfl) (hkeyed.same rfl)
    exact ⟨r, List.mem_append_left _ hr, hrid, hrregion.trans hid⟩
  | @readInactive c pre post existing resolution hmem hphase hresolve hactive heligible =>
    have hc := h.calls c (by simp [hmem])
    have hkeyed := hmem ▸ h.keyed
    obtain ⟨request, retried, phase, own⟩ := c
    obtain rfl : phase = .found existing := hphase
    cases hc with
    | found hfound => exact h.statement hmem (.inactive hfound hresolve) (hkeyed.same rfl)
  | @createTopology c pre post existing resolution revisionId componentId hmem hphase hkeys hwait hid
      hids hdistinct =>
    have hc := h.calls c (by simp [hmem])
    have hkeyed := hmem ▸ h.keyed
    rw [hmem] at hid
    obtain ⟨request, retried, phase, own⟩ := c
    obtain rfl : phase = .inactive existing resolution := hphase
    simp only [TemplateCall.violates, Bool.or_eq_false_iff, List.any_eq_false,
      decide_eq_true_eq] at hkeys
    cases hc with
    | inactive hfound hresolve =>
    refine h.statement hmem (.resolved hfound hresolve rfl ?_ rfl rfl) ?_
    · exact ⟨_, List.mem_append_right _ (List.mem_singleton_self _), rfl, rfl⟩
    · refine hkeyed.insert (topologyRows request.content.targetRegionId revisionId componentId
        resolution) rfl ⟨List.nodup_singleton _, fun r hr => ?_⟩
        ⟨List.nodup_singleton _, fun r hr => ?_⟩ .nil .nil
      · obtain rfl := List.mem_singleton.1 hr
        exact hid
      · obtain rfl := List.mem_singleton.1 hr
        exact freshAcross_calls hkeys.1 (by simp [TemplateRows.nil]) hwait
  | @compare c pre post existing resolution topology hmem hphase hsame =>
    have hc := h.calls c (by simp [hmem])
    have hkeyed := hmem ▸ h.keyed
    obtain ⟨request, retried, phase, own⟩ := c
    obtain rfl : phase = .resolved (some existing) resolution topology := hphase
    cases hc with
    | resolved hfound hresolve hregion hrevision hinstantiations hversions =>
    obtain ⟨hi, hrequest, hdigest⟩ := hfound existing rfl
    refine h.statement hmem (.publishing hresolve
      (show resolution.initialStates = [] ++ resolution.initialStates from rfl)
      (List.mem_append_left _ hi) ⟨hrequest, hdigest, rfl, hsame.2.1.symm, hregion⟩ rfl hrevision
      (by simp) (Or.inl ⟨hinstantiations, rfl⟩)) (hkeyed.same rfl)
  | @record c pre post resolution topology id hmem hphase hkeys hwait hid =>
    have hc := h.calls c (by simp [hmem])
    have hkeyed := hmem ▸ h.keyed
    obtain ⟨request, retried, phase, own⟩ := c
    obtain rfl : phase = .resolved none resolution topology := hphase
    simp only [TemplateCall.violates, List.any_eq_false, decide_eq_true_eq] at hkeys
    cases hc with
    | resolved hfound hresolve hregion hrevision hinstantiations hversions =>
    refine h.statement hmem (.publishing hresolve
      (show resolution.initialStates = [] ++ resolution.initialStates from rfl)
      (i := instantiationRow T request resolution topology id) ?_
      ⟨rfl, rfl, rfl, rfl, hregion⟩ rfl ?_ (by simp) (Or.inr ?_)) ?_
    · rw [TemplateRows.append_assoc]
      exact List.mem_append_right _ (List.mem_singleton_self _)
    · rw [TemplateRows.append_assoc]
      exact hrevision.within (TemplateRows.within_append _ _)
    · simp [TemplateRows.append, hinstantiations]
    · refine hkeyed.insert _ rfl .nil .nil ⟨List.nodup_singleton _, fun i hi => ?_⟩ .nil
      obtain rfl := List.mem_singleton.1 hi
      exact freshAcross_calls hkeys (by simp [hinstantiations]) hwait
  | @publish c pre post owner result state remaining artifactId delta hmem hphase hid hop hwait =>
    have hc := h.calls c (by simp [hmem])
    have hkeyed := hmem ▸ h.keyed
    obtain ⟨request, retried, phase, own⟩ := c
    obtain rfl : phase = .publishing owner result (state :: remaining) := hphase
    obtain ⟨hrevisions, -, hinstantiations, ⟨_, -, -, -, hversions⟩, hversion⟩ :=
      publishInitialState_eq_ok hop
    cases hc with
    | @publishing _ _ _ _ _ _ i resolution published hresolve hstates hi hanswers howner hrevision
        hpublished hrecorded =>
    refine h.statement hmem (.publishing hresolve
      (show resolution.initialStates = (published ++ [state]) ++ remaining by simp [hstates]) (i := i) ?_ hanswers howner ?_ (fun st hst => ?_) ?_) ?_
    · rw [TemplateRows.append_assoc]
      exact List.mem_append_left _ hi
    · rw [TemplateRows.append_assoc]
      exact hrevision.within (TemplateRows.within_append _ _)
    · rw [TemplateRows.append_assoc]
      rcases List.mem_append.1 hst with hst | hst
      · exact (hpublished st hst).within (TemplateRows.within_append _ _)
      · rw [List.mem_singleton.1 hst, ← howner]
        exact hversion
    · simpa [TemplateRows.append, hinstantiations] using hrecorded
    · refine hkeyed.insert _ rfl (hrevisions ▸ .nil) (hrevisions ▸ .nil) (hinstantiations ▸ .nil) ?_
      rcases hversions with hnone | ⟨v, hone, -, -, hfresh⟩
      · exact hnone ▸ .nil
      · rw [hone]
        refine ⟨List.nodup_singleton _, fun w hw => ?_⟩
        obtain rfl := List.mem_singleton.1 hw
        refine freshAcross_calls (fun x hx => hfresh x (List.mem_append_left _ hx))
          (fun x hx => hfresh x (List.mem_append_right _ hx)) fun d hd x hx => ?_
        have hfree := hwait d hd
        simp only [TemplateRows.free, insertsFreely, Bool.and_eq_true, hone] at hfree
        simpa using List.all_eq_true.1 (List.all_eq_true.1 hfree.1.2 w (by simp)) x hx
  | @commit c pre post owner result hmem hphase =>
    have hc := h.calls c (by simp [hmem])
    have hkeyed := hmem ▸ h.keyed
    have hwithin := TemplateRows.within_append s.rows c.own
    refine ⟨hkeyed.commit, h.active.activate, fun d hd =>
      (h.calls d (mem_calls_left hmem hd)).within hwithin, fun a ha => ?_, ?_⟩
    · rcases List.mem_cons.1 ha with rfl | ha
      · obtain ⟨request, retried, phase, own⟩ := c
        obtain rfl : phase = .publishing owner result [] := hphase
        cases hc with
        | @publishing _ _ _ _ _ _ i resolution published hresolve hstates hi hanswers _ hrevision
            hpublished hrecorded =>
        refine ⟨⟨i, hi, hanswers⟩, hrevision, ⟨resolution, hresolve, ?_⟩, fun hnot => ?_⟩
        · simpa [hstates] using hpublished
        · rcases hrecorded with ⟨-, hexisting⟩ | hone
          · exact hexisting
          · simp [hone] at hnot
      · exact (h.answered a ha).within hwithin
    · obtain ⟨request, retried, phase, own⟩ := c
      obtain rfl : phase = .publishing owner result [] := hphase
      cases hc with
      | @publishing _ _ _ _ _ _ i _ _ _ _ _ hanswers _ _ _ hrecorded =>
      rcases hrecorded with ⟨hnone, -⟩ | hone
      · simpa [TemplateRows.append, hnone] using h.recorded
      · simp only [TemplateRows.append, hone, List.isEmpty_cons, Bool.not_false, List.filter_cons,
          if_true, List.map_cons, List.map_append, List.map_nil, hanswers.1]
        exact (h.recorded.cons _).trans (List.perm_append_singleton _ _).symm
  | @fail c pre post hmem =>
    have hkeyed := hmem ▸ h.keyed
    exact ⟨hkeyed.rollback, h.active, fun d hd => h.calls d (mem_calls_left hmem hd), h.answered,
      h.recorded⟩
  | @retry c pre post hmem hretried hviolates =>
    have hkeyed := hmem ▸ h.keyed
    exact h.statement hmem .started (hkeyed.rollback.restart rfl)

theorem reachable_templateService (h : (templateService T).Reachable s) : s.Sound T := by
  refine h.invariant (I := fun s => s.Sound T) (fun s (hs : s.Initial) => ?_)
    fun s l t hsound hstep => TemplateStep.sound hsound hstep
  refine ⟨⟨?_, ?_, ?_, ?_⟩, hs.active, by simp [hs.calls], by simp [hs.answered], ?_⟩
  · exact hs.calls ▸ .of_nil hs.revisionIds
  · exact hs.calls ▸ .of_nil hs.revisions
  · exact hs.calls ▸ .of_nil (by simp [hs.instantiations, Keyed])
  · exact hs.calls ▸ .of_nil hs.stateVersions
  · simp [hs.answered, hs.instantiations]

/-- For every interleaving of calls, a request id with an answered call has one instantiation, one
revision and one set of initial versions, every answer has their ids, and only answered calls change
rows. -/
theorem instantiation_idempotent (h : (templateService T).Reachable s) : s.Idempotent T := by
  have hsound := reachable_templateService h
  have hrequests := hsound.keyed.requests.committed
  refine ⟨fun a ha => ?_, fun a ha => ?_, fun a ha => (hsound.answered a ha).initialStates,
    hsound.keyed.versions.committed, fun a ha => ?_, fun a ha => (hsound.answered a ha).existing,
    fun l t hstep => ?_⟩
  · obtain ⟨i, hi, hrequest, hanswers⟩ := (hsound.answered a ha).instantiation
    refine ⟨i, hrequests.filter_eq_singleton hi fun j _ => ?_, hanswers⟩
    simp [hrequest]
  · obtain ⟨r, hr, hid, hregion⟩ := (hsound.answered a ha).revision
    rw [hsound.keyed.revisions.committed.filter_eq_singleton hr fun x _ => by simp [hregion]]
    simp [hid]
  · obtain ⟨i, hi, hrequest, -⟩ := (hsound.answered a ha).instantiation
    have hmem : a.request.id T ∈ s.rows.instantiations.map (·.requestId) :=
      hrequest ▸ List.mem_map_of_mem hi
    have hcount := (hsound.recorded.count_eq (a.request.id T)).trans
      (List.count_eq_one_of_mem hrequests hmem)
    rw [List.count, List.countP_map, List.countP_filter] at hcount
    rw [← List.countP_eq_length_filter, ← hcount]
    refine List.countP_congr fun b _ => ?_
    simp [and_comm]
  · have hrows : TemplateStep T s l t := hstep
    cases hrows with
    | commit => exact Or.inr ⟨_, rfl⟩
    | _ => exact Or.inl ⟨rfl, rfl, rfl⟩

/-- One region, and one template with an instance that has an initial state. -/
def sampleTemplates : Templates where
  requestDigest content := content.targetRegionId
  deterministicRequestId digest := digest
  resolve content := .ok
    { templateId := 1, digest := content.targetRegionId, fanIn := [], ingressCommands := [],
      instances := [⟨"press", 400⟩], connections := []
      initialStates := [⟨"press", "state", 500, "\x7b\x7d", 9, 2⟩] }

/-- A region without a topology. -/
def sampleRegions : TemplateService :=
  { rows := .nil, regions := [⟨100, none, "plant", .ready, 1, none⟩], calls := [], answered := [] }

/-- A request for the region. -/
def sampleRequest : InstantiationRequest :=
  ⟨some 7, 100, "press", .null, .null, .null⟩

theorem instantiation_idempotent_raced : ∃ s, (templateService sampleTemplates).Reachable s ∧
    s.answered.map (·.recorded) = [false, true] ∧ s.Idempotent sampleTemplates := by
  have hstart : (templateService sampleTemplates).Reachable sampleRegions :=
    .start ⟨List.nodup_nil, List.nodup_nil, List.nodup_nil, by simp [ActiveRevisions, sampleRegions],
      rfl, rfl, rfl⟩
  -- the first call reads that there is no topology
  have hread := ((hstart.next (@TemplateStep.call _ _ sampleRequest)).next
    (@TemplateStep.find _ _ _ [] [] none rfl rfl rfl rfl)).next
    (@TemplateStep.readInactive _ _ _ [] [] none _ rfl rfl rfl rfl rfl)
  -- the second call publishes it
  have hraced := ((hread.next (@TemplateStep.call _ _ sampleRequest)).next
    (@TemplateStep.find _ _ _ [] _ none rfl rfl rfl rfl)).next
    (@TemplateStep.readInactive _ _ _ [] _ none _ rfl rfl rfl rfl rfl)
  have hcreated := hraced.next
    (@TemplateStep.createTopology _ _ _ [] _ none _ 200 (fun _ => 300) rfl rfl rfl (by decide)
      ⟨by decide, by decide⟩ (fun _ _ => ⟨by decide, by decide⟩) (by decide))
  have hrecorded := hcreated.next
    (@TemplateStep.record _ _ _ [] _ _ _ 600 rfl rfl rfl (by decide) ⟨by decide, by decide⟩)
  have hpublished := hrecorded.next
    (@TemplateStep.publish _ _ _ [] _ _ _ _ _ 700 _ rfl rfl ⟨by decide, by decide⟩ rfl (by decide))
  have hcommitted := hpublished.next (@TemplateStep.commit _ _ _ [] _ _ _ rfl rfl)
  -- the first call breaks the unique key of the revision, and is run once more
  have hretried := hcommitted.next (@TemplateStep.retry _ _ _ [] [] rfl rfl rfl)
  have hfound := (hretried.next (@TemplateStep.find _ _ _ [] [] _ rfl rfl rfl rfl)).next
    (@TemplateStep.readActive _ _ _ [] [] _ _ _ _ rfl rfl rfl rfl rfl)
  have hcompared := hfound.next
    (@TemplateStep.compare _ _ _ [] [] _ _ _ rfl rfl ⟨rfl, rfl, rfl, rfl⟩)
  have hanswered := (hcompared.next
    (@TemplateStep.publish _ _ _ [] [] _ _ _ _ 701 _ rfl rfl ⟨by decide, by decide⟩ rfl
      (by decide))).next (@TemplateStep.commit _ _ _ [] [] _ _ rfl rfl)
  exact ⟨_, hanswered, rfl, instantiation_idempotent hanswered⟩

end FactoryFloor
