import FactoryFloor.Execution

/-!
# Leased groups

What one poll leases is a complete group (`LeasedGroup`) : its inputs are ready and due deliveries
of one group, each required port has the number of deliveries it expects, and each optional port
has none or that number. This holds over any delivery table.

`Pollers` are polls under way at the same time. Each has read its candidates, takes them one by
one, and holds the lock of every group it has tried until it ends. `pollers_lease_groups` says that
in every run each lease is a complete group, and no delivery is leased twice.
-/

namespace FactoryFloor

open Relational Transition

variable {P : Platform} {db db' db'' : Db} {now : Time}

/-! ## Counting -/

/-- The rows of every required port have their number. -/
theorem selectRequired_eq_some {rows : String → List Delivery} {expected : String → ℕ}
    {ports : List PortDefinition} {selected : List Delivery} :
    selectRequired rows expected ports = some selected ↔
      selected = ports.flatMap (fun p => rows p.name) ∧
        ∀ p ∈ ports, (rows p.name).length = expected p.name := by
  induction ports generalizing selected with
  | nil => simp [selectRequired, eq_comm]
  | cons port ports ih =>
    unfold selectRequired
    split
    · rename_i hlength
      simp only [Option.map_eq_some_iff, ih, List.flatMap_cons, List.forall_mem_cons, hlength,
        true_and]
      constructor
      · rintro ⟨_, ⟨rfl, hall⟩, rfl⟩
        exact ⟨rfl, hall⟩
      · rintro ⟨rfl, hall⟩
        exact ⟨_, ⟨rfl, hall⟩, rfl⟩
    · rename_i hlength
      simp [hlength]

/-- What is at a port that has its number. -/
def fullRows (rows : String → List Delivery) (expected : String → ℕ) (p : PortDefinition) :
    List Delivery :=
  if (rows p.name).length = expected p.name then rows p.name else []

theorem mem_fullRows {rows : String → List Delivery} {expected : String → ℕ} {p : PortDefinition}
    {d : Delivery} (h : d ∈ fullRows rows expected p) : d ∈ rows p.name := by
  unfold fullRows at h
  split at h
  · exact h
  · simp at h

/-- No optional port has more than its number, and those that have it are selected. -/
theorem selectOptional_eq_some {rows : String → List Delivery} {expected : String → ℕ}
    {ports : List PortDefinition} {selected : List Delivery} :
    selectOptional rows expected ports = some selected ↔
      selected = ports.flatMap (fullRows rows expected) ∧
        ∀ p ∈ ports, (rows p.name).length ≤ expected p.name := by
  induction ports generalizing selected with
  | nil => simp [selectOptional, eq_comm]
  | cons port ports ih =>
    unfold selectOptional
    split
    · rename_i hlength
      simp [not_le.2 hlength]
    · rename_i hlength
      simp only [Option.map_eq_some_iff, ih, List.flatMap_cons, List.forall_mem_cons,
        not_lt.1 hlength, true_and]
      constructor
      · rintro ⟨_, ⟨rfl, hall⟩, rfl⟩
        exact ⟨rfl, hall⟩
      · rintro ⟨rfl, hall⟩
        exact ⟨_, ⟨rfl, hall⟩, rfl⟩

/-- The deliveries of one of several ports with different names. -/
theorem filter_port_flatMap {f : PortDefinition → List Delivery}
    (hf : ∀ p, ∀ d ∈ f p, d.targetPortName = p.name) {ports : List PortDefinition}
    (hnames : (ports.map (·.name)).Nodup) {p : PortDefinition} (hp : p ∈ ports) :
    (ports.flatMap f).filter (·.targetPortName = p.name) = f p := by
  have hself : (f p).filter (·.targetPortName = p.name) = f p :=
    List.filter_eq_self.2 fun d hd => by simp [hf p d hd]
  have hother : ∀ q : PortDefinition, q.name ≠ p.name →
      (f q).filter (·.targetPortName = p.name) = [] :=
    fun q hq => List.filter_eq_nil_iff.2 fun d hd => by simp [hf q d hd, hq]
  induction ports with
  | nil => simp at hp
  | cons q ports ih =>
    obtain ⟨hq, hnames⟩ := List.nodup_cons.1 hnames
    rw [List.flatMap_cons, List.filter_append]
    rcases List.mem_cons.1 hp with rfl | hp
    · have hrest : (ports.flatMap f).filter (·.targetPortName = p.name) = [] := by
        refine List.filter_eq_nil_iff.2 fun d hd => ?_
        obtain ⟨r, hr, hd⟩ := List.mem_flatMap.1 hd
        have hne : r.name ≠ p.name := fun h => hq (List.mem_map.2 ⟨r, hr, h⟩)
        simp [hf r d hd, hne]
      rw [hself, hrest, List.append_nil]
    · have hne : q.name ≠ p.name := fun h => hq (List.mem_map.2 ⟨p, hp, h.symm⟩)
      rw [hother q hne, ih hnames hp, List.nil_append]

/-- Lists of different ports have nothing in common. -/
theorem nodup_port_flatMap {f : PortDefinition → List Delivery}
    (hf : ∀ p, ∀ d ∈ f p, d.targetPortName = p.name) (hnodup : ∀ p, (f p).Nodup)
    {ports : List PortDefinition} (hnames : (ports.map (·.name)).Nodup) :
    (ports.flatMap f).Nodup := by
  refine List.nodup_flatMap.2 ⟨fun p _ => hnodup p, ?_⟩
  refine (List.pairwise_map.1 hnames).imp fun hne d hp hq => hne ?_
  rw [← hf _ d hp, ← hf _ d hq]

/-! ## Complete groups -/

/-- The number of selected deliveries at a port. -/
def atPort (selected : List Delivery) (portName : String) : ℕ :=
  (selected.filter (·.targetPortName = portName)).length

/-- The primary key of deliveries, and the unique key of port definitions. -/
structure InputKeys (db : Db) : Prop where
  deliveries : Keyed (·.id) db.deliveries
  ports : Keyed (fun p => (p.componentDefinitionId, p.direction, p.name)) db.ports

/-- A complete group of inputs : due deliveries of one group, the expected number of them at each
required port, and none or the expected number at each optional port. -/
structure CompleteGroup (now : Time) (group : GroupKey) (component : ComponentInstance)
    (rules : List FanInRule) (db : Db) (selected : List Delivery) : Prop where
  due : ∀ d ∈ selected, d ∈ db.deliveries ∧ d.status = .ready ∧ d.availableAt ≤ now ∧
    d.toGroupKey = group
  distinct : (selected.map (·.id)).Nodup
  ports : ∀ d ∈ selected, ∃ p ∈ inputPorts db component, p.name = d.targetPortName
  required : ∀ p ∈ inputPorts db component, p.required →
    atPort selected p.name = fanInExpected rules component.name p.name
  optional : ∀ p ∈ inputPorts db component, p.required = false →
    atPort selected p.name = 0 ∨ atPort selected p.name = fanInExpected rules component.name p.name

/-- The input ports of a definition have different names. -/
theorem nodup_portNames (hk : InputKeys db) (component : ComponentInstance) :
    ((inputPorts db component).map (·.name)).Nodup := by
  refine List.Nodup.map_on ?_ ((List.Nodup.of_map _ hk.ports).filter _)
  intro p hp q hq hname
  simp only [inputPorts, List.mem_filter, Bool.and_eq_true, decide_eq_true_eq] at hp hq
  refine hk.ports.eq hp.1 hq.1 ?_
  rw [hp.2.1, hp.2.2, hq.2.1, hq.2.2, hname]

/-- What a poll selects, up to the order. -/
theorem selectGroup_eq_some {candidate : Delivery} {component : ComponentInstance}
    {rules : List FanInRule} {selected : List Delivery}
    (h : selectGroup now candidate component rules db = some selected) :
    selected.Perm ((inputPorts db component).flatMap
        (fullRows (dueAt now candidate.toGroupKey db) (fanInExpected rules component.name))) ∧
      ∀ p ∈ inputPorts db component,
        (p.required → (dueAt now candidate.toGroupKey db p.name).length =
          fanInExpected rules component.name p.name) ∧
        (dueAt now candidate.toGroupKey db p.name).length ≤
          fanInExpected rules component.name p.name := by
  unfold selectGroup at h
  dsimp only at h
  split at h
  swap
  · simp at h
  split at h
  swap
  · simp at h
  rename_i required optional hrequired hoptional
  split at h
  · simp at h
  obtain rfl := Option.some.inj h
  obtain ⟨rfl, hexact⟩ := selectRequired_eq_some.1 hrequired
  obtain ⟨rfl, hmost⟩ := selectOptional_eq_some.1 hoptional
  constructor
  · refine (List.perm_insertionSort _ _).trans ?_
    have hfull : (List.filter (·.required) (inputPorts db component)).flatMap
        (fun p => dueAt now candidate.toGroupKey db p.name) =
        (List.filter (·.required) (inputPorts db component)).flatMap (fullRows
          (dueAt now candidate.toGroupKey db) (fanInExpected rules component.name)) :=
      List.flatMap_congr fun p hp => by rw [fullRows, if_pos (hexact p hp)]
    rw [hfull, ← List.flatMap_append]
    exact (List.filter_append_perm _ _).flatMap_right _
  · intro p hp
    by_cases hrequired : p.required
    · have h := hexact p (List.mem_filter.2 ⟨hp, hrequired⟩)
      exact ⟨fun _ => h, h.le⟩
    · exact ⟨fun h => absurd h hrequired, hmost p (List.mem_filter.2 ⟨hp, by simpa using hrequired⟩)⟩

/-- What a poll selects is a complete group. -/
theorem selectGroup_complete (hk : InputKeys db) {candidate : Delivery}
    {component : ComponentInstance} {rules : List FanInRule} {selected : List Delivery}
    (h : selectGroup now candidate component rules db = some selected) :
    CompleteGroup now candidate.toGroupKey component rules db selected := by
  have hdue := (mem_selectGroup h).2
  obtain ⟨hperm, hcount⟩ := selectGroup_eq_some h
  have hf : ∀ p, ∀ d ∈ fullRows (dueAt now candidate.toGroupKey db)
      (fanInExpected rules component.name) p, d.targetPortName = p.name := by
    intro p d hd
    have hrow := (List.mem_filter.1 (mem_fullRows hd)).2
    simp only [Bool.and_eq_true, decide_eq_true_eq] at hrow
    exact hrow.2
  have hnames := nodup_portNames hk component
  have hat : ∀ p ∈ inputPorts db component, atPort selected p.name =
      (fullRows (dueAt now candidate.toGroupKey db) (fanInExpected rules component.name) p).length := by
    intro p hp
    rw [atPort, (hperm.filter _).length_eq, filter_port_flatMap hf hnames hp]
  have hnodup : ∀ p, (fullRows (dueAt now candidate.toGroupKey db)
      (fanInExpected rules component.name) p).Nodup := by
    intro p
    unfold fullRows
    split
    · exact (List.Nodup.of_map _ hk.deliveries).filter _
    · exact List.nodup_nil
  refine ⟨fun d hd => ?_, ?_, fun d hd => ?_, fun p hp hrequired => ?_, fun p hp _ => ?_⟩
  · obtain ⟨hmem, hd⟩ := hdue d hd
    simp only [due, Bool.and_eq_true, decide_eq_true_eq] at hd
    exact ⟨hmem, hd.1.1, hd.2, hd.1.2⟩
  · refine List.Nodup.map_on (fun d hd e he hid => ?_)
      (hperm.nodup_iff.2 (nodup_port_flatMap hf hnodup hnames))
    exact hk.deliveries.eq (hdue d hd).1 (hdue e he).1 hid
  · obtain ⟨p, hp, hd⟩ := List.mem_flatMap.1 (hperm.mem_iff.1 hd)
    exact ⟨p, hp, (hf p d hd).symm⟩
  · rw [hat p hp, fullRows, if_pos ((hcount p hp).1 hrequired), (hcount p hp).1 hrequired]
  · rw [hat p hp, fullRows]
    split
    · rename_i h
      exact Or.inr h
    · exact Or.inl rfl

/-! ## What a poll does to the deliveries -/

/-- No delivery with this id is ready. -/
def Unready (id : Uuid) (db : Db) : Prop :=
  ∀ d ∈ db.deliveries, d.id = id → d.status ≠ .ready

/-- A poll makes no delivery ready, and adds none. -/
structure Takes (db db' : Db) : Prop where
  ids : db'.deliveries.map (·.id) = db.deliveries.map (·.id)
  ports : db'.ports = db.ports
  unready : ∀ id, Unready id db → Unready id db'

theorem Takes.of_eq (hdeliveries : db'.deliveries = db.deliveries) (hports : db'.ports = db.ports) :
    Takes db db' :=
  ⟨by rw [hdeliveries], hports, fun id h => by unfold Unready; rwa [hdeliveries]⟩

theorem Takes.refl : Takes db db :=
  .of_eq rfl rfl

/-- A poll that goes on after writes to other tables. -/
theorem Takes.after (h : Takes db' db'') (hdeliveries : db'.deliveries = db.deliveries)
    (hports : db'.ports = db.ports) : Takes db db'' := by
  refine ⟨by rw [h.ids, hdeliveries], h.ports.trans hports, fun id hid => h.unready id ?_⟩
  unfold Unready
  rwa [hdeliveries]

theorem Takes.trans (h : Takes db db') (h' : Takes db' db'') : Takes db db'' :=
  ⟨h'.ids.trans h.ids, h'.ports.trans h.ports, fun id hid => h'.unready id (h.unready id hid)⟩

theorem Takes.keys (h : Takes db db') (hk : InputKeys db) : InputKeys db' := by
  refine ⟨?_, ?_⟩
  · unfold Keyed
    rw [h.ids]
    exact hk.deliveries
  · rw [h.ports]
    exact hk.ports

/-- An update of deliveries that makes none ready. -/
theorem Takes.update {p : Delivery → Bool} {f : Delivery → Delivery}
    (h : db' = { db with deliveries := updateWhere p f db.deliveries })
    (hid : ∀ d, (f d).id = d.id) (hf : ∀ d, (f d).status = .ready → d.status = .ready) :
    Takes db db' := by
  subst h
  refine ⟨map_updateWhere _ hid _, rfl, fun id hunready d hd hd' => ?_⟩
  obtain ⟨e, he, rfl⟩ := mem_updateWhere.1 hd
  by_cases hp : p e
  · rw [if_pos hp] at hd' ⊢
    exact fun hready => hunready e he ((hid e).symm.trans hd') (hf e hready)
  · rw [if_neg hp] at hd' ⊢
    exact hunready e he hd'

theorem deferGroup_takes {group : GroupKey} (h : deferGroup now group db = .ok db') :
    Takes db db' :=
  .update (updateDeliveries_eq_ok.1 h).1 (fun _ => rfl) fun _ => id

theorem insertInputs_takes {executionId : Uuid} {selected : List Delivery}
    (h : insertInputs executionId db selected = .ok db') : Takes db db' := by
  obtain ⟨inputs, rfl, -, -⟩ := insertInputs_eq_ok h
  exact .of_eq rfl rfl

theorem syncAttemptDeliveryLease_takes {inputs : List ExecutionInput}
    {deliveries : List Delivery} {old new : ExecutionAttempt}
    (h : syncAttemptDeliveryLease inputs db.deliveries old new = .ok deliveries) :
    Takes db { db with deliveries } := by
  unfold syncAttemptDeliveryLease at h
  split at h
  · obtain rfl := Except.ok.inj h
    exact .refl
  · split at h
    · obtain ⟨rfl, -⟩ := update_eq_ok.1 h
      exact .update rfl (fun _ => rfl) fun _ h => nomatch h
    · obtain rfl := Except.ok.inj h
      exact .refl

theorem updateAttempts_takes {p : ExecutionAttempt → Bool} {f : ExecutionAttempt → ExecutionAttempt}
    (h : updateAttempts p f db = .ok db') : Takes db db' := by
  obtain ⟨deliveries, hfold, rfl, -⟩ := updateAttempts_eq_ok.1 h
  have htakes : Takes db { db with deliveries } :=
    Except.foldlM_invariant (I := fun ds => Takes db { db with deliveries := ds })
      (fun _ _ _ _ hb hstep => hb.trans (syncAttemptDeliveryLease_takes hstep)) .refl hfold
  exact ⟨htakes.ids, htakes.ports, htakes.unready⟩

theorem leaseAttempt_takes {executionId : Uuid} {owner : String} {expiresAt : Time}
    {result : Option ExecutionAttempt}
    (h : leaseAttempt P now executionId owner expiresAt db = .ok (result, db')) : Takes db db' := by
  rcases leaseAttempt_eq_ok h with ⟨a, -, -, -, -, hupdate⟩ | ⟨-, rfl, -⟩ | ⟨-, a, -, -, -, -, -, -, -, rfl⟩
  · have htakes := updateAttempts_takes hupdate
    exact ⟨htakes.ids, htakes.ports, htakes.unready⟩
  · exact .refl
  · exact .of_eq rfl rfl

/-- The selected deliveries are leased. -/
theorem leaseDeliveries_takes {selected : List Delivery} {lease : Option Lease}
    (h : leaseDeliveries selected lease db = .ok db') :
    Takes db db' ∧ ∀ d ∈ selected, Unready d.id db' := by
  have h := (updateDeliveries_eq_ok.1 h).1
  refine ⟨.update h (fun _ => rfl) (fun _ h => nomatch h), fun d hd => ?_⟩
  subst h
  intro e he hid
  obtain ⟨f, hf, rfl⟩ := mem_updateWhere.1 he
  have hfid : f.id = d.id := by
    split at hid <;> exact hid
  rw [if_pos (by simpa using ⟨d, hd, hfid.symm⟩)]
  simp

/-- A delivery as an input of a lease. -/
def Delivery.asInput (d : Delivery) : LeasedInput :=
  { portName := d.targetPortName, deliveryId := d.id, payload := d.inputPayload }

/-- An execution's lease is of the selected deliveries, and none of them is ready any more. -/
theorem leaseExecution_takes {owner : String} {expiresAt : Time} {group : GroupKey}
    {selected : List Delivery} {execution : Execution} {created : Bool}
    {leased : Option LeasedExecutionAttempt}
    (h : leaseExecution P now owner expiresAt group selected execution created db =
      .ok (leased, db')) :
    Takes db db' ∧ ∀ l, leased = some l → l.inputs = selected.map Delivery.asInput ∧
      ∀ d ∈ selected, Unready d.id db' := by
  unfold leaseExecution at h
  obtain ⟨⟨admission, db₁⟩, hreserve, h⟩ := Except.bind_eq_ok.1 h
  obtain ⟨reservations, m, -, rfl⟩ := reserveInTransaction_frame hreserve
  dsimp only at h
  split at h
  · obtain ⟨db₂, hdefer, h⟩ := Except.bind_eq_ok.1 h
    obtain ⟨rfl, rfl⟩ := Prod.mk.inj (Except.ok.inj h)
    exact ⟨(deferGroup_takes hdefer).after rfl rfl, by simp⟩
  · obtain ⟨db₂, hinputs, h⟩ := Except.bind_eq_ok.1 h
    have htakes : Takes db db₂ := (insertInputs_takes hinputs).after rfl rfl
    obtain ⟨⟨result, db₃⟩, hattempt, h⟩ := Except.bind_eq_ok.1 h
    have htakes := htakes.trans (leaseAttempt_takes hattempt)
    cases result with
    | none =>
      obtain ⟨db₄, hdefer, h⟩ := Except.bind_eq_ok.1 h
      obtain ⟨rfl, rfl⟩ := Prod.mk.inj (Except.ok.inj h)
      exact ⟨htakes.trans (deferGroup_takes hdefer), by simp⟩
    | some attempt =>
      obtain ⟨db₄, hlease, h⟩ := Except.bind_eq_ok.1 h
      obtain ⟨lease, -, h⟩ := Except.bind_eq_ok.1 h
      obtain ⟨rfl, rfl⟩ := Prod.mk.inj (Except.ok.inj h)
      obtain ⟨htakes', hunready⟩ := leaseDeliveries_takes hlease
      exact ⟨htakes.trans htakes', fun l hl => by
        obtain rfl := Option.some.inj hl
        exact ⟨rfl, hunready⟩⟩

/-- A lease granted for a candidate : what a poll selects in the candidate's group, with the region
running. -/
def IsLeaseOf (now : Time) (candidate : Delivery) (db : Db) (leased : LeasedExecutionAttempt) :
    Prop :=
  ∃ selected, db.Selects now candidate selected ∧ leased.inputs = selected.map Delivery.asInput

theorem tryCandidate_takes {owner : String} {expiresAt : Time} {acquired : GroupKey → Bool}
    {candidate : Delivery} {leased : Option LeasedExecutionAttempt}
    (h : tryCandidate P now owner expiresAt acquired candidate db = .ok (leased, db')) :
    Takes db db' ∧ ∀ l, leased = some l → IsLeaseOf now candidate db l ∧
      ∀ i ∈ l.inputs, Unready i.deliveryId db' := by
  unfold tryCandidate at h
  dsimp only at h
  split at h
  · obtain ⟨rfl, rfl⟩ := Prod.mk.inj (Except.ok.inj h)
    exact ⟨.refl, by simp⟩
  obtain ⟨region, hregion, h⟩ := Except.bind_eq_ok.1 h
  split at h
  · obtain ⟨db₁, hdefer, h⟩ := Except.bind_eq_ok.1 h
    obtain ⟨rfl, rfl⟩ := Prod.mk.inj (Except.ok.inj h)
    exact ⟨deferGroup_takes hdefer, by simp⟩
  rename_i hrunning
  obtain ⟨component, hcomponent, h⟩ := Except.bind_eq_ok.1 h
  obtain ⟨revision, hrevision, h⟩ := Except.bind_eq_ok.1 h
  split at h
  · obtain ⟨db₁, hdefer, h⟩ := Except.bind_eq_ok.1 h
    obtain ⟨rfl, rfl⟩ := Prod.mk.inj (Except.ok.inj h)
    exact ⟨deferGroup_takes hdefer, by simp⟩
  rename_i selected hselected
  have hselects : db.Selects now candidate selected :=
    ⟨region, component, revision, takeFirstOrThrow_eq_ok.1 hregion, by simpa using hrunning,
      takeFirstOrThrow_eq_ok.1 hcomponent, takeFirstOrThrow_eq_ok.1 hrevision, hselected⟩
  obtain ⟨⟨result, db₁⟩, hensure, h⟩ := Except.bind_eq_ok.1 h
  have htakes : Takes db db₁ := by
    rcases ensureExecution_eq_ok hensure with ⟨-, rfl⟩ | ⟨e, -, -, rfl, -⟩ | ⟨e, -, rfl, -⟩
    · exact .refl
    · exact .refl
    · exact .of_eq rfl rfl
  cases result with
  | none =>
    obtain ⟨db₂, hdefer, h⟩ := Except.bind_eq_ok.1 h
    obtain ⟨rfl, rfl⟩ := Prod.mk.inj (Except.ok.inj h)
    exact ⟨htakes.trans (deferGroup_takes hdefer), by simp⟩
  | some result =>
    obtain ⟨htakes', hleased⟩ := leaseExecution_takes h
    refine ⟨htakes.trans htakes', fun l hl => ?_⟩
    obtain ⟨hinputs, hunready⟩ := hleased l hl
    refine ⟨⟨selected, hselects, hinputs⟩, fun i hi => ?_⟩
    rw [hinputs] at hi
    obtain ⟨d, hd, rfl⟩ := List.mem_map.1 hi
    exact hunready d hd

/-! ## Concurrent polls -/

/-- A poll under way. -/
structure Poller where
  owner : String
  now : Time
  expiresAt : Time
  /-- The candidates it has not tried. -/
  candidates : List Delivery
  /-- The keys of the group locks it holds. -/
  locks : List ℤ
  /-- When the deliveries of the groups it has tried were due. -/
  wasDue : List (Uuid × Time)

/-- A lease granted by a poll at a time, on what the tables held then. -/
structure Grant where
  leased : LeasedExecutionAttempt
  candidate : Delivery
  now : Time
  before : Db

structure Polling where
  db : Db
  pollers : List Poller
  grants : List Grant

/-- A delivery as it was due before a poll put it off. -/
def Poller.restoreRow (p : Poller) (d : Delivery) : Delivery :=
  { d with availableAt := (p.wasDue.lookup d.id).getD d.availableAt }

/-- The deliveries without what a poll has put off. -/
def Poller.restore (p : Poller) (deliveries : List Delivery) : List Delivery :=
  deliveries.map p.restoreRow

/-- The tables as the other transactions see them : no poll has committed what it put off. -/
def Polling.committed (s : Polling) : Db :=
  { s.db with deliveries := s.pollers.foldr Poller.restore s.db.deliveries }

/-- `pg_try_advisory_xact_lock` : no other poll holds a lock under the group's key. -/
def acquires (lockKey : GroupKey → ℤ) (others : List Poller) (group : GroupKey) : Bool :=
  others.all fun p => !p.locks.contains (lockKey group)

/-- A poll that has tried its next candidate without a lease. -/
def Poller.tried (lockKey : GroupKey → ℤ) (p : Poller) (acquired : Bool) (candidate : Delivery)
    (rest : List Delivery) (deliveries : List Delivery) : Poller :=
  { p with
    candidates := rest
    locks := if acquired then lockKey candidate.toGroupKey :: p.locks else p.locks
    wasDue := if acquired then p.wasDue ++ (deliveries.filter fun d =>
        d.toGroupKey = candidate.toGroupKey).map fun d => (d.id, d.availableAt)
      else p.wasDue }

/-- The steps of polls. A poll is one transaction : it holds its locks and others do not see what
it wrote until it ends. -/
inductive PollStep (P : Platform) (lockKey : GroupKey → ℤ) : Polling → Polling → Prop
  | start {s : Polling} {options : LeaseNextAttemptOptions} {now : Time}
      (hduration : validLeaseDuration options.leaseDurationMs)
      (hselectors : options.componentSelectors ≠ some []) :
      PollStep P lockKey s
        { s with pollers :=
            { owner := options.workerId, now, expiresAt := now + options.leaseDurationMs.toNat,
              candidates := candidates now options.componentSelectors s.committed,
              locks := [], wasDue := [] } :: s.pollers }
  | putOff {s : Polling} {p : Poller} {pre post : List Poller} {candidate : Delivery}
      {rest : List Delivery} {db : Db} (hmem : s.pollers = pre ++ p :: post)
      (hnext : p.candidates = candidate :: rest)
      (hop : tryCandidate P p.now p.owner p.expiresAt (acquires lockKey (pre ++ post)) candidate
        s.db = .ok (none, db)) :
      PollStep P lockKey s
        { s with
          db
          pollers := pre ++ p.tried lockKey
            (acquires lockKey (pre ++ post) candidate.toGroupKey) candidate rest s.db.deliveries ::
              post }
  | grant {s : Polling} {p : Poller} {pre post : List Poller} {candidate : Delivery}
      {rest : List Delivery} {leased : LeasedExecutionAttempt} {db : Db}
      (hmem : s.pollers = pre ++ p :: post) (hnext : p.candidates = candidate :: rest)
      (hop : tryCandidate P p.now p.owner p.expiresAt (acquires lockKey (pre ++ post)) candidate
        s.db = .ok (some leased, db)) :
      PollStep P lockKey s
        { db, pollers := pre ++ post,
          grants := { leased, candidate, now := p.now, before := s.db } :: s.grants }
  | finish {s : Polling} {p : Poller} {pre post : List Poller}
      (hmem : s.pollers = pre ++ p :: post) (hnext : p.candidates = []) :
      PollStep P lockKey s { s with pollers := pre ++ post }
  /-- A poll fails or stops, and its transaction is rolled back. -/
  | abort {s : Polling} {p : Poller} {pre post : List Poller} {inputs : List ExecutionInput}
      {reservations : List ResourceReservation} {drawn : ℕ}
      (hmem : s.pollers = pre ++ p :: post) :
      PollStep P lockKey s
        { s with
          db := { s.db with deliveries := p.restore s.db.deliveries, inputs, reservations, drawn }
          pollers := pre ++ post }

/-- Polls over any tables that satisfy the unique keys. -/
def polling (P : Platform) (lockKey : GroupKey → ℤ) : System Polling Unit :=
  ⟨fun s => InputKeys s.db ∧ s.pollers = [] ∧ s.grants = [],
    fun s _ t => PollStep P lockKey s t⟩

theorem restore_takes {p : Poller} {inputs : List ExecutionInput}
    {reservations : List ResourceReservation} {drawn : ℕ} :
    Takes db { db with deliveries := p.restore db.deliveries, inputs, reservations, drawn } := by
  refine ⟨?_, rfl, fun id hunready d hd hid => ?_⟩
  · simp only [Poller.restore, List.map_map]
    rfl
  · obtain ⟨e, he, rfl⟩ := List.mem_map.1 hd
    exact hunready e he hid

/-- A grant leases a complete group : due deliveries of one region, revision, component instance
and correlation. -/
def Grant.Complete (g : Grant) : Prop :=
  ∃ region component revision selected,
    g.before.region? g.candidate.regionId = some region ∧ region.lifecycleStatus = .running ∧
    g.before.component? g.candidate.targetComponentInstanceId = some component ∧
    g.before.revisions.find? (·.id = g.candidate.topologyRevisionId) = some revision ∧
    g.leased.inputs = selected.map Delivery.asInput ∧ selected ≠ [] ∧
    CompleteGroup g.now g.candidate.toGroupKey component revision.fanIn g.before selected

/-- The deliveries of a grant. -/
def Grant.deliveryIds (g : Grant) : List Uuid :=
  g.leased.inputs.map (·.deliveryId)

/-- What holds of polls in every run. -/
structure PollsCoherent (s : Polling) : Prop where
  keys : InputKeys s.db
  complete : ∀ g ∈ s.grants, g.Complete
  unready : ∀ g ∈ s.grants, ∀ id ∈ g.deliveryIds, Unready id s.db
  distinct : (s.grants.flatMap Grant.deliveryIds).Nodup

theorem PollsCoherent.takes {s : Polling} (h : PollsCoherent s) (hdb : Takes s.db db)
    {pollers : List Poller} : PollsCoherent { s with db, pollers } :=
  ⟨hdb.keys h.keys, h.complete, fun g hg id hid => hdb.unready id (h.unready g hg id hid),
    h.distinct⟩

theorem IsLeaseOf.complete (hk : InputKeys db) {candidate : Delivery}
    {leased : LeasedExecutionAttempt} (h : IsLeaseOf now candidate db leased) :
    Grant.Complete { leased, candidate, now, before := db } := by
  obtain ⟨selected, ⟨region, component, revision, hregion, hrunning, hcomponent, hrevision,
    hselected⟩, hinputs⟩ := h
  exact ⟨region, component, revision, selected, hregion, hrunning, hcomponent, hrevision, hinputs,
    (mem_selectGroup hselected).1, selectGroup_complete hk hselected⟩

/-- The deliveries of a lease were ready, and are different. -/
theorem Grant.Complete.ready {g : Grant} (h : g.Complete) :
    g.deliveryIds.Nodup ∧ ∀ id ∈ g.deliveryIds, ¬Unready id g.before := by
  obtain ⟨region, component, revision, selected, -, -, -, -, hinputs, -, hgroup⟩ := h
  have hids : g.deliveryIds = selected.map (·.id) := by
    rw [Grant.deliveryIds, hinputs, List.map_map]
    rfl
  rw [hids]
  refine ⟨hgroup.distinct, fun id hid hunready => ?_⟩
  obtain ⟨d, hd, rfl⟩ := List.mem_map.1 hid
  obtain ⟨hmem, hready, -⟩ := hgroup.due d hd
  exact hunready d hmem rfl hready

theorem PollsCoherent.step {lockKey : GroupKey → ℤ} {s t : Polling} (h : PollsCoherent s)
    (hstep : PollStep P lockKey s t) : PollsCoherent t := by
  cases hstep with
  | start hduration hselectors => exact ⟨h.keys, h.complete, h.unready, h.distinct⟩
  | putOff hmem hnext hop => exact h.takes (tryCandidate_takes hop).1
  | finish hmem hnext => exact ⟨h.keys, h.complete, h.unready, h.distinct⟩
  | abort hmem => exact h.takes restore_takes
  | grant hmem hnext hop =>
    obtain ⟨htakes, hleased⟩ := tryCandidate_takes hop
    obtain ⟨hlease, hunready⟩ := hleased _ rfl
    have hcomplete := hlease.complete h.keys
    refine ⟨htakes.keys h.keys, fun g hg => ?_, fun g hg id hid => ?_, ?_⟩
    · rcases List.mem_cons.1 hg with rfl | hg
      · exact hcomplete
      · exact h.complete g hg
    · rcases List.mem_cons.1 hg with rfl | hg
      · obtain ⟨i, hi, rfl⟩ := List.mem_map.1 hid
        exact hunready i hi
      · exact htakes.unready id (h.unready g hg id hid)
    · rw [List.flatMap_cons, List.nodup_append]
      refine ⟨hcomplete.ready.1, h.distinct, ?_⟩
      -- A delivery granted before is not ready, so it is not selected again.
      rintro id hid _ hid' rfl
      obtain ⟨g, hg, hid'⟩ := List.mem_flatMap.1 hid'
      exact hcomplete.ready.2 id hid (h.unready g hg id hid')

theorem polling_coherent {lockKey : GroupKey → ℤ} {s : Polling}
    (h : (polling P lockKey).Reachable s) : PollsCoherent s := by
  refine h.invariant ?_ fun s _ t hs hstep => hs.step hstep
  rintro s ⟨hk, -, hgrants⟩
  exact ⟨hk, by simp [hgrants], by simp [hgrants], by simp [hgrants]⟩

/-- Over any tables and any concurrent polls, each lease is a complete group, and no delivery is
leased twice. -/
theorem pollers_lease_groups {lockKey : GroupKey → ℤ} {s : Polling}
    (h : (polling P lockKey).Reachable s) :
    (∀ g ∈ s.grants, g.Complete) ∧ (s.grants.flatMap Grant.deliveryIds).Nodup :=
  ⟨(polling_coherent h).complete, (polling_coherent h).distinct⟩

/-- The plant's tables after a command. -/
def plantStarted : Db :=
  ((runs samplePlatform plant [.submit (plantCommand "start" "c")]).getD plant).db

/-- A poll of the plant leases the command's delivery. -/
theorem pollers_lease_groups_plant :
    ∃ s, (polling samplePlatform fun _ => 0).Reachable s ∧
      s.grants.map Grant.deliveryIds = [[1002]] ∧
      (∀ g ∈ s.grants, g.Complete) ∧ (s.grants.flatMap Grant.deliveryIds).Nodup := by
  obtain ⟨candidate, leased, db, hcandidate, hop, hids⟩ : ∃ candidate leased db,
      candidates 0 none plantStarted = [candidate] ∧
      tryCandidate samplePlatform 0 "worker" 1000 (acquires (fun _ => 0) []) candidate
        plantStarted = .ok (some leased, db) ∧
      leased.inputs.map (·.deliveryId) = [1002] := ⟨_, _, _, rfl, rfl, rfl⟩
  have hstart : (polling samplePlatform fun _ => 0).Reachable
      { db := plantStarted, pollers := [], grants := [] } :=
    .start ⟨⟨by decide, by decide⟩, rfl, rfl⟩
  have hpoll : PollStep samplePlatform (fun _ => 0)
      { db := plantStarted, pollers := [], grants := [] }
      { db := plantStarted, pollers := [⟨"worker", 0, 1000, candidates 0 none plantStarted, [], []⟩],
        grants := [] } :=
    @PollStep.start _ _ _ ⟨"worker", 1000, none⟩ 0 (by decide) (by decide)
  rw [hcandidate] at hpoll
  have hgrant := (hstart.next (l := ()) hpoll).next (l := ())
    (@PollStep.grant _ _ _ _ [] [] candidate [] leased db rfl rfl hop)
  exact ⟨_, hgrant, by simp [Grant.deliveryIds, hids], pollers_lease_groups hgrant⟩

end FactoryFloor
