import FactoryFloor.Work

/-!
# The rows of the work fit together

`Rows` says that keys are unique and were drawn, that an attempt has its execution, and that an
execution has its inputs, which are one group of deliveries and what its digest names.

Most steps only update rows and append attempts (`SameRows`), and keep `Rows` for that reason.
Routing and starting an execution insert rows, and `Rows.step` is the induction step.
-/

namespace FactoryFloor

open Relational

namespace Work

variable {P : Platform} {placed : GroupKey → Prop} {allow : Work → List Delivery → Prop}
  {late : Time → Prop}
variable {w w' : Work}

/-- The rows of the work fit together. -/
structure Rows (P : Platform) (placed : GroupKey → Prop) (w : Work) : Prop where
  deliveriesKeyed : Keyed (·.id) w.deliveries
  executionsKeyed : Keyed (·.id) w.executions
  attemptsKeyed : Keyed (·.id) w.attempts
  deliveryDrawn : ∀ d ∈ w.deliveries, Drawn P 0 w.drawn d.id
  executionDrawn : ∀ e ∈ w.executions, Drawn P 0 w.drawn e.id
  attemptDrawn : ∀ a ∈ w.attempts, Drawn P 0 w.drawn a.id
  deliveryPlaced : ∀ d ∈ w.deliveries, placed d.toGroupKey
  attemptExecution : ∀ a ∈ w.attempts, ∃ e ∈ w.executions, e.id = a.executionId
  inputExecution : ∀ i ∈ w.inputs, ∃ e ∈ w.executions, e.id = i.executionId
  inputDelivery : ∀ i ∈ w.inputs, ∃ d ∈ w.deliveries,
    d.id = i.deliveryId ∧ d.targetPortName = i.portName
  trigger : ∀ e ∈ w.executions, w.IsInput e.id e.deliveryId
  group : ∀ e ∈ w.executions, ∃ c, ∀ d ∈ w.deliveries, w.IsInput e.id d.id →
    d.toGroupKey = e.groupKey c
  digest : ∀ e ∈ w.executions, ∀ id, w.IsInput e.id id ↔
    id ∈ e.inputSetDigest.map (·.deliveryId)

theorem Drawn.mono {n m n' m' : ℕ} {id : Uuid} (h : Drawn P n m id) (hn : n' ≤ n) (hm : m ≤ m') :
    Drawn P n' m' id := by
  obtain ⟨k, hk, hk', rfl⟩ := h
  exact ⟨k, hn.trans hk, hk'.trans_le hm, rfl⟩

/-- Uuids drawn at different times differ. -/
theorem Drawn.ne {n m n' m' : ℕ} {id id' : Uuid} (h : Drawn P n m id) (h' : Drawn P n' m' id')
    (hm : m ≤ n') : id ≠ id' := by
  obtain ⟨k, -, hk, rfl⟩ := h
  obtain ⟨k', hk', -, rfl⟩ := h'
  exact fun he => absurd (P.uuid_injective he) (by omega)

/-- A step that only updates rows and appends attempts. -/
structure SameRows (P : Platform) (w w' : Work) : Prop where
  deliveries : ∃ p f, Delivery.Moves f ∧ w'.deliveries = updateWhere p f w.deliveries
  executions : ∃ q g, Execution.Moves g ∧ w'.executions = updateWhere q g w.executions
  inputs : w'.inputs = w.inputs
  attempts : ∃ r h new, ExecutionAttempt.Moves h ∧ w'.attempts = updateWhere r h w.attempts ++ new ∧
    Keyed (·.id) new ∧
    ∀ a ∈ new, Drawn P w.drawn w'.drawn a.id ∧ ∃ e ∈ w.executions, e.id = a.executionId
  drawn : w.drawn ≤ w'.drawn

/-- Rows that fit together still do after a step that only updates rows. -/
theorem Rows.of_sameRows (hw : Rows P placed w) (h : SameRows P w w') : Rows P placed w' := by
  obtain ⟨p, f, hf, hdel⟩ := h.deliveries
  obtain ⟨q, g, hg, hexe⟩ := h.executions
  obtain ⟨r, k, new, hk, hatt, hnewKeyed, hnew⟩ := h.attempts
  have hin : ∀ e d, w'.IsInput e d ↔ w.IsInput e d := fun e d => by simp [IsInput, h.inputs]
  -- Every row of a table that is only updated comes from one with the same key, and conversely.
  have ofDelivery : ∀ d' ∈ w'.deliveries, ∃ d ∈ w.deliveries,
      d'.id = d.id ∧ d'.toGroupKey = d.toGroupKey ∧ d'.targetPortName = d.targetPortName := by
    intro d' hd'
    rw [hdel] at hd'
    obtain ⟨d, hd, rfl⟩ := mem_updateWhere.1 hd'
    exact ⟨d, hd, hf.ite p d⟩
  have toDelivery : ∀ d ∈ w.deliveries, ∃ d' ∈ w'.deliveries,
      d'.id = d.id ∧ d'.targetPortName = d.targetPortName := fun d hd =>
    ⟨_, hdel ▸ mem_updateWhere.2 ⟨d, hd, rfl⟩, (hf.ite p d).1, (hf.ite p d).2.2⟩
  have ofExecution : ∀ e' ∈ w'.executions, ∃ e ∈ w.executions, e'.id = e.id ∧
      e'.deliveryId = e.deliveryId ∧ (∀ c, e'.groupKey c = e.groupKey c) ∧
      e'.inputSetDigest = e.inputSetDigest := by
    intro e' he'
    rw [hexe] at he'
    obtain ⟨e, he, rfl⟩ := mem_updateWhere.1 he'
    obtain ⟨h₁, h₂, h₃, -, h₅⟩ := hg.ite q e
    exact ⟨e, he, h₁, h₂, h₃, h₅⟩
  have toExecution : ∀ e ∈ w.executions, ∃ e' ∈ w'.executions, e'.id = e.id := fun e he =>
    ⟨_, hexe ▸ mem_updateWhere.2 ⟨e, he, rfl⟩, (hg.ite q e).1⟩
  have ofAttempt : ∀ a' ∈ w'.attempts, (∃ a ∈ w.attempts, a'.id = a.id ∧
      a'.executionId = a.executionId) ∨ a' ∈ new := by
    intro a' ha'
    rw [hatt] at ha'
    rcases List.mem_append.1 ha' with ha' | ha'
    · obtain ⟨a, ha, rfl⟩ := mem_updateWhere.1 ha'
      exact Or.inl ⟨a, ha, (hk.ite r a).1, (hk.ite r a).2.1⟩
    · exact Or.inr ha'
  constructor
  · rw [hdel]; exact hw.deliveriesKeyed.updateWhere hf.id
  · rw [hexe]; exact hw.executionsKeyed.updateWhere hg.id
  · have hold : Keyed (·.id) (updateWhere r k w.attempts) := hw.attemptsKeyed.updateWhere hk.id
    unfold Keyed at hold hnewKeyed ⊢
    rw [hatt, List.map_append, List.nodup_append]
    refine ⟨hold, hnewKeyed, ?_⟩
    intro x hx y hy
    obtain ⟨a', ha', rfl⟩ := List.mem_map.1 hx
    obtain ⟨b, hb, rfl⟩ := List.mem_map.1 hy
    obtain ⟨a, ha, rfl⟩ := mem_updateWhere.1 ha'
    rw [(hk.ite r a).1]
    exact (hw.attemptDrawn a ha).ne (hnew b hb).1 le_rfl
  · intro d' hd'
    obtain ⟨d, hd, hid, -⟩ := ofDelivery d' hd'
    exact hid ▸ (hw.deliveryDrawn d hd).mono le_rfl h.drawn
  · intro e' he'
    obtain ⟨e, he, hid, -⟩ := ofExecution e' he'
    exact hid ▸ (hw.executionDrawn e he).mono le_rfl h.drawn
  · intro a' ha'
    rcases ofAttempt a' ha' with ⟨a, ha, hid, -⟩ | ha'
    · exact hid ▸ (hw.attemptDrawn a ha).mono le_rfl h.drawn
    · exact (hnew a' ha').1.mono (Nat.zero_le _) le_rfl
  · intro d' hd'
    obtain ⟨d, hd, -, hgroup, -⟩ := ofDelivery d' hd'
    exact hgroup ▸ hw.deliveryPlaced d hd
  · intro a' ha'
    have hold : ∃ e ∈ w.executions, e.id = a'.executionId := by
      rcases ofAttempt a' ha' with ⟨a, ha, -, hexec⟩ | ha'
      · rw [hexec]; exact hw.attemptExecution a ha
      · exact (hnew a' ha').2
    obtain ⟨e, he, hid⟩ := hold
    obtain ⟨e', he', hid'⟩ := toExecution e he
    exact ⟨e', he', hid'.trans hid⟩
  · intro i hi
    obtain ⟨e, he, hid⟩ := hw.inputExecution i (h.inputs ▸ hi)
    obtain ⟨e', he', hid'⟩ := toExecution e he
    exact ⟨e', he', hid'.trans hid⟩
  · intro i hi
    obtain ⟨d, hd, hid, hport⟩ := hw.inputDelivery i (h.inputs ▸ hi)
    obtain ⟨d', hd', hid', hport'⟩ := toDelivery d hd
    exact ⟨d', hd', hid'.trans hid, hport'.trans hport⟩
  · intro e' he'
    obtain ⟨e, he, hid, hdelivery, -⟩ := ofExecution e' he'
    rw [hin, hid, hdelivery]
    exact hw.trigger e he
  · intro e' he'
    obtain ⟨e, he, hid, -, hgroup, -⟩ := ofExecution e' he'
    obtain ⟨c, hc⟩ := hw.group e he
    refine ⟨c, fun d' hd' hi => ?_⟩
    obtain ⟨d, hd, hdid, hdgroup, -⟩ := ofDelivery d' hd'
    rw [hin, hid, hdid] at hi
    rw [hdgroup, hgroup c]
    exact hc d hd hi
  · intro e' he' x
    obtain ⟨e, he, hid, -, -, hdigest⟩ := ofExecution e' he'
    rw [hin, hid, hdigest]
    exact hw.digest e he x

/-- A delivery that is routed is no input yet. -/
theorem Rows.not_isInput (hw : Rows P placed w) {e id : Uuid} {n m : ℕ} (hid : Drawn P n m id)
    (hn : w.drawn ≤ n) : ¬w.IsInput e id := by
  rintro ⟨i, hi, -, rfl⟩
  obtain ⟨d, hd, hdid, -⟩ := hw.inputDelivery i hi
  exact (hw.deliveryDrawn d hd).ne (hdid ▸ hid) hn rfl

theorem Rows.route (hw : Rows P placed w) {new : List Delivery} {n : ℕ} (hn : w.drawn ≤ n)
    (hnew : ∀ d ∈ new, placed d.toGroupKey ∧ Drawn P w.drawn n d.id) (hkeyed : Keyed (·.id) new) :
    Rows P placed { w with deliveries := w.deliveries ++ new, drawn := n } where
  deliveriesKeyed := by
    have hold := hw.deliveriesKeyed
    unfold Keyed at hold hkeyed ⊢
    rw [List.map_append, List.nodup_append]
    refine ⟨hold, hkeyed, ?_⟩
    intro x hx y hy
    obtain ⟨d, hd, rfl⟩ := List.mem_map.1 hx
    obtain ⟨d', hd', rfl⟩ := List.mem_map.1 hy
    exact (hw.deliveryDrawn d hd).ne (hnew d' hd').2 le_rfl
  executionsKeyed := hw.executionsKeyed
  attemptsKeyed := hw.attemptsKeyed
  deliveryDrawn d hd := by
    rcases List.mem_append.1 hd with hd | hd
    · exact (hw.deliveryDrawn d hd).mono le_rfl hn
    · exact (hnew d hd).2.mono (Nat.zero_le _) le_rfl
  executionDrawn e he := (hw.executionDrawn e he).mono le_rfl hn
  attemptDrawn a ha := (hw.attemptDrawn a ha).mono le_rfl hn
  deliveryPlaced d hd := by
    rcases List.mem_append.1 hd with hd | hd
    · exact hw.deliveryPlaced d hd
    · exact (hnew d hd).1
  attemptExecution := hw.attemptExecution
  inputExecution := hw.inputExecution
  inputDelivery i hi := by
    obtain ⟨d, hd, h⟩ := hw.inputDelivery i hi
    exact ⟨d, List.mem_append_left _ hd, h⟩
  trigger := hw.trigger
  group e he := by
    obtain ⟨c, hc⟩ := hw.group e he
    refine ⟨c, fun d hd hi => ?_⟩
    rcases List.mem_append.1 hd with hd | hd
    · exact hc d hd hi
    · exact absurd hi (hw.not_isInput (hnew d hd).2 le_rfl)
  digest := hw.digest

theorem Rows.start (hw : Rows P placed w) {group : GroupKey} {selected : List Delivery}
    {execution : Execution} {attempt : ExecutionAttempt} {lease : Lease}
    {inputs : List ExecutionInput} {n : ℕ} (hn : w.drawn ≤ n) (hselects : Selects w group selected)
    (hgroup : ∀ c, execution.groupKey c = { group with correlationId := c })
    (hdigest : execution.inputSetDigest = inputSetDigest selected)
    (htrigger : ∃ d ∈ selected, d.id = execution.deliveryId)
    (hexecutionId : Drawn P w.drawn n execution.id) (hattempt : attempt.executionId = execution.id)
    (hattemptId : Drawn P w.drawn n attempt.id)
    (hinputs : ∀ i, i ∈ inputs ↔
      i ∈ w.inputs ∨ ∃ d ∈ selected, i = ⟨execution.id, d.targetPortName, d.id⟩) :
    Rows P placed { w with
      deliveries :=
        updateWhere (fun d => d.id ∈ selected.map (·.id)) (Delivery.under lease) w.deliveries,
      executions := w.executions ++ [execution],
      inputs, attempts := w.attempts ++ [attempt], drawn := n } := by
  set w' : Work := { w with
    deliveries :=
      updateWhere (fun d => d.id ∈ selected.map (·.id)) (Delivery.under lease) w.deliveries,
    executions := w.executions ++ [execution],
    inputs, attempts := w.attempts ++ [attempt], drawn := n } with hw'
  have hmoves := Delivery.under_moves lease
  have ofDelivery : ∀ d' ∈ w'.deliveries, ∃ d ∈ w.deliveries,
      d'.id = d.id ∧ d'.toGroupKey = d.toGroupKey := by
    intro d' hd'
    obtain ⟨d, hd, rfl⟩ := mem_updateWhere.1 hd'
    have h := hmoves.ite (fun d => d.id ∈ selected.map (·.id)) d
    exact ⟨d, hd, h.1, h.2.1⟩
  have toDelivery : ∀ d ∈ w.deliveries, ∃ d' ∈ w'.deliveries,
      d'.id = d.id ∧ d'.targetPortName = d.targetPortName := fun d hd =>
    have h := hmoves.ite (fun d => d.id ∈ selected.map (·.id)) d
    ⟨_, mem_updateWhere.2 ⟨d, hd, rfl⟩, h.1, h.2.2⟩
  have hnewExecution : ∀ e ∈ w.executions, e.id ≠ execution.id := fun e he =>
    (hw.executionDrawn e he).ne hexecutionId le_rfl
  -- The inputs of the new execution are the selected deliveries; the others are as they were.
  have inputNew : ∀ id, w'.IsInput execution.id id ↔ id ∈ selected.map (·.id) := by
    intro id
    constructor
    · rintro ⟨i, hi, hie, rfl⟩
      rcases (hinputs i).1 hi with hi | ⟨d, hd, rfl⟩
      · obtain ⟨e, he, hid⟩ := hw.inputExecution i hi
        exact absurd (hid.trans hie) (hnewExecution e he)
      · exact List.mem_map_of_mem hd
    · intro hid
      obtain ⟨d, hd, rfl⟩ := List.mem_map.1 hid
      exact ⟨_, (hinputs _).2 (Or.inr ⟨d, hd, rfl⟩), rfl, rfl⟩
  have inputOld : ∀ e ∈ w.executions, ∀ id, w'.IsInput e.id id ↔ w.IsInput e.id id := by
    intro e he id
    constructor
    · rintro ⟨i, hi, hie, rfl⟩
      rcases (hinputs i).1 hi with hi | ⟨d, hd, rfl⟩
      · exact ⟨i, hi, hie, rfl⟩
      · exact absurd hie.symm (hnewExecution e he)
    · rintro ⟨i, hi, hie, rfl⟩
      exact ⟨i, (hinputs i).2 (Or.inl hi), hie, rfl⟩
  have mem : ∀ e ∈ w'.executions, e ∈ w.executions ∨ e = execution := fun e he => by
    simpa [hw'] using he
  constructor
  · exact hw.deliveriesKeyed.updateWhere hmoves.id
  · exact hw.executionsKeyed.append hnewExecution
  · exact hw.attemptsKeyed.append fun a ha => (hw.attemptDrawn a ha).ne hattemptId le_rfl
  · intro d' hd'
    obtain ⟨d, hd, hid, -⟩ := ofDelivery d' hd'
    exact hid ▸ (hw.deliveryDrawn d hd).mono le_rfl hn
  · intro e he
    rcases mem e he with he | rfl
    · exact (hw.executionDrawn e he).mono le_rfl hn
    · exact hexecutionId.mono (Nat.zero_le _) le_rfl
  · intro a ha
    rcases List.mem_append.1 ha with ha | ha
    · exact (hw.attemptDrawn a ha).mono le_rfl hn
    · obtain rfl := List.mem_singleton.1 ha
      exact hattemptId.mono (Nat.zero_le _) le_rfl
  · intro d' hd'
    obtain ⟨d, hd, -, hg⟩ := ofDelivery d' hd'
    exact hg ▸ hw.deliveryPlaced d hd
  · intro a ha
    rcases List.mem_append.1 ha with ha | ha
    · obtain ⟨e, he, hid⟩ := hw.attemptExecution a ha
      exact ⟨e, List.mem_append_left _ he, hid⟩
    · obtain rfl := List.mem_singleton.1 ha
      exact ⟨execution, by simp [hw'], hattempt.symm⟩
  · intro i hi
    rcases (hinputs i).1 hi with hi | ⟨d, hd, rfl⟩
    · obtain ⟨e, he, hid⟩ := hw.inputExecution i hi
      exact ⟨e, List.mem_append_left _ he, hid⟩
    · exact ⟨execution, by simp [hw'], rfl⟩
  · intro i hi
    rcases (hinputs i).1 hi with hi | ⟨d, hd, rfl⟩
    · obtain ⟨d, hd, hid, hport⟩ := hw.inputDelivery i hi
      obtain ⟨d', hd', hid', hport'⟩ := toDelivery d hd
      exact ⟨d', hd', hid'.trans hid, hport'.trans hport⟩
    · exact toDelivery d (hselects d hd).1
  · intro e he
    rcases mem e he with he | rfl
    · exact (inputOld e he _).2 (hw.trigger e he)
    · obtain ⟨d, hd, hid⟩ := htrigger
      exact (inputNew _).2 (hid ▸ List.mem_map_of_mem hd)
  · intro e he
    rcases mem e he with he | rfl
    · obtain ⟨c, hc⟩ := hw.group e he
      refine ⟨c, fun d' hd' hi => ?_⟩
      obtain ⟨d, hd, hdid, hdgroup⟩ := ofDelivery d' hd'
      rw [hdid] at hi
      exact hdgroup.trans (hc d hd ((inputOld e he _).1 hi))
    · refine ⟨group.correlationId, fun d' hd' hi => ?_⟩
      obtain ⟨d, hd, hdid, hdgroup⟩ := ofDelivery d' hd'
      obtain ⟨d₁, hd₁, hid₁⟩ := List.mem_map.1 ((inputNew _).1 hi)
      obtain rfl : d₁ = d := hw.deliveriesKeyed.eq (hselects d₁ hd₁).1 hd (hid₁.trans hdid)
      rw [hdgroup, (hselects d₁ hd₁).2.2, hgroup]
  · intro e he id
    rcases mem e he with he | rfl
    · rw [inputOld e he]
      exact hw.digest e he id
    · rw [inputNew, hdigest, inputSetDigest, List.map_map]
      rfl

theorem sameDeliveries (ds : List Delivery) :
    ∃ p f, Delivery.Moves f ∧ ds = updateWhere p f ds :=
  ⟨fun _ => false, fun d => d, ⟨fun _ => rfl⟩, (updateWhere_false _ _).symm⟩

theorem sameExecutions (es : List Execution) :
    ∃ q g, Execution.Moves g ∧ es = updateWhere q g es :=
  ⟨fun _ => false, fun e => e, ⟨fun _ => rfl, fun _ => rfl, fun _ _ => rfl, fun _ => rfl, fun _ => rfl⟩,
    (updateWhere_false _ _).symm⟩

theorem sameAttempts (as : List ExecutionAttempt) (es : List Execution) (n m : ℕ) :
    ∃ r h new, ExecutionAttempt.Moves h ∧ as = updateWhere r h as ++ new ∧
      Keyed (·.id) new ∧
      ∀ a ∈ new, Drawn P n m a.id ∧ ∃ e ∈ es, e.id = a.executionId :=
  ⟨fun _ => false, fun a => a, [], ⟨fun _ => rfl, fun _ => rfl, fun _ => rfl⟩,
    by simp, List.nodup_nil, by simp⟩

theorem movedAttempts {r : ExecutionAttempt → Bool} {h : ExecutionAttempt → ExecutionAttempt}
    (hh : ExecutionAttempt.Moves h) (as : List ExecutionAttempt) (es : List Execution) (n m : ℕ) :
    ∃ r' h' new, ExecutionAttempt.Moves h' ∧ updateWhere r h as = updateWhere r' h' as ++ new ∧
      Keyed (·.id) new ∧
      ∀ a ∈ new, Drawn P n m a.id ∧ ∃ e ∈ es, e.id = a.executionId :=
  ⟨r, h, [], hh, by simp, List.nodup_nil, by simp⟩

/-- Every step keeps the rows. -/
theorem Rows.step (hw : Rows P placed w) (h : Step P placed allow late w w') : Rows P placed w' := by
  cases h with
  | draw hn =>
    exact hw.of_sameRows ⟨sameDeliveries _, sameExecutions _, rfl, sameAttempts _ _ _ _, hn⟩
  | route hn hnew hkeyed => exact hw.route hn (fun d hd => (hnew d hd).2.2) hkeyed
  | putOff hp =>
    exact hw.of_sameRows ⟨⟨_, _, Delivery.putOff_moves _, rfl⟩, sameExecutions _, rfl,
      sameAttempts _ _ _ _, le_rfl⟩
  | start hn hallow hselects hregion hgroup hexecution hexecutionId hattempt hattemptId htoken hlate
      hinputs hvalid =>
    exact hw.start hn hselects hgroup hexecution.2.2.1 hexecution.2.2.2 hexecutionId hattempt.1
      hattemptId hinputs
  | resume hn hselects hexecution hattempt htoken hlate hvalid =>
    exact hw.of_sameRows ⟨⟨_, _, Delivery.under_moves _, rfl⟩, sameExecutions _, rfl,
      movedAttempts (ExecutionAttempt.under_moves _ _) _ _ _ _, hn⟩
  | extend hattempt hlate hp hvalid =>
    exact hw.of_sameRows ⟨⟨_, _, Delivery.extend_moves _ _, rfl⟩, sameExecutions _, rfl,
      movedAttempts (extendLease_moves _) _ _ _ _, le_rfl⟩
  | @retry attempt next execution status now failure p f n hn hattempt hstatus hexecution hnext hp
      hf hready hvalid =>
    refine hw.of_sameRows ⟨⟨_, _, hf, rfl⟩, sameExecutions _, rfl,
      ⟨_, _, [next], closeAttempt_moves status now failure, rfl, List.nodup_singleton _, ?_⟩, hn⟩
    intro a ha
    obtain rfl := List.mem_singleton.1 ha
    exact ⟨hnext.2.2.2.2.2, execution, hexecution.1, hnext.1.symm⟩
  | close hattempt hstatus hexecution hg hclosed hp hf hterminal hvalid =>
    exact hw.of_sameRows ⟨⟨_, _, hf, rfl⟩, ⟨_, _, hg, rfl⟩, rfl,
      movedAttempts (closeAttempt_moves _ _ _) _ _ _ _, le_rfl⟩
  | cancel hp hq hr hg hclosed hf hterminal hvalidAttempt hvalid =>
    exact hw.of_sameRows ⟨⟨_, _, hf, rfl⟩, ⟨_, _, hg, rfl⟩, rfl,
      movedAttempts (closeAttempt_moves _ _ _) _ _ _ _, le_rfl⟩
  | moveRegions hf hstop hepoch =>
    exact hw.of_sameRows ⟨sameDeliveries _, sameExecutions _, rfl, sameAttempts _ _ _ _, le_rfl⟩

end Work

end FactoryFloor
