import FactoryFloor.Rows

/-!
# Who holds what

`Leases` says who holds a delivery : an active attempt holds its inputs under its own lease, a
leased delivery is held by an active attempt, and the inputs of a closed execution are closed.
The attempts of an execution keep their discipline, and a running execution is in its region's
epoch while the region runs.

A step that moves one attempt keeps the leases of the others because they hold other deliveries
(`Leases.disjoint`). `Coherent.step` is the induction step. It needs no condition on the steps.
-/

namespace FactoryFloor

open Relational

namespace Work

variable {P : Platform} {placed : GroupKey → Prop} {allow : Work → List Delivery → Prop}
  {late : Time → Prop}
variable {w w' : Work}

/-- Who holds what. -/
structure Leases (P : Platform) (w : Work) : Prop where
  deliveryValid : ∀ d ∈ w.deliveries, Row.violation d = none
  attemptValid : ∀ a ∈ w.attempts, Row.violation a = none
  tokenDrawn : ∀ a ∈ w.attempts, ∀ l, a.lease = some l → ∃ k < w.drawn, l.token = P.token k
  discipline : ∀ e ∈ w.executions, Discipline (historyOf w.attempts e)
  held : ∀ a ∈ w.attempts, a.status.active → ∀ d ∈ w.deliveries, w.IsInput a.executionId d.id →
    d.status = .leased ∧ d.lease = a.lease
  owned : ∀ d ∈ w.deliveries, d.status = .leased →
    ∃ a ∈ w.attempts, a.status.active ∧ w.IsInput a.executionId d.id
  tokens : ∀ a ∈ w.attempts, ∀ b ∈ w.attempts, a.status.active → b.status.active →
    a.lease.map (·.token) = b.lease.map (·.token) → a = b
  settled : ∀ e ∈ w.executions, e.status ≠ .running → ∀ d ∈ w.deliveries, w.IsInput e.id d.id →
    d.status.terminal
  epoch : ∀ e ∈ w.executions, e.status = .running → ∀ r ∈ w.regions, r.id = e.regionId →
    r.lifecycleStatus = .running → e.lifecycleEpoch = r.lifecycleEpoch

/-- The invariant of the work. -/
structure Coherent (P : Platform) (placed : GroupKey → Prop) (w : Work) : Prop extends
  Rows P placed w, Leases P w where
  regionsKeyed : Keyed (·.id) w.regions

/-! ## Attempts of an execution -/

theorem attemptsOf_append (as bs : List ExecutionAttempt) (e : Uuid) :
    attemptsOf (as ++ bs) e = attemptsOf as e ++ attemptsOf bs e :=
  List.filter_append ..

theorem attemptsOf_updateWhere {h : ExecutionAttempt → ExecutionAttempt}
    (hh : ExecutionAttempt.Moves h) (p : ExecutionAttempt → Bool) (as : List ExecutionAttempt)
    (e : Uuid) : attemptsOf (updateWhere p h as) e = updateWhere p h (attemptsOf as e) :=
  filter_updateWhere (fun a => by simp [hh.execution]) as

theorem mem_attemptsOf {as : List ExecutionAttempt} {e : Uuid} {a : ExecutionAttempt} :
    a ∈ attemptsOf as e ↔ a ∈ as ∧ a.executionId = e := by
  simp [attemptsOf]

/-- The attempts of a running execution : the earlier ones are terminal, the last one is not. -/
theorem Leases.split (hL : Leases P w) {e : Execution} (he : e ∈ w.executions)
    (hrun : e.status = .running) :
    ∃ pre a, attemptsOf w.attempts e.id = pre ++ [a] ∧ a.status.terminal = false ∧
      ∀ b ∈ pre, b.status.terminal = true := by
  obtain ⟨pre, n, s, heq, hs, hpre⟩ := (hL.discipline e he).eq_append hrun
  have hmap := congrArg History.attempts heq
  obtain ⟨as, bs, hsplit, has, hbs⟩ := List.map_eq_append_iff.1 hmap
  obtain ⟨a, rfl, ha⟩ := List.map_eq_singleton_iff.1 hbs
  refine ⟨as, a, hsplit, ?_, fun b hb => ?_⟩
  · rw [← (Prod.mk.inj ha).2] at hs
    exact hs
  · exact hpre (b.attemptNumber, b.status) (has ▸ List.mem_map_of_mem hb)

/-- An execution with an attempt that is not terminal runs, and the attempt is its last. -/
theorem Leases.split_of_mem (hL : Leases P w) {e : Execution} (he : e ∈ w.executions)
    {a : ExecutionAttempt} (ha : a ∈ w.attempts) (hea : e.id = a.executionId)
    (hat : a.status.terminal = false) :
    e.status = .running ∧ ∃ pre, attemptsOf w.attempts e.id = pre ++ [a] ∧
      ∀ b ∈ pre, b.status.terminal = true := by
  have hmem : a ∈ attemptsOf w.attempts e.id := mem_attemptsOf.2 ⟨ha, hea.symm⟩
  have hrun : e.status = .running := (hL.discipline e he).running_iff.2
    ⟨(a.attemptNumber, a.status), List.mem_map_of_mem hmem, hat⟩
  obtain ⟨pre, b, hsplit, -, hpre⟩ := hL.split he hrun
  refine ⟨hrun, pre, ?_, hpre⟩
  rw [hsplit] at hmem ⊢
  rcases List.mem_append.1 hmem with hmem | hmem
  · simp [hpre a hmem] at hat
  · rw [List.mem_singleton.1 hmem]

/-- An execution has at most one attempt that is not terminal. -/
theorem Leases.eq_of_not_terminal (hL : Leases P w) {e : Execution} (he : e ∈ w.executions)
    {a b : ExecutionAttempt} (ha : a ∈ w.attempts) (hb : b ∈ w.attempts)
    (hea : e.id = a.executionId) (heb : e.id = b.executionId) (hat : a.status.terminal = false)
    (hbt : b.status.terminal = false) : a = b := by
  obtain ⟨-, pre, hpre, -⟩ := hL.split_of_mem he ha hea hat
  obtain ⟨-, pre', hpre', -⟩ := hL.split_of_mem he hb heb hbt
  simpa using (List.append_inj' (hpre.symm.trans hpre') rfl).2

/-- A change of one attempt leaves the history of the other executions alone. -/
theorem history_other (hR : Rows P placed w) {a : ExecutionAttempt} (ha : a ∈ w.attempts)
    {h : ExecutionAttempt → ExecutionAttempt} (hh : ExecutionAttempt.Moves h)
    (new : List ExecutionAttempt) (hnew : ∀ b ∈ new, b.executionId = a.executionId)
    {e : Execution} (hea : e.id ≠ a.executionId) :
    historyOf (updateWhere (·.id = a.id) h w.attempts ++ new) e = historyOf w.attempts e := by
  have hkeep : updateWhere (·.id = a.id) h (attemptsOf w.attempts e.id) =
      attemptsOf w.attempts e.id := by
    refine updateWhere_eq_self fun b hb => ?_
    obtain ⟨hb, hbe⟩ := mem_attemptsOf.1 hb
    intro hid
    obtain rfl : b = a := hR.attemptsKeyed.eq hb ha (by simpa using hid)
    exact hea hbe.symm
  have hnone : attemptsOf new e.id = [] := by
    refine List.filter_eq_nil_iff.2 fun b hb => ?_
    simp [hnew b hb, Ne.symm hea]
  rw [historyOf, attemptsOf_append, attemptsOf_updateWhere hh, hkeep, hnone, List.append_nil]
  rfl

/-- The history of an execution before and after a change of its open attempt. -/
theorem history_touch (hR : Rows P placed w) (hL : Leases P w) {a : ExecutionAttempt}
    (ha : a ∈ w.attempts) {h : ExecutionAttempt → ExecutionAttempt}
    (hh : ExecutionAttempt.Moves h) (new : List ExecutionAttempt)
    (hnew : ∀ b ∈ new, b.executionId = a.executionId) {e : Execution} (he : e ∈ w.executions)
    (hea : e.id = a.executionId) (hat : a.status.terminal = false) :
    ∃ earlier, historyOf w.attempts e = ⟨.running, earlier ++ [(a.attemptNumber, a.status)]⟩ ∧
      (attemptsOf (updateWhere (·.id = a.id) h w.attempts ++ new) e.id).map
        (fun b => (b.attemptNumber, b.status)) =
        earlier ++ (a.attemptNumber, (h a).status) ::
          new.map fun b => (b.attemptNumber, b.status) := by
  obtain ⟨hrun, pre, hpre, -⟩ := hL.split_of_mem he ha hea hat
  refine ⟨pre.map fun b => (b.attemptNumber, b.status), ?_, ?_⟩
  · rw [historyOf, hrun, hpre, List.map_append, List.map_singleton]
  · have hpreNe : ∀ b ∈ pre, b.id ≠ a.id := by
      intro b hb hid
      have hmem : ∀ c ∈ pre ++ [a], c ∈ w.attempts := fun c hc =>
        (mem_attemptsOf.1 (hpre ▸ hc)).1
      obtain rfl : b = a := hR.attemptsKeyed.eq (hmem b (by simp [hb])) ha hid
      have hnodup : (attemptsOf w.attempts e.id).Nodup :=
        (List.Nodup.of_map _ hR.attemptsKeyed).filter _
      rw [hpre] at hnodup
      exact (List.nodup_append.1 hnodup).2.2 b hb b (by simp) rfl
    have hall : attemptsOf new e.id = new :=
      List.filter_eq_self.2 fun b hb => by simp [hnew b hb, hea]
    rw [attemptsOf_append, attemptsOf_updateWhere hh, hpre, hall, updateWhere_append,
      updateWhere_eq_self fun b hb => by simpa using hpreNe b hb]
    simp [updateWhere, hh.number]

/-! ## Leases of other attempts -/

/-- Two active attempts hold different deliveries. -/
theorem Leases.disjoint (hL : Leases P w) {a b : ExecutionAttempt} (ha : a ∈ w.attempts)
    (hb : b ∈ w.attempts) (haa : a.status.active) (hba : b.status.active) (hab : b ≠ a)
    {d : Delivery} (hd : d ∈ w.deliveries) (hia : w.IsInput a.executionId d.id) :
    ¬w.IsInput b.executionId d.id := by
  intro hib
  have hla := (hL.held a ha haa d hd hia).2
  have hlb := (hL.held b hb hba d hd hib).2
  exact hab (hL.tokens b hb a ha hba haa (by rw [← hla, ← hlb]))

/-- What an active attempt holds is not ready. -/
theorem Leases.not_ready (hL : Leases P w) {a : ExecutionAttempt} (ha : a ∈ w.attempts)
    (haa : a.status.active) {d : Delivery} (hd : d ∈ w.deliveries) (hready : d.status = .ready) :
    ¬w.IsInput a.executionId d.id := by
  intro hi
  have := (hL.held a ha haa d hd hi).1
  simp [hready] at this

/-- A step that moves one attempt with the deliveries it holds keeps who holds what. -/
theorem Leases.touch (hR : Rows P placed w) (hL : Leases P w) (w' : Work) {a : ExecutionAttempt}
    (ha : a ∈ w.attempts) {h : ExecutionAttempt → ExecutionAttempt}
    (hh : ExecutionAttempt.Moves h) {p : Delivery → Bool} {f : Delivery → Delivery}
    (hf : Delivery.Moves f) (new : List ExecutionAttempt)
    (hdel : w'.deliveries = updateWhere p f w.deliveries)
    (hatt : w'.attempts = updateWhere (·.id = a.id) h w.attempts ++ new)
    (hin : w'.inputs = w.inputs) (hnew : ∀ b ∈ new, b.status.active = false)
    (hp : ∀ d ∈ w.deliveries, p d ↔ w.IsInput a.executionId d.id)
    (hapart : ∀ b ∈ w.attempts, b.status.active → b ≠ a → ∀ d ∈ w.deliveries, p d →
      ¬w.IsInput b.executionId d.id)
    (hheld : (h a).status.active → ∀ d ∈ w.deliveries, p d →
      (f d).status = .leased ∧ (f d).lease = (h a).lease)
    (howned : ∀ d ∈ w.deliveries, p d → (f d).status = .leased → (h a).status.active)
    (htoken : (h a).status.active → ∀ b ∈ w.attempts, b.status.active → b ≠ a →
      b.lease.map (·.token) ≠ (h a).lease.map (·.token)) :
    (∀ b ∈ w'.attempts, b.status.active → ∀ d ∈ w'.deliveries, w'.IsInput b.executionId d.id →
        d.status = .leased ∧ d.lease = b.lease) ∧
      (∀ d ∈ w'.deliveries, d.status = .leased →
        ∃ b ∈ w'.attempts, b.status.active ∧ w'.IsInput b.executionId d.id) ∧
      ∀ b ∈ w'.attempts, ∀ c ∈ w'.attempts, b.status.active → c.status.active →
        b.lease.map (·.token) = c.lease.map (·.token) → b = c := by
  have hinput : ∀ e d, w'.IsInput e d ↔ w.IsInput e d := fun e d => by simp [IsInput, hin]
  -- An active attempt of the new state is the one that moved, or another one as it was.
  have hactive : ∀ b ∈ w'.attempts, b.status.active →
      b = h a ∨ b ∈ w.attempts ∧ b ≠ a := by
    intro b hb hba
    rw [hatt] at hb
    rcases List.mem_append.1 hb with hb | hb
    · rcases (hR.attemptsKeyed.mem_updateWhere ha).1 hb with hb | ⟨hb, hid⟩
      · exact Or.inl hb
      · exact Or.inr ⟨hb, fun hab => hid (by rw [hab])⟩
    · simp [hnew b hb] at hba
  have hmem : ∀ b ∈ w.attempts, b ≠ a → b ∈ w'.attempts := by
    intro b hb hab
    rw [hatt]
    refine List.mem_append_left _ ((hR.attemptsKeyed.mem_updateWhere ha).2 (Or.inr ⟨hb, ?_⟩))
    exact fun hid => hab (hR.attemptsKeyed.eq hb ha hid)
  have hmoved : h a ∈ w'.attempts := by
    rw [hatt]
    exact List.mem_append_left _ ((hR.attemptsKeyed.mem_updateWhere ha).2 (Or.inl rfl))
  refine ⟨?_, ?_, ?_⟩
  · intro b hb hba d' hd' hi
    rw [hdel] at hd'
    obtain ⟨d, hd, rfl⟩ := mem_updateWhere.1 hd'
    rw [hinput, (hf.ite p d).1] at hi
    rcases hactive b hb hba with rfl | ⟨hb, hab⟩
    · rw [hh.execution] at hi
      simpa [(hp d hd).2 hi] using hheld hba d hd ((hp d hd).2 hi)
    · have hpd : ¬p d := fun hpd => hapart b hb hba hab d hd hpd hi
      simpa [hpd] using hL.held b hb hba d hd hi
  · intro d' hd' hleased
    rw [hdel] at hd'
    obtain ⟨d, hd, rfl⟩ := mem_updateWhere.1 hd'
    by_cases hpd : p d
    · rw [if_pos hpd] at hleased
      refine ⟨h a, hmoved, howned d hd hpd hleased, ?_⟩
      rw [hinput, (hf.ite p d).1, hh.execution]
      exact (hp d hd).1 hpd
    · rw [if_neg hpd] at hleased ⊢
      obtain ⟨b, hb, hba, hi⟩ := hL.owned d hd hleased
      have hab : b ≠ a := by rintro rfl; exact hpd ((hp d hd).2 hi)
      exact ⟨b, hmem b hb hab, hba, (hinput _ _).2 hi⟩
  · intro b hb c hc hba hca htok
    rcases hactive b hb hba with rfl | ⟨hb, hab⟩ <;> rcases hactive c hc hca with rfl | ⟨hc, hac⟩
    · rfl
    · exact absurd htok.symm (htoken hba c hc hca hac)
    · exact absurd htok (htoken hca b hb hba hab)
    · exact hL.tokens b hb c hc hba hca htok

/-! ## The histories -/

/-- Every step is, for each execution, a step of its history, or starts the execution. -/
theorem Step.history (hR : Rows P placed w) (hL : Leases P w) (h : Step P placed allow late w w') :
    ∀ e' ∈ w'.executions, historyOf w'.attempts e' = .first ∨
      ∃ e ∈ w.executions, e.id = e'.id ∧ (historyOf w'.attempts e' = historyOf w.attempts e ∨
        (historyOf w.attempts e).Step (historyOf w'.attempts e')) := by
  cases h with
  | draw hn => exact fun e he => Or.inr ⟨e, he, rfl, Or.inl rfl⟩
  | route hn hnew hkeyed => exact fun e he => Or.inr ⟨e, he, rfl, Or.inl rfl⟩
  | putOff hp => exact fun e he => Or.inr ⟨e, he, rfl, Or.inl rfl⟩
  | moveRegions hf hstop hepoch => exact fun e he => Or.inr ⟨e, he, rfl, Or.inl rfl⟩
  | @start group selected region execution attempt lease inputs n hn hallow hselects hregion hgroup
      hexecution hexecutionId hattempt hattemptId htoken hlate hinputs
      hvalid =>
    obtain ⟨hexec, hnumber, hstatus, -, -⟩ := hattempt
    have hfresh : ∀ e ∈ w.executions, e.id ≠ execution.id := fun e he =>
      (hR.executionDrawn e he).ne hexecutionId le_rfl
    intro e he
    rcases List.mem_append.1 he with he | he
    · refine Or.inr ⟨e, he, rfl, Or.inl ?_⟩
      have hnone : attemptsOf [attempt] e.id = [] := by
        simp [attemptsOf, hexec, (hfresh e he).symm]
      simp only [historyOf, attemptsOf_append, hnone, List.append_nil]
    · obtain rfl := List.mem_singleton.1 he
      have hnone : attemptsOf w.attempts e.id = [] := by
        refine List.filter_eq_nil_iff.2 fun b hb => ?_
        obtain ⟨e₁, he₁, hid⟩ := hR.attemptExecution b hb
        simpa [← hid] using hfresh e₁ he₁
      have hone : attemptsOf [attempt] e.id = [attempt] := by simp [attemptsOf, hexec]
      refine Or.inl ?_
      simp only [historyOf, attemptsOf_append, hnone, hone, hexecution.1, List.nil_append,
        List.map_cons, List.map_nil, hnumber, hstatus, History.first]
  | @resume group selected execution attempt lease now n hn hselects hexecution hattempt htoken hlate hvalid =>
    obtain ⟨ha, hexec, hpending, -⟩ := hattempt
    have hmoves := ExecutionAttempt.under_moves lease now
    have hat : attempt.status.terminal = false := by simp [hpending, AttemptStatus.terminal]
    intro e he
    refine Or.inr ⟨e, he, rfl, ?_⟩
    by_cases hea : e.id = attempt.executionId
    · obtain ⟨earlier, hold, hnew⟩ := history_touch hR hL ha hmoves [] (by simp) he hea hat
      rw [List.append_nil] at hnew
      have hrun := (hL.split_of_mem he ha hea hat).1
      refine Or.inr ?_
      rw [hold, historyOf, hnew, hrun]
      exact .relabel hat rfl
    · exact Or.inl (by simpa using history_other hR ha hmoves [] (by simp) hea)
  | @extend attempt lease t p hattempt hp hvalid =>
    obtain ⟨ha, hactive, -, -⟩ := hattempt
    have hmoves := extendLease_moves t
    have hat := AttemptStatus.terminal_of_active hactive
    intro e he
    refine Or.inr ⟨e, he, rfl, ?_⟩
    by_cases hea : e.id = attempt.executionId
    · obtain ⟨earlier, hold, hnew⟩ := history_touch hR hL ha hmoves [] (by simp) he hea hat
      rw [List.append_nil] at hnew
      have hrun := (hL.split_of_mem he ha hea hat).1
      refine Or.inr ?_
      rw [hold, historyOf, hnew, hrun]
      exact .relabel hat rfl
    · exact Or.inl (by simpa using history_other hR ha hmoves [] (by simp) hea)
  | @retry attempt next execution status now failure p f n hn hattempt hstatus hexecution hnext hp
      hf hready hvalid =>
    obtain ⟨ha, hactive, hlt, -⟩ := hattempt
    obtain ⟨hnextExec, hnextNumber, hnextStatus, -⟩ := hnext
    have hmoves := closeAttempt_moves status now failure
    have hat := AttemptStatus.terminal_of_active hactive
    have hnewExec : ∀ b ∈ [next], b.executionId = attempt.executionId := fun b hb => by
      rw [List.mem_singleton.1 hb, hnextExec, hexecution.2.1]
    intro e he
    refine Or.inr ⟨e, he, rfl, ?_⟩
    by_cases hea : e.id = attempt.executionId
    · obtain ⟨earlier, hold, hnew⟩ := history_touch hR hL ha hmoves _ hnewExec he hea hat
      have hrun := (hL.split_of_mem he ha hea hat).1
      refine Or.inr ?_
      rw [hold, historyOf, hnew, hrun]
      simp only [List.map_cons, List.map_nil, hnextNumber, hnextStatus]
      exact .retry hat hstatus hlt
    · exact Or.inl (history_other hR ha hmoves _ hnewExec hea)
  | @close attempt execution status now failure p f g hattempt hstatus hexecution hg hclosed hp hf
      hterminal hvalid =>
    obtain ⟨ha, hactive, -⟩ := hattempt
    obtain ⟨hexec, hexecId, -⟩ := hexecution
    have hmoves := closeAttempt_moves status now failure
    have hat := AttemptStatus.terminal_of_active hactive
    intro e' he'
    rcases (hR.executionsKeyed.mem_updateWhere hexec).1 he' with rfl | ⟨he, hid⟩
    · obtain ⟨earlier, hold, hnew⟩ :=
        history_touch hR hL ha hmoves [] (by simp) hexec hexecId hat
      rw [List.append_nil] at hnew
      refine Or.inr ⟨execution, hexec, (hg.id _).symm, Or.inr ?_⟩
      rw [hold, historyOf, hg.id, hnew]
      exact .close hat hstatus (hclosed _)
    · refine Or.inr ⟨e', he, rfl, Or.inl ?_⟩
      exact by simpa using history_other hR ha hmoves [] (by simp) (hexecId ▸ hid)
  | @cancel now R p q r f g hp hq hr hg hclosed hf hterminal hvalidAttempt hvalid =>
    have hmoves := closeAttempt_moves .cancelled now none
    intro e' he'
    obtain ⟨e, he, rfl⟩ := mem_updateWhere.1 he'
    refine Or.inr ⟨e, he, (hg.ite q e).1.symm, ?_⟩
    have hattempts : attemptsOf (updateWhere p (closeAttempt .cancelled now none) w.attempts) e.id =
        updateWhere p (closeAttempt .cancelled now none) (attemptsOf w.attempts e.id) :=
      attemptsOf_updateWhere hmoves _ _ _
    have hsame : (∀ a ∈ attemptsOf w.attempts e.id, ¬p a) → ¬q e →
        historyOf (updateWhere p (closeAttempt .cancelled now none) w.attempts)
          (if q e then g e else e) = historyOf w.attempts e := by
      intro hpa hqe
      rw [if_neg hqe, historyOf, hattempts, updateWhere_eq_self hpa]
      rfl
    have hpof : ∀ a ∈ attemptsOf w.attempts e.id, (p a ↔ a.status.terminal = false ∧ R e.id) := by
      intro a ha
      obtain ⟨ha, hae⟩ := mem_attemptsOf.1 ha
      rw [hp a ha, hae]
    rcases (hL.discipline e he).settled with hrun | hterm
    · by_cases hR' : R e.id
      · obtain ⟨pre, a, hpre, hat, hpreT⟩ := hL.split he hrun
        have hpa : p a := (hpof a (by simp [hpre])).2 ⟨hat, hR'⟩
        have hpn : ∀ b ∈ pre, ¬p b := fun b hb hpb => by
          have := ((hpof b (by simp [hpre, hb])).1 hpb).1
          simp [hpreT b hb] at this
        have hrun' : e.status = .running := hrun
        have hqe : q e := (hq e he).2 ⟨by simp [hrun', ExecutionStatus.terminal], hR'⟩
        refine Or.inr ?_
        have hold : historyOf w.attempts e = ⟨.running,
            (pre.map fun b => (b.attemptNumber, b.status)) ++ [(a.attemptNumber, a.status)]⟩ := by
          rw [historyOf, hrun', hpre, List.map_append, List.map_singleton]
        rw [hold, if_pos hqe, historyOf, hg.id, hattempts, hpre, updateWhere_append,
          updateWhere_eq_self hpn]
        simp only [updateWhere, List.map_cons, List.map_nil, hpa, if_true, List.map_append]
        exact .close hat rfl (hclosed e)
      · exact Or.inl (hsame (fun a ha hpa => hR' ((hpof a ha).1 hpa).2)
          fun hqe => hR' ((hq e he).1 hqe).2)
    · have hterm' : e.status.terminal = true := hterm
      refine Or.inl (hsame (fun a ha hpa => ?_) fun hqe => ?_)
      · have hat := ((hpof a ha).1 hpa).1
        obtain ⟨ha, hae⟩ := mem_attemptsOf.1 ha
        have hrun := (hL.split_of_mem he ha hae.symm hat).1
        simp [hrun, ExecutionStatus.terminal] at hterm'
      · have := ((hq e he).1 hqe).1
        simp [hterm'] at this

/-- Every step keeps the discipline of the attempts. -/
theorem Leases.discipline_step (hR : Rows P placed w) (hL : Leases P w)
    (h : Step P placed allow late w w') :
    ∀ e ∈ w'.executions, Discipline (historyOf w'.attempts e) := by
  intro e' he'
  rcases h.history hR hL e' he' with hfirst | ⟨e, he, -, hsame | hstep⟩
  · rw [hfirst]; exact .first
  · rw [hsame]; exact hL.discipline e he
  · exact (hL.discipline e he).step hstep

/-! ## Every step keeps the leases -/

/-- A token drawn later is not the token of an attempt. -/
theorem Leases.token_ne (hL : Leases P w) {b : ExecutionAttempt} (hb : b ∈ w.attempts) {k : ℕ}
    (hk : w.drawn ≤ k) : b.lease.map (·.token) ≠ some (P.token k) := by
  intro h
  obtain ⟨l, hl, htok⟩ := Option.map_eq_some_iff.1 h
  obtain ⟨j, hj, hjl⟩ := hL.tokenDrawn b hb l hl
  have := P.token_injective (hjl.symm.trans htok)
  omega

/-- A delivery with the id of a selected one is the selected one. -/
theorem Rows.mem_selected (hR : Rows P placed w) {group : GroupKey} {selected : List Delivery}
    (hs : Selects w group selected) {d : Delivery} (hd : d ∈ w.deliveries)
    (hid : d.id ∈ selected.map (·.id)) : d ∈ selected := by
  obtain ⟨d₁, hd₁, hid₁⟩ := List.mem_map.1 hid
  rwa [← hR.deliveriesKeyed.eq (hs d₁ hd₁).1 hd hid₁]

/-- Closed executions stay closed while only deliveries that are open are updated. -/
theorem Leases.settled_of_open (hL : Leases P w) {p : Delivery → Bool} {f : Delivery → Delivery}
    (hf : Delivery.Moves f) (hp : ∀ d ∈ w.deliveries, p d → d.status.terminal = false)
    {e : Execution} (he : e ∈ w.executions) (hrun : e.status ≠ .running) {d' : Delivery}
    (hd' : d' ∈ updateWhere p f w.deliveries) (hi : w.IsInput e.id d'.id) :
    d'.status.terminal = true := by
  obtain ⟨d, hd, rfl⟩ := mem_updateWhere.1 hd'
  rw [(hf.ite p d).1] at hi
  have hterm := hL.settled e he hrun d hd hi
  have hpd : ¬p d := fun hpd => by simp [hp d hd hpd] at hterm
  simpa [hpd] using hterm

theorem Leases.tokenDrawn_touch (hR : Rows P placed w) (hL : Leases P w) {a : ExecutionAttempt}
    (ha : a ∈ w.attempts) {h : ExecutionAttempt → ExecutionAttempt} {n : ℕ} (hn : w.drawn ≤ n)
    (htoken : ∀ l, (h a).lease = some l → ∃ k < n, l.token = P.token k) :
    ∀ b ∈ updateWhere (·.id = a.id) h w.attempts, ∀ l, b.lease = some l →
      ∃ k < n, l.token = P.token k := by
  intro b hb l hl
  rcases (hR.attemptsKeyed.mem_updateWhere ha).1 hb with rfl | ⟨hb, -⟩
  · exact htoken l hl
  · obtain ⟨k, hk, htok⟩ := hL.tokenDrawn b hb l hl
    exact ⟨k, by omega, htok⟩

theorem Leases.attemptValid_touch (hR : Rows P placed w) (hL : Leases P w) {a : ExecutionAttempt}
    (ha : a ∈ w.attempts) {h : ExecutionAttempt → ExecutionAttempt}
    (hv : Row.violation (h a) = none) :
    ∀ b ∈ updateWhere (·.id = a.id) h w.attempts, Row.violation b = none := by
  intro b hb
  rcases (hR.attemptsKeyed.mem_updateWhere ha).1 hb with rfl | ⟨hb, -⟩
  · exact hv
  · exact hL.attemptValid b hb

theorem Leases.draw (hL : Leases P w) {n : ℕ} (hn : w.drawn ≤ n) :
    Leases P { w with drawn := n } :=
  { hL with
    tokenDrawn := fun a ha l hl =>
      let ⟨k, hk, htok⟩ := hL.tokenDrawn a ha l hl
      ⟨k, lt_of_lt_of_le hk hn, htok⟩ }

theorem Leases.route (hR : Rows P placed w) (hL : Leases P w) {new : List Delivery} {n : ℕ}
    (hn : w.drawn ≤ n)
    (hnew : ∀ d ∈ new, d.status = .ready ∧ Row.violation d = none ∧ placed d.toGroupKey ∧
      Drawn P w.drawn n d.id) :
    Leases P { w with deliveries := w.deliveries ++ new, drawn := n } := by
  have hno : ∀ d ∈ new, ∀ e, ¬w.IsInput e d.id := fun d hd e =>
    hR.not_isInput (hnew d hd).2.2.2 le_rfl
  refine { hL with
    deliveryValid := ?_, tokenDrawn := (hL.draw hn).tokenDrawn, held := ?_, owned := ?_,
    settled := ?_ }
  · intro d hd
    rcases List.mem_append.1 hd with hd | hd
    · exact hL.deliveryValid d hd
    · exact (hnew d hd).2.1
  · intro a ha haa d hd hi
    rcases List.mem_append.1 hd with hd | hd
    · exact hL.held a ha haa d hd hi
    · exact absurd hi (hno d hd _)
  · intro d hd hleased
    rcases List.mem_append.1 hd with hd | hd
    · exact hL.owned d hd hleased
    · simp [(hnew d hd).1] at hleased
  · intro e he hrun d hd hi
    rcases List.mem_append.1 hd with hd | hd
    · exact hL.settled e he hrun d hd hi
    · exact absurd hi (hno d hd _)

theorem Leases.putOff (hL : Leases P w) {p : Delivery → Bool} {t : Time} :
    Leases P { w with deliveries := updateWhere p (Delivery.putOff t) w.deliveries } := by
  -- A delivery that is put off keeps everything the leases are about.
  have hof : ∀ d' ∈ updateWhere p (Delivery.putOff t) w.deliveries, ∃ d ∈ w.deliveries,
      d'.id = d.id ∧ d'.status = d.status ∧ d'.lease = d.lease ∧
        Row.violation d' = Row.violation d := by
    intro d' hd'
    obtain ⟨d, hd, rfl⟩ := mem_updateWhere.1 hd'
    refine ⟨d, hd, ?_⟩
    by_cases hp : p d
    · rw [if_pos hp]; exact ⟨rfl, rfl, rfl, rfl⟩
    · rw [if_neg hp]; exact ⟨rfl, rfl, rfl, rfl⟩
  refine { hL with deliveryValid := ?_, held := ?_, owned := ?_, settled := ?_ }
  · intro d' hd'
    obtain ⟨d, hd, -, -, -, hv⟩ := hof d' hd'
    rw [hv]; exact hL.deliveryValid d hd
  · intro a ha haa d' hd' hi
    obtain ⟨d, hd, hid, hs, hl, -⟩ := hof d' hd'
    rw [hs, hl]
    exact hL.held a ha haa d hd (hid ▸ hi)
  · intro d' hd' hleased
    obtain ⟨d, hd, hid, hs, -⟩ := hof d' hd'
    obtain ⟨a, ha, haa, hi⟩ := hL.owned d hd (hs ▸ hleased)
    exact ⟨a, ha, haa, by rw [hid]; exact hi⟩
  · intro e he hrun d' hd' hi
    obtain ⟨d, hd, hid, hs, -⟩ := hof d' hd'
    rw [hs]
    exact hL.settled e he hrun d hd (hid ▸ hi)

theorem Leases.moveRegions (hL : Leases P w) {p : Region → Bool} {f : Region → Region}
    (hstop : ∀ r, (f r).lifecycleStatus ≠ .running) :
    Leases P { w with regions := updateWhere p f w.regions } := by
  refine { hL with epoch := ?_ }
  intro e he hrun r' hr' hregion hrunning
  obtain ⟨r, hr, rfl⟩ := mem_updateWhere.1 hr'
  by_cases hp : p r
  · simp [hp, hstop] at hrunning
  · simp only [hp, Bool.false_eq_true, if_false] at hregion hrunning ⊢
    exact hL.epoch e he hrun r hr hregion hrunning

/-- The inputs of a pending attempt that is resumed are the selected deliveries. -/
theorem Rows.isInput_selected (hR : Rows P placed w) {selected : List Delivery} {e : Execution}
    (he : e ∈ w.executions) (hdigest : e.inputSetDigest = inputSetDigest selected) (id : Uuid) :
    w.IsInput e.id id ↔ id ∈ selected.map (·.id) := by
  rw [hR.digest e he, hdigest, inputSetDigest, List.map_map]
  rfl

theorem Leases.resume (hR : Rows P placed w) (hL : Leases P w) {group : GroupKey}
    {selected : List Delivery} {e : Execution} {a : ExecutionAttempt} {lease : Lease}
    {now : Time} {n : ℕ} (hn : w.drawn ≤ n) (hs : Selects w group selected)
    (he : e ∈ w.executions) (hdigest : e.inputSetDigest = inputSetDigest selected)
    (ha : a ∈ w.attempts) (hae : a.executionId = e.id)
    (hv : Row.violation (a.under lease now) = none)
    (htoken : ∃ k, w.drawn ≤ k ∧ k < n ∧ lease.token = P.token k)
    (hvalid : ∀ d ∈ selected, Row.violation (d.under lease) = none)
    (hdiscipline : ∀ e ∈ w.executions, Discipline (historyOf
      (updateWhere (·.id = a.id) (ExecutionAttempt.under lease now) w.attempts) e)) :
    Leases P { w with
      deliveries :=
        updateWhere (fun d => d.id ∈ selected.map (·.id)) (Delivery.under lease) w.deliveries,
      attempts := updateWhere (·.id = a.id) (ExecutionAttempt.under lease now) w.attempts,
      drawn := n } := by
  obtain ⟨k, hk, hkn, htok⟩ := htoken
  set p : Delivery → Bool := fun d => d.id ∈ selected.map (·.id) with hpdef
  have hp : ∀ d ∈ w.deliveries, p d ↔ w.IsInput a.executionId d.id := fun d _ => by
    rw [hae, hR.isInput_selected he hdigest]; simp [hpdef]
  have hsel : ∀ d ∈ w.deliveries, p d → d ∈ selected := fun d hd hpd =>
    hR.mem_selected hs hd (by simpa [hpdef] using hpd)
  have hopen : ∀ d ∈ w.deliveries, p d → d.status.terminal = false := fun d hd hpd => by
    rw [(hs d (hsel d hd hpd)).2.1]; rfl
  obtain ⟨hheld, howned, htokens⟩ := hL.touch hR { w with
      deliveries := updateWhere p (Delivery.under lease) w.deliveries,
      attempts := updateWhere (·.id = a.id) (ExecutionAttempt.under lease now) w.attempts,
      drawn := n } ha (ExecutionAttempt.under_moves lease now) (Delivery.under_moves lease)
    [] rfl (by simp) rfl (by simp) hp
    (fun b hb hba _ d hd hpd => hL.not_ready hb hba hd (hs d (hsel d hd hpd)).2.1)
    (fun _ d _ _ => ⟨rfl, rfl⟩) (fun _ _ _ _ => rfl)
    (fun _ b hb _ _ => by simpa [ExecutionAttempt.under, htok] using hL.token_ne hb hk)
  exact
    { deliveryValid := valid_updateWhere hL.deliveryValid fun d hd hpd =>
        hvalid d (hsel d hd hpd)
      attemptValid := hL.attemptValid_touch hR ha hv
      tokenDrawn := hL.tokenDrawn_touch hR ha hn fun l hl => by
        obtain rfl : lease = l := by simpa [ExecutionAttempt.under] using hl
        exact ⟨k, hkn, htok⟩
      discipline := hdiscipline
      held := hheld
      owned := howned
      tokens := htokens
      settled := fun e he hrun d hd hi =>
        hL.settled_of_open (Delivery.under_moves lease) hopen he hrun hd hi
      epoch := hL.epoch }

theorem Leases.extend (hR : Rows P placed w) (hL : Leases P w) {a : ExecutionAttempt}
    {lease : Lease} {t : Time} {p : Delivery → Bool} (ha : a ∈ w.attempts)
    (haa : a.status.active) (hlease : a.lease = some lease)
    (hv : Row.violation (extendLease t a) = none)
    (hp : ∀ d ∈ w.deliveries, p d ↔ w.IsInput a.executionId d.id)
    (hvalid : ∀ d ∈ w.deliveries, p d → Row.violation (d.extend lease t) = none)
    (hdiscipline : ∀ e ∈ w.executions, Discipline (historyOf
      (updateWhere (·.id = a.id) (extendLease t) w.attempts) e)) :
    Leases P { w with
      deliveries := updateWhere p (Delivery.extend lease t) w.deliveries,
      attempts := updateWhere (·.id = a.id) (extendLease t) w.attempts } := by
  have hopen : ∀ d ∈ w.deliveries, p d → d.status.terminal = false := fun d hd hpd => by
    rw [(hL.held a ha haa d hd ((hp d hd).1 hpd)).1]; rfl
  obtain ⟨hheld, howned, htokens⟩ := hL.touch hR { w with
      deliveries := updateWhere p (Delivery.extend lease t) w.deliveries,
      attempts := updateWhere (·.id = a.id) (extendLease t) w.attempts } ha (extendLease_moves t)
    (Delivery.extend_moves lease t) [] rfl (by simp) rfl (by simp) hp
    (fun b hb hba hab d hd hpd => hL.disjoint ha hb haa hba hab hd ((hp d hd).1 hpd))
    (fun _ d _ _ => ⟨rfl, by simp [Delivery.extend, extendLease, hlease]⟩) (fun _ _ _ _ => rfl)
    (fun _ b hb hba hab htok => hab (hL.tokens b hb a ha hba haa (by
      simpa [extendLease, hlease, Function.comp_def] using htok)))
  exact
    { deliveryValid := valid_updateWhere hL.deliveryValid hvalid
      attemptValid := hL.attemptValid_touch hR ha hv
      tokenDrawn := hL.tokenDrawn_touch hR ha le_rfl fun l hl => by
        obtain rfl : { lease with expiresAt := t } = l := by
          simpa [extendLease, hlease] using hl
        exact hL.tokenDrawn a ha lease hlease
      discipline := hdiscipline
      held := hheld
      owned := howned
      tokens := htokens
      settled := fun e he hrun d hd hi =>
        hL.settled_of_open (Delivery.extend_moves lease t) hopen he hrun hd hi
      epoch := hL.epoch }

theorem Leases.retry (hR : Rows P placed w) (hL : Leases P w) {a next : ExecutionAttempt}
    {status : AttemptStatus} {now : Time} {failure : Option Json} {p : Delivery → Bool}
    {f : Delivery → Delivery} {n : ℕ} (hn : w.drawn ≤ n) (ha : a ∈ w.attempts)
    (haa : a.status.active) (hv : Row.violation (closeAttempt status now failure a) = none)
    (hstatus : status.terminal) (hpending : next.status = .pending) (hnone : next.lease = none)
    (hnextValid : Row.violation next = none)
    (hp : ∀ d ∈ w.deliveries, p d ↔ w.IsInput a.executionId d.id) (hf : Delivery.Moves f)
    (hready : ∀ d, (f d).status = .ready)
    (hvalid : ∀ d ∈ w.deliveries, p d → Row.violation (f d) = none)
    (hdiscipline : ∀ e ∈ w.executions, Discipline (historyOf
      (updateWhere (·.id = a.id) (closeAttempt status now failure) w.attempts ++ [next]) e)) :
    Leases P { w with
      deliveries := updateWhere p f w.deliveries,
      attempts :=
        updateWhere (·.id = a.id) (closeAttempt status now failure) w.attempts ++ [next],
      drawn := n } := by
  have hopen : ∀ d ∈ w.deliveries, p d → d.status.terminal = false := fun d hd hpd => by
    rw [(hL.held a ha haa d hd ((hp d hd).1 hpd)).1]; rfl
  have hclosed : ¬(closeAttempt status now failure a).status.active := by
    simp [closeAttempt, AttemptStatus.not_active_of_terminal hstatus]
  obtain ⟨hheld, howned, htokens⟩ := hL.touch hR { w with
      deliveries := updateWhere p f w.deliveries,
      attempts :=
        updateWhere (·.id = a.id) (closeAttempt status now failure) w.attempts ++ [next],
      drawn := n } ha (closeAttempt_moves status now failure) hf [next] rfl rfl rfl
    (by simp [hpending, AttemptStatus.active]) hp
    (fun b hb hba hab d hd hpd => hL.disjoint ha hb haa hba hab hd ((hp d hd).1 hpd))
    (fun h => absurd h hclosed) (fun d _ _ hl => by simp [hready] at hl)
    (fun h => absurd h hclosed)
  refine
    { deliveryValid := valid_updateWhere hL.deliveryValid hvalid
      attemptValid := ?_
      tokenDrawn := ?_
      discipline := hdiscipline
      held := hheld
      owned := howned
      tokens := htokens
      settled := fun e he hrun d hd hi => hL.settled_of_open hf hopen he hrun hd hi
      epoch := hL.epoch }
  · intro b hb
    rcases List.mem_append.1 hb with hb | hb
    · exact hL.attemptValid_touch hR ha hv b hb
    · rw [List.mem_singleton.1 hb]; exact hnextValid
  · intro b hb l hl
    rcases List.mem_append.1 hb with hb | hb
    · exact hL.tokenDrawn_touch hR ha hn (by simp [closeAttempt]) b hb l hl
    · rw [List.mem_singleton.1 hb, hnone] at hl
      simp at hl

theorem Leases.close (hR : Rows P placed w) (hL : Leases P w) {a : ExecutionAttempt}
    {e : Execution} {status : AttemptStatus} {now : Time} {failure : Option Json}
    {p : Delivery → Bool} {f : Delivery → Delivery} {g : Execution → Execution}
    (ha : a ∈ w.attempts) (haa : a.status.active)
    (hv : Row.violation (closeAttempt status now failure a) = none) (hstatus : status.terminal)
    (he : e ∈ w.executions) (hea : e.id = a.executionId) (hg : Execution.Moves g)
    (hclosed : ∀ e, (g e).status.terminal)
    (hp : ∀ d ∈ w.deliveries, p d ↔ w.IsInput a.executionId d.id) (hf : Delivery.Moves f)
    (hterminal : ∀ d, (f d).status.terminal)
    (hvalid : ∀ d ∈ w.deliveries, p d → Row.violation (f d) = none)
    (hdiscipline : ∀ e' ∈ updateWhere (·.id = e.id) g w.executions, Discipline (historyOf
      (updateWhere (·.id = a.id) (closeAttempt status now failure) w.attempts) e')) :
    Leases P { w with
      deliveries := updateWhere p f w.deliveries,
      executions := updateWhere (·.id = e.id) g w.executions,
      attempts := updateWhere (·.id = a.id) (closeAttempt status now failure) w.attempts } := by
  have hopen : ∀ d ∈ w.deliveries, p d → d.status.terminal = false := fun d hd hpd => by
    rw [(hL.held a ha haa d hd ((hp d hd).1 hpd)).1]; rfl
  have hinactive : ¬(closeAttempt status now failure a).status.active := by
    simp [closeAttempt, AttemptStatus.not_active_of_terminal hstatus]
  obtain ⟨hheld, howned, htokens⟩ := hL.touch hR { w with
      deliveries := updateWhere p f w.deliveries,
      executions := updateWhere (·.id = e.id) g w.executions,
      attempts := updateWhere (·.id = a.id) (closeAttempt status now failure) w.attempts }
    ha (closeAttempt_moves status now failure) hf [] rfl (by simp) rfl (by simp) hp
    (fun b hb hba hab d hd hpd => hL.disjoint ha hb haa hba hab hd ((hp d hd).1 hpd))
    (fun h => absurd h hinactive)
    (fun d _ _ hl => absurd hl (DeliveryStatus.ne_leased_of_terminal (hterminal d)))
    (fun h => absurd h hinactive)
  refine
    { deliveryValid := valid_updateWhere hL.deliveryValid hvalid
      attemptValid := hL.attemptValid_touch hR ha hv
      tokenDrawn := hL.tokenDrawn_touch hR ha le_rfl (by simp [closeAttempt])
      discipline := hdiscipline
      held := hheld
      owned := howned
      tokens := htokens
      settled := ?_
      epoch := ?_ }
  · intro e' he' hrun d' hd' hi
    rcases (hR.executionsKeyed.mem_updateWhere he).1 he' with rfl | ⟨he', -⟩
    · obtain ⟨d, hd, rfl⟩ := mem_updateWhere.1 hd'
      have hpd : p d := (hp d hd).2 (by
        have hi' : w.IsInput (g e).id (if p d then f d else d).id := hi
        rwa [hg.id, hea, (hf.ite p d).1] at hi')
      rw [if_pos hpd]
      exact hterminal d
    · exact hL.settled_of_open hf hopen he' hrun hd' hi
  · intro e' he' hrun
    rcases (hR.executionsKeyed.mem_updateWhere he).1 he' with rfl | ⟨he', -⟩
    · exact absurd hrun (ExecutionStatus.ne_running_of_terminal (hclosed e))
    · exact hL.epoch e' he' hrun

theorem Leases.start (hR : Rows P placed w) (hL : Leases P w) {group : GroupKey}
    {selected : List Delivery} {region : Region} {execution : Execution}
    {attempt : ExecutionAttempt} {lease : Lease} {inputs : List ExecutionInput} {n : ℕ}
    (hn : w.drawn ≤ n) (hs : Selects w group selected)
    (hregions : Keyed (·.id) w.regions)
    (hregion : region ∈ w.regions ∧ region.id = group.regionId ∧
      region.lifecycleStatus = .running)
    (hgroup : ∀ c, execution.groupKey c = { group with correlationId := c })
    (hrunning : execution.status = .running)
    (hepoch : execution.lifecycleEpoch = region.lifecycleEpoch)
    (hexecutionId : Drawn P w.drawn n execution.id)
    (hattempt : attempt.executionId = execution.id ∧ attempt.status = .leased ∧
      attempt.lease = some lease ∧ Row.violation attempt = none)
    (htoken : ∃ k, w.drawn ≤ k ∧ k < n ∧ lease.token = P.token k)
    (hinputs : ∀ i, i ∈ inputs ↔
      i ∈ w.inputs ∨ ∃ d ∈ selected, i = ⟨execution.id, d.targetPortName, d.id⟩)
    (hvalid : ∀ d ∈ selected, Row.violation (d.under lease) = none)
    (hdiscipline : ∀ e ∈ w.executions ++ [execution],
      Discipline (historyOf (w.attempts ++ [attempt]) e)) :
    Leases P { w with
      deliveries :=
        updateWhere (fun d => d.id ∈ selected.map (·.id)) (Delivery.under lease) w.deliveries,
      executions := w.executions ++ [execution],
      inputs, attempts := w.attempts ++ [attempt], drawn := n } := by
  set p : Delivery → Bool := fun d => d.id ∈ selected.map (·.id) with hpdef
  set w' : Work := { w with
    deliveries := updateWhere p (Delivery.under lease) w.deliveries,
    executions := w.executions ++ [execution],
    inputs, attempts := w.attempts ++ [attempt], drawn := n } with hw'
  obtain ⟨hexec, hleased, hlease, hattemptValid⟩ := hattempt
  obtain ⟨k, hk, hkn, htok⟩ := htoken
  have hfresh : ∀ e ∈ w.executions, e.id ≠ execution.id := fun e he =>
    (hR.executionDrawn e he).ne hexecutionId le_rfl
  have hsel : ∀ d ∈ w.deliveries, p d → d ∈ selected := fun d hd hpd =>
    hR.mem_selected hs hd (by simpa [hpdef] using hpd)
  have hopen : ∀ d ∈ w.deliveries, p d → d.status.terminal = false := fun d hd hpd => by
    rw [(hs d (hsel d hd hpd)).2.1]; rfl
  have inputNew : ∀ id, w'.IsInput execution.id id ↔ id ∈ selected.map (·.id) := by
    intro id
    constructor
    · rintro ⟨i, hi, hie, rfl⟩
      rcases (hinputs i).1 hi with hi | ⟨d, hd, rfl⟩
      · obtain ⟨e, he, hid⟩ := hR.inputExecution i hi
        exact absurd (hid.trans hie) (hfresh e he)
      · exact List.mem_map_of_mem hd
    · intro hid
      obtain ⟨d, hd, rfl⟩ := List.mem_map.1 hid
      exact ⟨_, (hinputs _).2 (Or.inr ⟨d, hd, rfl⟩), rfl, rfl⟩
  have inputOld : ∀ x, x ≠ execution.id → ∀ id, w'.IsInput x id ↔ w.IsInput x id := by
    intro x hx id
    constructor
    · rintro ⟨i, hi, hie, rfl⟩
      rcases (hinputs i).1 hi with hi | ⟨d, hd, rfl⟩
      · exact ⟨i, hi, hie, rfl⟩
      · exact absurd hie.symm hx
    · rintro ⟨i, hi, hie, rfl⟩
      exact ⟨i, (hinputs i).2 (Or.inl hi), hie, rfl⟩
  have hother : ∀ b ∈ w.attempts, b.executionId ≠ execution.id := fun b hb => by
    obtain ⟨e, he, hid⟩ := hR.attemptExecution b hb
    exact hid ▸ hfresh e he
  have mem : ∀ b ∈ w'.attempts, b ∈ w.attempts ∨ b = attempt := fun b hb => by
    simpa [hw'] using hb
  have htokNe : ∀ b ∈ w.attempts, b.lease.map (·.token) ≠ attempt.lease.map (·.token) :=
    fun b hb => by simpa [hlease, htok] using hL.token_ne hb hk
  refine
    { deliveryValid := valid_updateWhere hL.deliveryValid fun d hd hpd => hvalid d (hsel d hd hpd)
      attemptValid := ?_, tokenDrawn := ?_, discipline := hdiscipline, held := ?_, owned := ?_
      tokens := ?_, settled := ?_, epoch := ?_ }
  · intro b hb
    rcases mem b hb with hb | rfl
    · exact hL.attemptValid b hb
    · exact hattemptValid
  · intro b hb l hl
    rcases mem b hb with hb | rfl
    · obtain ⟨j, hj, hjl⟩ := hL.tokenDrawn b hb l hl
      exact ⟨j, lt_of_lt_of_le hj hn, hjl⟩
    · obtain rfl : lease = l := by simpa [hlease] using hl
      exact ⟨k, hkn, htok⟩
  · intro b hb hba d' hd' hi
    obtain ⟨d, hd, rfl⟩ := mem_updateWhere.1 hd'
    rw [((Delivery.under_moves lease).ite p d).1] at hi
    rcases mem b hb with hb | rfl
    · rw [inputOld _ (hother b hb)] at hi
      have hpd : ¬p d := fun hpd => hL.not_ready hb hba hd (hs d (hsel d hd hpd)).2.1 hi
      simpa [hpd] using hL.held b hb hba d hd hi
    · have hpd : p d := by
        rw [hexec] at hi
        simpa [hpdef] using (inputNew _).1 hi
      rw [if_pos hpd]
      exact ⟨rfl, hlease.symm⟩
  · intro d' hd' hl
    obtain ⟨d, hd, rfl⟩ := mem_updateWhere.1 hd'
    rw [((Delivery.under_moves lease).ite p d).1]
    by_cases hpd : p d
    · refine ⟨attempt, by simp [hw'], by rw [hleased]; rfl, ?_⟩
      rw [hexec]
      exact (inputNew _).2 (by simpa [hpdef] using hpd)
    · rw [if_neg hpd] at hl
      obtain ⟨b, hb, hba, hi⟩ := hL.owned d hd hl
      exact ⟨b, List.mem_append_left _ hb, hba, (inputOld _ (hother b hb) _).2 hi⟩
  · intro b hb c hc hba hca hbc
    rcases mem b hb with hb' | hb' <;> rcases mem c hc with hc' | hc'
    · exact hL.tokens b hb' c hc' hba hca hbc
    · exact absurd (hc' ▸ hbc) (htokNe b hb')
    · exact absurd (hb' ▸ hbc).symm (htokNe c hc')
    · rw [hb', hc']
  · intro e he hrun d hd hi
    rcases List.mem_append.1 he with he | he
    · exact hL.settled_of_open (Delivery.under_moves lease) hopen he hrun hd
        ((inputOld _ (hfresh e he) _).1 hi)
    · rw [List.mem_singleton.1 he] at hrun
      exact absurd hrunning hrun
  · intro e he hrun r hr hre hrr
    rcases List.mem_append.1 he with he | he
    · exact hL.epoch e he hrun r hr hre hrr
    · obtain rfl := List.mem_singleton.1 he
      have hregionId : e.regionId = group.regionId :=
        congrArg GroupKey.regionId (hgroup group.correlationId)
      have : r = region :=
        hregions.eq hr hregion.1 (by rw [hre, hregionId, hregion.2.1])
      rw [hepoch, this]

theorem Leases.cancel (hR : Rows P placed w) (hL : Leases P w) {now : Time} {R : Uuid → Prop}
    {p : ExecutionAttempt → Bool} {q : Execution → Bool} {r : Delivery → Bool}
    {f : Delivery → Delivery} {g : Execution → Execution}
    (hp : ∀ a ∈ w.attempts, p a ↔ a.status.terminal = false ∧ R a.executionId)
    (hq : ∀ e ∈ w.executions, q e ↔ e.status.terminal = false ∧ R e.id)
    (hr : ∀ d ∈ w.deliveries, ∀ e ∈ w.executions, w.IsInput e.id d.id →
      (r d ↔ d.status.terminal = false ∧ R e.id))
    (hg : Execution.Moves g) (hclosed : ∀ e, (g e).status.terminal) (hf : Delivery.Moves f)
    (hterminal : ∀ d, (f d).status.terminal)
    (hvalidAttempt : ∀ a ∈ w.attempts, p a →
      Row.violation (closeAttempt .cancelled now none a) = none)
    (hvalid : ∀ d ∈ w.deliveries, r d → Row.violation (f d) = none)
    (hdiscipline : ∀ e ∈ updateWhere q g w.executions, Discipline (historyOf
      (updateWhere p (closeAttempt .cancelled now none) w.attempts) e)) :
    Leases P { w with
      deliveries := updateWhere r f w.deliveries,
      executions := updateWhere q g w.executions,
      attempts := updateWhere p (closeAttempt .cancelled now none) w.attempts } := by
  -- An attempt that is active afterwards was not cancelled, nor were its inputs.
  have hactive : ∀ b ∈ updateWhere p (closeAttempt .cancelled now none) w.attempts,
      b.status.active → b ∈ w.attempts ∧ ¬R b.executionId := by
    intro b' hb' hba
    obtain ⟨b, hb, rfl⟩ := mem_updateWhere.1 hb'
    by_cases hpb : p b
    · simp [hpb, closeAttempt, AttemptStatus.active] at hba
    · rw [if_neg hpb] at hba ⊢
      refine ⟨hb, fun hRb => hpb ((hp b hb).2 ⟨AttemptStatus.terminal_of_active hba, hRb⟩)⟩
  have hkept : ∀ b ∈ w.attempts, ¬R b.executionId →
      b ∈ updateWhere p (closeAttempt .cancelled now none) w.attempts := fun b hb hRb =>
    mem_updateWhere_of_not hb fun hpb => hRb ((hp b hb).1 hpb).2
  refine
    { deliveryValid := valid_updateWhere hL.deliveryValid hvalid
      attemptValid := valid_updateWhere hL.attemptValid hvalidAttempt
      tokenDrawn := ?_, discipline := hdiscipline, held := ?_, owned := ?_, tokens := ?_
      settled := ?_, epoch := ?_ }
  · intro b' hb' l hl
    obtain ⟨b, hb, rfl⟩ := mem_updateWhere.1 hb'
    by_cases hpb : p b
    · simp [hpb, closeAttempt] at hl
    · rw [if_neg hpb] at hl
      exact hL.tokenDrawn b hb l hl
  · intro b hb hba d' hd' hi
    obtain ⟨hb, hRb⟩ := hactive b hb hba
    obtain ⟨d, hd, rfl⟩ := mem_updateWhere.1 hd'
    have hi' : w.IsInput b.executionId (if r d then f d else d).id := hi
    rw [(hf.ite r d).1] at hi'
    obtain ⟨e, he, hid⟩ := hR.attemptExecution b hb
    have hrd : ¬r d := fun hrd => hRb (hid ▸ ((hr d hd e he (hid ▸ hi')).1 hrd).2)
    simpa [hrd] using hL.held b hb hba d hd hi'
  · intro d' hd' hl
    obtain ⟨d, hd, rfl⟩ := mem_updateWhere.1 hd'
    by_cases hrd : r d
    · rw [if_pos hrd] at hl
      exact absurd hl (DeliveryStatus.ne_leased_of_terminal (hterminal d))
    · rw [if_neg hrd] at hl ⊢
      obtain ⟨b, hb, hba, hi⟩ := hL.owned d hd hl
      obtain ⟨e, he, hid⟩ := hR.attemptExecution b hb
      have hRb : ¬R b.executionId := fun hRb => hrd ((hr d hd e he (hid ▸ hi)).2
        ⟨by rw [hl]; rfl, hid ▸ hRb⟩)
      exact ⟨b, hkept b hb hRb, hba, hi⟩
  · intro b hb c hc hba hca hbc
    exact hL.tokens b (hactive b hb hba).1 c (hactive c hc hca).1 hba hca hbc
  · intro e' he' hrun d' hd' hi
    obtain ⟨e, he, rfl⟩ := mem_updateWhere.1 he'
    obtain ⟨d, hd, rfl⟩ := mem_updateWhere.1 hd'
    have hi' : w.IsInput e.id d.id := by
      have hi' : w.IsInput (if q e then g e else e).id (if r d then f d else d).id := hi
      rwa [(hg.ite q e).1, (hf.ite r d).1] at hi'
    by_cases hrd : r d
    · rw [if_pos hrd]; exact hterminal d
    · rw [if_neg hrd]
      by_cases hqe : q e
      · by_contra hopen
        exact hrd ((hr d hd e he hi').2 ⟨by simpa using hopen, ((hq e he).1 hqe).2⟩)
      · rw [if_neg hqe] at hrun
        exact hL.settled e he hrun d hd hi'
  · intro e' he' hrun rg hrg hre hrr
    obtain ⟨e, he, rfl⟩ := mem_updateWhere.1 he'
    by_cases hqe : q e
    · rw [if_pos hqe] at hrun
      exact absurd hrun (ExecutionStatus.ne_running_of_terminal (hclosed e))
    · rw [if_neg hqe] at hrun hre ⊢
      exact hL.epoch e he hrun rg hrg hre hrr

/-- The regions keep their keys. -/
theorem Step.regionsKeyed (h : Step P placed allow late w w') (hk : Keyed (·.id) w.regions) :
    Keyed (·.id) w'.regions := by
  cases h with
  | moveRegions hf hstop hepoch => exact hk.updateWhere hf.id
  | _ => exact hk

/-- Every step keeps the invariant. -/
theorem Coherent.step (hw : Coherent P placed w) (h : Step P placed allow late w w') :
    Coherent P placed w' := by
  have hR := hw.toRows
  have hL := hw.toLeases
  have hdiscipline := hL.discipline_step hR h
  have hregions := h.regionsKeyed hw.regionsKeyed
  refine { hR.step h with toLeases := ?_, regionsKeyed := hregions }
  cases h with
  | draw hn => exact hL.draw hn
  | route hn hnew hkeyed => exact hL.route hR hn hnew
  | putOff hp => exact hL.putOff
  | start hn hallow hselects hregion hgroup hexecution hexecutionId hattempt hattemptId htoken hlate
      hinputs hvalid =>
    exact hL.start hR hn hselects hw.regionsKeyed hregion hgroup hexecution.1 hexecution.2.1
      hexecutionId ⟨hattempt.1, hattempt.2.2⟩ htoken hinputs hvalid hdiscipline
  | resume hn hselects hexecution hattempt htoken hlate hvalid =>
    exact hL.resume hR hn hselects hexecution.1 hexecution.2.2 hattempt.1 hattempt.2.1
      hattempt.2.2.2 htoken hvalid hdiscipline
  | extend hattempt hlate hp hvalid =>
    exact hL.extend hR hattempt.1 hattempt.2.1 hattempt.2.2.1 hattempt.2.2.2 hp hvalid hdiscipline
  | retry hn hattempt hstatus hexecution hnext hp hf hready hvalid =>
    exact hL.retry hR hn hattempt.1 hattempt.2.1 hattempt.2.2.2 hstatus hnext.2.2.1 hnext.2.2.2.1
      hnext.2.2.2.2.1 hp hf hready hvalid hdiscipline
  | close hattempt hstatus hexecution hg hclosed hp hf hterminal hvalid =>
    exact hL.close hR hattempt.1 hattempt.2.1 hattempt.2.2 hstatus hexecution.1 hexecution.2.1 hg
      hclosed hp hf hterminal hvalid hdiscipline
  | cancel hp hq hr hg hclosed hf hterminal hvalidAttempt hvalid =>
    exact hL.cancel hR hp hq hr hg hclosed hf hterminal hvalidAttempt hvalid hdiscipline
  | moveRegions hf hstop hepoch => exact hL.moveRegions hstop

end Work

end FactoryFloor
