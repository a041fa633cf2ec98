import Mathlib.Logic.Relation
import FactoryFloor.Coherence
import FactoryFloor.CommitEffect
import FactoryFloor.Runtime

/-!
# The operations refine the steps of the work

Each operation of the runtime that succeeds is some steps of the work, one after the other
(`Refines`). An operation that routes nothing refines the steps whose `placed` holds of no group,
so it keeps what identifies the deliveries.

The operations find the rows they move by the conditions of the source. The invariant of the work
says that these are the rows the steps name : an active attempt is the last of its execution, a
token in use is not drawn again, a group that is resumed has its rows.
-/

namespace FactoryFloor

open Relational

/-! ## Runs of steps -/

/-- Some steps of the work, which write neither the catalog nor the budgets. -/
structure Refines (P : Platform) (placed : GroupKey → Prop) (allow : Work → List Delivery → Prop)
    (late : Time → Prop) (db db' : Db) : Prop where
  catalog : db'.toCatalog = db.toCatalog
  budgets : db'.budgets = db.budgets
  steps : Relation.ReflTransGen (Work.Step P placed allow late) db.work db'.work

/-- No group. -/
def nowhere (_ : GroupKey) : Prop := False

/-- The tables that scheduling does not write. -/
structure SameTables (db db' : Db) : Prop where
  catalog : db'.toCatalog = db.toCatalog
  budgets : db'.budgets = db.budgets
  artifacts : db'.toArtifactTables = db.toArtifactTables
  publications : db'.toPublications = db.toPublications

/-- Some steps that route nothing and write the tables of scheduling only. -/
structure Schedules (P : Platform) (allow : Work → List Delivery → Prop) (late : Time → Prop)
    (db db' : Db) : Prop extends SameTables db db' where
  steps : Relation.ReflTransGen (Work.Step P nowhere allow late) db.work db'.work

section

variable {P : Platform} {placed placed' : GroupKey → Prop}
variable {allow allow' : Work → List Delivery → Prop} {late late' : Time → Prop}
variable {db db₁ db₂ : Db} {w w' : Work}

theorem Work.Step.mono (h : Work.Step P placed allow late w w')
    (hplaced : ∀ g, placed g → placed' g) (hallow : ∀ w s, allow w s → allow' w s)
    (hlate : ∀ t, late t → late' t) : Work.Step P placed' allow' late' w w' := by
  cases h with
  | draw hn => exact .draw hn
  | route hn hnew hkeyed =>
    exact .route hn (fun d hd => ⟨(hnew d hd).1, (hnew d hd).2.1, hplaced _ (hnew d hd).2.2.1,
      (hnew d hd).2.2.2⟩) hkeyed
  | putOff hp => exact .putOff hp
  | start hn h₁ h₂ h₃ h₄ h₅ h₆ h₇ h₈ h₉ h₁₀ h₁₁ h₁₂ =>
    exact .start hn (hallow _ _ h₁) h₂ h₃ h₄ h₅ h₆ h₇ h₈ h₉ (hlate _ h₁₀) h₁₁ h₁₂
  | resume hn h₁ h₂ h₃ h₄ h₅ h₆ => exact .resume hn h₁ h₂ h₃ h₄ (hlate _ h₅) h₆
  | extend h₁ h₂ h₃ h₄ => exact .extend h₁ (hlate _ h₂) h₃ h₄
  | retry hn h₁ h₂ h₃ h₄ h₅ h₆ h₇ h₈ => exact .retry hn h₁ h₂ h₃ h₄ h₅ h₆ h₇ h₈
  | close h₁ h₂ h₃ h₄ h₅ h₆ h₇ h₈ h₉ => exact .close h₁ h₂ h₃ h₄ h₅ h₆ h₇ h₈ h₉
  | cancel h₁ h₂ h₃ h₄ h₅ h₆ h₇ h₈ h₉ => exact .cancel h₁ h₂ h₃ h₄ h₅ h₆ h₇ h₈ h₉
  | moveRegions h₁ h₂ h₃ => exact .moveRegions h₁ h₂ h₃

namespace Refines

theorem refl : Refines P placed allow late db db :=
  ⟨rfl, rfl, .refl⟩

theorem trans (h : Refines P placed allow late db db₁) (h' : Refines P placed allow late db₁ db₂) :
    Refines P placed allow late db db₂ :=
  ⟨h'.catalog.trans h.catalog, h'.budgets.trans h.budgets, h.steps.trans h'.steps⟩

/-- An operation that is one step. -/
theorem single (hcatalog : db₁.toCatalog = db.toCatalog) (hbudgets : db₁.budgets = db.budgets)
    (h : Work.Step P placed allow late db.work db₁.work) : Refines P placed allow late db db₁ :=
  ⟨hcatalog, hbudgets, .single h⟩

/-- An operation that at most draws. -/
theorem of_work (hcatalog : db₁.toCatalog = db.toCatalog) (hbudgets : db₁.budgets = db.budgets)
    {n : ℕ} (hn : db.drawn ≤ n) (hwork : db₁.work = { db.work with drawn := n }) :
    Refines P placed allow late db db₁ :=
  single hcatalog hbudgets (hwork ▸ Work.Step.draw hn)

theorem mono (h : Refines P placed allow late db db₁) (hplaced : ∀ g, placed g → placed' g)
    (hallow : ∀ w s, allow w s → allow' w s) (hlate : ∀ t, late t → late' t) :
    Refines P placed' allow' late' db db₁ := by
  have hle : ∀ w w', Work.Step P placed allow late w w' → Work.Step P placed' allow' late' w w' :=
    fun _ _ hs => hs.mono hplaced hallow hlate
  exact ⟨h.catalog, h.budgets, Relation.ReflTransGen.mono hle _ _ h.steps⟩

/-- An operation that routes nothing, under any `placed`. -/
theorem anywhere (h : Refines P nowhere allow late db db₁) : Refines P placed allow late db db₁ :=
  h.mono (fun _ hg => hg.elim) (fun _ _ h => h) fun _ h => h

/-- What each step keeps holds after the operation. -/
theorem invariant {I : Work → Prop} (h : Refines P placed allow late db db₁)
    (hstep : ∀ w w', I w → Work.Step P placed allow late w w' → I w') (hI : I db.work) :
    I db₁.work := by
  have hrun : ∀ w, Relation.ReflTransGen (Work.Step P placed allow late) db.work w → I w := by
    intro w hsteps
    induction hsteps with
    | refl => exact hI
    | tail _ hs ih => exact hstep _ _ ih hs
  exact hrun _ h.steps

theorem coherent (h : Refines P placed allow late db db₁) (hw : Work.Coherent P placed db.work) :
    Work.Coherent P placed db₁.work :=
  h.invariant (fun _ _ hw hs => hw.step hs) hw

end Refines

theorem SameTables.refl : SameTables db db :=
  ⟨rfl, rfl, rfl, rfl⟩

theorem SameTables.trans (h : SameTables db db₁) (h' : SameTables db₁ db₂) : SameTables db db₂ :=
  ⟨h'.catalog.trans h.catalog, h'.budgets.trans h.budgets, h'.artifacts.trans h.artifacts,
    h'.publications.trans h.publications⟩

namespace Schedules

theorem refl : Schedules P allow late db db :=
  ⟨.refl, .refl⟩

theorem trans (h : Schedules P allow late db db₁) (h' : Schedules P allow late db₁ db₂) :
    Schedules P allow late db db₂ :=
  ⟨h.toSameTables.trans h'.toSameTables, h.steps.trans h'.steps⟩

theorem single (htables : SameTables db db₁)
    (h : Work.Step P nowhere allow late db.work db₁.work) : Schedules P allow late db db₁ :=
  ⟨htables, .single h⟩

/-- An operation that only schedules refines the steps, wherever others route. -/
theorem refines (h : Schedules P allow late db db₁) : Refines P placed allow late db db₁ :=
  Refines.anywhere ⟨h.catalog, h.budgets, h.steps⟩

theorem coherent (h : Schedules P allow late db db₁) (hw : Work.Coherent P placed db.work) :
    Work.Coherent P placed db₁.work :=
  h.refines.coherent hw

end Schedules

end

/-! ## Rows of an active attempt -/

section

variable {P : Platform} {placed : GroupKey → Prop} {allow : Work → List Delivery → Prop}
variable {late : Time → Prop} {db db' : Db} {now : Time}

theorem mem_inputDeliveries {executionId : Uuid} {d : Delivery} :
    d ∈ db.inputDeliveries executionId ↔ d ∈ db.deliveries ∧ db.work.IsInput executionId d.id := by
  unfold Db.inputDeliveries
  rw [List.mem_filter, decide_eq_true_iff]
  simp [Db.inputIds, Work.IsInput, Db.work, and_assoc]

/-- The deliveries an update finds by the ids of an execution's inputs. -/
theorem mem_inputDeliveries_ids {executionId : Uuid} {d : Delivery} (hd : d ∈ db.deliveries) :
    d.id ∈ (db.inputDeliveries executionId).map (·.id) ↔ db.work.IsInput executionId d.id := by
  constructor
  · intro h
    obtain ⟨d', hd', hid⟩ := List.mem_map.1 h
    exact hid ▸ (mem_inputDeliveries.1 hd').2
  · exact fun h => List.mem_map_of_mem (mem_inputDeliveries.2 ⟨hd, h⟩)

/-- An attempt that is not terminal has the largest number of its execution. -/
theorem Work.Leases.number_le {w : Work} (hL : Work.Leases P w) {e : Execution}
    (he : e ∈ w.executions) {a b : ExecutionAttempt} (ha : a ∈ w.attempts) (hb : b ∈ w.attempts)
    (hea : e.id = a.executionId) (hbe : b.executionId = e.id) (hat : a.status.terminal = false) :
    b.attemptNumber ≤ a.attemptNumber := by
  obtain ⟨-, pre, hpre, -⟩ := hL.split_of_mem he ha hea hat
  have hd := hL.discipline e he
  have hmem : b.attemptNumber ∈ (historyOf w.attempts e).attempts.map Prod.fst :=
    List.mem_map_of_mem (List.mem_map_of_mem (mem_attemptsOf.2 ⟨hb, hbe⟩))
  rw [hd.numbered, List.mem_range'] at hmem
  obtain ⟨i, hi, hbi⟩ := hmem
  simp only [historyOf, hpre, List.length_map, List.length_append, List.length_singleton] at hi
  have hsplit : Discipline ⟨e.status, (pre.map fun c => (c.attemptNumber, c.status)) ++
      [(a.attemptNumber, a.status)]⟩ := by
    simpa [historyOf, hpre] using hd
  have hnumber := hsplit.number_eq
  simp only [List.length_map] at hnumber
  omega

/-- The next attempt is appended, unless the execution has one with its number. -/
theorem insertNextAttempt_eq_ok {executionId : Uuid} {attemptNumber : ℕ} {startedAt : Time}
    (h : insertNextAttempt P executionId attemptNumber startedAt db = .ok db') :
    (∃ b ∈ db.attempts, b.executionId = executionId ∧ b.attemptNumber = attemptNumber + 1) ∨
      db' = { db.draw with
        attempts := db.attempts ++ [nextAttempt P executionId attemptNumber startedAt db] } := by
  unfold insertNextAttempt at h
  obtain ⟨attempts, hinsert, h⟩ := Except.bind_eq_ok.1 h
  obtain rfl := Except.ok.inj h
  rcases insertOrIgnore_eq_ok (sql_eq_ok.1 hinsert) with ⟨-, b, hb, hsame⟩ | ⟨rfl, -, -⟩
  · simp only [Bool.and_eq_true, decide_eq_true_eq] at hsame
    exact Or.inl ⟨b, hb, hsame.1.symm, hsame.2.symm⟩
  · exact Or.inr rfl

/-- After the last attempt of an execution is closed, none has the number after it. -/
theorem no_next_attempt (hL : Work.Leases P db.work) {e : Execution} (he : e ∈ db.executions)
    {a : ExecutionAttempt} (ha : a ∈ db.attempts) (hea : e.id = a.executionId)
    (hat : a.status.terminal = false) {p : ExecutionAttempt → Bool} {status : AttemptStatus}
    {failure : Option Json} :
    ¬∃ b ∈ updateWhere p (closeAttempt status now failure) db.attempts,
      b.executionId = e.id ∧ b.attemptNumber = a.attemptNumber + 1 := by
  rintro ⟨b, hb, hbe, hnumber⟩
  obtain ⟨c, hc, rfl⟩ := mem_updateWhere.1 hb
  have hmoves := (closeAttempt_moves status now failure).ite p c
  have := hL.number_le he ha hc hea (hmoves.2.1 ▸ hbe) hat
  rw [hmoves.2.2] at hnumber
  omega

/-- The next attempt of an execution satisfies the constraints of its table. -/
theorem nextAttempt_valid (executionId : Uuid) (attemptNumber : ℕ) (startedAt : Time) :
    Row.violation (nextAttempt P executionId attemptNumber startedAt db) = none := by
  rw [Row.violation, instRowExecutionAttempt, firstViolation_eq_none]
  simp [nextAttempt, AttemptStatus.active, AttemptStatus.terminal]

/-- The updates by which an attempt ends and is retried. -/
theorem retry_schedules (hw : Work.Coherent P placed db.work) {a : ExecutionAttempt} {e : Execution}
    (ha : a ∈ db.attempts) (hactive : a.status.active) (he : e ∈ db.executions)
    (hea : e.id = a.executionId) (hnumber : a.attemptNumber < maxAttempts) {status : AttemptStatus}
    {failure : Option Json} {startedAt : Time} {db₁ db₂ : Db} {p : Delivery → Bool}
    {f : Delivery → Delivery}
    (h₁ : updateAttempts (·.id = a.id) (closeAttempt status now failure) db = .ok db₁)
    (h₂ : insertNextAttempt P e.id a.attemptNumber startedAt db₁ = .ok db₂)
    (h₃ : updateDeliveries p f db₂ = .ok db') (hstatus : status.terminal)
    (hp : ∀ d ∈ db.deliveries, p d ↔ db.work.IsInput a.executionId d.id) (hf : Delivery.Moves f)
    (hready : ∀ d, (f d).status = .ready) : Schedules P allow late db db' := by
  have hopen := AttemptStatus.terminal_of_active hactive
  have hrunning := (hw.toLeases.split_of_mem he ha hea hopen).1
  obtain ⟨rfl, hvalid₁⟩ := (updateAttempts_eq_ok_of_closed fun _ => rfl).1 h₁
  rcases insertNextAttempt_eq_ok h₂ with hnext | rfl
  · exact absurd hnext (no_next_attempt hw.toLeases he ha hea hopen)
  · obtain ⟨rfl, hvalid₃⟩ := updateDeliveries_eq_ok.1 h₃
    exact Schedules.single ⟨rfl, rfl, rfl, rfl⟩ (Work.Step.retry (n := db.drawn + 1) (Nat.le_succ _)
      ⟨ha, hactive, hnumber, hvalid₁ a ha (by simp)⟩ hstatus ⟨he, hea, hrunning⟩
      ⟨rfl, rfl, rfl, rfl, nextAttempt_valid _ _ _, ⟨db.drawn, le_rfl, Nat.lt_succ_self _, rfl⟩⟩
      hp hf hready hvalid₃)

/-- The updates by which an attempt ends and closes its execution. -/
theorem close_schedules (hw : Work.Coherent P placed db.work) {a : ExecutionAttempt} {e : Execution}
    (ha : a ∈ db.attempts) (hactive : a.status.active) (he : e ∈ db.executions)
    (hea : e.id = a.executionId) {status : AttemptStatus} {failure : Option Json} {db₁ db₂ : Db}
    {p : Delivery → Bool} {f : Delivery → Delivery} {g : Execution → Execution}
    (h₁ : updateAttempts (·.id = a.id) (closeAttempt status now failure) db = .ok db₁)
    (h₂ : updateExecutions (·.id = e.id) g db₁ = .ok db₂) (h₃ : updateDeliveries p f db₂ = .ok db')
    (hstatus : status.terminal) (hg : Execution.Moves g) (hclosed : ∀ e, (g e).status.terminal)
    (hp : ∀ d ∈ db.deliveries, p d ↔ db.work.IsInput a.executionId d.id) (hf : Delivery.Moves f)
    (hterminal : ∀ d, (f d).status.terminal) : Schedules P allow late db db' := by
  have hrunning := (hw.toLeases.split_of_mem he ha hea (AttemptStatus.terminal_of_active hactive)).1
  obtain ⟨rfl, hvalid₁⟩ := (updateAttempts_eq_ok_of_closed fun _ => rfl).1 h₁
  obtain ⟨rfl, -⟩ := updateExecutions_eq_ok.1 h₂
  obtain ⟨rfl, hvalid₃⟩ := updateDeliveries_eq_ok.1 h₃
  exact Schedules.single ⟨rfl, rfl, rfl, rfl⟩ (Work.Step.close ⟨ha, hactive, hvalid₁ a ha (by simp)⟩ hstatus
    ⟨he, hea, hrunning⟩ hg hclosed hp hf hterminal hvalid₃)

end

end FactoryFloor
