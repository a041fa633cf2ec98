import FactoryFloor.InstallationSound

/-!
# Delegated budgets

A region's budget of a resource comes under the budget its parent region has. The check is made
when the region is configured, against the budget the parent has then. `configureRegionBudgets_spec`
says which budgets are active after a configuration : a limit that the region's active budget
states already leaves that budget, and any other limit replaces it.

So a configuration of a parent region that replaces a budget leaves the budgets of its child regions
under a retired one, or above the new one (`parent_budget_lowered`). `delegations_kept` is about the
configurations that replace no budget a child region has an active budget of the resource under.
-/

namespace FactoryFloor

open Relational Transition

variable {P : Platform} {db db' d d' : Db} {now : Time} {regionId : Uuid}
variable {parentRegionId : Option Uuid} {limits : List NormalizedBudgetLimit}

/-! ## Active budgets -/

/-- The active budgets of a region for a resource. -/
def activeOf (db : Db) (regionId : Uuid) (resourceType : String) : List ResourceBudget :=
  db.budgets.filter fun b =>
    b.scopeId = regionId && b.resourceType = resourceType && b.retiredAt.isNone

theorem mem_activeOf {resourceType : String} {b : ResourceBudget} :
    b ∈ activeOf db regionId resourceType ↔
      b ∈ db.budgets ∧ b.scopeId = regionId ∧ b.resourceType = resourceType ∧ b.retiredAt = none := by
  simp [activeOf, and_assoc]

theorem activeBudget_eq_head? (db : Db) (regionId : Uuid) (resourceType : String) :
    activeBudget db regionId resourceType = (activeOf db regionId resourceType).head? := by
  rw [activeOf, List.head?_filter]
  rfl

/-- Whether the active budget of a region states a limit already. -/
def statesLimit (db : Db) (regionId : Uuid) (parentRegionId : Option Uuid)
    (limit : NormalizedBudgetLimit) : Bool :=
  (activeBudget db regionId limit.resourceType).any
    (sameBudget ((parentBudget parentRegionId limit db).map (·.id)) limit)

/-- The rows of a table of budgets. -/
structure BudgetRows (P : Platform) (db : Db) : Prop where
  keyed : Keyed (·.id) db.budgets
  /-- `resource_budgets_active_scope_resource_unique` -/
  active : ∀ regionId resourceType, (activeOf db regionId resourceType).length ≤ 1
  /-- `parent_budget_id references resource_budgets(id)` -/
  parent : ∀ b ∈ db.budgets, ∀ id, b.parentBudgetId = some id → ∃ c ∈ db.budgets, c.id = id
  fresh : ∀ b ∈ db.budgets, ∀ n, db.drawn ≤ n → P.uuid n ≠ b.id

/-- Of a resource a region has at most one active budget. -/
theorem BudgetRows.eq_of_active (h : BudgetRows P db) {resourceType : String} {b c : ResourceBudget}
    (hb : b ∈ activeOf db regionId resourceType) (hc : c ∈ activeOf db regionId resourceType) :
    b = c := by
  have hone := h.active regionId resourceType
  cases hl : activeOf db regionId resourceType with
  | nil => simp [hl] at hb
  | cons x xs =>
    obtain rfl : xs = [] := by
      rw [hl] at hone
      simpa using hone
    rw [hl] at hb hc
    rw [List.mem_singleton.1 hb, List.mem_singleton.1 hc]

theorem BudgetRows.activeBudget_eq_some (h : BudgetRows P db) {resourceType : String}
    {b : ResourceBudget} :
    activeBudget db regionId resourceType = some b ↔ b ∈ activeOf db regionId resourceType := by
  rw [activeBudget_eq_head?]
  constructor
  · exact List.mem_of_head?
  · intro hb
    cases hl : activeOf db regionId resourceType with
    | nil => simp [hl] at hb
    | cons x xs => rw [List.head?_cons, h.eq_of_active hb (by rw [hl]; exact List.mem_cons_self)]

/-! ## Configuring a region -/

/-- A budget that a configuration inserts for a limit. -/
structure Inserted (P : Platform) (db : Db) (parentRegionId : Option Uuid)
    (limit : NormalizedBudgetLimit) (b : ResourceBudget) : Prop where
  id : ∃ k, db.drawn ≤ k ∧ b.id = P.uuid k
  quantity : b.limitQuantity = limit.limitQuantity
  unit : b.unit = limit.unit
  outcome : b.exhaustionOutcome = limit.exhaustionOutcome
  parent : b.parentBudgetId = (parentBudget parentRegionId limit db).map (·.id)

/-- The active budgets while the limits `done` are configured. -/
structure Configured (P : Platform) (regionId : Uuid) (parentRegionId : Option Uuid)
    (limits done : List NormalizedBudgetLimit) (db d : Db) : Prop extends
    Configures P regionId db d where
  others : ∀ r, r ≠ regionId → ∀ t, activeOf d r t = activeOf db r t
  undesired : ∀ t, (∀ l ∈ limits, l.resourceType ≠ t) → activeOf d regionId t = []
  stated : ∀ t, (∃ l ∈ limits, l.resourceType = t) →
    (∀ l ∈ done, l.resourceType = t → statesLimit db regionId parentRegionId l) →
      activeOf d regionId t = activeOf db regionId t
  replaced : ∀ t, (∃ l ∈ done, l.resourceType = t ∧ ¬statesLimit db regionId parentRegionId l) →
    ∃ b, activeOf d regionId t = [b] ∧ ∃ l ∈ done, l.resourceType = t ∧
      ¬statesLimit db regionId parentRegionId l ∧ Inserted P db parentRegionId l b
  parents : ∀ b ∈ d.budgets, (∃ c ∈ db.budgets, b.parentBudgetId = c.parentBudgetId) ∨
    ∃ l ∈ done, b.parentBudgetId = (parentBudget parentRegionId l db).map (·.id)
  within : ∀ l ∈ done, ∀ p, parentBudget parentRegionId l db = some p →
    l.limitQuantity ≤ p.limitQuantity

/-- A retired row keeps its parent. -/
theorem mem_retireBudgets {p : ResourceBudget → Bool} {b : ResourceBudget}
    (hb : b ∈ (retireBudgets now p db).budgets) :
    ∃ c ∈ db.budgets, b.parentBudgetId = c.parentBudgetId := by
  obtain ⟨c, hc, rfl⟩ := mem_updateWhere.1 hb
  refine ⟨c, hc, ?_⟩
  split <;> rfl

/-- The budgets of other regions are as before, so a limit comes under the same budget. -/
theorem Configured.parentBudget_eq {done : List NormalizedBudgetLimit}
    (h : Configured P regionId parentRegionId limits done db d)
    (hparent : parentRegionId ≠ some regionId) (limit : NormalizedBudgetLimit) :
    parentBudget parentRegionId limit d = parentBudget parentRegionId limit db := by
  cases parentRegionId with
  | none => rfl
  | some p =>
    have hne : p ≠ regionId := fun heq => hparent (congrArg some heq)
    simp only [parentBudget, Option.bind_some, activeBudget_eq_head?, h.others p hne]

/-- A row that is found by the id of an active budget of the region is of its resource. -/
theorem Configured.of_current {done : List NormalizedBudgetLimit}
    (h : Configured P regionId parentRegionId limits done db d) (hkeyed : Keyed (·.id) db.budgets)
    {resourceType : String} {c b : ResourceBudget} (hc : c ∈ activeOf db regionId resourceType)
    (hb : b ∈ d.budgets) (hid : c.id = b.id) :
    b.scopeId = regionId ∧ b.resourceType = resourceType := by
  obtain ⟨hmem, hscope, htype, -⟩ := mem_activeOf.1 hc
  obtain ⟨c', hc', heq⟩ := h.kept c hmem
  have hbc : b = c' := (h.keyed hkeyed).eq hb hc' (hid.symm.trans (by rcases heq with rfl | ⟨t, rfl⟩ <;> rfl))
  rw [hbc]
  rcases heq with rfl | ⟨t, rfl⟩ <;> exact ⟨hscope, htype⟩

/-- The configuration of one limit. -/
theorem Configured.next {done : List NormalizedBudgetLimit}
    (h : Configured P regionId parentRegionId limits done db d) (hkeyed : Keyed (·.id) db.budgets)
    (hparent : parentRegionId ≠ some regionId) {limit : NormalizedBudgetLimit}
    (hlimit : limit ∈ limits)
    (hstep : configureLimit P now regionId parentRegionId
      (db.budgets.filter fun b => b.scopeId = regionId && b.retiredAt.isNone) d limit = .ok d') :
    Configured P regionId parentRegionId limits (done ++ [limit]) db d' := by
  have hconfigures := h.toConfigures.trans (configureLimit_configures hstep)
  have hcurrent : (db.budgets.filter fun b => b.scopeId = regionId && b.retiredAt.isNone).find?
      (·.resourceType = limit.resourceType) = activeBudget db regionId limit.resourceType := by
    rw [List.find?_filter]
    unfold activeBudget
    congr 1
    funext b
    cases b.retiredAt <;> by_cases h : b.scopeId = regionId <;> simp [h]
  unfold configureLimit at hstep
  dsimp only at hstep
  rw [hcurrent, h.parentBudget_eq hparent] at hstep
  obtain ⟨⟨⟩, hwithin, hstep⟩ := Except.bind_eq_ok.1 hstep
  have hwithin : ∀ l ∈ done ++ [limit], ∀ p, parentBudget parentRegionId l db = some p →
      l.limitQuantity ≤ p.limitQuantity := by
    intro l hl p hp
    rcases List.mem_append.1 hl with hl | hl
    · exact h.within l hl p hp
    · obtain rfl := List.mem_singleton.1 hl
      have hall := require_eq_ok.1 hwithin
      rw [hp] at hall
      simpa using hall
  split at hstep
  · rename_i hstates
    obtain rfl := Except.ok.inj hstep
    refine ⟨hconfigures, h.others, h.undesired, fun t ht hall => ?_, fun t ht => ?_, fun b hb => ?_,
      hwithin⟩
    · exact h.stated t ht fun l hl => hall l (List.mem_append_left _ hl)
    · obtain ⟨l, hl, htype, hnot⟩ := ht
      have hl : l ∈ done := by
        rcases List.mem_append.1 hl with hl | hl
        · exact hl
        · obtain rfl := List.mem_singleton.1 hl
          exact absurd hstates hnot
      obtain ⟨b, hb, l', hl', hrest⟩ := h.replaced t ⟨l, hl, htype, hnot⟩
      exact ⟨b, hb, l', List.mem_append_left _ hl', hrest⟩
    · rcases h.parents b hb with hold | ⟨l, hl, heq⟩
      · exact Or.inl hold
      · exact Or.inr ⟨l, List.mem_append_left _ hl, heq⟩
  · rename_i hstates
    obtain ⟨⟨⟩, -, hstep⟩ := Except.bind_eq_ok.1 hstep
    obtain ⟨budgets, hinsert, hstep⟩ := Except.bind_eq_ok.1 hstep
    obtain rfl := Except.ok.inj hstep
    obtain ⟨rfl, -, hunique⟩ := insert_eq_ok.1 (sql_eq_ok.1 hinsert)
    -- the row that is retired is of the region and the resource
    have hretired : ∀ r t, r ≠ regionId ∨ t ≠ limit.resourceType →
        activeOf (retireBudgets now
          (fun b => (activeBudget db regionId limit.resourceType).any (·.id = b.id)) d) r t =
          activeOf d r t := by
      intro r t hne
      refine filter_updateWhere_of_not fun b hb hp => ?_
      obtain ⟨c, hc, hid⟩ := (Option.any_eq_true _ _).1 hp
      rw [activeBudget_eq_head?] at hc
      obtain ⟨hbscope, hbtype⟩ :=
        h.of_current hkeyed (List.mem_of_head? hc) hb (of_decide_eq_true hid)
      rcases hne with hne | hne
      · simp [hbscope, hne.symm]
      · simp [hbtype, hne.symm]
    have hdrawn : (retireBudgets now
      (fun b => (activeBudget db regionId limit.resourceType).any (·.id = b.id)) d).drawn = d.drawn := rfl
    have hparents : ∀ b ∈ (retireBudgets now (fun b =>
        (activeBudget db regionId limit.resourceType).any (·.id = b.id)) d).budgets,
        ∃ c ∈ d.budgets, b.parentBudgetId = c.parentBudgetId := fun b hb => mem_retireBudgets hb
    generalize retireBudgets now
      (fun b => (activeBudget db regionId limit.resourceType).any (·.id = b.id)) d = retired
      at hconfigures hunique hretired hdrawn hparents ⊢
    obtain ⟨new, hnew⟩ : ∃ b : ResourceBudget, b =
        { id := retired.nextUuid P, scopeId := regionId,
          parentBudgetId := (parentBudget parentRegionId limit db).map (·.id),
          resourceType := limit.resourceType, unit := limit.unit,
          limitQuantity := limit.limitQuantity, exhaustionOutcome := limit.exhaustionOutcome,
          retiredAt := none } := ⟨_, rfl⟩
    have hscope : new.scopeId = regionId := by rw [hnew]
    have htype : new.resourceType = limit.resourceType := by rw [hnew]
    have hactive : new.retiredAt = none := by rw [hnew]
    rw [← hnew] at hconfigures hunique ⊢
    have hsame : ∀ r t, r ≠ regionId ∨ t ≠ limit.resourceType →
        activeOf { retired.draw with budgets := retired.budgets ++ [new] } r t = activeOf d r t := by
      intro r t hne
      rw [← hretired r t hne]
      unfold activeOf
      rw [List.filter_append, List.append_right_eq_self, List.filter_eq_nil_iff]
      intro b hb
      rw [List.mem_singleton.1 hb, hscope, htype]
      rcases hne with hne | hne
      · simp [hne.symm]
      · simp [hne.symm]
    have hone : activeOf { retired.draw with budgets := retired.budgets ++ [new] } regionId
        limit.resourceType = [new] := by
      unfold activeOf
      rw [List.filter_append, List.filter_eq_nil_iff.2, List.nil_append]
      · simp [hscope, htype, hactive]
      · intro b hb
        have hfree := hunique ("resource_budgets_active_scope_resource_unique", fun b c =>
          b.retiredAt.isNone && c.retiredAt.isNone && b.scopeId = c.scopeId &&
            b.resourceType = c.resourceType) (by simp [Row.uniques]) b hb
        simp only [hscope, htype, hactive] at hfree
        intro hsel
        simp only [Bool.and_eq_true, decide_eq_true_eq] at hsel
        exact hfree (by simp [hsel.1.1, hsel.1.2, hsel.2])
    have hnot : ¬statesLimit db regionId parentRegionId limit := hstates
    refine ⟨hconfigures, fun r hr t => (hsame r t (Or.inl hr)).trans (h.others r hr t),
      fun t ht => ?_, fun t ht hall => ?_, fun t ht => ?_, fun b hb => ?_, hwithin⟩
    · rw [hsame _ t (Or.inr fun heq => ht limit hlimit heq.symm)]
      exact h.undesired t ht
    · have hne : t ≠ limit.resourceType := by
        rintro rfl
        exact hnot (hall limit (by simp) rfl)
      rw [hsame _ t (Or.inr hne)]
      exact h.stated t ht fun l hl => hall l (List.mem_append_left _ hl)
    · by_cases hne : t = limit.resourceType
      · refine ⟨new, by rw [hne]; exact hone, limit, by simp, hne.symm, hnot, ?_⟩
        rw [hnew]
        exact ⟨⟨retired.drawn, hdrawn ▸ h.drawn, rfl⟩, rfl, rfl, rfl, rfl⟩
      · obtain ⟨l, hl, hltype, hlnot⟩ := ht
        have hl : l ∈ done := by
          rcases List.mem_append.1 hl with hl | hl
          · exact hl
          · exact absurd (hltype.symm.trans (congrArg _ (List.mem_singleton.1 hl))) hne
        obtain ⟨b, hb, l', hl', hrest⟩ := h.replaced t ⟨l, hl, hltype, hlnot⟩
        exact ⟨b, (hsame _ t (Or.inr hne)).trans hb, l', List.mem_append_left _ hl', hrest⟩
    · rcases List.mem_append.1 hb with hb | hb
      · obtain ⟨c, hc, heq⟩ := hparents b hb
        rcases h.parents c hc with ⟨c', hc', heq'⟩ | ⟨l, hl, heq'⟩
        · exact Or.inl ⟨c', hc', heq.trans heq'⟩
        · exact Or.inr ⟨l, List.mem_append_left _ hl, heq.trans heq'⟩
      · rw [List.mem_singleton.1 hb, hnew]
        exact Or.inr ⟨limit, by simp, rfl⟩

/-- What a configuration of a region leaves active. -/
theorem configureRegionBudgets_spec (hkeyed : Keyed (·.id) db.budgets)
    (hparent : parentRegionId ≠ some regionId)
    (h : configureRegionBudgets P now regionId parentRegionId limits db = .ok db') :
    Configured P regionId parentRegionId limits limits db db' := by
  refine Except.foldlM_done (I := fun done d => Configured P regionId parentRegionId limits done db d)
    (fun done l rest d d' hl hd hstep => hd.next hkeyed hparent (by simp [hl]) hstep) ?_ h
  have hretired : ∀ r t, (r ≠ regionId ∨ ∃ l ∈ limits, l.resourceType = t) →
      activeOf (retireBudgets now (fun b =>
        (db.budgets.filter fun b => b.scopeId = regionId && b.retiredAt.isNone).any (·.id = b.id) &&
          limits.all (·.resourceType ≠ b.resourceType)) db) r t = activeOf db r t := by
    intro r t hkept
    refine filter_updateWhere_of_not fun b hb hp => ?_
    simp only [Bool.and_eq_true, List.any_eq_true, List.mem_filter, List.all_eq_true,
      decide_eq_true_eq] at hp
    obtain ⟨⟨c, ⟨hc, hscope, -⟩, hid⟩, hnone⟩ := hp
    obtain rfl := hkeyed.eq hc hb hid
    rcases hkept with hne | ⟨l, hl, rfl⟩
    · simp [hscope, hne.symm]
    · have := hnone l hl
      simp [Ne.symm this]
  refine ⟨Configures.retire now _ db, fun r hr t => hretired r t (Or.inl hr), fun t ht => ?_,
    fun t ht _ => hretired _ t (Or.inr ht), by simp, fun b hb => Or.inl (mem_retireBudgets hb),
    by simp⟩
  refine List.filter_eq_nil_iff.2 fun b hb hsel => ?_
  simp only [Bool.and_eq_true, decide_eq_true_eq, Option.isNone_iff_eq_none] at hsel
  obtain ⟨c, hc, heq⟩ := mem_updateWhere.1 hb
  split at heq
  · rw [← heq] at hsel
    simp at hsel
  · rename_i hnot
    obtain rfl := heq
    refine hnot ?_
    simp only [Bool.and_eq_true, List.any_eq_true, List.mem_filter, List.all_eq_true,
      decide_eq_true_eq, Option.isNone_iff_eq_none]
    exact ⟨⟨c, ⟨hc, hsel.1.1, hsel.2⟩, rfl⟩, fun l hl => hsel.1.2 ▸ ht l hl⟩

/-- A configuration keeps the keys of the budgets. -/
theorem BudgetRows.configured (hrows : BudgetRows P db)
    (h : Configured P regionId parentRegionId limits limits db db') : BudgetRows P db' := by
  refine ⟨h.keyed hrows.keyed, fun r t => ?_, fun b hb id hid => ?_, fun b hb n hn heq => ?_⟩
  · by_cases hr : r = regionId
    · subst hr
      by_cases ht : ∃ l ∈ limits, l.resourceType = t
      · by_cases hall : ∀ l ∈ limits, l.resourceType = t → statesLimit db r parentRegionId l
        · rw [h.stated t ht hall]
          exact hrows.active r t
        · push Not at hall
          obtain ⟨l, hl, htype, hnot⟩ := hall
          obtain ⟨b, hb, -⟩ := h.replaced t ⟨l, hl, htype, by simpa using hnot⟩
          simp [hb]
      · push Not at ht
        simp [h.undesired t ht]
    · rw [h.others r hr t]
      exact hrows.active r t
  · have hold : ∃ c ∈ db.budgets, c.id = id := by
      rcases h.parents b hb with ⟨c, hc, heq⟩ | ⟨l, -, heq⟩
      · exact hrows.parent c hc id (heq ▸ hid)
      · obtain ⟨p, hp, rfl⟩ := Option.map_eq_some_iff.1 (heq.symm.trans hid)
        obtain ⟨region, -, hp⟩ := Option.bind_eq_some_iff.1 hp
        exact ⟨p, List.mem_of_find?_eq_some hp, rfl⟩
    obtain ⟨c, hc, rfl⟩ := hold
    obtain ⟨c', hc', heq⟩ := h.kept c hc
    exact ⟨c', hc', by rcases heq with rfl | ⟨t, rfl⟩ <;> rfl⟩
  · rcases h.new b hb with ⟨c, hc, heq'⟩ | ⟨-, k, -, hk, hid⟩
    · refine hrows.fresh c hc n (h.drawn.trans hn) (heq.trans ?_)
      rcases heq' with rfl | ⟨t, rfl⟩ <;> rfl
    · exact absurd (P.uuid_injective (heq.trans hid)) (by omega)

/-! ## A tree of regions -/

/-- The active budgets of child regions are under the active budgets of their parent regions. -/
def Delegated (db : Db) : Prop :=
  ∀ child ∈ db.regions, ∀ parentId, child.parentRegionId = some parentId → ∀ t,
    ∀ b ∈ activeOf db child.id t, ∀ p ∈ activeOf db parentId t,
      b.limitQuantity ≤ p.limitQuantity ∧ b.parentBudgetId = some p.id

/-- The configuration of the budgets of a region. -/
structure BudgetConfiguration where
  regionId : Uuid
  limits : List NormalizedBudgetLimit
deriving DecidableEq, Repr

/-- A region of the tree is configured, under its parent region. -/
inductive ConfigurationStep (P : Platform) : Db → BudgetConfiguration → Db → Prop
  | configure {db db' : Db} {region : Region} {now : Time} {limits : List NormalizedBudgetLimit}
      (hregion : region ∈ db.regions)
      (hop : configureRegionBudgets P now region.id region.parentRegionId limits db = .ok db') :
      ConfigurationStep P db ⟨region.id, limits⟩ db'

/-- The configurations of the budgets of a tree of regions, one after another. -/
def configurations (P : Platform) : System Db BudgetConfiguration :=
  ⟨fun db => Keyed (·.id) db.regions ∧ (∀ r ∈ db.regions, r.parentRegionId ≠ some r.id) ∧
    db.budgets = [], ConfigurationStep P⟩

/-- Whether a configuration replaces no budget that a child region has an active budget of the
resource under : the region's active budget states each such limit already. -/
def keepsDelegations (db : Db) (c : BudgetConfiguration) : Bool :=
  c.limits.all fun limit =>
    statesLimit db c.regionId
        ((db.regions.find? (·.id = c.regionId)).bind (·.parentRegionId)) limit ||
      !db.regions.any fun child => child.parentRegionId = some c.regionId &&
        (activeBudget db child.id limit.resourceType).isSome

/-- The runs whose configurations replace no budget that others are under. -/
def keepingConfigurations (P : Platform) : System Db BudgetConfiguration :=
  (configurations P).restrict fun db c => keepsDelegations db c

/-- The rows of a tree of regions and its budgets. -/
structure BudgetTree (P : Platform) (db : Db) : Prop extends BudgetRows P db where
  regions : Keyed (·.id) db.regions
  tree : ∀ r ∈ db.regions, r.parentRegionId ≠ some r.id

theorem BudgetTree.next (h : BudgetTree P db) {c : BudgetConfiguration}
    (hstep : ConfigurationStep P db c db') : BudgetTree P db' := by
  cases hstep with
  | @configure _ region now limits hregion hop =>
    have hspec := configureRegionBudgets_spec h.keyed (h.tree region hregion) hop
    have hregions : db'.regions = db.regions := by rw [hspec.frame]
    exact ⟨h.toBudgetRows.configured hspec, hregions ▸ h.regions, hregions ▸ h.tree⟩

theorem reachable_budgetTree (h : (configurations P).Reachable db) : BudgetTree P db := by
  refine h.invariant (fun db hinit => ?_) fun _ _ _ ht hst => ht.next hst
  obtain ⟨hregions, htree, hnone⟩ := hinit
  refine ⟨⟨?_, ?_, ?_, ?_⟩, hregions, htree⟩
  all_goals simp [hnone, Keyed, activeOf]

/-- A configuration keeps the budgets of child regions under those of their parents exactly if it
replaces no budget that others are under. -/
theorem Delegated.step_iff (h : Delegated db) (htree : BudgetTree P db) {c : BudgetConfiguration}
    (hstep : ConfigurationStep P db c db') : Delegated db' ↔ keepsDelegations db c := by
  cases hstep with
  | @configure _ region now limits hregion hop =>
    have hspec := configureRegionBudgets_spec htree.keyed (htree.tree region hregion) hop
    have hregions : db'.regions = db.regions := by rw [hspec.frame]
    have hparent : (db.regions.find? (·.id = region.id)).bind (·.parentRegionId) =
        region.parentRegionId := by rw [htree.regions.find?_eq_some hregion]; rfl
    unfold keepsDelegations
    dsimp only
    rw [hparent]
    constructor
    · intro hd
      rw [List.all_eq_true]
      intro limit hlimit
      by_contra hnot
      simp only [Bool.or_eq_true, Bool.not_eq_true', Bool.eq_false_iff, not_or, not_not,
        ne_eq, List.any_eq_true, Bool.and_eq_true, decide_eq_true_eq] at hnot
      obtain ⟨hreplaces, child, hchild, hunder, hactive⟩ := hnot
      obtain ⟨b, hb⟩ := Option.isSome_iff_exists.1 hactive
      have hb := htree.activeBudget_eq_some.1 hb
      have hne : child.id ≠ region.id := by
        intro heq
        obtain rfl := htree.regions.eq hchild hregion heq
        exact htree.tree _ hregion hunder
      obtain ⟨new, hnew, l, -, -, -, hinserted⟩ :=
        hspec.replaced limit.resourceType ⟨limit, hlimit, rfl, hreplaces⟩
      have hb' : b ∈ activeOf db' child.id limit.resourceType := by rwa [hspec.others _ hne]
      obtain ⟨-, hid⟩ := hd child (hregions ▸ hchild) region.id hunder _ b hb' new (by simp [hnew])
      obtain ⟨p, hp, hpid⟩ := htree.parent b (mem_activeOf.1 hb).1 _ hid
      obtain ⟨k, hk, hkid⟩ := hinserted.id
      exact htree.fresh p hp k hk (hkid.symm.trans hpid.symm)
    · intro hkeeps child hchild parentId hunder t b hb p hp
      rw [hregions] at hchild
      by_cases hc : child.id = region.id
      · obtain rfl := htree.regions.eq hchild hregion hc
        have hne : parentId ≠ child.id := fun heq => htree.tree child hchild (heq ▸ hunder)
        rw [hspec.others _ hne] at hp
        have hparentBudget : ∀ l : NormalizedBudgetLimit, l.resourceType = t →
            parentBudget child.parentRegionId l db = some p := by
          rintro l rfl
          rw [hunder]
          exact htree.activeBudget_eq_some.2 hp
        by_cases ht : ∃ l ∈ limits, l.resourceType = t
        · by_cases hall : ∀ l ∈ limits, l.resourceType = t →
              statesLimit db child.id child.parentRegionId l
          · rw [hspec.stated t ht hall] at hb
            obtain ⟨l, hl, rfl⟩ := ht
            have hstates := hall l hl rfl
            rw [statesLimit, htree.activeBudget_eq_some.2 hb, hparentBudget l rfl] at hstates
            simp only [Option.any_some, sameBudget, Option.map_some, Bool.and_eq_true,
              decide_eq_true_eq] at hstates
            have hwithin := hspec.within l hl p (hparentBudget l rfl)
            exact ⟨hstates.1.1.2 ▸ hwithin, hstates.1.1.1⟩
          · push Not at hall
            obtain ⟨l, hl, htype, hnot⟩ := hall
            obtain ⟨new, hnew, l', hl', htype', -, hinserted⟩ :=
              hspec.replaced t ⟨l, hl, htype, by simpa using hnot⟩
            rw [hnew, List.mem_singleton] at hb
            rw [hb, hinserted.quantity, hinserted.parent, hparentBudget l' htype']
            exact ⟨hspec.within l' hl' p (hparentBudget l' htype'), rfl⟩
        · push Not at ht
          rw [hspec.undesired t ht] at hb
          simp at hb
      · rw [hspec.others _ hc] at hb
        by_cases hpr : parentId = region.id
        · subst hpr
          by_cases ht : ∃ l ∈ limits, l.resourceType = t
          · rw [hspec.stated t ht fun l hl htype => ?_] at hp
            · exact h child hchild _ hunder t b hb p hp
            · have hl := List.all_eq_true.1 hkeeps l hl
              have hany : db.regions.any (fun child => child.parentRegionId = some region.id &&
                  (activeBudget db child.id l.resourceType).isSome) := by
                rw [htype]
                refine List.any_eq_true.2 ⟨child, hchild, ?_⟩
                simp [hunder, htree.activeBudget_eq_some.2 hb]
              simpa [hany] using hl
          · push Not at ht
            rw [hspec.undesired t ht] at hp
            simp at hp
        · rw [hspec.others _ hpr] at hp
          exact h child hchild _ hunder t b hb p hp

/-- In every run that replaces no budget that others are under, the budgets of child regions are
under those of their parents, and any other configuration of such a state ends this. -/
theorem delegations_kept (h : (keepingConfigurations P).Reachable db) :
    Delegated db ∧ ∀ c db', ConfigurationStep P db c db' → (Delegated db' ↔ keepsDelegations db c) := by
  have hdelegated : Delegated db := by
    refine h.invariant_of (I := Delegated) (fun db hinit => ?_) fun db c db' hr hd hst => ?_
    · intro child _ parentId _ t b hb
      simp [activeOf, hinit.2.2] at hb
    · exact (hd.step_iff (reachable_budgetTree hr.of_restrict) hst.1).2 hst.2
  exact ⟨hdelegated, fun c db' hstep => hdelegated.step_iff (reachable_budgetTree h.of_restrict) hstep⟩

/-! ## A site and its plant -/

/-- The configuration of a region as a function. -/
def configured (P : Platform) (now : Time) (db : Db) (c : BudgetConfiguration) : Option Db :=
  (db.regions.find? (·.id = c.regionId)).bind fun region =>
    (configureRegionBudgets P now region.id region.parentRegionId c.limits db).toOption

theorem configured_step {c : BudgetConfiguration} (h : configured P now db c = some db') :
    ConfigurationStep P db c db' := by
  obtain ⟨region, hregion, h⟩ := Option.bind_eq_some_iff.1 h
  obtain ⟨hmem, hid⟩ := mem_of_find?_key hregion
  obtain ⟨regionId, limits⟩ := c
  obtain rfl : region.id = regionId := hid
  refine @ConfigurationStep.configure P db db' region now limits hmem ?_
  cases hop : configureRegionBudgets P now region.id region.parentRegionId limits db with
  | error e => simp [hop, Except.toOption] at h
  | ok d => simpa [hop, Except.toOption] using h

/-- Configurations one after another, each of which meets a condition. -/
def configureAll (P : Platform) (now : Time) (ok : Db → BudgetConfiguration → Bool) :
    Db → List BudgetConfiguration → Option Db
  | db, [] => some db
  | db, c :: cs => if ok db c then (configured P now db c).bind (configureAll P now ok · cs) else none

theorem configureAll_reachable {ok : Db → BudgetConfiguration → Bool} {cs : List BudgetConfiguration}
    (hdb : ((configurations P).restrict fun db c => ok db c).Reachable db)
    (h : configureAll P now ok db cs = some db') :
    ((configurations P).restrict fun db c => ok db c).Reachable db' := by
  induction cs generalizing db with
  | nil =>
    obtain rfl := Option.some.inj h
    exact hdb
  | cons c cs ih =>
    unfold configureAll at h
    split at h
    · rename_i hok
      obtain ⟨d, hd, h⟩ := Option.bind_eq_some_iff.1 h
      exact ih (hdb.next ⟨configured_step hd, hok⟩) h
    · simp at h

/-- A site with a plant, without budgets. -/
def siteRegions : Db :=
  deployDb plantCatalog
    [⟨99, none, "site", .running, 1, none⟩, ⟨100, some 99, "plant", .running, 1, some 200⟩] [] 1000

theorem siteRegions_initial : (configurations samplePlatform).init siteRegions := by
  refine ⟨?_, ?_, rfl⟩
  · decide
  · decide

/-- A limit of model tokens. -/
def tokens (limitQuantity : ℕ) : NormalizedBudgetLimit :=
  ⟨"model_tokens", limitQuantity, "tokens", .defer⟩

theorem delegations_kept_site : ∃ db, configureAll samplePlatform 0 keepsDelegations siteRegions
    [⟨99, [tokens 100]⟩, ⟨100, [tokens 80]⟩, ⟨99, [tokens 100]⟩] = some db ∧
      (db.budgets.map (·.limitQuantity)) = [100, 80] ∧ Delegated db ∧
        ∀ c db', ConfigurationStep samplePlatform db c db' →
          (Delegated db' ↔ keepsDelegations db c) := by
  have hsome : (configureAll samplePlatform 0 keepsDelegations siteRegions
      [⟨99, [tokens 100]⟩, ⟨100, [tokens 80]⟩, ⟨99, [tokens 100]⟩]).map
        (fun db => db.budgets.map (·.limitQuantity)) = some [100, 80] := rfl
  obtain ⟨db, hdb, heq⟩ := Option.map_eq_some_iff.1 hsome
  exact ⟨db, hdb, heq, delegations_kept (configureAll_reachable (.start siteRegions_initial) hdb)⟩

/-- The budget of the site is lowered under that of the plant. -/
theorem parent_budget_lowered : ¬∀ (P : Platform) (db : Db), (configurations P).Reachable db →
    Delegated db := by
  intro hdelegated
  have hsome : (configureAll samplePlatform 0 (fun _ _ => true) siteRegions
      [⟨99, [tokens 100]⟩, ⟨100, [tokens 80]⟩, ⟨99, [tokens 50]⟩]).map (fun db =>
        (db.regions.any fun child => child.id = 100 && child.parentRegionId = some 99,
          (activeOf db 100 "model_tokens").any fun b => (activeOf db 99 "model_tokens").any fun p =>
            p.limitQuantity < b.limitQuantity)) = some (true, true) := rfl
  obtain ⟨db, hdb, heq⟩ := Option.map_eq_some_iff.1 hsome
  obtain ⟨hregion, hexceeds⟩ := Prod.mk.inj heq
  simp only [List.any_eq_true, Bool.and_eq_true, decide_eq_true_eq] at hregion hexceeds
  obtain ⟨child, hchild, hid, hparent⟩ := hregion
  obtain ⟨b, hb, p, hp, hlt⟩ := hexceeds
  have hreachable := configureAll_reachable (.start siteRegions_initial) hdb
  have hwithin := hdelegated samplePlatform db hreachable.of_restrict child hchild 99 hparent
    "model_tokens" b (hid ▸ hb) p hp
  exact absurd hwithin.1 (Nat.not_le.2 hlt)

end FactoryFloor
