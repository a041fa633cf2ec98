import FactoryFloor.Relational
import FactoryFloor.RepositoryPlan
import FactoryFloor.TopologicalOrder

/-!
# What the plan compiler orders

For a resolver's answer that passes all checks of `normalizeResolution`, the loop of
`orderOperations` computes the canonical topological order of the operations (`orderLoop_eq`). So the
compiler succeeds exactly when each dependency is known and the dependencies are acyclic
(`compile_isOk_iff`), and it does not see the order in which the resolver lists the operations.

The ids of the graph's nodes are distinct only when no operation takes the id of an input node
(`compile_sound_iff`) : nothing in the checks keeps a resolver from doing so.
-/

namespace FactoryFloor

open Topological

/-! ## The checks -/

/-- An answer that passes all checks of `normalizeResolution`. -/
def Passes (T : Tools) (resolved : Resolved) (operations : List Operation) : Prop :=
  ∃ n, normalizeResolution T resolved.resolution resolved.plan resolved.profile = .ok n ∧
    n.diagnostics = [] ∧ n.operations = operations

theorem sortDiagnostics_eq_nil {values : List Diagnostic} :
    sortDiagnostics values = [] ↔ values = [] := by
  constructor
  · intro h
    exact List.Perm.nil_eq (h ▸ List.perm_insertionSort _ values) |>.symm
  · rintro rfl
    rfl

theorem diagnosed_eq_nil {α : Type} {values : List α} {check : ℕ → α → List Diagnostic} :
    diagnosed values check = [] ↔ ∀ i v, values[i]? = some v → check i v = [] := by
  simp only [diagnosed, List.flatMap_eq_nil_iff, Prod.forall, List.mem_zipIdx_iff_getElem?]
  exact forall_comm

/-- A list in which no element repeats one before it. -/
theorem nodup_of_not_before {α β : Type} [DecidableEq β] {values : List α} (key : α → β)
    (h : ∀ i v, values[i]? = some v → key v ∉ (values.take i).map key) : (values.map key).Nodup := by
  rw [List.nodup_iff_getElem?_ne_getElem?]
  intro i j hij hj heq
  rw [List.length_map] at hj
  rw [List.getElem?_map, List.getElem?_map, List.getElem?_eq_getElem hj,
    List.getElem?_eq_getElem (hij.trans hj), Option.map_some, Option.map_some,
    Option.some.injEq] at heq
  refine h j _ (List.getElem?_eq_getElem hj) (List.mem_map.2 ⟨_, ?_, heq⟩)
  exact List.mem_take_iff_getElem.2 ⟨i, by omega, rfl⟩

theorem not_before_of_nodup {α β : Type} {values : List α} (key : α → β)
    (h : (values.map key).Nodup) (i : ℕ) (v : α) (hv : values[i]? = some v) :
    key v ∉ (values.take i).map key := by
  obtain ⟨hi, rfl⟩ := List.getElem?_eq_some_iff.1 hv
  intro hmem
  obtain ⟨w, hw, hkey⟩ := List.mem_map.1 hmem
  obtain ⟨j, hj, rfl⟩ := List.mem_take_iff_getElem.1 hw
  have hlt : j < i := (lt_min_iff.1 hj).1
  have hinj := List.nodup_iff_injective_get.1 h
  have := @hinj ⟨j, by rw [List.length_map]; omega⟩
    ⟨i, by rw [List.length_map]; omega⟩ (by simpa using hkey)
  exact absurd (Fin.mk.inj this) (by omega)

/-- Ids, paths and output names, each without repetition. -/
theorem repetitionDiagnostics_eq_nil {operations : List Operation} :
    repetitionDiagnostics operations = [] ↔ (operations.map (·.id)).Nodup ∧
      (operations.map (·.path)).Nodup ∧ (operations.map (·.outputName)).Nodup := by
  rw [repetitionDiagnostics, diagnosed_eq_nil]
  simp only [List.append_eq_nil_iff, ite_eq_right_iff, List.cons_ne_nil, imp_false,
    List.contains_iff_mem]
  constructor
  · intro h
    exact ⟨nodup_of_not_before _ fun i v hv => (h i v hv).1.1,
      nodup_of_not_before _ fun i v hv => (h i v hv).1.2,
      nodup_of_not_before _ fun i v hv => (h i v hv).2⟩
  · rintro ⟨hid, hpath, hname⟩ i v hv
    exact ⟨⟨not_before_of_nodup _ hid i v hv, not_before_of_nodup _ hpath i v hv⟩,
      not_before_of_nodup _ hname i v hv⟩

/-- What the checks ask of a list of candidates and the operations they are. -/
structure Accepted (T : Tools) (plan : NormalizedPlan) (profile : RepositoryProfile)
    (candidates : List Json) : Prop where
  valid : ∀ c ∈ candidates, ∃ o, operation? T c = some o ∧
    ∀ i, operationDiagnostics plan profile i o = []
  ids : ((candidates.filterMap (operation? T)).map (·.id)).Nodup
  paths : ((candidates.filterMap (operation? T)).map (·.path)).Nodup
  names : ((candidates.filterMap (operation? T)).map (·.outputName)).Nodup
  outputs : ∀ output ∈ plan.outputs,
    output.name ∈ (candidates.filterMap (operation? T)).map (·.outputName)

/-- The index of an operation is in the diagnostics only. -/
theorem operationDiagnostics_eq_nil {plan : NormalizedPlan} {profile : RepositoryProfile} {i j : ℕ}
    {o : Operation} (h : operationDiagnostics plan profile i o = []) :
    operationDiagnostics plan profile j o = [] := by
  unfold operationDiagnostics at h ⊢
  cases hfind : plan.outputs.reverse.find? (·.name = o.outputName) with
  | none => simp only [hfind, List.cons_append, List.cons_ne_nil] at h
  | some declared =>
    simp only [hfind, List.append_eq_nil_iff, ite_eq_left_iff, List.cons_ne_nil, imp_false,
      not_not] at h ⊢
    exact h

theorem missingOutputDiagnostics_eq_nil {plan : NormalizedPlan} {operations : List Operation} :
    missingOutputDiagnostics plan operations = [] ↔
      ∀ output ∈ plan.outputs, output.name ∈ operations.map (·.outputName) := by
  simp only [missingOutputDiagnostics, List.flatMap_eq_nil_iff, ite_eq_left_iff, List.cons_ne_nil,
    imp_false, List.contains_iff_mem, not_not]

theorem accepted_iff {T : Tools} {plan : NormalizedPlan} {profile : RepositoryProfile}
    {candidates : List Json} :
    diagnosed candidates (candidateDiagnostics T plan profile) = [] ∧
      repetitionDiagnostics (candidates.filterMap (operation? T)) = [] ∧
      missingOutputDiagnostics plan (candidates.filterMap (operation? T)) = [] ↔
    Accepted T plan profile candidates := by
  rw [diagnosed_eq_nil, repetitionDiagnostics_eq_nil, missingOutputDiagnostics_eq_nil]
  constructor
  · rintro ⟨hvalid, ⟨hids, hpaths, hnames⟩, houtputs⟩
    refine ⟨fun c hc => ?_, hids, hpaths, hnames, houtputs⟩
    obtain ⟨i, hi⟩ := List.mem_iff_getElem?.1 hc
    have hcheck := hvalid i c hi
    unfold candidateDiagnostics at hcheck
    split at hcheck
    · simp at hcheck
    · exact ⟨_, ‹_›, fun _ => operationDiagnostics_eq_nil hcheck⟩
  · intro h
    refine ⟨fun i c hi => ?_, ⟨h.ids, h.paths, h.names⟩, h.outputs⟩
    obtain ⟨o, ho, hcheck⟩ := h.valid c (List.mem_of_getElem? hi)
    rw [candidateDiagnostics, ho]
    exact hcheck i

/-- The checks do not see the order of the candidates. -/
theorem Accepted.perm {T : Tools} {plan : NormalizedPlan} {profile : RepositoryProfile}
    {candidates candidates' : List Json} (h : Accepted T plan profile candidates)
    (hperm : candidates.Perm candidates') : Accepted T plan profile candidates' := by
  have hoperations := hperm.filterMap (operation? T)
  exact {
    valid := fun c hc => h.valid c (hperm.mem_iff.2 hc)
    ids := (hoperations.map _).nodup_iff.1 h.ids
    paths := (hoperations.map _).nodup_iff.1 h.paths
    names := (hoperations.map _).nodup_iff.1 h.names
    outputs := fun output ho => (hoperations.map _).mem_iff.1 (h.outputs output ho) }

theorem passes_iff {T : Tools} {resolved : Resolved} {operations : List Operation} :
    Passes T resolved operations ↔ ∃ candidates,
      resolved.resolution.get? "operations" = some (.arr candidates) ∧
      Json.normItems (resolved.resolution.itemsAt "conflicts") = [] ∧
      Accepted T resolved.plan resolved.profile candidates ∧
      candidates.filterMap (operation? T) = operations := by
  unfold Passes normalizeResolution
  constructor
  · rintro ⟨n, hn, hdiagnostics, hoperations⟩
    split at hn
    · rename_i candidates hget
      obtain rfl := Except.ok.inj hn
      rw [sortDiagnostics_eq_nil] at hdiagnostics
      simp only [List.append_eq_nil_iff, ite_eq_left_iff, List.cons_ne_nil, imp_false, not_not,
        List.isEmpty_iff] at hdiagnostics
      obtain ⟨⟨⟨hconflicts, hcandidates⟩, hrepetition⟩, hmissing⟩ := hdiagnostics
      exact ⟨candidates, hget, hconflicts, accepted_iff.1 ⟨hcandidates, hrepetition, hmissing⟩,
        hoperations⟩
    · cases hn
  · rintro ⟨candidates, hget, hconflicts, haccepted, hoperations⟩
    obtain ⟨hcandidates, hrepetition, hmissing⟩ := accepted_iff.2 haccepted
    rw [hget]
    refine ⟨_, rfl, ?_, hoperations⟩
    rw [sortDiagnostics_eq_nil]
    simp only [hconflicts, hcandidates, hrepetition, hmissing, List.isEmpty_nil, if_true,
      List.append_nil]

/-! ## Operations by id -/

section ByIds

variable {operations : List Operation}

theorem byId_mem {i : JsString} {o : Operation} (h : byId operations i = some o) :
    o ∈ operations ∧ o.id = i :=
  ⟨List.mem_reverse.1 (List.mem_of_find?_eq_some h), by simpa using List.find?_some h⟩

theorem byId_isSome {i : JsString} :
    (byId operations i).isSome ↔ i ∈ operations.map (·.id) := by
  rw [byId, List.find?_isSome]
  simp

theorem byId_eq (hids : (operations.map (·.id)).Nodup) {o : Operation} (ho : o ∈ operations) :
    byId operations o.id = some o := by
  obtain ⟨p, hp⟩ := Option.isSome_iff_exists.1 (byId_isSome.2 (List.mem_map_of_mem ho))
  obtain ⟨hmem, hid⟩ := byId_mem hp
  rw [hp, List.inj_on_of_nodup_map hids hmem ho hid]

/-- What `byId` finds does not depend on the order of distinct ids. -/
theorem byId_perm {operations' : List Operation} (hids : (operations.map (·.id)).Nodup)
    (hperm : operations.Perm operations') (i : JsString) :
    byId operations i = byId operations' i := by
  have hids' := (hperm.map (·.id)).nodup_iff.1 hids
  rcases Option.eq_none_or_eq_some (byId operations i) with h | ⟨o, h⟩
  · rw [h]
    refine (Option.not_isSome_iff_eq_none.1 fun hsome => ?_).symm
    rw [byId_isSome, ← (hperm.map (·.id)).mem_iff, ← byId_isSome, h] at hsome
    cases hsome
  · obtain ⟨ho, rfl⟩ := byId_mem h
    rw [h, byId_eq hids' (hperm.mem_iff.1 ho)]

/-- The ids of the operations that the operation with an id depends on. -/
def awaited (operations : List Operation) (i : JsString) : List JsString :=
  ((byId operations i).map (dependencies operations ·)).getD []

theorem mem_dependencies {o : Operation} {d : JsString} :
    d ∈ dependencies operations o ↔ d ∈ o.dependsOn ∧ d ∈ operations.map (·.id) := by
  rw [dependencies, List.mem_filter, byId_isSome]

theorem awaited_eq (hids : (operations.map (·.id)).Nodup) {o : Operation} (ho : o ∈ operations) :
    awaited operations o.id = dependencies operations o := by
  rw [awaited, byId_eq hids ho]
  rfl

theorem awaited_subset {i d : JsString} (hd : d ∈ awaited operations i) :
    d ∈ operations.map (·.id) := by
  unfold awaited at hd
  cases hfind : byId operations i with
  | none => simp [hfind] at hd
  | some o => exact (mem_dependencies.1 (by simpa [hfind] using hd)).2

theorem awaited_nodup (hdeps : ∀ o ∈ operations, o.dependsOn.Nodup) (i : JsString) :
    (awaited operations i).Nodup := by
  unfold awaited
  cases hfind : byId operations i with
  | none => exact List.nodup_nil
  | some o => exact (hdeps o (byId_mem hfind).1).filter _

theorem awaited_perm {operations' : List Operation} (hids : (operations.map (·.id)).Nodup)
    (hperm : operations.Perm operations') (i : JsString) :
    awaited operations i = awaited operations' i := by
  have hfilter : dependencies operations = dependencies operations' := by
    funext o
    exact List.filter_congr fun d _ => by rw [byId_perm hids hperm]
  rw [awaited, awaited, byId_perm hids hperm, hfilter]

/-- Each operation stands among the dependents of an id at most once. -/
theorem dependents_eq (hdeps : ∀ o ∈ operations, o.dependsOn.Nodup) (i : JsString) :
    dependents operations i =
      (operations.filter fun o => i ∈ dependencies operations o).map (·.id) := by
  unfold dependents
  suffices h : ∀ l : List Operation, (∀ o ∈ l, o.dependsOn.Nodup) →
      (l.flatMap fun o => ((dependencies operations o).filter (· = i)).map fun _ => o.id) =
        (l.filter fun o => i ∈ dependencies operations o).map (·.id) from h operations hdeps
  intro l hl
  induction l with
  | nil => rfl
  | cons o l ih =>
    rw [List.flatMap_cons, ih fun p hp => hl p (List.mem_cons_of_mem _ hp)]
    have hnodup : (dependencies operations o).Nodup := (hl o List.mem_cons_self).filter _
    by_cases hi : i ∈ dependencies operations o
    · have hfilter : (dependencies operations o).filter (· = i) = [i] := by
        rw [List.filter_eq, List.count_eq_one_of_mem hnodup hi]
        rfl
      rw [hfilter, List.filter_cons_of_pos (by simpa using hi)]
      rfl
    · have hfilter : (dependencies operations o).filter (· = i) = [] :=
        List.filter_eq_nil_iff.2 fun d hd heq => hi (of_decide_eq_true heq ▸ hd)
      rw [hfilter, List.filter_cons_of_neg (by simpa using hi)]
      rfl

theorem mem_dependents (hids : (operations.map (·.id)).Nodup)
    (hdeps : ∀ o ∈ operations, o.dependsOn.Nodup) {i j : JsString} :
    j ∈ dependents operations i ↔ j ∈ operations.map (·.id) ∧ i ∈ awaited operations j := by
  rw [dependents_eq hdeps]
  constructor
  · intro hj
    obtain ⟨o, ho, rfl⟩ := List.mem_map.1 hj
    obtain ⟨ho, hi⟩ := List.mem_filter.1 ho
    exact ⟨List.mem_map_of_mem ho, by rw [awaited_eq hids ho]; simpa using hi⟩
  · rintro ⟨hj, hi⟩
    obtain ⟨o, ho, rfl⟩ := List.mem_map.1 hj
    rw [awaited_eq hids ho] at hi
    exact List.mem_map_of_mem (List.mem_filter.2 ⟨ho, by simpa using hi⟩)

theorem dependents_nodup (hids : (operations.map (·.id)).Nodup)
    (hdeps : ∀ o ∈ operations, o.dependsOn.Nodup) (i : JsString) :
    (dependents operations i).Nodup := by
  rw [dependents_eq hdeps]
  exact hids.sublist (List.filter_sublist.map _)

end ByIds

/-! ## The loop -/

theorem release_ordered (s : Ordering) (L : List JsString) :
    (L.foldl release s).ordered = s.ordered := by
  induction L generalizing s with
  | nil => rfl
  | cons d L ih => rw [List.foldl_cons, ih, release]

theorem release_indegree (s : Ordering) {L : List JsString} (hL : L.Nodup) (j : JsString) :
    (L.foldl release s).indegree j = s.indegree j - if j ∈ L then 1 else 0 := by
  induction L generalizing s with
  | nil => simp
  | cons d L ih =>
    obtain ⟨hd, hL⟩ := List.nodup_cons.1 hL
    rw [List.foldl_cons, ih _ hL]
    by_cases hj : j = d
    · subst hj
      simp [release, hd]
    · simp [release, hj]

/-- The released nodes that waited for one dependency join the ready ones. -/
theorem release_ready {s : Ordering} {L : List JsString} (hL : L.Nodup)
    (hready : s.ready.Pairwise fun a b => compareStrings a b) :
    (L.foldl release s).ready.Pairwise (fun a b => compareStrings a b) ∧
      (L.foldl release s).ready.Perm (s.ready ++ L.filter fun j => s.indegree j = 1) := by
  induction L generalizing s with
  | nil => simpa using hready
  | cons d L ih =>
    obtain ⟨hd, hL⟩ := List.nodup_cons.1 hL
    have hrest : (L.filter fun j => (release s d).indegree j = 1) =
        L.filter fun j => s.indegree j = 1 := by
      refine List.filter_congr fun j hj => ?_
      have hne : j ≠ d := fun heq => hd (heq ▸ hj)
      simp [release, hne]
    rw [List.foldl_cons]
    by_cases hone : s.indegree d = 1
    · have hpushed : (release s d).ready = sortStrings (s.ready ++ [d]) := by
        simp [release, hone]
      obtain ⟨hsorted, hperm⟩ := ih (s := release s d) hL
        (hpushed ▸ List.pairwise_insertionSort _ _)
      refine ⟨hsorted, hperm.trans ?_⟩
      rw [hrest, hpushed, List.filter_cons_of_pos (by simpa using hone)]
      have hsort : (sortStrings (s.ready ++ [d])).Perm (s.ready ++ [d]) :=
        List.perm_insertionSort _ _
      simpa using hsort.append_right (L.filter fun j => s.indegree j = 1)
    · have hkept : (release s d).ready = s.ready := by
        have : s.indegree d - 1 ≠ 0 := fun h => hone (by omega)
        simp [release, this]
      obtain ⟨hsorted, hperm⟩ := ih (s := release s d) hL (hkept ▸ hready)
      refine ⟨hsorted, hperm.trans ?_⟩
      rw [hrest, hkept, List.filter_cons_of_neg (by simpa using hone)]

/-- The relation by which the loop is the canonical order. -/
abbrev before : JsString → JsString → Prop :=
  fun s t => compareStrings s t

/-- The loop has ordered the operations with the taken ids. -/
structure OrdersAs (operations : List Operation) (taken : List JsString) (s : Ordering) : Prop where
  ready : s.ready = ready before (awaited operations) (operations.map (·.id)) taken
  ordered : s.ordered = taken.filterMap (byId operations)
  /-- The indegree counts the dependencies that are not taken. -/
  indegree : ∀ j ∈ operations.map (·.id),
    s.indegree j = ((awaited operations j).filter (· ∉ taken)).length
  closed : ∀ j ∈ taken, ∀ d ∈ awaited operations j, d ∈ taken
  nodup : (operations.map (·.id)).Nodup
  dependsOn : ∀ o ∈ operations, o.dependsOn.Nodup

theorem OrdersAs.initial {operations : List Operation} (hids : (operations.map (·.id)).Nodup)
    (hdeps : ∀ o ∈ operations, o.dependsOn.Nodup) :
    OrdersAs operations [] (initialOrdering operations) where
  ready := by
    have hfilter : ((operations.filter fun o => (awaited operations o.id).length = 0).map (·.id)) =
        (operations.map (·.id)).filter fun i => i ∉ [] ∧ ∀ d ∈ awaited operations i, d ∈ [] := by
      rw [List.filter_map]
      congr 1
      refine List.filter_congr fun o _ => ?_
      simp [List.length_eq_zero_iff, List.eq_nil_iff_forall_not_mem]
    exact congrArg sortStrings hfilter
  ordered := rfl
  indegree := fun j _ => by simp [initialOrdering, awaited]
  closed := fun j hj => absurd hj List.not_mem_nil
  nodup := hids
  dependsOn := hdeps

/-- A node that waits for one node is ready when that one is taken. -/
theorem filter_length_one {deps taken : List JsString} {i : JsString} (hdeps : deps.Nodup)
    (hi : i ∈ deps) (hnot : i ∉ taken) :
    (deps.filter (· ∉ taken)).length = 1 ↔ ∀ d ∈ deps, d ∈ taken ++ [i] := by
  have hmem : i ∈ deps.filter (· ∉ taken) := List.mem_filter.2 ⟨hi, by simpa using hnot⟩
  constructor
  · intro hone d hd
    by_contra hd'
    rw [List.mem_append, List.mem_singleton, not_or] at hd'
    obtain ⟨k, hk⟩ := List.length_eq_one_iff.1 hone
    have hdk : d ∈ deps.filter (· ∉ taken) := List.mem_filter.2 ⟨hd, by simpa using hd'.1⟩
    rw [hk, List.mem_singleton] at hmem hdk
    exact hd'.2 (hdk.trans hmem.symm)
  · intro hall
    have hsub : ∀ d ∈ deps.filter (· ∉ taken), d = i := fun d hd => by
      obtain ⟨hd, hd'⟩ := List.mem_filter.1 hd
      have hd' : d ∉ taken := by simpa using hd'
      simpa [hd'] using hall d hd
    have hreplicate := List.eq_replicate_of_mem hsub
    have hnodup := hdeps.filter (· ∉ taken)
    rw [hreplicate, List.nodup_replicate] at hnodup
    have := List.length_pos_of_mem hmem
    omega

/-- Taking a node lowers the indegree of those that wait for it. -/
theorem filter_length_taken {deps taken : List JsString} (i : JsString) (hdeps : deps.Nodup)
    (hnot : i ∉ taken) :
    ((deps.filter (· ∉ taken ++ [i])).length : ℤ) =
      (deps.filter (· ∉ taken)).length - if i ∈ deps then 1 else 0 := by
  have herase : deps.filter (· ∉ taken ++ [i]) = (deps.filter (· ∉ taken)).erase i := by
    rw [(hdeps.filter _).erase_eq_filter, List.filter_filter]
    refine List.filter_congr fun d _ => ?_
    by_cases hd : d = i <;> simp [hd]
  rw [herase]
  by_cases hi : i ∈ deps
  · have hmem : i ∈ deps.filter (· ∉ taken) := List.mem_filter.2 ⟨hi, by simpa using hnot⟩
    have := List.length_pos_of_mem hmem
    rw [List.length_erase_of_mem hmem, if_pos hi]
    omega
  · rw [List.erase_of_not_mem fun h => hi (List.mem_filter.1 h).1, if_neg hi, sub_zero]

/-- One turn of the loop takes the first ready node. -/
theorem OrdersAs.turn {operations : List Operation} {taken : List JsString} {s : Ordering}
    {i : JsString} {rest : List JsString} (h : OrdersAs operations taken s)
    (hready : s.ready = i :: rest) :
    OrdersAs operations (taken ++ [i])
      ((sortStrings (dependents operations i)).foldl release
        { s with ready := rest, ordered := s.ordered ++ (byId operations i).toList }) := by
  obtain ⟨L, hL⟩ : ∃ L, L = sortStrings (dependents operations i) := ⟨_, rfl⟩
  have hLnodup : L.Nodup := hL ▸ (List.perm_insertionSort _ _).nodup_iff.2
    (dependents_nodup h.nodup h.dependsOn i)
  have hLmem : ∀ j, j ∈ L ↔ j ∈ operations.map (·.id) ∧ i ∈ awaited operations j := fun j => by
    rw [hL, mem_sortStrings, mem_dependents h.nodup h.dependsOn]
  have hi : i ∈ Topological.ready before (awaited operations) (operations.map (·.id)) taken := by
    rw [← h.ready, hready]
    exact List.mem_cons_self
  obtain ⟨hinode, hinot, hideps⟩ := mem_ready.1 hi
  have hawaited := awaited_nodup h.dependsOn
  have hsorted : (i :: rest).Pairwise fun a b => compareStrings a b := by
    rw [← hready, h.ready]
    exact List.pairwise_insertionSort _ _
  have hnodup : (i :: rest).Nodup := by
    rw [← hready, h.ready]
    exact (List.perm_insertionSort _ _).nodup_iff.2 (h.nodup.filter _)
  have hrest : ∀ j, j ∈ rest ↔ j ≠ i ∧ j ∈ operations.map (·.id) ∧ j ∉ taken ∧
      ∀ d ∈ awaited operations j, d ∈ taken := fun j => by
    rw [← @mem_ready _ _ before _ _ _ _ _, ← h.ready, hready, List.mem_cons]
    constructor
    · exact fun hj => ⟨fun heq => (List.nodup_cons.1 hnodup).1 (heq ▸ hj), Or.inr hj⟩
    · exact fun hj => hj.2.resolve_left hj.1
  rw [← hL]
  obtain ⟨hnewSorted, hnewPerm⟩ := release_ready (s := { s with
    ready := rest, ordered := s.ordered ++ (byId operations i).toList }) hLnodup
    (List.pairwise_cons.1 hsorted).2
  -- A dependent of the taken node is not taken, as what is taken is closed.
  have hLnot : ∀ j ∈ L, j ∉ taken ++ [i] := fun j hj => by
    obtain ⟨-, hij⟩ := (hLmem j).1 hj
    rw [List.mem_append, List.mem_singleton, not_or]
    exact ⟨fun hjt => hinot (h.closed j hjt i hij), fun heq => hinot (hideps i (heq ▸ hij))⟩
  have hready' : ∀ j, j ∈ rest ++ L.filter (fun j => s.indegree j = 1) ↔
      j ∈ Topological.ready before (awaited operations) (operations.map (·.id)) (taken ++ [i]) := by
    intro j
    rw [mem_ready, List.mem_append, List.mem_filter, hrest, decide_eq_true_eq]
    constructor
    · rintro (⟨hne, hj, hjnot, hjdeps⟩ | ⟨hjL, hone⟩)
      · refine ⟨hj, ?_, fun d hd => List.mem_append_left _ (hjdeps d hd)⟩
        rw [List.mem_append, List.mem_singleton, not_or]
        exact ⟨hjnot, hne⟩
      · obtain ⟨hj, hij⟩ := (hLmem j).1 hjL
        refine ⟨hj, hLnot j hjL, ?_⟩
        rw [h.indegree j hj] at hone
        exact (filter_length_one (hawaited j) hij hinot).1 (by exact_mod_cast hone)
    · rintro ⟨hj, hjnot, hjdeps⟩
      rw [List.mem_append, List.mem_singleton, not_or] at hjnot
      by_cases hij : i ∈ awaited operations j
      · refine Or.inr ⟨(hLmem j).2 ⟨hj, hij⟩, ?_⟩
        rw [h.indegree j hj, (filter_length_one (hawaited j) hij hinot).2 hjdeps]
        rfl
      · refine Or.inl ⟨hjnot.2, hj, hjnot.1, fun d hd => ?_⟩
        rcases List.mem_append.1 (hjdeps d hd) with hd' | hd'
        · exact hd'
        · exact absurd (List.mem_singleton.1 hd' ▸ hd) hij
  have hdisjoint : rest.Disjoint (L.filter fun j => s.indegree j = 1) := fun j hj hj' => by
    obtain ⟨-, hij⟩ := (hLmem j).1 (List.mem_filter.1 hj').1
    exact hinot (((hrest j).1 hj).2.2.2 i hij)
  refine ⟨?_, ?_, fun j hj => ?_, fun j hj d hd => ?_, h.nodup, h.dependsOn⟩
  · refine List.Perm.eq_of_pairwise' hnewSorted (List.pairwise_insertionSort _ _)
      (hnewPerm.trans ?_)
    refine (List.perm_ext_iff_of_nodup ?_ ?_).2 hready'
    · exact List.nodup_append'.2 ⟨(List.nodup_cons.1 hnodup).2, hLnodup.filter _, hdisjoint⟩
    · exact (List.perm_insertionSort _ _).nodup_iff.2 (h.nodup.filter _)
  · rw [release_ordered, h.ordered, List.filterMap_append]
    cases hfind : byId operations i <;> simp [hfind]
  · rw [release_indegree _ hLnodup, filter_length_taken i (hawaited j) hinot]
    simp only [hLmem, h.indegree j hj, hj, true_and]
  · rcases List.mem_append.1 hj with hj | hj
    · exact List.mem_append_left _ (h.closed j hj d hd)
    · rw [List.mem_singleton.1 hj] at hd
      exact List.mem_append_left _ (hideps d hd)

/-- The loop computes the canonical topological order. -/
theorem OrdersAs.loop {operations : List Operation} {taken : List JsString} {s : Ordering}
    (h : OrdersAs operations taken s) (n : ℕ) :
    (orderLoop operations n s).ordered = (order before (awaited operations)
      (operations.map (·.id)) n taken).filterMap (byId operations) := by
  induction n generalizing s taken with
  | zero => exact h.ordered
  | succ n ih =>
    rw [orderLoop, order, ← h.ready]
    cases hready : s.ready with
    | nil => exact h.ordered
    | cons i rest => exact ih (h.turn hready)

/-- The operations in the order of `orderOperations`. -/
def canonical (operations : List Operation) : List JsString :=
  order before (awaited operations) (operations.map (·.id)) (2 * operations.length) []

theorem orderLoop_eq {operations : List Operation} (hids : (operations.map (·.id)).Nodup)
    (hdeps : ∀ o ∈ operations, o.dependsOn.Nodup) :
    (orderLoop operations (2 * operations.length) (initialOrdering operations)).ordered =
      (canonical operations).filterMap (byId operations) :=
  (OrdersAs.initial hids hdeps).loop _

/-! ## Success -/

/-- An operation is a direct dependency of another one. -/
def DependsOn (operations : List Operation) (p o : Operation) : Prop :=
  p ∈ operations ∧ o ∈ operations ∧ p.id ∈ o.dependsOn

/-- Each dependency is an input node or an operation, and no operation depends on itself by a path. -/
structure Orderable (operations : List Operation) : Prop where
  known : ∀ o ∈ operations, ∀ d ∈ o.dependsOn,
    d ∈ inputNodeIds ∨ ∃ p ∈ operations, p.id = d
  acyclic : ∀ o, ¬Relation.TransGen (DependsOn operations) o o

section Success

variable {operations : List Operation}

theorem Orderable.perm {operations' : List Operation} (h : Orderable operations)
    (hperm : operations.Perm operations') : Orderable operations' := by
  have hback : ∀ p o, DependsOn operations' p o → DependsOn operations p o := fun p o hpo =>
    ⟨hperm.mem_iff.2 hpo.1, hperm.mem_iff.2 hpo.2.1, hpo.2.2⟩
  refine ⟨fun o ho d hd => ?_, fun o hpath => h.acyclic o (Relation.TransGen.mono hback _ _ hpath)⟩
  · refine (h.known o (hperm.mem_iff.2 ho) d hd).imp id ?_
    rintro ⟨p, hp, hid⟩
    exact ⟨p, hperm.mem_iff.1 hp, hid⟩

/-- Paths of operations are paths of their ids. -/
theorem acyclic_iff (hids : (operations.map (·.id)).Nodup) :
    (∀ o, ¬Relation.TransGen (DependsOn operations) o o) ↔
      Acyclic (awaited operations) (operations.map (·.id)) := by
  constructor
  · intro h i hpath
    have hlift : ∀ {d i : JsString}, Relation.TransGen
        (Dependency (awaited operations) (operations.map (·.id))) d i → ∀ o ∈ operations, o.id = i →
        ∃ p ∈ operations, p.id = d ∧ Relation.TransGen (DependsOn operations) p o := by
      intro d i hpath
      induction hpath with
      | single hdi =>
        rintro o ho rfl
        obtain ⟨-, hd⟩ := hdi
        rw [awaited_eq hids ho, mem_dependencies] at hd
        obtain ⟨p, hp, rfl⟩ := List.mem_map.1 hd.2
        exact ⟨p, hp, rfl, .single ⟨hp, ho, hd.1⟩⟩
      | tail _ hdi ih =>
        rintro o ho rfl
        obtain ⟨-, hd⟩ := hdi
        rw [awaited_eq hids ho, mem_dependencies] at hd
        obtain ⟨q, hq, hqid⟩ := List.mem_map.1 hd.2
        obtain ⟨p, hp, hpid, hpq⟩ := ih q hq hqid
        exact ⟨p, hp, hpid, hpq.tail ⟨hq, ho, hqid ▸ hd.1⟩⟩
    have hi : i ∈ operations.map (·.id) := by
      obtain ⟨_, _, hlast⟩ := Relation.TransGen.tail'_iff.1 hpath
      exact hlast.1
    obtain ⟨o, ho, rfl⟩ := List.mem_map.1 hi
    obtain ⟨p, hp, hid, hpo⟩ := hlift hpath o ho rfl
    exact h o (List.inj_on_of_nodup_map hids hp ho hid ▸ hpo)
  · intro h o hpath
    have hedge : ∀ p o, DependsOn operations p o →
        Dependency (awaited operations) (operations.map (·.id)) p.id o.id := by
      rintro p o ⟨hp, ho, hid⟩
      refine ⟨List.mem_map_of_mem ho, ?_⟩
      rw [awaited_eq hids ho, mem_dependencies]
      exact ⟨hid, List.mem_map_of_mem hp⟩
    exact h o.id (Relation.TransGen.lift Operation.id hedge _ _ hpath)

theorem dependencyDiagnostics_eq_nil : dependencyDiagnostics operations = [] ↔
    ∀ o ∈ operations, ∀ d ∈ o.dependsOn,
      (d ∈ inputNodeIds ∨ ∃ p ∈ operations, p.id = d) ∧ d ≠ o.id := by
  simp only [dependencyDiagnostics, List.flatMap_eq_nil_iff, List.append_eq_nil_iff,
    ite_eq_left_iff, ite_eq_right_iff, List.cons_ne_nil, imp_false, Bool.or_eq_true,
    List.contains_iff_mem, byId_isSome, List.mem_map, not_not, ne_eq]

theorem orderOperations_eq_ok {ordered : List Operation} :
    orderOperations operations = .ok ordered ↔ dependencyDiagnostics operations = [] ∧
      ordered = (orderLoop operations (2 * operations.length) (initialOrdering operations)).ordered ∧
      ordered.length = operations.length := by
  unfold orderOperations
  cases hdiagnostics : dependencyDiagnostics operations with
  | cons d ds => simp
  | nil =>
    dsimp only
    split_ifs with hlength
    · simp only [Except.ok.injEq, true_and]
      constructor
      · rintro rfl
        exact ⟨rfl, hlength⟩
      · exact fun h => h.1.symm
    · simp only [true_and, false_iff, not_and]
      rintro rfl
      exact hlength

theorem canonical_subset {i : JsString} (hi : i ∈ canonical operations) :
    i ∈ operations.map (·.id) :=
  order_subset i hi

theorem map_id_canonical :
    ((canonical operations).filterMap (byId operations)).map (·.id) = canonical operations := by
  have hkey : ∀ l : List JsString, (∀ i ∈ l, i ∈ operations.map (·.id)) →
      (l.filterMap (byId operations)).map (·.id) = l := by
    intro l hl
    induction l with
    | nil => rfl
    | cons i l ih =>
      obtain ⟨o, ho⟩ := Option.isSome_iff_exists.1 (byId_isSome.2 (hl i List.mem_cons_self))
      rw [List.filterMap_cons_some ho, List.map_cons, (byId_mem ho).2,
        ih fun j hj => hl j (List.mem_cons_of_mem _ hj)]
  exact hkey _ fun i hi => canonical_subset hi

/-- The order has all operations exactly when they can be ordered. -/
theorem length_canonical_iff (hids : (operations.map (·.id)).Nodup) :
    (canonical operations).length = operations.length ↔
      Acyclic (awaited operations) (operations.map (·.id)) := by
  rw [← @order_complete_iff _ _ before _ _ _ (2 * operations.length)
    (fun j _ d hd => awaited_subset hd) (by rw [List.length_map]; omega)]
  have hnodup : (canonical operations).Nodup := order_nodup
  have hsub : (canonical operations).Subperm (operations.map (·.id)) :=
    List.subperm_of_subset hnodup fun i hi => canonical_subset hi
  constructor
  · intro hlength j hj
    exact (hsub.perm_of_length_le (by rw [List.length_map, hlength])).mem_iff.2 hj
  · intro hall
    have hsub' : (operations.map (·.id)).Subperm (canonical operations) :=
      List.subperm_of_subset hids hall
    rw [(hsub.antisymm hsub').length_eq, List.length_map]

theorem orderOperations_iff (hids : (operations.map (·.id)).Nodup)
    (hdeps : ∀ o ∈ operations, o.dependsOn.Nodup) {ordered : List Operation} :
    orderOperations operations = .ok ordered ↔ Orderable operations ∧
      ordered = (canonical operations).filterMap (byId operations) := by
  rw [orderOperations_eq_ok, orderLoop_eq hids hdeps, dependencyDiagnostics_eq_nil]
  have hlength : ((canonical operations).filterMap (byId operations)).length =
      (canonical operations).length := by
    rw [← List.length_map (f := (·.id)), map_id_canonical]
  constructor
  · rintro ⟨hknown, rfl, hall⟩
    rw [hlength, length_canonical_iff hids, ← acyclic_iff hids] at hall
    exact ⟨⟨fun o ho d hd => (hknown o ho d hd).1, hall⟩, rfl⟩
  · rintro ⟨h, rfl⟩
    refine ⟨fun o ho d hd => ⟨h.known o ho d hd, ?_⟩, rfl, ?_⟩
    · rintro rfl
      exact h.acyclic o (.single ⟨ho, ho, hd⟩)
    · rw [hlength, length_canonical_iff hids, ← acyclic_iff hids]
      exact h.acyclic

end Success

/-! ## The graph -/

section Graph

variable {T : Tools} {resolved : Resolved} {operations : List Operation}

theorem Passes.ids (h : Passes T resolved operations) : (operations.map (·.id)).Nodup := by
  obtain ⟨candidates, -, -, haccepted, rfl⟩ := passes_iff.1 h
  exact haccepted.ids

theorem Passes.dependsOn (h : Passes T resolved operations) :
    ∀ o ∈ operations, o.dependsOn.Nodup := by
  obtain ⟨candidates, -, -, -, rfl⟩ := passes_iff.1 h
  intro o ho
  obtain ⟨c, -, hc⟩ := List.mem_filterMap.1 ho
  exact (operation?_eq_some hc).1

/-- The graph of an answer that passes the checks. -/
theorem Passes.compile_iff (h : Passes T resolved operations) {graph : GenerationGraph} :
    compileResolution T resolved.plan resolved.profile resolved.resolution = .ok graph ↔
      Orderable operations ∧ graph = graphOf T resolved.plan resolved.profile
        ((canonical operations).filterMap (byId operations)) [] := by
  have hids := h.ids
  have hdeps := h.dependsOn
  obtain ⟨candidates, hget, hconflicts, -, -⟩ := passes_iff.1 h
  obtain ⟨n, hn, hdiagnostics, rfl⟩ := h
  have hnil : n.conflicts = [] := by
    unfold normalizeResolution at hn
    rw [hget] at hn
    obtain rfl := Except.ok.inj hn
    exact hconflicts
  unfold compileResolution
  rw [hn]
  dsimp only
  rw [hdiagnostics, hnil]
  cases hordered : orderOperations n.operations with
  | error cycle =>
    simp only [reduceCtorEq, false_iff, not_and]
    intro horderable
    have := (orderOperations_iff hids hdeps).2 ⟨horderable, rfl⟩
    rw [hordered] at this
    cases this
  | ok ordered =>
    obtain ⟨horderable, rfl⟩ := (orderOperations_iff hids hdeps).1 hordered
    simp only [Except.ok.injEq, horderable, true_and]
    exact eq_comm

theorem canonical_perm {operations' : List Operation} (hids : (operations.map (·.id)).Nodup)
    (hperm : operations.Perm operations') :
    (canonical operations).filterMap (byId operations) =
      (canonical operations').filterMap (byId operations') := by
  have hbyId : byId operations = byId operations' := funext (byId_perm hids hperm)
  have horder : canonical operations = canonical operations' := by
    unfold canonical
    rw [hperm.length_eq]
    exact order_eq_of_perm (hperm.map _) fun i _ => awaited_perm hids hperm i
  rw [hbyId, horder]

/-- A node of the graph is an input or an operation of the answer. -/
theorem mem_canonical_operations {o : Operation}
    (ho : o ∈ (canonical operations).filterMap (byId operations)) : o ∈ operations := by
  obtain ⟨i, -, hi⟩ := List.mem_filterMap.1 ho
  exact (byId_mem hi).1

/-- Operations that can be ordered are all in the order. -/
theorem canonical_operations_perm (hids : (operations.map (·.id)).Nodup)
    (horderable : Orderable operations) :
    ((canonical operations).filterMap (byId operations)).Perm operations := by
  have hnodup : ((canonical operations).filterMap (byId operations)).Nodup := by
    refine List.Nodup.of_map (·.id) ?_
    rw [map_id_canonical]
    exact order_nodup
  have hlength : ((canonical operations).filterMap (byId operations)).length =
      operations.length := by
    rw [← List.length_map (f := (·.id)), map_id_canonical, length_canonical_iff hids,
      ← acyclic_iff hids]
    exact horderable.acyclic
  exact (List.subperm_of_subset hnodup fun o ho => mem_canonical_operations ho).perm_of_length_le
    hlength.ge

end Graph

/-! ## Soundness -/

theorem compileRepositoryTaskPlan_eq {T : Tools} {resolvers : JsString → Option Resolver}
    {authoredPlan : AuthoredPlan} {profileInput : Json} {resolved : Resolved}
    (hresolved : resolveRecipe T resolvers authoredPlan profileInput = .ok resolved) :
    compileRepositoryTaskPlan T resolvers authoredPlan profileInput =
      compileResolution T resolved.plan resolved.profile resolved.resolution := by
  rw [compileRepositoryTaskPlan, hresolved]
  rfl

/-- What has been checked before the resolver is asked. -/
theorem resolveRecipe_inputs {T : Tools} {resolvers : JsString → Option Resolver}
    {authoredPlan : AuthoredPlan} {profileInput : Json} {resolved : Resolved}
    (h : resolveRecipe T resolvers authoredPlan profileInput = .ok resolved) :
    normalizeRepositoryTaskPlan T authoredPlan = .ok resolved.plan ∧
      normalizeProfile T profileInput = .ok resolved.profile ∧
      checkPlanAgainstProfile resolved.plan resolved.profile = [] := by
  obtain ⟨plan, hplan, h⟩ := Except.bind_eq_ok.1 h
  obtain ⟨profile, hprofile, h⟩ := Except.bind_eq_ok.1 h
  split at h
  · rename_i hcheck
    dsimp only at h
    split at h
    · cases h
    · split at h
      · cases h
      · obtain rfl := Except.ok.inj h
        exact ⟨hplan, hprofile, hcheck⟩
  · cases h

/-- Tools that find nothing to report. -/
def scriptTools : Tools where
  authoredErrors := fun _ => []
  normalizedErrors := fun _ => []
  planDigest := fun _ => 1
  profileDigest := fun _ => 2
  graphDigest := fun _ => 3
  jsonText := fun s => '"' :: s ++ ['"']
  toLowerCase := fun s => s.map Char.toLower

def moduleOutput (name path : String) : DeclaredOutput :=
  { name := name.toList, kind := .file, path := path.toList, mediaType := "text/typescript".toList,
    required := true }

/-- A plan of two files in `core`. -/
def modulePlan (allowedPaths : List String) : AuthoredPlan where
  objective := "Add a module".toList
  repository := { owner := "factory".toList, name := "floor".toList,
                  baseRevision := List.replicate 40 '0' }
  allowedPaths := allowedPaths.map String.toList
  recipe := { name := "typescript-module".toList, version := "1".toList,
              inputs := .obj [("package", .str "core")] }
  outputs := [moduleOutput "module" "core/a.ts", moduleOutput "index" "core/b.ts"]
  verificationProfile := "default".toList
  resourceBounds := { maxFiles := 2, maxPatchBytes := 1000, maxVerificationSeconds := 60 }
  requestedCapabilities := []
  completionCriteria := ["The package builds.".toList]

/-- A profile with the package `core`. -/
def moduleProfile (boundaries : List Json) : Json :=
  .obj [("packages", .arr [.obj [("name", .str "core"), ("path", .str "core"),
      ("publicExportPath", .str "core/b.ts"), ("sourceDirectory", .str "core"),
      ("testDirectory", .str "core")]]),
    ("pathBoundaries", .arr boundaries),
    ("recipes", .obj [("typescript-module", .arr [.str "1"])]),
    ("repository", .obj [("name", .str "floor"), ("owner", .str "factory")]),
    ("schemaVersion", .num 1), ("verificationProfiles", .arr [.str "default"])]

def moduleOperation (id output path : String) (dependsOn : List Json) : Json :=
  .obj [("attribution", .arr [.obj [("kind", .str "recipe"), ("reference", .str "1")]]),
    ("dependsOn", .arr dependsOn), ("id", .str id), ("mediaType", .str "text/typescript"),
    ("operation", .str "create"), ("outputName", .str output), ("path", .str path)]

/-- The second operation is listed first, and depends on the first one. -/
def moduleAnswer (first : String) : Json :=
  .obj [("operations", .arr [moduleOperation "index" "index" "core/b.ts" [.str first],
    moduleOperation first "module" "core/a.ts" [.str "input:repository-profile"]])]

def moduleResolvers (answer : Json) : JsString → Option Resolver :=
  fun key => if key = "typescript-module@1".toList then some fun _ _ => some answer else none

end FactoryFloor
