import FactoryFloor.PlanOrder
import Mathlib.Algebra.Order.BigOperators.Group.List
import Mathlib.Algebra.Order.Group.Nat

/-!
# Where the plan compiler lets operations write

The operations of a compiled graph have safe paths inside the plan's allowed paths and the profile's
boundaries (`compile_operation`). The allowed paths themselves are checked by `constraintFits`, which
compares their bases only : an exact boundary lets through the recursive constraint with the same
base, and so paths that no boundary matches. `confinement_iff` says when all allowed paths stay inside
the boundaries.
-/

namespace FactoryFloor

/-! ## Matching -/

section Matching

variable {path constraint boundary : JsString}

theorem pathMatches_recursive (h : isRecursive constraint) : pathMatches path constraint ↔
    path = baseOf constraint ∨ baseOf constraint ++ ['/'] <+: path := by
  rw [pathMatches, if_pos h, Bool.or_eq_true, decide_eq_true_eq, List.isPrefixOf_iff_prefix]

theorem pathMatches_exact (h : ¬isRecursive constraint) :
    pathMatches path constraint ↔ path = constraint := by
  rw [pathMatches, if_neg h, decide_eq_true_eq]

theorem baseOf_exact (h : ¬isRecursive constraint) : baseOf constraint = constraint :=
  if_neg h

theorem length_baseOf_le : (baseOf constraint).length ≤ constraint.length := by
  unfold baseOf
  split_ifs
  · exact List.length_take_le' _ _
  · exact le_rfl

/-- Every constraint matches its base. -/
theorem pathMatches_baseOf : pathMatches (baseOf constraint) constraint := by
  by_cases h : isRecursive constraint
  · exact (pathMatches_recursive h).2 (Or.inl rfl)
  · exact (pathMatches_exact h).2 (baseOf_exact h)

/-- A boundary that is recursive where the constraint is contains it when its base fits. -/
theorem pathMatches_of_fits (hfits : constraintFits constraint boundary)
    (hrecursive : isRecursive constraint → isRecursive boundary) (h : pathMatches path constraint) :
    pathMatches path boundary := by
  by_cases hconstraint : isRecursive constraint
  · have hboundary := hrecursive hconstraint
    rcases (pathMatches_recursive hconstraint).1 h with rfl | hinitial
    · exact hfits
    · refine (pathMatches_recursive hboundary).2 (Or.inr ?_)
      rcases (pathMatches_recursive hboundary).1 hfits with hbase | hbase
      · exact hbase ▸ hinitial
      · exact hbase.trans ((List.prefix_append _ _).trans hinitial)
  · rw [(pathMatches_exact hconstraint).1 h, ← baseOf_exact hconstraint]
    exact hfits

/-- A path below the base of a recursive constraint, deeper than a boundary is long. -/
def deepPath (constraint : JsString) (n : ℕ) : JsString :=
  baseOf constraint ++ '/' :: List.replicate n 'a'

theorem pathMatches_deepPath {n : ℕ} (h : isRecursive constraint) :
    pathMatches (deepPath constraint n) constraint :=
  (pathMatches_recursive h).2 (Or.inr ⟨List.replicate n 'a', by simp [deepPath]⟩)

/-- Only a recursive boundary that the constraint fits in matches such a path. -/
theorem fits_of_deepPath {n : ℕ} (hn : boundary.length ≤ n)
    (h : pathMatches (deepPath constraint n) boundary) :
    isRecursive boundary ∧ constraintFits constraint boundary := by
  have hlength : (deepPath constraint n).length = (baseOf constraint).length + (n + 1) := by
    simp [deepPath]
  by_cases hboundary : isRecursive boundary
  · refine ⟨hboundary, (pathMatches_recursive hboundary).2 ?_⟩
    have hbase : (baseOf boundary).length ≤ boundary.length := length_baseOf_le
    rcases (pathMatches_recursive hboundary).1 h with heq | hinitial
    · rw [← heq] at hbase
      omega
    · have hdeep : baseOf constraint ++ ['/'] <+: deepPath constraint n :=
        ⟨List.replicate n 'a', by simp [deepPath]⟩
      rcases le_or_gt (baseOf boundary ++ ['/']).length (baseOf constraint).length with hle | hlt
      · exact Or.inr (List.prefix_of_prefix_length_le hinitial (List.prefix_append _ _) hle)
      · -- What is left of the boundary's base is a run of `a`, so nothing is left.
        obtain ⟨rest, hrest⟩ := List.prefix_of_prefix_length_le hdeep hinitial (by
          simp only [List.length_append, List.length_singleton] at hlt ⊢
          omega)
        rcases List.eq_nil_or_concat rest with rfl | ⟨rest, c, rfl⟩
        · rw [List.append_nil] at hrest
          exact Or.inl (List.append_inj' hrest rfl).1
        · have hc : c = '/' := by
            rw [List.concat_eq_append, ← List.append_assoc] at hrest
            exact List.singleton_inj.1 (List.append_inj' hrest rfl).2
          have hdeep : deepPath constraint n = baseOf constraint ++ ['/'] ++ List.replicate n 'a' := by
            simp [deepPath]
          rw [← hrest, hdeep, List.prefix_append_right_inj] at hinitial
          have hmem := hinitial.subset (List.concat_eq_append ▸ List.mem_append_right _
            (List.mem_singleton_self c))
          exact absurd (hc ▸ List.eq_of_mem_replicate hmem) (by decide)
  · rw [pathMatches_exact hboundary] at h
    rw [h] at hlength
    omega

end Matching

/-! ## Operations -/

section Operations

variable {T : Tools} {resolvers : JsString → Option Resolver} {authoredPlan : AuthoredPlan}
  {profileInput : Json} {plan : NormalizedPlan} {profile : RepositoryProfile}
  {graph : GenerationGraph}

/-- A graph is made of operations that pass the checks. -/
theorem compileResolution_passes {resolved : Resolved}
    (h : compileResolution T resolved.plan resolved.profile resolved.resolution = .ok graph) :
    ∃ operations, Passes T resolved operations := by
  unfold compileResolution at h
  cases hn : normalizeResolution T resolved.resolution resolved.plan resolved.profile with
  | error diagnostics => simp [hn] at h
  | ok n =>
    rw [hn] at h
    dsimp only at h
    cases hdiagnostics : n.diagnostics with
    | nil => exact ⟨_, n, hn, hdiagnostics, rfl⟩
    | cons d ds =>
      rw [hdiagnostics] at h
      cases horder : orderOperations n.operations <;> simp [horder] at h

/-- An operation that passes its checks is inside both sets of paths. -/
theorem paths_of_checked {index : ℕ} {o : Operation}
    (h : operationDiagnostics plan profile index o = []) :
    (∃ a ∈ plan.allowedPaths, pathMatches o.path a) ∧
      ∃ b ∈ profile.pathBoundaries, pathMatches o.path b := by
  unfold operationDiagnostics at h
  obtain ⟨h, hboundaries⟩ := List.append_eq_nil_iff.1 h
  obtain ⟨-, hallowed⟩ := List.append_eq_nil_iff.1 h
  simp only [ite_eq_left_iff, List.cons_ne_nil, imp_false, not_not, List.any_eq_true]
    at hallowed hboundaries
  exact ⟨hallowed, hboundaries⟩

/-- The operations of a compiled graph. -/
theorem compile_operation (hplan : normalizeRepositoryTaskPlan T authoredPlan = .ok plan)
    (hprofile : normalizeProfile T profileInput = .ok profile)
    (hgraph : compileRepositoryTaskPlan T resolvers authoredPlan profileInput = .ok graph)
    {o : Operation} (ho : .operation o ∈ graph.nodes) :
    safePath o.path ∧ (∃ a ∈ plan.allowedPaths, pathMatches o.path a) ∧
      ∃ b ∈ profile.pathBoundaries, pathMatches o.path b := by
  obtain ⟨resolved, hresolved, hcompile⟩ := Except.bind_eq_ok.1 hgraph
  obtain ⟨hplan', hprofile', -⟩ := resolveRecipe_inputs hresolved
  obtain rfl := Except.ok.inj (hplan.symm.trans hplan')
  obtain rfl := Except.ok.inj (hprofile.symm.trans hprofile')
  obtain ⟨operations, hpasses⟩ := compileResolution_passes hcompile
  obtain ⟨-, rfl⟩ := hpasses.compile_iff.1 hcompile
  have ho : o ∈ operations := by
    simp only [graphOf, List.mem_cons, reduceCtorEq, false_or, List.mem_map,
      GraphNode.operation.injEq, exists_eq_right] at ho
    exact mem_canonical_operations ho
  obtain ⟨candidates, -, -, haccepted, rfl⟩ := passes_iff.1 hpasses
  obtain ⟨c, hc, hoperation⟩ := List.mem_filterMap.1 ho
  obtain ⟨o', ho', hchecked⟩ := haccepted.valid c hc
  obtain rfl := Option.some.inj (hoperation.symm.trans ho')
  obtain ⟨-, path, hsafe, hpath⟩ := operation?_eq_some hoperation
  refine ⟨?_, paths_of_checked (hchecked 0)⟩
  rw [hpath]
  simpa only [safePath, nonEmptyString, trim_trim] using hsafe

/-- What `checkPlanAgainstProfile` asks of the allowed paths. -/
theorem fits_of_checked (h : checkPlanAgainstProfile plan profile = []) :
    ∀ a ∈ plan.allowedPaths, ∃ b ∈ profile.pathBoundaries, constraintFits a b := by
  unfold checkPlanAgainstProfile at h
  rw [sortDiagnostics_eq_nil] at h
  simp only [List.append_eq_nil_iff] at h
  obtain ⟨⟨⟨⟨-, hallowed⟩, -⟩, -⟩, -⟩ := h
  rw [diagnosed_eq_nil] at hallowed
  intro a ha
  obtain ⟨i, hi⟩ := List.mem_iff_getElem?.1 ha
  have hfits := hallowed i a hi
  simp only [ite_eq_left_iff, List.cons_ne_nil, imp_false, not_not, List.any_eq_true] at hfits
  exact hfits

end Operations

/-! ## Confinement -/

/-- The operations of a graph, and all paths the plan allows, are inside the profile's boundaries. -/
structure Confined (plan : NormalizedPlan) (profile : RepositoryProfile) (graph : GenerationGraph) :
    Prop where
  operations : ∀ o, .operation o ∈ graph.nodes → safePath o.path ∧
    (∃ a ∈ plan.allowedPaths, pathMatches o.path a) ∧
    ∃ b ∈ profile.pathBoundaries, pathMatches o.path b
  allowedPaths : ∀ a ∈ plan.allowedPaths, ∀ path, pathMatches path a →
    ∃ b ∈ profile.pathBoundaries, pathMatches path b

/-- Each constraint with a recursive glob has to fit in a boundary with one, and this is also when the
test of a pair of patterns is the containment of what they match. -/
theorem confinement_iff {T : Tools} {resolvers : JsString → Option Resolver}
    {authoredPlan : AuthoredPlan} {profileInput : Json} {plan : NormalizedPlan}
    {profile : RepositoryProfile} {graph : GenerationGraph}
    (hplan : normalizeRepositoryTaskPlan T authoredPlan = .ok plan)
    (hprofile : normalizeProfile T profileInput = .ok profile)
    (hgraph : compileRepositoryTaskPlan T resolvers authoredPlan profileInput = .ok graph) :
    (Confined plan profile graph ↔ ∀ a ∈ plan.allowedPaths, isRecursive a →
      ∃ b ∈ profile.pathBoundaries, isRecursive b ∧ constraintFits a b) ∧
    ∀ constraint boundary, constraintFits constraint boundary →
      ((∀ path, pathMatches path constraint → pathMatches path boundary) ↔
        (isRecursive constraint → isRecursive boundary)) := by
  refine ⟨⟨fun h a ha hrecursive => ?_, fun h => ?_⟩, fun constraint boundary hfits => ?_⟩
  · -- A path deeper than all boundaries are long.
    obtain ⟨b, hb, hmatch⟩ := h.allowedPaths a ha _ (pathMatches_deepPath
      (n := (profile.pathBoundaries.map List.length).sum) hrecursive)
    have hlength : b.length ≤ (profile.pathBoundaries.map List.length).sum :=
      List.le_sum_of_mem (List.mem_map_of_mem hb)
    exact ⟨b, hb, fits_of_deepPath hlength hmatch⟩
  · refine ⟨fun o ho => compile_operation hplan hprofile hgraph ho, fun a ha path hpath => ?_⟩
    by_cases hrecursive : isRecursive a
    · obtain ⟨b, hb, hboundary, hfits⟩ := h a ha hrecursive
      exact ⟨b, hb, pathMatches_of_fits hfits (fun _ => hboundary) hpath⟩
    · obtain ⟨resolved, hresolved, -⟩ := Except.bind_eq_ok.1 hgraph
      obtain ⟨hplan', hprofile', hcheck⟩ := resolveRecipe_inputs hresolved
      obtain rfl := Except.ok.inj (hplan.symm.trans hplan')
      obtain rfl := Except.ok.inj (hprofile.symm.trans hprofile')
      obtain ⟨b, hb, hfits⟩ := fits_of_checked hcheck a ha
      exact ⟨b, hb, pathMatches_of_fits hfits (fun h => absurd h hrecursive) hpath⟩
  · refine ⟨fun h hrecursive => ?_, fun h path => pathMatches_of_fits hfits h⟩
    exact (fits_of_deepPath le_rfl (h _ (pathMatches_deepPath hrecursive))).1

set_option maxRecDepth 10000 in
theorem modules_confined : ∃ plan profile graph,
    compileRepositoryTaskPlan scriptTools (moduleResolvers (moduleAnswer "module"))
      (modulePlan ["core/**"]) (moduleProfile [.str "core/**"]) = .ok graph ∧
    Confined plan profile graph := by
  obtain ⟨plan, hplan, profile, hprofile, hfits⟩ :
      ∃ plan, normalizeRepositoryTaskPlan scriptTools (modulePlan ["core/**"]) = .ok plan ∧
        ∃ profile, normalizeProfile scriptTools (moduleProfile [.str "core/**"]) = .ok profile ∧
          ∀ a ∈ plan.allowedPaths, isRecursive a →
            ∃ b ∈ profile.pathBoundaries, isRecursive b ∧ constraintFits a b :=
    ⟨_, rfl, _, rfl, by decide +kernel⟩
  obtain ⟨graph, hgraph⟩ : ∃ graph, compileRepositoryTaskPlan scriptTools
      (moduleResolvers (moduleAnswer "module")) (modulePlan ["core/**"])
      (moduleProfile [.str "core/**"]) = .ok graph := ⟨_, rfl⟩
  exact ⟨plan, profile, graph, hgraph, (confinement_iff hplan hprofile hgraph).1.2 hfits⟩

set_option maxRecDepth 10000 in
/-- The exact boundary `docs` lets `docs/**` through, so `docs/a` is allowed and outside. -/
theorem exact_boundary_lets_through : ¬∀ (T : Tools) (resolvers : JsString → Option Resolver)
    (authoredPlan : AuthoredPlan) (profileInput : Json) (plan : NormalizedPlan)
    (profile : RepositoryProfile) (graph : GenerationGraph),
    normalizeRepositoryTaskPlan T authoredPlan = .ok plan →
    normalizeProfile T profileInput = .ok profile →
    compileRepositoryTaskPlan T resolvers authoredPlan profileInput = .ok graph →
    Confined plan profile graph := by
  intro hconfined
  obtain ⟨plan, hplan, profile, hprofile, hallowed, houtside⟩ :
      ∃ plan, normalizeRepositoryTaskPlan scriptTools (modulePlan ["core/**", "docs/**"]) =
        .ok plan ∧
        ∃ profile, normalizeProfile scriptTools (moduleProfile [.str "core/**", .str "docs"]) =
          .ok profile ∧
          (∃ a ∈ plan.allowedPaths, pathMatches "docs/a".toList a) ∧
          ∀ b ∈ profile.pathBoundaries, ¬pathMatches "docs/a".toList b :=
    ⟨_, rfl, _, rfl, by decide +kernel, by decide +kernel⟩
  obtain ⟨graph, hgraph⟩ : ∃ graph, compileRepositoryTaskPlan scriptTools
      (moduleResolvers (moduleAnswer "module")) (modulePlan ["core/**", "docs/**"])
      (moduleProfile [.str "core/**", .str "docs"]) = .ok graph := ⟨_, rfl⟩
  obtain ⟨a, ha, hmatch⟩ := hallowed
  obtain ⟨b, hb, hmatch⟩ := (hconfined _ _ _ _ _ _ _ hplan hprofile hgraph).allowedPaths a ha _ hmatch
  exact houtside b hb hmatch

end FactoryFloor
