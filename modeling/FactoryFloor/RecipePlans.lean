import FactoryFloor.RecipeReruns

/-!
# Compiling a plan of the module recipe again

`compile-typescript-module-recipe-plan.mjs` : the plan compiler is run with the module recipe as its
resolver, and the nodes of its graph get the contents of the operations.

The plan compiler asks for an operation of every declared output. So a plan compiles exactly when the
proposed operations are `Complete` (`compile_isOk_iff_complete`), and then to the graph of them. After
a part of the operations has been applied the recipe proposes the rest, but the plan does not compile
(`recipe_rerun`) : the outputs that are there already are reported as missing.

The digest of a proposal's content is not in the answer as the plan compiler sees it, and neither is
the content, since `normalizeResolution` reads neither of them.
-/

namespace FactoryFloor

open JsonText

namespace ModuleRecipe

/-! ## The resolver's answer -/

/-- A string as a value. -/
def textJson (s : JsString) : Json :=
  .str (String.ofList s)

def attributionJson (a : Attribution) : Json :=
  .obj [("kind", textJson a.kind.text), ("reference", textJson a.reference)]

/-- A proposal, with the members that `normalizeResolution` reads. -/
def ModuleOperation.json (o : ModuleOperation) : Json :=
  .obj [("attribution", .arr (o.attribution.map attributionJson)),
    ("dependsOn", .arr (o.dependsOn.map textJson)), ("id", textJson o.id),
    ("mediaType", textJson o.mediaType), ("operation", .str o.operation.text),
    ("outputName", .str o.outputName), ("path", textJson o.path)]

/-- What the resolver answers, with the members that `normalizeResolution` reads. -/
def recipeAnswer (resolution : Except Diagnostic (List ModuleOperation)) : Json :=
  .obj [("conflicts", .arr []),
    ("operations", .arr ((resolution.toOption.getD []).map ModuleOperation.json))]

/-- The resolvers of `compileTypescriptModuleRecipePlan`. -/
def recipeResolvers (H : Sha256) (files : SnapshotFiles) : JsString → Option Resolver := fun key =>
  if key = "typescript-module@1".toList then
    some fun plan profile => some (recipeAnswer (resolveTypescriptModuleRecipe H plan profile files))
  else none

/-! ## The enriched graph -/

/-- What a node gets from its proposal. -/
structure FileContent where
  content : Utf16
  contentDigest : Digest
  expectedDigest : Option Digest
deriving DecidableEq

structure EnrichedNode where
  node : GraphNode
  file : Option FileContent
deriving DecidableEq

structure EnrichedGraph where
  /-- What is not in the nodes. -/
  graph : GraphContent
  nodes : List EnrichedNode
  graphDigest : Digest

def ModuleOperation.file (o : ModuleOperation) : FileContent :=
  ⟨o.content, o.contentDigest, o.expectedDigest⟩

/-- The members that a node gets. -/
def FileContent.fields (file : FileContent) : List (String × JsValue) :=
  [("content", .str file.content), ("contentDigest", digestValue file.contentDigest)] ++
    (file.expectedDigest.map fun digest => ("expectedDigest", digestValue digest)).toList

def EnrichedNode.value (node : EnrichedNode) : JsValue :=
  .obj (entries (nodeValue node.node) ++
    entries (record ((node.file.map FileContent.fields).getD [])))

/-- `enrichGenerationGraph`. The digest exists, as the graph has no conflicts. -/
def enrichGenerationGraph (H : Sha256) (generationGraph : GenerationGraph)
    (operations : List ModuleOperation) : EnrichedGraph :=
  let nodes : List EnrichedNode := generationGraph.nodes.map fun node =>
    ⟨node, (operations.reverse.find? (·.id = node.id)).map ModuleOperation.file⟩
  let enrichedWithoutDigest : JsValue := .obj (setMember
    (entries (contentValue generationGraph.toGraphContent))
    (ascii "nodes", .arr (nodes.map EnrichedNode.value)))
  { graph := generationGraph.toGraphContent, nodes,
    graphDigest := (H.canonicalJsonDigest enrichedWithoutDigest).getD 0 }

/-- `compileTypescriptModuleRecipePlan`. The resolver is asked for a plan of the recipe only. -/
def compileTypescriptModuleRecipePlan (T : Tools) (H : Sha256) (authoredPlan : AuthoredPlan)
    (profileInput : Json) (files : SnapshotFiles) : Except (List Diagnostic) EnrichedGraph :=
  match resolveRecipe T (recipeResolvers H files) authoredPlan profileInput with
  | .error diagnostics => .error diagnostics
  | .ok resolved =>
    match resolveTypescriptModuleRecipe H resolved.plan resolved.profile files with
    | .error d => .error [d]
    | .ok operations =>
      match compileRepositoryTaskPlan T (recipeResolvers H files) authoredPlan profileInput with
      | .error diagnostics => .error diagnostics
      | .ok generationGraph =>
        match operations.find? fun o => H.digest o.content ≠ o.contentDigest with
        | some o => .error [⟨"recipe.content-digest-mismatch".toList, "/operations/".toList ++ o.id,
            "Operation ".toList ++ o.id ++ " content digest is invalid.".toList⟩]
        | none => .ok (enrichGenerationGraph H generationGraph operations)

/-! ## What the plan compiler sees -/

theorem normItems_eq_self {items : List Json} (h : ∀ item ∈ items, item.norm = item) :
    Json.normItems items = items := by
  induction items with
  | nil => rfl
  | cons item items ih =>
    rw [Json.normItems, h item List.mem_cons_self,
      ih fun other hother => h other (List.mem_cons_of_mem _ hother)]

theorem normMembers_eq_self {members : List (String × Json)}
    (hkeys : ∀ m ∈ members, m.1 ≠ "__proto__") (hvalues : ∀ m ∈ members, m.2.norm = m.2) :
    Json.normMembers members = members := by
  induction members with
  | nil => rfl
  | cons m members ih =>
    obtain ⟨key, value⟩ := m
    rw [Json.normMembers, if_neg (hkeys _ List.mem_cons_self), hvalues _ List.mem_cons_self,
      ih (fun n hn => hkeys n (List.mem_cons_of_mem _ hn))
        fun n hn => hvalues n (List.mem_cons_of_mem _ hn)]

/-- An object with its keys in order is left as it is. -/
theorem norm_obj_eq_self {members : List (String × Json)}
    (hsorted : (members.map Prod.fst).Pairwise (· ≤ ·))
    (hkeys : "__proto__" ∉ members.map Prod.fst) (hvalues : ∀ m ∈ members, m.2.norm = m.2) :
    (Json.obj members).norm = .obj members := by
  rw [Json.norm, normMembers_eq_self
    (fun m hm heq => hkeys (heq ▸ List.mem_map_of_mem hm)) hvalues,
    (List.pairwise_map.1 hsorted).insertionSort_eq]

theorem norm_attribution (a : Attribution) : (attributionJson a).norm = attributionJson a :=
  norm_obj_eq_self (by simp only [List.map_cons, List.map_nil]; decide)
    (by simp only [List.map_cons, List.map_nil]; decide) (by simp [textJson, Json.norm])

theorem norm_json (o : ModuleOperation) : o.json.norm = o.json := by
  have hattribution : Json.normItems (o.attribution.map attributionJson) =
      o.attribution.map attributionJson := normItems_eq_self fun item hitem => by
    obtain ⟨a, -, rfl⟩ := List.mem_map.1 hitem
    exact norm_attribution a
  have hdependsOn : Json.normItems (o.dependsOn.map textJson) = o.dependsOn.map textJson :=
    normItems_eq_self fun item hitem => by
      obtain ⟨s, -, rfl⟩ := List.mem_map.1 hitem
      rfl
  refine norm_obj_eq_self (by simp only [List.map_cons, List.map_nil]; decide)
    (by simp only [List.map_cons, List.map_nil]; decide) ?_
  simp [textJson, Json.norm, hattribution, hdependsOn]

theorem norm_recipeAnswer (resolution : Except Diagnostic (List ModuleOperation)) :
    (recipeAnswer resolution).norm = recipeAnswer resolution := by
  have hitems : Json.normItems ((resolution.toOption.getD []).map ModuleOperation.json) =
      (resolution.toOption.getD []).map ModuleOperation.json := normItems_eq_self fun item hitem => by
    obtain ⟨o, -, rfl⟩ := List.mem_map.1 hitem
    exact norm_json o
  refine norm_obj_eq_self (by simp only [List.map_cons, List.map_nil]; decide)
    (by simp only [List.map_cons, List.map_nil]; decide) ?_
  simp [Json.norm, hitems, Json.normItems]

theorem resolveRecipe_resolution {T : Tools} {H : Sha256} {files : SnapshotFiles}
    {authoredPlan : AuthoredPlan} {profileInput : Json} {resolved : Resolved}
    (h : resolveRecipe T (recipeResolvers H files) authoredPlan profileInput = .ok resolved) :
    resolved.resolution =
      recipeAnswer (resolveTypescriptModuleRecipe H resolved.plan resolved.profile files) ∧
    ∀ files', resolveRecipe T (recipeResolvers H files') authoredPlan profileInput =
      .ok { resolved with
        resolution :=
          recipeAnswer (resolveTypescriptModuleRecipe H resolved.plan resolved.profile files') } := by
  obtain ⟨plan, hplan, h⟩ := Except.bind_eq_ok.1 h
  obtain ⟨profile, hprofile, h⟩ := Except.bind_eq_ok.1 h
  by_cases hkey : plan.recipe.name ++ '@' :: plan.recipe.version = "typescript-module@1".toList
  · have hresolver : ∀ files', recipeResolvers H files'
        (plan.recipe.name ++ '@' :: plan.recipe.version) = some fun plan profile =>
          some (recipeAnswer (resolveTypescriptModuleRecipe H plan profile files')) :=
      fun files' => if_pos hkey
    split at h
    · rename_i hcheck
      simp only [hresolver, norm_recipeAnswer] at h
      obtain rfl := Except.ok.inj h
      refine ⟨rfl, fun files' => Except.bind_eq_ok.2 ⟨plan, hplan, Except.bind_eq_ok.2
        ⟨profile, hprofile, ?_⟩⟩⟩
      simp only [hcheck, hresolver, norm_recipeAnswer]
    · cases h
  · have hresolver : recipeResolvers H files (plan.recipe.name ++ '@' :: plan.recipe.version) =
        none := if_neg hkey
    split at h
    · simp only [hresolver] at h
      cases h
    · cases h

/-! ## The plan -/

theorem mem_sortedStrings {values : List JsString} {s : JsString} :
    s ∈ sortedStrings values ↔ s ∈ values.map JsString.trim := by
  rw [sortedStrings, mem_sortStrings, List.mem_dedup]

theorem normalizeRepositoryTaskPlan_eq_ok {T : Tools} {authoredPlan : AuthoredPlan}
    {plan : NormalizedPlan} (h : normalizeRepositoryTaskPlan T authoredPlan = .ok plan) :
    semanticDiagnostics T authoredPlan = [] ∧ plan = normalizePlan T authoredPlan := by
  unfold normalizeRepositoryTaskPlan at h
  split at h
  · split at h
    · obtain rfl := Except.ok.inj h
      exact ⟨‹_›, rfl⟩
    · cases h
  · cases h
  · cases h

/-- The outputs have safe paths within the allowed ones. -/
def SafeOutputs (plan : NormalizedPlan) : Prop :=
  ∀ output ∈ plan.outputs, safePath output.path = true ∧ JsString.trim output.path = output.path ∧
    plan.allowedPaths.any (pathMatches output.path ·) = true

theorem safeOutputs_normalizedPlan {T : Tools} {authoredPlan : AuthoredPlan} {plan : NormalizedPlan}
    (h : normalizeRepositoryTaskPlan T authoredPlan = .ok plan) : SafeOutputs plan := by
  obtain ⟨hsemantic, rfl⟩ := normalizeRepositoryTaskPlan_eq_ok h
  intro output houtput
  obtain ⟨raw, hraw, rfl⟩ := List.mem_map.1 ((List.perm_insertionSort _ _).mem_iff.1 houtput)
  obtain ⟨i, hi⟩ := List.mem_iff_getElem?.1 hraw
  simp only [semanticDiagnostics, List.append_eq_nil_iff, diagnosed_eq_nil] at hsemantic
  have hcheck := hsemantic.1.1.1.1.2 i raw hi
  unfold outputPathDiagnostics at hcheck
  split_ifs at hcheck with hsafe hallowed
  simp only [Bool.or_eq_true, Bool.not_eq_true', not_or, Bool.not_eq_false, Bool.not_eq_true]
    at hsafe hallowed
  refine ⟨?_, trim_trim _, ?_⟩
  · have htrim : (normalizeOutput T raw).path = JsString.trim raw.path := rfl
    rw [htrim, safePath, nonEmptyString, trim_trim]
    exact hsafe.1
  · obtain ⟨constraint, hconstraint, hmatches⟩ := List.any_eq_true.1 hallowed
    exact List.any_eq_true.2 ⟨constraint, mem_sortedStrings.2 hconstraint, hmatches⟩

theorem declaredOutput_find {plan : NormalizedPlan} {name : String} {declared : DeclaredOutput × ℕ}
    (h : declaredOutput plan name = some declared) :
    plan.outputs.reverse.find? (·.name = name.toList) = some declared.1 := by
  have houtputs : plan.outputs.reverse = plan.outputs.zipIdx.reverse.map Prod.fst := by
    rw [List.map_reverse, List.zipIdx_map_fst]
  rw [houtputs, List.find?_map]
  exact congrArg (Option.map Prod.fst) h

/-! ## Proposals as operations -/

/-- A proposal as the operation that `normalizeResolution` makes of it. -/
def ModuleOperation.asOperation (o : ModuleOperation) : Operation where
  id := o.id
  operation := o.operation
  path := o.path
  outputName := o.outputName.toList
  mediaType := o.mediaType
  dependsOn := sortedStrings o.dependsOn
  attribution := (o.attribution.map fun a => ⟨a.kind, JsString.trim a.reference⟩).insertionSort
    fun a b => compareStrings a.sortKey b.sortKey

theorem mapM_map_eq_some {α β γ : Type} {f : β → Option γ} {g : α → β} {k : α → γ} {items : List α}
    (h : ∀ a ∈ items, f (g a) = some (k a)) : (items.map g).mapM f = some (items.map k) := by
  induction items with
  | nil => rfl
  | cons a items ih =>
    rw [List.map_cons, List.mapM_cons, h a List.mem_cons_self,
      ih fun b hb => h b (List.mem_cons_of_mem _ hb)]
    rfl

theorem text?_textJson (s : JsString) : (textJson s).text? = some s := by
  rw [textJson, Json.text?, String.toList_ofList]

theorem attribution?_json {a : Attribution} (h : nonEmptyString a.reference = true) :
    attribution? (attributionJson a) = some ⟨a.kind, JsString.trim a.reference⟩ := by
  have hkind : (attributionJson a).get? "kind" = some (textJson a.kind.text) := rfl
  have hreference : (attributionJson a).get? "reference" = some (textJson a.reference) := rfl
  have hread : attributionKind? a.kind.text = some a.kind := by cases a.kind <;> decide
  simp only [attribution?, hkind, hreference, Option.bind_eq_bind, Option.bind_some, text?_textJson,
    hread, h, if_true]

/-- What is checked about a proposal by itself. -/
structure ModuleOperation.Valid (T : Tools) (o : ModuleOperation) : Prop where
  id : JsString.trim o.id = o.id ∧ o.id ≠ []
  path : safePath o.path = true ∧ JsString.trim o.path = o.path
  outputName : JsString.trim o.outputName.toList = o.outputName.toList ∧ o.outputName.toList ≠ []
  mediaType : T.toLowerCase (JsString.trim o.mediaType) = o.mediaType ∧
    nonEmptyString o.mediaType = true
  dependsOn : ∀ d ∈ o.dependsOn, nonEmptyString d = true
  attribution : o.attribution ≠ [] ∧ ∀ a ∈ o.attribution, nonEmptyString a.reference = true

theorem operation?_json {T : Tools} {o : ModuleOperation} (h : o.Valid T) :
    operation? T o.json = some o.asOperation := by
  have hattributions : normalizeAttribution (some (.arr (o.attribution.map attributionJson))) =
      some o.asOperation.attribution := by
    have hread := mapM_map_eq_some (f := attribution?) (g := attributionJson)
      fun a ha => attribution?_json (h.attribution.2 a ha)
    obtain ⟨a, rest, hcons⟩ := List.exists_cons_of_ne_nil h.attribution.1
    rw [hcons, List.map_cons] at hread ⊢
    rw [normalizeAttribution, hread, Option.map_some, ModuleOperation.asOperation, hcons]
  have hdependsOn : (o.dependsOn.map textJson).mapM Json.text? = some o.dependsOn := by
    have hread := mapM_map_eq_some (k := id) fun s (_ : s ∈ o.dependsOn) => text?_textJson s
    rwa [List.map_id] at hread
  have hoperation : fileOperation? o.operation.text.toList = some o.operation := by
    cases o.operation <;> decide
  have hnonEmpty : ∀ s : JsString, JsString.trim s = s → s ≠ [] → nonEmptyString s = true := by
    intro s htrim hne
    rw [nonEmptyString, htrim, Bool.not_eq_true', List.isEmpty_eq_false_iff]
    exact hne
  have hname : (Json.str o.outputName).text? = some o.outputName.toList := rfl
  have hkind : (Json.str o.operation.text).text? = some o.operation.text.toList := rfl
  have hget : o.json.get? "id" = some (textJson o.id) ∧
      o.json.get? "operation" = some (.str o.operation.text) ∧
      o.json.get? "path" = some (textJson o.path) ∧
      o.json.get? "outputName" = some (.str o.outputName) ∧
      o.json.get? "mediaType" = some (textJson o.mediaType) ∧
      o.json.get? "dependsOn" = some (.arr (o.dependsOn.map textJson)) ∧
      o.json.get? "attribution" = some (.arr (o.attribution.map attributionJson)) :=
    ⟨rfl, rfl, rfl, rfl, rfl, rfl, rfl⟩
  obtain ⟨hid, hop, hpath, houtput, hmedia, hdeps, hattrs⟩ := hget
  have hvalid : (nonEmptyString o.id && safePath o.path && nonEmptyString o.outputName.toList &&
      nonEmptyString o.mediaType && o.dependsOn.all nonEmptyString) = true := by
    simp only [hnonEmpty _ h.id.1 h.id.2, h.path.1, hnonEmpty _ h.outputName.1 h.outputName.2,
      h.mediaType.2, List.all_eq_true.2 h.dependsOn, Bool.and_self]
  simp only [operation?, hid, hop, hpath, houtput, hmedia, hdeps, hattrs, Option.bind_eq_bind,
    Option.bind_some, text?_textJson, hname, hkind, hoperation, hdependsOn, hattributions, hvalid,
    if_true, h.id.1, h.path.2, h.outputName.1, h.mediaType.1]
  rfl

/-! ## The operations of the recipe -/

section Proposed

variable {T : Tools} {H : Sha256} {plan : NormalizedPlan} {context : RecipeContext} {index : Utf16}

/-- The three operations that the recipe can propose. -/
def RecipeContext.proposals (H : Sha256) (context : RecipeContext) (index : Utf16) :
    List ModuleOperation :=
  [context.implementationOperation H, context.publicExportOperation H index,
    context.unitTestOperation H]

theorem operations_sublist {files : SnapshotFiles} :
    (context.operations H files index).Sublist (context.proposals H index) := by
  have hoptional : ∀ (p : Prop) [Decidable p] (o : ModuleOperation),
      (if p then [o] else []).Sublist [o] := by
    intro p _ o
    split_ifs
    · exact List.Sublist.refl _
    · exact List.nil_sublist _
  exact ((hoptional _ _).append (hoptional _ _)).append (hoptional _ _)

/-- What the checks know about a proposal. -/
structure Declared (plan : NormalizedPlan) (o : ModuleOperation) : Prop where
  output : ∃ declared, declaredOutput plan o.outputName = some declared ∧
    declared.1.path = o.path ∧ declared.1.mediaType = o.mediaType
  mediaType : o.mediaType = "text/typescript".toList
  outputName : o.outputName ∈ ["implementation", "public-export", "unit-test"]
  dependsOn : ∀ d ∈ o.dependsOn, d ∈ inputNodeIds ∨ d = operationId "implementation"
  attribution : o.attribution ≠ [] ∧ ∀ a ∈ o.attribution, '/' ∈ a.reference

theorem declared_proposals (h : context.Checked plan) :
    ∀ o ∈ context.proposals H index, Declared plan o := by
  have hone : ∀ (outputName : String) (declared : DeclaredOutput × ℕ) (operation : FileOperation)
      (content : Utf16) (dependsOn : List String) (previous : Option Utf16),
      declaredOutput plan outputName = some declared →
      declared.1.mediaType = "text/typescript".toList →
      outputName ∈ ["implementation", "public-export", "unit-test"] →
      (∀ d ∈ dependsOn, d = "implementation") →
      Declared plan (operationFor H context outputName declared operation content dependsOn
        previous) := by
    intro outputName declared operation content dependsOn previous hdeclared hmedia hname hdeps
    refine ⟨⟨declared, hdeclared, rfl, rfl⟩, hmedia, hname, fun d hd => ?_, List.cons_ne_nil _ _,
      fun a ha => ?_⟩
    · simp only [operationFor, List.mem_cons, List.mem_map] at hd
      rcases hd with rfl | rfl | ⟨name, hmem, rfl⟩
      · exact Or.inl (by simp [inputNodeIds])
      · exact Or.inl (by simp [inputNodeIds])
      · exact Or.inr (by rw [hdeps name hmem])
    · simp only [operationFor, List.mem_cons, List.not_mem_nil, or_false] at ha
      rcases ha with rfl | rfl | rfl
      · simp [pointer]
      · simp [pointer]
      · simp
  intro o ho
  simp only [RecipeContext.proposals, List.mem_cons, List.not_mem_nil, or_false] at ho
  rcases ho with rfl | rfl | rfl
  · exact hone _ _ _ _ _ _ h.implementation (h.mediaTypes _ (by simp)) (by simp) (by simp)
  · exact hone _ _ _ _ _ _ h.publicExport (h.mediaTypes _ (by simp)) (by simp) (by simp)
  · exact hone _ _ _ _ _ _ h.unitTest (h.mediaTypes _ (by simp)) (by simp) (by simp)

theorem nonEmptyString_of_mem {s : JsString} {c : Char} (hc : c ∈ s) (hkeep : isTrimmed c = false) :
    nonEmptyString s = true := by
  rw [nonEmptyString, Bool.not_eq_true', List.isEmpty_eq_false_iff, JsString.trim, Ne,
    List.rdropWhile_eq_nil_iff]
  intro hall
  rw [hall c (mem_dropWhile hc hkeep)] at hkeep
  cases hkeep

theorem Declared.valid {o : ModuleOperation} (h : Declared plan o)
    (hplan : SafeOutputs plan)
    (hlower : T.toLowerCase "text/typescript".toList = "text/typescript".toList) : o.Valid T := by
  obtain ⟨declared, hdeclared, hpath, hmedia⟩ := h.output
  have hmem : declared.1 ∈ plan.outputs :=
    List.mem_reverse.1 (List.mem_of_find?_eq_some (declaredOutput_find hdeclared))
  obtain ⟨hsafe, htrim, -⟩ := hplan _ hmem
  refine ⟨?_, hpath ▸ ⟨hsafe, htrim⟩, ?_, ?_, fun d hd => ?_, h.attribution.1, fun a ha =>
    nonEmptyString_of_mem (h.attribution.2 a ha) (by decide)⟩
  · have hid : o.id = operationId o.outputName := rfl
    have hname := h.outputName
    simp only [List.mem_cons, List.not_mem_nil, or_false] at hname
    rw [hid]
    rcases hname with heq | heq | heq <;> rw [heq] <;> decide
  · have hname := h.outputName
    simp only [List.mem_cons, List.not_mem_nil, or_false] at hname
    rcases hname with heq | heq | heq <;> rw [heq] <;> decide
  · have htrimmed : JsString.trim "text/typescript".toList = "text/typescript".toList := by decide
    rw [h.mediaType, htrimmed]
    exact ⟨hlower, by decide⟩
  · rcases h.dependsOn d hd with hinput | rfl
    · simp only [inputNodeIds, List.mem_cons, List.not_mem_nil, or_false] at hinput
      rcases hinput with rfl | rfl <;> decide
    · decide

theorem operationDiagnostics_eq_nil_iff {profile : RepositoryProfile} {o : ModuleOperation}
    (h : Declared plan o) (hplan : SafeOutputs plan) (i : ℕ) :
    operationDiagnostics plan profile i o.asOperation = [] ↔
      profile.pathBoundaries.any (pathMatches o.path ·) = true := by
  obtain ⟨declared, hdeclared, hpath, hmedia⟩ := h.output
  have hfind := declaredOutput_find hdeclared
  have hallowed := (hplan _ (List.mem_reverse.1 (List.mem_of_find?_eq_some hfind))).2.2
  rw [hpath] at hallowed
  have hmatch : declared.1.path = o.asOperation.path ∧
      declared.1.mediaType = o.asOperation.mediaType := ⟨hpath, hmedia⟩
  have hname : o.asOperation.outputName = o.outputName.toList := rfl
  have hoPath : o.asOperation.path = o.path := rfl
  rw [operationDiagnostics, hname, hfind]
  dsimp only
  rw [if_pos hmatch, hoPath, if_pos hallowed, List.nil_append, List.nil_append]
  simp only [ite_eq_left_iff, List.cons_ne_nil, imp_false, not_not]

/-- Each declared output has an operation, and the operations are within the profile's boundaries. -/
structure Complete (plan : NormalizedPlan) (profile : RepositoryProfile)
    (operations : List ModuleOperation) : Prop where
  outputs : ∀ output ∈ plan.outputs, output.name ∈ operations.map (·.outputName.toList)
  boundaries : ∀ o ∈ operations, profile.pathBoundaries.any (pathMatches o.path ·) = true

variable {operations : List ModuleOperation} {profile : RepositoryProfile}

theorem filterMap_json (h : ∀ o ∈ operations, o.Valid T) :
    (operations.map ModuleOperation.json).filterMap (operation? T) =
      operations.map ModuleOperation.asOperation := by
  induction operations with
  | nil => rfl
  | cons o operations ih =>
    rw [List.map_cons, List.filterMap_cons_some (operation?_json (h o List.mem_cons_self)),
      ih fun p hp => h p (List.mem_cons_of_mem _ hp), List.map_cons]

theorem proposals_ids : ((context.proposals H index).map (·.id)).Nodup ∧
    ∀ o ∈ context.proposals H index, o.id ∉ inputNodeIds := by
  have hids : (context.proposals H index).map (·.id) =
    ["implementation", "public-export", "unit-test"].map operationId := rfl
  have hinput : ∀ name ∈ ["implementation", "public-export", "unit-test"],
    operationId name ∉ inputNodeIds := by decide
  refine ⟨?_, fun o ho => ?_⟩
  · rw [hids]
    decide
  · have hmem : o.id ∈ (context.proposals H index).map (·.id) := List.mem_map_of_mem ho
    rw [hids] at hmem
    obtain ⟨name, hname, heq⟩ := List.mem_map.1 hmem
    exact heq ▸ hinput name hname

/-- The ids, the paths and the output names of the proposals are distinct. -/
theorem proposals_distinct (hchecked : context.Checked plan)
    (hconventional : context.Conventional) (hsub : operations.Sublist (context.proposals H index)) :
    (operations.map (·.id)).Nodup ∧ (operations.map (·.path)).Nodup ∧
      (operations.map (·.outputName.toList)).Nodup := by
  have hnames : ((context.proposals H index).map (·.outputName.toList)).Nodup := by
    have heq : (context.proposals H index).map (·.outputName.toList) =
      ["implementation", "public-export", "unit-test"].map String.toList := rfl
    rw [heq]
    decide
  have hpaths : ((context.proposals H index).map (·.path)).Nodup := by
    refine List.Nodup.of_map utf16 ?_
    have heq : ((context.proposals H index).map (·.path)).map utf16 =
        [context.sourcePath, context.publicExportPath, context.testPath] := by
      rw [← hchecked.implementationPath, ← hchecked.publicExportPath, ← hchecked.unitTestPath]
      rfl
    rw [heq]
    simp [hconventional.source.symm, hconventional.test, hchecked.distinct]
  exact ⟨proposals_ids.1.sublist (hsub.map _), hpaths.sublist (hsub.map _), hnames.sublist (hsub.map _)⟩

theorem accepted_iff_complete (hchecked : context.Checked plan)
    (hconventional : context.Conventional) (hplan : SafeOutputs plan)
    (hlower : T.toLowerCase "text/typescript".toList = "text/typescript".toList)
    (hsub : operations.Sublist (context.proposals H index)) :
    Accepted T plan profile (operations.map ModuleOperation.json) ↔
      Complete plan profile operations := by
  have hdeclared : ∀ o ∈ operations, Declared plan o := fun o ho =>
    declared_proposals hchecked o (hsub.subset ho)
  have hvalid : ∀ o ∈ operations, o.Valid T := fun o ho => (hdeclared o ho).valid hplan hlower
  have hread := filterMap_json hvalid
  have hnames : (operations.map ModuleOperation.asOperation).map (·.outputName) =
      operations.map (·.outputName.toList) := List.map_map
  constructor
  · intro h
    refine ⟨fun output houtput => ?_, fun o ho => ?_⟩
    · have hmem := h.outputs output houtput
      rwa [hread, hnames] at hmem
    · obtain ⟨p, hp, hcheck⟩ := h.valid _ (List.mem_map_of_mem ho)
      obtain rfl := Option.some.inj ((operation?_json (hvalid o ho)).symm.trans hp)
      exact (operationDiagnostics_eq_nil_iff (hdeclared o ho) hplan 0).1 (hcheck 0)
  · intro h
    obtain ⟨hids, hpaths, houtputs⟩ := proposals_distinct hchecked hconventional hsub
    refine ⟨fun c hc => ?_, ?_, ?_, ?_, fun output houtput => ?_⟩
    · obtain ⟨o, ho, rfl⟩ := List.mem_map.1 hc
      exact ⟨o.asOperation, operation?_json (hvalid o ho), fun i =>
        (operationDiagnostics_eq_nil_iff (hdeclared o ho) hplan i).2 (h.boundaries o ho)⟩
    · rw [hread, List.map_map]
      exact hids
    · rw [hread, List.map_map]
      exact hpaths
    · rw [hread, List.map_map]
      exact houtputs
    · rw [hread, hnames]
      exact h.outputs output houtput

/-- Complete operations have the module among them. -/
theorem Complete.implementation_mem (h : Complete plan profile operations)
    (hchecked : context.Checked plan) (hsub : operations.Sublist (context.proposals H index)) :
    context.implementationOperation H ∈ operations := by
  have hfind := declaredOutput_find hchecked.implementation
  have hmem := h.outputs _ (List.mem_reverse.1 (List.mem_of_find?_eq_some hfind))
  have hname := List.find?_some hfind
  rw [decide_eq_true_eq] at hname
  rw [hname] at hmem
  obtain ⟨o, ho, heq⟩ := List.mem_map.1 hmem
  have hproposal := hsub.subset ho
  simp only [RecipeContext.proposals, List.mem_cons, List.not_mem_nil, or_false] at hproposal
  rcases hproposal with rfl | rfl | rfl
  · exact ho
  · have hother : "public-export".toList = "implementation".toList := heq
    exact absurd hother (by decide)
  · have hother : "unit-test".toList = "implementation".toList := heq
    exact absurd hother (by decide)

/-- A proposal depends on the module only, and the module on no proposal. -/
theorem proposal_dependsOn {o : ModuleOperation} (ho : o ∈ context.proposals H index)
    {d : JsString} (hd : d ∈ o.asOperation.dependsOn) : d ∈ inputNodeIds ∨
      d = operationId "implementation" ∧ o.id ≠ operationId "implementation" := by
  have htrim : JsString.trim planNodeId = planNodeId ∧ JsString.trim profileNodeId = profileNodeId ∧
      JsString.trim (operationId "implementation") = operationId "implementation" := by decide
  obtain ⟨e, he, rfl⟩ := List.mem_map.1 (mem_sortedStrings.1 hd)
  have hinput : ∀ e ∈ [planNodeId, profileNodeId], JsString.trim e ∈ inputNodeIds := by
    intro e he
    simp only [List.mem_cons, List.not_mem_nil, or_false] at he
    rcases he with rfl | rfl
    · rw [htrim.1]
      exact List.mem_cons_self
    · rw [htrim.2.1]
      exact List.mem_cons_of_mem _ List.mem_cons_self
  have hroot : ∀ e ∈ [planNodeId, profileNodeId, operationId "implementation"],
      JsString.trim e ∈ inputNodeIds ∨ JsString.trim e = operationId "implementation" := by
    intro e he
    rcases List.mem_append.1 (show e ∈ [planNodeId, profileNodeId] ++
      [operationId "implementation"] from he) with he | he
    · exact Or.inl (hinput e he)
    · rw [List.mem_singleton.1 he, htrim.2.2]
      exact Or.inr rfl
  simp only [RecipeContext.proposals, List.mem_cons, List.not_mem_nil, or_false] at ho
  rcases ho with rfl | rfl | rfl
  · exact Or.inl (hinput e he)
  · have hid : operationId "public-export" ≠ operationId "implementation" := by decide
    exact (hroot e he).imp id fun heq => ⟨heq, hid⟩
  · have hid : operationId "unit-test" ≠ operationId "implementation" := by decide
    exact (hroot e he).imp id fun heq => ⟨heq, hid⟩

theorem orderable_proposals (hmem : context.implementationOperation H ∈ operations)
    (hsub : operations.Sublist (context.proposals H index)) :
    Orderable (operations.map ModuleOperation.asOperation) := by
  refine ⟨fun p hp d hd => ?_, fun p hpath => ?_⟩
  · obtain ⟨o, ho, rfl⟩ := List.mem_map.1 hp
    refine (proposal_dependsOn (hsub.subset ho) hd).imp id fun heq => ?_
    exact ⟨_, List.mem_map_of_mem hmem, heq.1.symm⟩
  · -- a path begins at the module, and ends at an operation that depends on the module
    obtain ⟨q, ⟨hp, hq, hfirst⟩, -⟩ := Relation.TransGen.head'_iff.1 hpath
    obtain ⟨r, -, hr, -, hlast⟩ := Relation.TransGen.tail'_iff.1 hpath
    obtain ⟨o, ho, rfl⟩ := List.mem_map.1 hp
    obtain ⟨o', ho', rfl⟩ := List.mem_map.1 hq
    obtain ⟨o'', ho'', rfl⟩ := List.mem_map.1 hr
    have hnot : ∀ o ∈ operations, o.id ∉ inputNodeIds := fun o ho =>
      proposals_ids.2 o (hsub.subset ho)
    have hmodule := (proposal_dependsOn (hsub.subset ho') hfirst).resolve_left (hnot o ho)
    have hother := (proposal_dependsOn (hsub.subset ho) hlast).resolve_left (hnot o'' ho'')
    exact hother.2 hmodule.1

/-- An answer that compiles passes the checks. -/
theorem passes_of_compile {resolution : Json} {graph : GenerationGraph}
    (h : compileResolution T plan profile resolution = .ok graph) :
    ∃ ops, Passes T ⟨plan, profile, resolution⟩ ops := by
  unfold compileResolution at h
  split at h
  · cases h
  rename_i normalized hnormalized
  split at h
  · exact ⟨_, normalized, hnormalized, ‹_›, rfl⟩
  · cases h
  · cases h

theorem perm_map_iff {α β : Type*} {f : α → β} {values : List α} {results : List β} :
    results.Perm (values.map f) ↔
      ∃ ordered : List α, ordered.Perm values ∧ results = ordered.map f := by
  constructor
  · intro h
    have hall : List.Forall₂ (fun b a => b = f a) (values.map f) values := by
      rw [List.forall₂_map_left_iff, List.forall₂_same]
      exact fun _ _ => rfl
    obtain ⟨ordered, hordered, hperm⟩ := List.perm_comp_forall₂ h hall
    rw [← List.forall₂_map_right_iff (R := Eq), List.forall₂_eq_eq_eq] at hordered
    exact ⟨ordered, hperm, hordered⟩
  · rintro ⟨ordered, hperm, rfl⟩
    exact hperm.map f

section Compile

variable (hchecked : context.Checked plan) (hconventional : context.Conventional)
  (hplan : SafeOutputs plan)
  (hlower : T.toLowerCase "text/typescript".toList = "text/typescript".toList)
  (hsub : operations.Sublist (context.proposals H index))

include hchecked hconventional hplan hlower hsub

/-- Proposals pass the checks exactly when they are complete. -/
theorem passes_iff_complete {ops : List Operation} :
    Passes T ⟨plan, profile, recipeAnswer (.ok operations)⟩ ops ↔
      Complete plan profile operations ∧ ops = operations.map ModuleOperation.asOperation := by
  have hvalid : ∀ o ∈ operations, o.Valid T := fun o ho =>
    (declared_proposals hchecked o (hsub.subset ho)).valid hplan hlower
  have haccepted : Accepted T plan profile _ ↔ _ :=
    accepted_iff_complete hchecked hconventional hplan hlower hsub
  have hoperations : (recipeAnswer (.ok operations)).get? "operations" =
      some (.arr (operations.map ModuleOperation.json)) := rfl
  rw [passes_iff]
  constructor
  · rintro ⟨candidates, hget, -, h, rfl⟩
    obtain rfl : operations.map ModuleOperation.json = candidates := by
      simpa only [hoperations, Option.some.injEq, Json.arr.injEq] using hget
    exact ⟨haccepted.1 h, filterMap_json hvalid⟩
  · rintro ⟨h, rfl⟩
    exact ⟨_, hoperations, rfl, haccepted.2 h, filterMap_json hvalid⟩

theorem compile_isOk_iff_complete :
    (∃ graph, compileResolution T plan profile (recipeAnswer (.ok operations)) = .ok graph) ↔
      Complete plan profile operations := by
  constructor
  · rintro ⟨graph, h⟩
    obtain ⟨ops, hpasses⟩ := passes_of_compile h
    exact ((passes_iff_complete hchecked hconventional hplan hlower hsub).1 hpasses).1
  · intro h
    have hpasses := (passes_iff_complete hchecked hconventional hplan hlower hsub).2 ⟨h, rfl⟩
    have horderable := orderable_proposals (h.implementation_mem hchecked hsub) hsub
    exact ⟨_, hpasses.compile_iff.2 ⟨horderable, rfl⟩⟩

/-- The graph has the proposals as its operations. -/
theorem compile_nodes {graph : GenerationGraph}
    (h : compileResolution T plan profile (recipeAnswer (.ok operations)) = .ok graph) :
    ∃ ordered : List ModuleOperation, ordered.Perm operations ∧
      graph.nodes = .normalizedPlan plan.planDigest ::
        .repositoryProfile (T.profileDigest profile) ::
        ordered.map fun o => .operation o.asOperation := by
  obtain ⟨ops, hpasses⟩ := passes_of_compile h
  obtain ⟨-, rfl⟩ := (passes_iff_complete hchecked hconventional hplan hlower hsub).1 hpasses
  obtain ⟨horderable, rfl⟩ := hpasses.compile_iff.1 h
  obtain ⟨ordered, hperm, hordered⟩ :=
    perm_map_iff.1 (canonical_operations_perm hpasses.ids horderable)
  refine ⟨ordered, hperm, ?_⟩
  rw [hordered]
  simp only [graphOf, List.map_map, Function.comp_def]

end Compile

theorem proposal_digest {o : ModuleOperation} (ho : o ∈ context.proposals H index) :
    H.digest o.content = o.contentDigest := by
  simp only [RecipeContext.proposals, List.mem_cons, List.not_mem_nil, or_false] at ho
  rcases ho with rfl | rfl | rfl <;> rfl

/-- A proposal as a node of the enriched graph. -/
def ModuleOperation.node (o : ModuleOperation) : EnrichedNode :=
  ⟨.operation o.asOperation, some o.file⟩

theorem enriched_nodes (hsub : operations.Sublist (context.proposals H index))
    {ordered : List ModuleOperation} (hperm : ordered.Perm operations) {generationGraph : GenerationGraph}
    {planDigest profileDigest : Digest} (hnodes : generationGraph.nodes =
      .normalizedPlan planDigest :: .repositoryProfile profileDigest ::
        ordered.map fun o => .operation o.asOperation) :
    (enrichGenerationGraph H generationGraph operations).nodes =
      ⟨.normalizedPlan planDigest, none⟩ :: ⟨.repositoryProfile profileDigest, none⟩ ::
        ordered.map ModuleOperation.node := by
  have hids : (operations.map (·.id)).Nodup := proposals_ids.1.sublist (hsub.map _)
  have hinput : ∀ id ∈ inputNodeIds, operations.reverse.find? (·.id = id) = none := by
    intro id hid
    rw [List.find?_eq_none]
    intro o ho heq
    exact proposals_ids.2 o (hsub.subset (List.mem_reverse.1 ho)) (of_decide_eq_true heq ▸ hid)
  have hone : ∀ o ∈ operations, operations.reverse.find? (·.id = o.id) = some o := by
    intro o ho
    obtain ⟨p, hp⟩ := Option.isSome_iff_exists.1 (List.find?_isSome.2
      ⟨o, List.mem_reverse.2 ho, decide_eq_true rfl⟩ : (operations.reverse.find? (·.id = o.id)).isSome)
    have hid := List.find?_some hp
    rw [decide_eq_true_eq] at hid
    rw [hp, List.inj_on_of_nodup_map hids (List.mem_reverse.1 (List.mem_of_find?_eq_some hp)) ho hid]
  have hplan : operations.reverse.find? (·.id = (GraphNode.normalizedPlan planDigest).id) = none :=
    hinput planNodeId (by simp [inputNodeIds])
  have hprofile :
      operations.reverse.find? (·.id = (GraphNode.repositoryProfile profileDigest).id) = none :=
    hinput profileNodeId (by simp [inputNodeIds])
  rw [enrichGenerationGraph, hnodes, List.map_cons, List.map_cons, List.map_map, hplan, hprofile]
  refine congrArg (_ :: _ :: ·) (List.map_congr_left fun o ho => ?_)
  have hoperation :
      operations.reverse.find? (·.id = (GraphNode.operation o.asOperation).id) = some o :=
    hone o (hperm.mem_iff.1 ho)
  rw [Function.comp_apply, hoperation]
  rfl

end Proposed

/-! ## Running the recipe again -/

/-- The diagnostic of an output without an operation. -/
def missingOperation (outputName : JsString) : Diagnostic :=
  diagnostic "graph.output-operation-missing" "/operations"
    ("Declared output ".toList ++ outputName ++ " has no proposed operation.".toList)

/-- An answer that does not compile names each output without an operation. -/
theorem missing_of_error {T : Tools} {plan : NormalizedPlan} {profile : RepositoryProfile}
    {resolution : Json} {candidates : List Json} {diagnostics : List Diagnostic}
    (hget : resolution.get? "operations" = some (.arr candidates))
    (h : compileResolution T plan profile resolution = .error diagnostics) {output : DeclaredOutput}
    (houtput : output ∈ plan.outputs)
    (hmissing : output.name ∉ (candidates.filterMap (operation? T)).map (·.outputName)) :
    missingOperation output.name ∈ diagnostics := by
  unfold compileResolution normalizeResolution at h
  rw [hget] at h
  have hmem : missingOperation output.name ∈
      missingOutputDiagnostics plan (candidates.filterMap (operation? T)) := by
    refine List.mem_flatMap.2 ⟨output, houtput, ?_⟩
    rw [if_neg (by rwa [List.contains_iff_mem])]
    exact List.mem_singleton.2 rfl
  dsimp only at h
  have hsorted : ∀ values : List Diagnostic, ∀ d, d ∈ sortDiagnostics values ↔ d ∈ values :=
    fun values d => (List.perm_insertionSort _ values).mem_iff
  split at h
  · cases h
  · obtain rfl := Except.error.inj h
    simp only [hsorted, List.mem_append, hmem, or_true]
  · obtain rfl := Except.error.inj h
    simp only [hsorted, List.mem_append, hmem, or_true, true_or]

/-- What the scripts do with a snapshot that a part of the operations has been applied to. -/
structure Rerun (T : Tools) (H : Sha256) (authoredPlan : AuthoredPlan) (profileInput : Json)
    (files : SnapshotFiles) (resolved : Resolved) (operations applied : List ModuleOperation) :
    Prop where
  again : resolveTypescriptModuleRecipe H resolved.plan resolved.profile
    (applyOperations files applied) = .ok (operations.filter (· ∉ applied))
  success : (∃ graph, compileTypescriptModuleRecipePlan T H authoredPlan profileInput
      (applyOperations files applied) = .ok graph) ↔
    Complete resolved.plan resolved.profile (operations.filter (· ∉ applied))
  nodes : ∀ graph, compileTypescriptModuleRecipePlan T H authoredPlan profileInput
      (applyOperations files applied) = .ok graph → ∃ ordered : List ModuleOperation,
    ordered.Perm (operations.filter (· ∉ applied)) ∧
    graph.nodes = ⟨.normalizedPlan resolved.plan.planDigest, none⟩ ::
      ⟨.repositoryProfile (T.profileDigest resolved.profile), none⟩ ::
      ordered.map ModuleOperation.node
  refused : applied ≠ [] → ∃ diagnostics, compileTypescriptModuleRecipePlan T H authoredPlan
      profileInput (applyOperations files applied) = .error diagnostics ∧
    ∀ o ∈ applied, missingOperation o.outputName.toList ∈ diagnostics

/-- The compiler of the recipe is the plan compiler, with the contents of the operations. -/
theorem compileTypescriptModuleRecipePlan_eq {T : Tools} {H : Sha256} {authoredPlan : AuthoredPlan}
    {profileInput : Json} {files : SnapshotFiles} {resolved : Resolved} {context : RecipeContext}
    {index : Utf16} {operations : List ModuleOperation}
    (hresolved : resolveRecipe T (recipeResolvers H files) authoredPlan profileInput = .ok resolved)
    (hoperations : resolveTypescriptModuleRecipe H resolved.plan resolved.profile files =
      .ok operations)
    (hsub : operations.Sublist (context.proposals H index)) :
    compileTypescriptModuleRecipePlan T H authoredPlan profileInput files =
      (compileResolution T resolved.plan resolved.profile (recipeAnswer (.ok operations))).map
        (enrichGenerationGraph H · operations) := by
  have hanswer : resolved.resolution = recipeAnswer (.ok operations) := by
    rw [(resolveRecipe_resolution hresolved).1, hoperations]
  have hdigests : operations.find? (fun o => H.digest o.content ≠ o.contentDigest) = none := by
    rw [List.find?_eq_none]
    exact fun o ho => by simp [proposal_digest (hsub.subset ho)]
  rw [compileTypescriptModuleRecipePlan, hresolved]
  dsimp only
  rw [hoperations, compileRepositoryTaskPlan_eq hresolved, hanswer]
  dsimp only
  rw [hdigests]
  cases compileResolution T resolved.plan resolved.profile (recipeAnswer (.ok operations)) <;> rfl

/-- The recipe proposes again exactly what has not been applied, and the plan compiler asks for an
operation of every declared output. -/
theorem recipe_rerun {T : Tools} {H : Sha256} {authoredPlan : AuthoredPlan} {profileInput : Json}
    {files : SnapshotFiles} {resolved : Resolved} {context : RecipeContext}
    {operations applied : List ModuleOperation}
    (hlower : T.toLowerCase "text/typescript".toList = "text/typescript".toList)
    (hresolved : resolveRecipe T (recipeResolvers H files) authoredPlan profileInput = .ok resolved)
    (hcontext : recipeContext resolved.plan resolved.profile = .ok context)
    (hconventional : context.Conventional)
    (hoperations : resolveTypescriptModuleRecipe H resolved.plan resolved.profile files =
      .ok operations)
    (happlied : ∀ o ∈ applied, o ∈ operations) :
    Rerun T H authoredPlan profileInput files resolved operations applied := by
  have hchecked := recipeContext_checked hcontext
  have hplan := safeOutputs_normalizedPlan (resolveRecipe_inputs hresolved).1
  have hreconcile : reconcile H resolved.plan.resourceBounds.maxPatchBytes context files =
      .ok operations := by
    obtain ⟨context', hcontext', h⟩ := Except.bind_eq_ok.1 hoperations
    obtain rfl := Except.ok.inj (hcontext.symm.trans hcontext')
    exact h
  have hagain : resolveTypescriptModuleRecipe H resolved.plan resolved.profile
      (applyOperations files applied) = .ok (operations.filter (· ∉ applied)) :=
    Except.bind_eq_ok.2 ⟨context, hcontext,
      reconcile_applied hchecked hconventional hreconcile happlied⟩
  obtain ⟨index, -, -, -, -, hproposed, -⟩ := reconcile_eq_ok.1 hreconcile
  have hall : operations.Sublist (context.proposals H index) := hproposed ▸ operations_sublist
  have hsub := (List.filter_sublist (p := (· ∉ applied))).trans hall
  have hcompile := compileTypescriptModuleRecipePlan_eq
    ((resolveRecipe_resolution hresolved).2 (applyOperations files applied)) hagain hsub
  have hsuccess : (∃ graph, compileTypescriptModuleRecipePlan T H authoredPlan profileInput
      (applyOperations files applied) = .ok graph) ↔
      Complete resolved.plan resolved.profile (operations.filter (· ∉ applied)) := by
    rw [hcompile, ← compile_isOk_iff_complete hchecked hconventional hplan hlower hsub]
    cases compileResolution T resolved.plan resolved.profile
      (recipeAnswer (.ok (operations.filter (· ∉ applied)))) <;> simp [Except.map]
  refine ⟨hagain, hsuccess, fun graph hgraph => ?_, fun hne => ?_⟩
  · rw [hcompile] at hgraph
    cases hcompiled : compileResolution T resolved.plan resolved.profile
        (recipeAnswer (.ok (operations.filter (· ∉ applied)))) with
    | error diagnostics =>
      rw [hcompiled] at hgraph
      cases hgraph
    | ok generationGraph =>
      rw [hcompiled] at hgraph
      obtain rfl := Except.ok.inj hgraph
      obtain ⟨ordered, hperm, hnodes⟩ :=
        compile_nodes hchecked hconventional hplan hlower hsub hcompiled
      exact ⟨ordered, hperm, enriched_nodes hsub hperm hnodes⟩
  · -- an applied operation is the only one of its output
    have hmissing : ∀ o ∈ applied, ∃ output ∈ resolved.plan.outputs,
        output.name = o.outputName.toList ∧
        output.name ∉ (operations.filter (· ∉ applied)).map (·.outputName.toList) := by
      intro o ho
      obtain ⟨declared, hdeclared, -, -⟩ :=
        (declared_proposals hchecked o (hall.subset (happlied o ho))).output
      have hfind := declaredOutput_find hdeclared
      have hname := List.find?_some hfind
      rw [decide_eq_true_eq] at hname
      refine ⟨declared.1, List.mem_reverse.1 (List.mem_of_find?_eq_some hfind), hname, ?_⟩
      rw [hname]
      intro hmem
      obtain ⟨p, hp, heq⟩ := List.mem_map.1 hmem
      obtain ⟨hp, hnot⟩ := List.mem_filter.1 hp
      have hsame := List.inj_on_of_nodup_map
        (proposals_distinct hchecked hconventional hall).2.2 hp (happlied o ho) heq
      exact of_decide_eq_true hnot (hsame ▸ ho)
    cases hcompiled : compileTypescriptModuleRecipePlan T H authoredPlan profileInput
        (applyOperations files applied) with
    | ok graph =>
      obtain ⟨o, ho⟩ := List.exists_mem_of_ne_nil applied hne
      obtain ⟨output, houtput, -, hnot⟩ := hmissing o ho
      exact absurd ((hsuccess.1 ⟨graph, hcompiled⟩).outputs output houtput) hnot
    | error diagnostics =>
      refine ⟨diagnostics, rfl, fun o ho => ?_⟩
      rw [hcompile] at hcompiled
      have herror : compileResolution T resolved.plan resolved.profile
          (recipeAnswer (.ok (operations.filter (· ∉ applied)))) = .error diagnostics := by
        cases hresult : compileResolution T resolved.plan resolved.profile
            (recipeAnswer (.ok (operations.filter (· ∉ applied)))) with
        | ok graph =>
          rw [hresult] at hcompiled
          cases hcompiled
        | error others =>
          rw [hresult] at hcompiled
          rw [Except.error.inj hcompiled]
      obtain ⟨output, houtput, hname, hnot⟩ := hmissing o ho
      rw [← hname]
      refine missing_of_error rfl herror houtput ?_
      rw [Except.toOption, Option.getD_some, filterMap_json fun p hp =>
        (declared_proposals hchecked p (hsub.subset hp)).valid hplan hlower, List.map_map]
      exact hnot

/-! ## A module `a` in `core` -/

def recipeInputs : Json :=
  .obj [("exports", .arr [.obj [("name", .str "A"), ("typeName", .str "B"), ("value", .obj [])]]),
    ("moduleName", .str "a"), ("package", .str "core"), ("responsibility", .str "None."),
    ("testCases", .arr [.obj [("expected", .obj []), ("exportName", .str "A"),
      ("name", .str "is empty")]])]

/-- A plan of a module, its test and its line in the index. -/
def recipePlan : AuthoredPlan :=
  { modulePlan ["core/**"] with
    recipe := { name := "typescript-module".toList, version := "1".toList, inputs := recipeInputs },
    outputs := [moduleOutput "implementation" "core/core/a.ts",
      moduleOutput "public-export" "core/core/b.ts", moduleOutput "unit-test" "core/core/a.test.ts"],
    resourceBounds := { maxFiles := 3, maxPatchBytes := 1000, maxVerificationSeconds := 60 } }

/-- A snapshot with an index. -/
def recipeFiles : SnapshotFiles :=
  [(ascii "core/core/b.ts", .str (ascii "export const c = 1;\n"))]

/-- A hash that tells the length of a text. -/
def lengthSha256 : Sha256 where
  digest := fun text => text.length % 2 ^ 256
  lt := fun _ => Nat.mod_lt _ (by norm_num)

theorem eq_ok_of_toOption {ε α : Type*} {x : Except ε α} {a : α} (h : x.toOption = some a) :
    x = .ok a := by
  cases x with
  | ok b => rw [Option.some.inj h]
  | error e => cases h

instance (context : RecipeContext) : Decidable context.Conventional :=
  decidable_of_iff (context.publicExportPath ≠ context.sourcePath ∧
    context.publicExportPath ≠ context.testPath ∧
    ascii "export" ∉ context.inputs.exports.map (·.name))
    ⟨fun h => ⟨h.1, h.2.1, h.2.2⟩, fun h => ⟨h.source, h.test, h.names⟩⟩

theorem recipePlan_resolves : ∃ resolved context operations,
    resolveRecipe scriptTools (recipeResolvers lengthSha256 recipeFiles) recipePlan
      (moduleProfile [.str "core/**"]) = .ok resolved ∧
    recipeContext resolved.plan resolved.profile = .ok context ∧ context.Conventional ∧
    resolveTypescriptModuleRecipe lengthSha256 resolved.plan resolved.profile recipeFiles =
      .ok operations ∧ operations.length = 3 := by
  have hcheck : ((resolveRecipe scriptTools (recipeResolvers lengthSha256 recipeFiles) recipePlan
      (moduleProfile [.str "core/**"])).toOption.any fun resolved =>
      (recipeContext resolved.plan resolved.profile).toOption.any fun context =>
        decide context.Conventional && (resolveTypescriptModuleRecipe lengthSha256 resolved.plan
          resolved.profile recipeFiles).toOption.any fun operations => operations.length = 3) = true := by
    decide +kernel
  obtain ⟨resolved, hresolved, hcheck⟩ := (Option.any_eq_true _ _).1 hcheck
  obtain ⟨context, hcontext, hcheck⟩ := (Option.any_eq_true _ _).1 hcheck
  obtain ⟨hconventional, hcheck⟩ := Bool.and_eq_true_iff.1 hcheck
  obtain ⟨operations, hoperations, hlength⟩ := (Option.any_eq_true _ _).1 hcheck
  exact ⟨resolved, context, operations, eq_ok_of_toOption hresolved, eq_ok_of_toOption hcontext,
    of_decide_eq_true hconventional, eq_ok_of_toOption hoperations, of_decide_eq_true hlength⟩

/-- The module has been written, and its test and its line in the index have not. -/
theorem module_rerun : ∃ resolved operations, operations.length = 3 ∧
    Rerun scriptTools lengthSha256 recipePlan (moduleProfile [.str "core/**"]) recipeFiles resolved
      operations (operations.take 1) := by
  obtain ⟨resolved, context, operations, hresolved, hcontext, hconventional, hoperations, hlength⟩ :=
    recipePlan_resolves
  exact ⟨resolved, operations, hlength, recipe_rerun (by decide) hresolved hcontext hconventional
    hoperations fun o ho => List.mem_of_mem_take ho⟩

/-- A part of the operations with all that it depends on. -/
def DependencyClosed (operations applied : List ModuleOperation) : Prop :=
  ∀ o ∈ applied, ∀ p ∈ operations, p.id ∈ o.dependsOn → p ∈ applied

instance (operations applied : List ModuleOperation) :
    Decidable (DependencyClosed operations applied) :=
  inferInstanceAs (Decidable (∀ o ∈ applied, ∀ p ∈ operations, p.id ∈ o.dependsOn → p ∈ applied))

/-- Once the module has been written the plan does not compile. -/
theorem written_module_refused : ¬∀ (T : Tools) (H : Sha256) (authoredPlan : AuthoredPlan)
    (profileInput : Json) (files : SnapshotFiles) (resolved : Resolved)
    (operations applied : List ModuleOperation),
    resolveRecipe T (recipeResolvers H files) authoredPlan profileInput = .ok resolved →
    resolveTypescriptModuleRecipe H resolved.plan resolved.profile files = .ok operations →
    applied.Sublist operations → DependencyClosed operations applied →
    resolveTypescriptModuleRecipe H resolved.plan resolved.profile
      (applyOperations files applied) = .ok (operations.filter (· ∉ applied)) ∧
    ∃ graph, compileTypescriptModuleRecipePlan T H authoredPlan profileInput
      (applyOperations files applied) = .ok graph := by
  intro hclaim
  have hcheck : ((resolveRecipe scriptTools (recipeResolvers lengthSha256 recipeFiles) recipePlan
      (moduleProfile [.str "core/**"])).toOption.any fun resolved =>
      (resolveTypescriptModuleRecipe lengthSha256 resolved.plan resolved.profile
        recipeFiles).toOption.any fun operations =>
        decide (DependencyClosed operations (operations.take 1)) &&
          (compileTypescriptModuleRecipePlan scriptTools lengthSha256 recipePlan
            (moduleProfile [.str "core/**"])
            (applyOperations recipeFiles (operations.take 1))).toOption.isNone) = true := by
    decide +kernel
  obtain ⟨resolved, hresolved, hcheck⟩ := (Option.any_eq_true _ _).1 hcheck
  obtain ⟨operations, hoperations, hcheck⟩ := (Option.any_eq_true _ _).1 hcheck
  obtain ⟨hclosed, hnone⟩ := Bool.and_eq_true_iff.1 hcheck
  obtain ⟨-, graph, hgraph⟩ := hclaim _ _ _ _ _ _ _ _ (eq_ok_of_toOption hresolved)
    (eq_ok_of_toOption hoperations) (List.take_sublist 1 operations) (of_decide_eq_true hclosed)
  rw [hgraph] at hnone
  cases hnone

end ModuleRecipe

end FactoryFloor
