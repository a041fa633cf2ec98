import FactoryFloor.JsStrings

/-!
# Compiling repository-task plans

`normalize-repository-task-plan.mjs` and `compile-repository-task-plan.mjs` : an authored plan and a
repository profile are normalised, the plan is checked against the profile, a recipe resolver
proposes file operations, and these are checked, ordered and put into a generation graph.

A plan is taken from where its front matter has been parsed, and with the shape its schema asks for.
`Tools` holds what the scripts get from elsewhere : Ajv, the digests of canonical JSON, the text of a
string as JSON, and the lower case of a string. The resolver's answer is any JSON value, as `clone`
returns it.
-/

namespace FactoryFloor

/-! ## Diagnostics -/

structure Diagnostic where
  code : JsString
  path : JsString
  message : JsString
deriving DecidableEq

/-- `diagnostic`. -/
def diagnostic (code path : String) (message : JsString) : Diagnostic :=
  ⟨code.toList, path.toList, message⟩

/-- `sortDiagnostics`. -/
def sortDiagnostics (values : List Diagnostic) : List Diagnostic :=
  values.insertionSort fun d e => compareStrings
    (d.code ++ '\x00' :: d.path ++ '\x00' :: d.message)
    (e.code ++ '\x00' :: e.path ++ '\x00' :: e.message)

/-- The text of an index in a pointer. -/
def pointer (collection : String) (index : ℕ) (field : String) : String :=
  "/" ++ collection ++ "/" ++ toString index ++ field

/-! ## Paths -/

/-- `typeof value === 'string' && value.trim().length > 0`. -/
def nonEmptyString (value : JsString) : Bool :=
  !(JsString.trim value).isEmpty

/-- `/^[A-Za-z]:/.test(path)`. -/
def hasDriveLetter : JsString → Bool
  | c :: ':' :: _ => c.isAlpha
  | _ => false

/-- A segment that leaves or hides a directory. -/
def unsafeSegment (segment : JsString) : Bool :=
  segment.isEmpty || segment = ".".toList || segment = "..".toList || segment = ".git".toList

/-- `safePath` of a string. -/
def safePath (value : JsString) : Bool :=
  let path := JsString.trim value
  nonEmptyString value && !(path.head? = some '/' || path.contains '\\' ||
    path.contains '\x00' || hasDriveLetter path) && !(path.splitOn '/').any unsafeSegment

/-- `/[*?[\]]/.test(value)`. -/
def hasGlob (value : JsString) : Bool :=
  value.any fun c => c = '*' || c = '?' || c = '[' || c = ']'

/-- `/**`. -/
def recursiveSuffix : JsString :=
  ['/', '*', '*']

/-- `constraint.endsWith('/**')`. -/
def isRecursive (constraint : JsString) : Bool :=
  recursiveSuffix.isSuffixOf constraint

/-- The constraint without a terminal recursive glob. -/
def baseOf (constraint : JsString) : JsString :=
  if isRecursive constraint then constraint.take (constraint.length - 3) else constraint

/-- `pathConstraint`. -/
def pathConstraint (value : JsString) : Bool :=
  safePath value && !hasGlob (baseOf value)

/-- `pathMatches`, and `pathMatchesConstraint`. -/
def pathMatches (path constraint : JsString) : Bool :=
  if isRecursive constraint then
    path = baseOf constraint || (baseOf constraint ++ ['/']).isPrefixOf path
  else path = constraint

/-- `constraintFits`. -/
def constraintFits (constraint boundary : JsString) : Bool :=
  pathMatches (baseOf constraint) boundary

/-! ## Plans -/

inductive OutputKind where
  | file | test | export | evidence
deriving DecidableEq, Repr

/-- The text of an output kind. -/
def OutputKind.text : OutputKind → JsString
  | .file => "file".toList
  | .test => "test".toList
  | .export => "export".toList
  | .evidence => "evidence".toList

structure DeclaredOutput where
  name : JsString
  kind : OutputKind
  path : JsString
  mediaType : JsString
  required : Bool
deriving DecidableEq

structure PlanRepository where
  owner : JsString
  name : JsString
  baseRevision : JsString
deriving DecidableEq

structure RecipeInvocation where
  name : JsString
  version : JsString
  inputs : Json

structure ResourceBounds where
  maxFiles : ℕ
  maxPatchBytes : ℕ
  maxVerificationSeconds : ℕ
deriving DecidableEq

structure AuthoredPlan where
  objective : JsString
  repository : PlanRepository
  allowedPaths : List JsString
  recipe : RecipeInvocation
  outputs : List DeclaredOutput
  verificationProfile : JsString
  resourceBounds : ResourceBounds
  requestedCapabilities : List JsString
  completionCriteria : List JsString

/-- What `normalizePlan` takes the digest of. -/
structure PlanContent where
  objective : JsString
  repository : PlanRepository
  allowedPaths : List JsString
  recipe : RecipeInvocation
  outputs : List DeclaredOutput
  verificationProfile : JsString
  resourceBounds : ResourceBounds
  requestedCapabilities : List JsString
  completionCriteria : List JsString

structure NormalizedPlan extends PlanContent where
  planDigest : Digest

/-! ## Profiles -/

structure PackageEntry where
  name : JsString
  path : JsString
  sourceDirectory : JsString
  testDirectory : JsString
  publicExportPath : JsString
deriving DecidableEq

structure RepositoryProfile where
  owner : JsString
  name : JsString
  pathBoundaries : List JsString
  /-- The versions of each recipe. -/
  recipes : List (JsString × List JsString)
  verificationProfiles : List JsString
  packages : List PackageEntry
deriving DecidableEq

/-! ## Graphs -/

inductive FileOperation where
  | create | update | delete
deriving DecidableEq, Repr

inductive AttributionKind where
  | plan | profile | recipe
deriving DecidableEq, Repr

/-- The text of an attribution kind. -/
def AttributionKind.text : AttributionKind → JsString
  | .plan => "plan".toList
  | .profile => "profile".toList
  | .recipe => "recipe".toList

structure Attribution where
  kind : AttributionKind
  reference : JsString
deriving DecidableEq

structure Operation where
  id : JsString
  operation : FileOperation
  path : JsString
  outputName : JsString
  mediaType : JsString
  dependsOn : List JsString
  attribution : List Attribution
deriving DecidableEq

inductive GraphNode where
  | normalizedPlan (digest : Digest)
  | repositoryProfile (digest : Digest)
  | operation (operation : Operation)
deriving DecidableEq

structure GraphOutput where
  name : JsString
  kind : OutputKind
  path : JsString
  nodeId : JsString
deriving DecidableEq

/-- What the graph digest is taken of. -/
structure GraphContent where
  planDigest : Digest
  profileDigest : Digest
  repository : PlanRepository
  recipeName : JsString
  recipeVersion : JsString
  verificationProfile : JsString
  nodes : List GraphNode
  outputs : List GraphOutput
  conflicts : List Json

structure GenerationGraph extends GraphContent where
  graphDigest : Digest

/-- What the scripts get from elsewhere. -/
structure Tools where
  /-- The diagnostics of Ajv for an authored plan, and for a normalised one. -/
  authoredErrors : AuthoredPlan → List Diagnostic
  normalizedErrors : NormalizedPlan → List Diagnostic
  /-- `canonicalJsonDigest`. -/
  planDigest : PlanContent → Digest
  profileDigest : RepositoryProfile → Digest
  graphDigest : GraphContent → Digest
  /-- `JSON.stringify` of a string. -/
  jsonText : JsString → JsString
  toLowerCase : JsString → JsString

/-- `PLAN_NODE_ID` and `PROFILE_NODE_ID`. -/
def planNodeId : JsString :=
  "input:normalized-plan".toList

def profileNodeId : JsString :=
  "input:repository-profile".toList

/-- `INPUT_NODE_IDS`. -/
def inputNodeIds : List JsString :=
  [planNodeId, profileNodeId]

def GraphNode.id : GraphNode → JsString
  | .normalizedPlan _ => planNodeId
  | .repositoryProfile _ => profileNodeId
  | .operation o => o.id

def GraphNode.dependsOn : GraphNode → List JsString
  | .normalizedPlan _ | .repositoryProfile _ => []
  | .operation o => o.dependsOn

/-! ## Normalising plans -/

/-- `DEFAULT_ALLOWED_REPOSITORY_TASK_CAPABILITIES`. -/
def defaultCapabilities : List JsString :=
  ["repository.proposePatch".toList, "repository.read".toList, "verification.request".toList]

/-- `DEFAULT_SUPPORTED_REPOSITORY_TASK_RECIPES`. -/
def defaultRecipes : List (JsString × List JsString) :=
  [("typescript-module".toList, ["1".toList])]

/-- The elements with their indices, from the first one. -/
def diagnosed {α : Type} (values : List α) (check : ℕ → α → List Diagnostic) : List Diagnostic :=
  values.zipIdx.flatMap fun v => check v.2 v.1

def allowedPathDiagnostics (T : Tools) (index : ℕ) (path : JsString) : List Diagnostic :=
  if !safePath path then
    [diagnostic "path.unsafe" (pointer "allowedPaths" index "")
      ("Repository path ".toList ++ T.jsonText path ++ " is not a safe relative path.".toList)]
  else if hasGlob (baseOf (JsString.trim path)) then
    [diagnostic "path.unsupported-pattern" (pointer "allowedPaths" index "")
      "Allowed paths may be exact paths or end with a recursive /** glob.".toList]
  else []

def outputPathDiagnostics (T : Tools) (allowedPaths : List JsString) (index : ℕ)
    (output : DeclaredOutput) : List Diagnostic :=
  if !safePath output.path || hasGlob output.path then
    [diagnostic "path.unsafe" (pointer "outputContract/outputs" index "/path")
      ("Output path ".toList ++ T.jsonText output.path ++
        " must be a concrete safe relative path.".toList)]
  else if !allowedPaths.any (pathMatches (JsString.trim output.path) ·) then
    [diagnostic "output.outside-allowed-paths" (pointer "outputContract/outputs" index "/path")
      ("Output path ".toList ++ output.path ++ " is outside the authored allowed path set.".toList)]
  else []

/-- `semanticDiagnostics`. -/
def semanticDiagnostics (T : Tools) (plan : AuthoredPlan) : List Diagnostic :=
  let names := plan.outputs.map (·.name)
  let fileOutputs := plan.outputs.countP (·.kind ≠ .evidence)
  diagnosed plan.allowedPaths (allowedPathDiagnostics T) ++
    diagnosed plan.outputs (outputPathDiagnostics T (plan.allowedPaths.map JsString.trim)) ++
    ((sortStrings (names.filter fun name => 1 < names.count name).dedup).map fun name =>
      diagnostic "output.duplicate-name" "/outputContract/outputs"
        ("Output name ".toList ++ name ++ " is declared more than once.".toList)) ++
    (if plan.resourceBounds.maxFiles < fileOutputs then
      [diagnostic "resource.max-files-exceeded" "/resourceBounds/maxFiles"
        ("The plan declares ".toList ++ (toString fileOutputs).toList ++
          " file outputs but maxFiles is ".toList ++
          (toString plan.resourceBounds.maxFiles).toList ++ ['.'])]
    else []) ++
    (if ((defaultRecipes.lookup plan.recipe.name).getD []).contains plan.recipe.version then []
    else
      [diagnostic "recipe.unsupported-version" "/recipe/version"
        ("Recipe ".toList ++ plan.recipe.name ++ '@' :: plan.recipe.version ++
          " is not supported.".toList)]) ++
    diagnosed plan.requestedCapabilities fun index capability =>
      if defaultCapabilities.contains capability then []
      else [diagnostic "capability.not-allowed" (pointer "requestedCapabilities" index "")
        ("Capability ".toList ++ capability ++
          " is outside the repository-task policy boundary.".toList)]

/-- `normalizeOutput`. -/
def normalizeOutput (T : Tools) (output : DeclaredOutput) : DeclaredOutput :=
  { name := JsString.trim output.name, kind := output.kind, path := JsString.trim output.path,
    mediaType := T.toLowerCase (JsString.trim output.mediaType), required := output.required }

/-- What outputs are sorted by. -/
def DeclaredOutput.sortKey (output : DeclaredOutput) : JsString :=
  output.name ++ '\x00' :: output.kind.text ++ '\x00' :: output.path

/-- `normalizePlan`. -/
def normalizePlan (T : Tools) (plan : AuthoredPlan) : NormalizedPlan :=
  let content : PlanContent :=
    { objective := collapseWhitespace plan.objective,
      repository :=
        { owner := T.toLowerCase (JsString.trim plan.repository.owner),
          name := T.toLowerCase (JsString.trim plan.repository.name),
          baseRevision := plan.repository.baseRevision },
      allowedPaths := sortedStrings plan.allowedPaths,
      recipe :=
        { name := JsString.trim plan.recipe.name, version := JsString.trim plan.recipe.version,
          inputs := plan.recipe.inputs.norm },
      outputs := (plan.outputs.map (normalizeOutput T)).insertionSort fun o p =>
        compareStrings o.sortKey p.sortKey,
      verificationProfile := JsString.trim plan.verificationProfile,
      resourceBounds := plan.resourceBounds,
      requestedCapabilities := sortedStrings plan.requestedCapabilities,
      completionCriteria := sortStrings (plan.completionCriteria.map collapseWhitespace).dedup }
  { content with planDigest := T.planDigest content }

/-- `normalizeRepositoryTaskPlan`. -/
def normalizeRepositoryTaskPlan (T : Tools) (plan : AuthoredPlan) :
    Except (List Diagnostic) NormalizedPlan :=
  match T.authoredErrors plan, semanticDiagnostics T plan with
  | [], [] =>
    match T.normalizedErrors (normalizePlan T plan) with
    | [] => .ok (normalizePlan T plan)
    | errors => .error (sortDiagnostics errors)
  | [], diagnostics => .error (sortDiagnostics diagnostics)
  | errors, _ => .error (sortDiagnostics errors)

/-! ## Normalising profiles -/

namespace Json

/-- A string of the value. -/
def text? : Json → Option JsString
  | .str s => some s.toList
  | _ => none

/-- `isObject`. -/
def isObject : Json → Bool
  | .obj _ => true
  | _ => false

/-- `nonEmptyString(value.key)`. -/
def hasText (key : String) (value : Json) : Bool :=
  ((value.get? key).bind text?).any nonEmptyString

/-- The text of `value.key`. -/
def textAt (key : String) (value : Json) : JsString :=
  ((value.get? key).bind text?).getD []

/-- `Array.isArray(value.key) ? value.key : []`. -/
def itemsAt (key : String) (value : Json) : List Json :=
  match value.get? key with
  | some (.arr items) => items
  | _ => []

/-- Whether `value.key` is a list of non-empty strings, and not the empty list. -/
def areTexts (values : List Json) : Bool :=
  !values.isEmpty && values.all fun v => v.text?.any nonEmptyString

end Json

def profileKeys : List String :=
  ["schemaVersion", "repository", "pathBoundaries", "recipes", "verificationProfiles", "packages"]

def packageKeys : List String :=
  ["name", "path", "sourceDirectory", "testDirectory", "publicExportPath"]

/-- The keys of a package that are paths. -/
def packagePathKeys : List String :=
  ["path", "sourceDirectory", "testDirectory", "publicExportPath"]

/-- `unknownKeyDiagnostics`. -/
def unknownKeyDiagnostics (value : Json) (allowed : List String) (path : String) :
    List Diagnostic :=
  match value with
  | .obj members => (members.filter fun m => !allowed.contains m.1).map fun m =>
      diagnostic "profile.unknown-field" (path ++ "/" ++ m.1)
        ("Unknown repository-profile field ".toList ++ m.1.toList ++ ['.'])
  | _ => []

def recipeDiagnostics (input : Json) : List Diagnostic :=
  match input.get? "recipes" with
  | some (.obj (m :: members)) => (m :: members).flatMap fun m =>
      let supported := match m.2 with
        | .arr versions => nonEmptyString m.1.toList && Json.areTexts versions
        | _ => false
      if supported then []
      else [diagnostic "profile.invalid" ("/recipes/" ++ m.1)
        "Recipe versions must be non-empty strings.".toList]
  | _ => [diagnostic "profile.invalid" "/recipes"
      "Repository profile must declare supported recipe versions.".toList]

def packageDiagnostics (index : ℕ) (entry : Json) : List Diagnostic :=
  unknownKeyDiagnostics entry packageKeys (pointer "packages" index "") ++
    if entry.isObject && packageKeys.all (entry.hasText ·) &&
        packagePathKeys.all (fun key => safePath (entry.textAt key)) then []
    else [diagnostic "profile.invalid-package" (pointer "packages" index "")
      "Package entries require a name and safe relative paths.".toList]

/-- The checks of `normalizeProfile` on the shape of its input. -/
def profileDiagnostics (input : Json) : List Diagnostic :=
  unknownKeyDiagnostics input profileKeys "" ++
    (match input.get? "schemaVersion" with
    | some (.num 1) => []
    | _ => [diagnostic "profile.invalid" "/schemaVersion"
        "Repository profile schemaVersion must be 1.".toList]) ++
    (if (input.get? "repository").any fun r => r.isObject && r.hasText "owner" && r.hasText "name"
      then []
    else [diagnostic "profile.invalid" "/repository"
        "Repository profile must declare owner and name.".toList]) ++
    (if !(input.itemsAt "pathBoundaries").isEmpty &&
        (input.itemsAt "pathBoundaries").all (fun v => v.text?.any pathConstraint) then []
    else [diagnostic "profile.invalid-path-boundary" "/pathBoundaries"
        ("Path boundaries must be safe relative paths or terminal recursive globs.").toList]) ++
    recipeDiagnostics input ++
    (if Json.areTexts (input.itemsAt "verificationProfiles") then []
    else [diagnostic "profile.invalid" "/verificationProfiles"
        "Repository profile must declare verification profiles.".toList]) ++
    (if (input.itemsAt "packages").isEmpty then
      [diagnostic "profile.invalid" "/packages"
        "Repository profile must declare at least one package.".toList]
    else []) ++
    diagnosed (input.itemsAt "packages") packageDiagnostics

/-- `recipes[name.trim()] = sortedStrings(versions)`. -/
def assignRecipe (recipes : List (JsString × List JsString)) (name : JsString)
    (versions : List JsString) : List (JsString × List JsString) :=
  if recipes.any (·.1 = JsString.trim name) then
    recipes.map fun r => if r.1 = JsString.trim name then (r.1, sortedStrings versions) else r
  else recipes ++ [(JsString.trim name, sortedStrings versions)]

def normalizeRecipes (input : Json) : List (JsString × List JsString) :=
  match input.get? "recipes" with
  | some (.obj members) =>
    (members.insertionSort fun m n => compareStrings m.1.toList n.1.toList).foldl
      (fun recipes m => assignRecipe recipes m.1.toList
        (match m.2 with
        | .arr versions => versions.filterMap Json.text?
        | _ => [])) []
  | _ => []

def normalizePackage (entry : Json) : PackageEntry :=
  { name := JsString.trim (entry.textAt "name"), path := JsString.trim (entry.textAt "path"),
    sourceDirectory := JsString.trim (entry.textAt "sourceDirectory"),
    testDirectory := JsString.trim (entry.textAt "testDirectory"),
    publicExportPath := JsString.trim (entry.textAt "publicExportPath") }

/-- The profile of an input that passes the checks on its shape. -/
def profileOf (T : Tools) (input : Json) : RepositoryProfile :=
  let repository := (input.get? "repository").getD .null
  { owner := T.toLowerCase (JsString.trim (repository.textAt "owner")),
    name := T.toLowerCase (JsString.trim (repository.textAt "name")),
    pathBoundaries := sortedStrings ((input.itemsAt "pathBoundaries").filterMap Json.text?),
    recipes := normalizeRecipes input,
    verificationProfiles := sortedStrings ((input.itemsAt "verificationProfiles").filterMap Json.text?),
    packages := ((input.itemsAt "packages").map normalizePackage).insertionSort fun p q =>
      compareStrings p.name q.name }

/-- The checks of `normalizeProfile` on the packages together. -/
def profilePackageDiagnostics (profile : RepositoryProfile) : List Diagnostic :=
  diagnosed profile.packages fun index entry =>
    (if ((profile.packages.take index).map (·.name)).contains entry.name then
      [diagnostic "profile.duplicate-package" "/packages"
        ("Package ".toList ++ entry.name ++ " is declared more than once.".toList)]
    else []) ++
    if profile.pathBoundaries.any (pathMatches entry.path ·) then []
    else [diagnostic "profile.package-outside-boundaries" (pointer "packages" index "/path")
      ("Package path ".toList ++ entry.path ++ " is outside profile boundaries.".toList)]

/-- `normalizeProfile`. -/
def normalizeProfile (T : Tools) (input : Json) : Except (List Diagnostic) RepositoryProfile :=
  if !input.isObject then
    .error [diagnostic "profile.invalid" "" "Repository profile must be an object.".toList]
  else match profileDiagnostics input, profilePackageDiagnostics (profileOf T input) with
    | [], [] => .ok (profileOf T input)
    | [], diagnostics => .error (sortDiagnostics diagnostics)
    | diagnostics, _ => .error (sortDiagnostics diagnostics)

/-- `checkPlanAgainstProfile`. -/
def checkPlanAgainstProfile (plan : NormalizedPlan) (profile : RepositoryProfile) :
    List Diagnostic :=
  let packageName := ((plan.recipe.inputs.get? "package").bind Json.text?).getD "undefined".toList
  sortDiagnostics <|
    (if plan.repository.owner = profile.owner ∧ plan.repository.name = profile.name then []
    else [diagnostic "profile.repository-mismatch" "/repository"
        "Plan repository does not match the repository profile.".toList]) ++
    (diagnosed plan.allowedPaths fun index value =>
      if profile.pathBoundaries.any (constraintFits value ·) then []
      else [diagnostic "profile.path-outside-boundaries" (pointer "allowedPaths" index "")
        ("Allowed path ".toList ++ value ++ " is outside repository-profile boundaries.".toList)]) ++
    (if ((profile.recipes.lookup plan.recipe.name).getD []).contains plan.recipe.version then []
    else [diagnostic "profile.recipe-unsupported" "/recipe"
        ("Recipe ".toList ++ plan.recipe.name ++ '@' :: plan.recipe.version ++
          " is not supported by the repository profile.".toList)]) ++
    (if profile.verificationProfiles.contains plan.verificationProfile then []
    else [diagnostic "profile.verification-profile-unsupported" "/verificationProfile"
        ("Verification profile ".toList ++ plan.verificationProfile ++
          " is not supported by the repository profile.".toList)]) ++
    match profile.packages.find? (·.name = packageName) with
    | none => [diagnostic "profile.package-unknown" "/recipe/inputs/package"
        ("Package ".toList ++ packageName ++
          " is not declared by the repository profile.".toList)]
    | some selected => diagnosed plan.outputs fun index output =>
        if pathMatches output.path (selected.path ++ recursiveSuffix) then []
        else [diagnostic "profile.output-outside-package" (pointer "outputs" index "/path")
          ("Output ".toList ++ output.path ++ " is outside selected package ".toList ++
            packageName ++ ['.'])]

/-! ## File operations -/

def fileOperation? : JsString → Option FileOperation
  | s => if s = "create".toList then some .create
    else if s = "update".toList then some .update
    else if s = "delete".toList then some .delete
    else none

def attributionKind? : JsString → Option AttributionKind
  | s => if s = "plan".toList then some .plan
    else if s = "profile".toList then some .profile
    else if s = "recipe".toList then some .recipe
    else none

/-- What attributions are sorted by. -/
def Attribution.sortKey (a : Attribution) : JsString :=
  a.kind.text ++ '\x00' :: a.reference

def attribution? (entry : Json) : Option Attribution := do
  let kind ← attributionKind? (← (← entry.get? "kind").text?)
  let reference ← (← entry.get? "reference").text?
  if nonEmptyString reference then some { kind, reference := JsString.trim reference } else none

/-- `normalizeAttribution`. -/
def normalizeAttribution (value : Option Json) : Option (List Attribution) :=
  match value with
  | some (.arr (entry :: entries)) => ((entry :: entries).mapM attribution?).map fun as =>
      as.insertionSort fun a b => compareStrings a.sortKey b.sortKey
  | _ => none

/-- The operation that a candidate of the resolver is, if it is a valid one. -/
def operation? (T : Tools) (candidate : Json) : Option Operation := do
  let id ← (← candidate.get? "id").text?
  let operation ← fileOperation? (← (← candidate.get? "operation").text?)
  let path ← (← candidate.get? "path").text?
  let outputName ← (← candidate.get? "outputName").text?
  let mediaType ← (← candidate.get? "mediaType").text?
  let dependsOn ← match candidate.get? "dependsOn" with
    | some (.arr items) => items.mapM Json.text?
    | _ => none
  let attribution ← normalizeAttribution (candidate.get? "attribution")
  if nonEmptyString id && safePath path && nonEmptyString outputName && nonEmptyString mediaType &&
      dependsOn.all nonEmptyString then
    some { id := JsString.trim id, operation, path := JsString.trim path,
           outputName := JsString.trim outputName,
           mediaType := T.toLowerCase (JsString.trim mediaType),
           dependsOn := sortedStrings dependsOn, attribution }
  else none

/-- A valid candidate has a safe path, which is trimmed, and each dependency once. -/
theorem operation?_eq_some {T : Tools} {c : Json} {o : Operation} (h : operation? T c = some o) :
    o.dependsOn.Nodup ∧ ∃ path, safePath path ∧ o.path = JsString.trim path := by
  simp only [operation?, Option.bind_eq_bind, Option.bind_eq_some_iff] at h
  obtain ⟨_, -, id, -, _, -, _, -, _, -, _, -, path, -, _, -, _, -, _, -, _, -, h⟩ := h
  split at h
  · obtain ⟨dependsOn, -, h⟩ := Option.bind_eq_some_iff.1 h
    obtain ⟨attribution, -, h⟩ := Option.bind_eq_some_iff.1 h
    split_ifs at h with hvalid
    obtain rfl := Option.some.inj h
    simp only [Bool.and_eq_true] at hvalid
    exact ⟨(List.perm_insertionSort _ _).nodup_iff.2 (List.nodup_dedup _),
      path, hvalid.1.1.1.2, rfl⟩
  · cases h

/-- The checks of one operation against the plan and the profile. `declaredOutputs` keeps the last
output with a name. -/
def operationDiagnostics (plan : NormalizedPlan) (profile : RepositoryProfile) (index : ℕ)
    (operation : Operation) : List Diagnostic :=
  (match plan.outputs.reverse.find? (·.name = operation.outputName) with
  | none => [diagnostic "graph.undeclared-output" (pointer "operations" index "/outputName")
      ("Output ".toList ++ operation.outputName ++ " is not declared by the plan.".toList)]
  | some declared =>
    if declared.path = operation.path ∧ declared.mediaType = operation.mediaType then []
    else [diagnostic "graph.output-mismatch" (pointer "operations" index "")
      ("Operation ".toList ++ operation.id ++ " does not match its declared output.".toList)]) ++
  (if plan.allowedPaths.any (pathMatches operation.path ·) then []
  else [diagnostic "graph.operation-outside-plan-boundaries" (pointer "operations" index "/path")
    ("Operation path ".toList ++ operation.path ++ " is outside authored boundaries.".toList)]) ++
  if profile.pathBoundaries.any (pathMatches operation.path ·) then []
  else [diagnostic "graph.operation-outside-profile-boundaries"
    (pointer "operations" index "/path")
    ("Operation path ".toList ++ operation.path ++
      " is outside repository-profile boundaries.".toList)]

/-- The checks of one candidate. -/
def candidateDiagnostics (T : Tools) (plan : NormalizedPlan) (profile : RepositoryProfile)
    (index : ℕ) (candidate : Json) : List Diagnostic :=
  match operation? T candidate with
  | none => [diagnostic "graph.invalid-operation" (pointer "operations" index "")
      "Recipe emitted an invalid file operation.".toList]
  | some operation => operationDiagnostics plan profile index operation

/-- The checks of the operations against those before them. -/
def repetitionDiagnostics (operations : List Operation) : List Diagnostic :=
  diagnosed operations fun index operation =>
    let before := operations.take index
    (if (before.map (·.id)).contains operation.id then
      [diagnostic "graph.duplicate-operation-id" "/operations"
        ("Operation id ".toList ++ operation.id ++ " is emitted more than once.".toList)]
    else []) ++
    (if (before.map (·.path)).contains operation.path then
      [diagnostic "graph.path-conflict" "/operations"
        ("Multiple operations target path ".toList ++ operation.path ++ ['.'])]
    else []) ++
    if (before.map (·.outputName)).contains operation.outputName then
      [diagnostic "graph.duplicate-output-operation" "/operations"
        ("Multiple operations propose output ".toList ++ operation.outputName ++ ['.'])]
    else []

def missingOutputDiagnostics (plan : NormalizedPlan) (operations : List Operation) :
    List Diagnostic :=
  plan.outputs.flatMap fun output =>
    if (operations.map (·.outputName)).contains output.name then []
    else [diagnostic "graph.output-operation-missing" "/operations"
      ("Declared output ".toList ++ output.name ++ " has no proposed operation.".toList)]

/-- What `normalizeResolution` finds in a resolver's answer. -/
structure NormalizedResolution where
  operations : List Operation
  conflicts : List Json
  diagnostics : List Diagnostic

/-- `normalizeResolution`. -/
def normalizeResolution (T : Tools) (resolution : Json) (plan : NormalizedPlan)
    (profile : RepositoryProfile) : Except (List Diagnostic) NormalizedResolution :=
  match resolution.get? "operations" with
  | some (.arr candidates) =>
    let conflicts := Json.normItems (resolution.itemsAt "conflicts")
    let operations := candidates.filterMap (operation? T)
    .ok { operations, conflicts,
          diagnostics := sortDiagnostics <|
            (if conflicts.isEmpty then []
            else [diagnostic "graph.recipe-conflict" "/conflicts"
              "Recipe resolution reported one or more conflicts.".toList]) ++
            diagnosed candidates (candidateDiagnostics T plan profile) ++
            repetitionDiagnostics operations ++ missingOutputDiagnostics plan operations }
  | _ => .error [diagnostic "recipe.invalid-resolution" ""
      "Recipe resolver must return an operations array.".toList]

/-! ## Ordering operations -/

/-- `byId.get(id)`. The map keeps the last operation with an id. -/
def byId (operations : List Operation) (id : JsString) : Option Operation :=
  operations.reverse.find? (·.id = id)

/-- The dependencies of an operation that are operations. -/
def dependencies (operations : List Operation) (operation : Operation) : List JsString :=
  operation.dependsOn.filter fun d => (byId operations d).isSome

/-- `dependents.get(id)`. -/
def dependents (operations : List Operation) (id : JsString) : List JsString :=
  operations.flatMap fun o => ((dependencies operations o).filter (· = id)).map fun _ => o.id

def dependencyDiagnostics (operations : List Operation) : List Diagnostic :=
  operations.flatMap fun o => o.dependsOn.flatMap fun d =>
    (if inputNodeIds.contains d || (byId operations d).isSome then []
    else [⟨"graph.missing-dependency".toList, "/operations/".toList ++ o.id ++ "/dependsOn".toList,
      "Operation ".toList ++ o.id ++ " depends on missing node ".toList ++ d ++ ['.']⟩]) ++
    if d = o.id then
      [⟨"graph.dependency-cycle".toList, "/operations/".toList ++ o.id ++ "/dependsOn".toList,
        "Operation ".toList ++ o.id ++ " depends on itself.".toList⟩]
    else []

/-- The variables of the loop in `orderOperations`. -/
structure Ordering where
  ready : List JsString
  indegree : JsString → ℤ
  ordered : List Operation

/-- One dependency less of a dependent. -/
def release (s : Ordering) (dependent : JsString) : Ordering :=
  let remaining := s.indegree dependent - 1
  { s with
    indegree := Function.update s.indegree dependent remaining,
    ready := if remaining = 0 then sortStrings (s.ready ++ [dependent]) else s.ready }

/-- The loop of `orderOperations`, for a number of turns. -/
def orderLoop (operations : List Operation) : ℕ → Ordering → Ordering
  | 0, s => s
  | n + 1, s =>
    match s.ready with
    | [] => s
    | id :: ready =>
      orderLoop operations n ((sortStrings (dependents operations id)).foldl release
        { s with ready, ordered := s.ordered ++ (byId operations id).toList })

/-- The variables before the loop. -/
def initialOrdering (operations : List Operation) : Ordering :=
  let indegree := fun id => (((byId operations id).map (dependencies operations ·)).getD []).length
  { ready := sortStrings ((operations.filter fun o => indegree o.id = 0).map (·.id)),
    indegree := fun id => indegree id, ordered := [] }

/-- `orderOperations`. An operation is pushed to `ready` at first, or when its indegree gets zero, so
two turns for each are enough. -/
def orderOperations (operations : List Operation) : Except (List Diagnostic) (List Operation) :=
  match dependencyDiagnostics operations with
  | [] =>
    let ordered := (orderLoop operations (2 * operations.length) (initialOrdering operations)).ordered
    if ordered.length = operations.length then .ok ordered
    else .error [diagnostic "graph.dependency-cycle" "/operations"
      "Operation dependencies contain a cycle.".toList]
  | diagnostics => .error (sortDiagnostics diagnostics)

/-! ## Compiling -/

/-- The graph of a plan, a profile, and ordered operations. Each declared output has an operation when
there are no diagnostics. -/
def graphOf (T : Tools) (plan : NormalizedPlan) (profile : RepositoryProfile)
    (ordered : List Operation) (conflicts : List Json) : GenerationGraph :=
  let profileDigest := T.profileDigest profile
  let content : GraphContent :=
    { planDigest := plan.planDigest, profileDigest, repository := plan.repository,
      recipeName := plan.recipe.name, recipeVersion := plan.recipe.version,
      verificationProfile := plan.verificationProfile,
      nodes := .normalizedPlan plan.planDigest :: .repositoryProfile profileDigest ::
        ordered.map .operation,
      outputs := plan.outputs.map fun output =>
        { name := output.name, kind := output.kind, path := output.path,
          nodeId := ((ordered.reverse.find? (·.outputName = output.name)).map (·.id)).getD [] },
      conflicts }
  { content with graphDigest := T.graphDigest content }

/-- `compileRepositoryTaskPlan`, from the resolver's answer on. -/
def compileResolution (T : Tools) (plan : NormalizedPlan) (profile : RepositoryProfile)
    (resolution : Json) : Except (List Diagnostic) GenerationGraph :=
  match normalizeResolution T resolution plan profile with
  | .error diagnostics => .error diagnostics
  | .ok normalized =>
    match normalized.diagnostics, orderOperations normalized.operations with
    | [], .ok ordered => .ok (graphOf T plan profile ordered normalized.conflicts)
    | diagnostics, .ok _ => .error (sortDiagnostics diagnostics)
    | diagnostics, .error cycle => .error (sortDiagnostics (diagnostics ++ cycle))

/-- A recipe resolver, up to the `clone` of its answer. It may throw. -/
abbrev Resolver := NormalizedPlan → RepositoryProfile → Option Json

/-- What the compiler asks the resolver about, and its answer. -/
structure Resolved where
  plan : NormalizedPlan
  profile : RepositoryProfile
  resolution : Json

/-- `compileRepositoryTaskPlan`, up to the resolver's answer. -/
def resolveRecipe (T : Tools) (resolvers : JsString → Option Resolver) (authoredPlan : AuthoredPlan)
    (profileInput : Json) : Except (List Diagnostic) Resolved := do
  let plan ← normalizeRepositoryTaskPlan T authoredPlan
  let profile ← normalizeProfile T profileInput
  match checkPlanAgainstProfile plan profile with
  | [] =>
    let key := plan.recipe.name ++ '@' :: plan.recipe.version
    match resolvers key with
    | none => .error [diagnostic "recipe.resolver-unavailable" "/recipe"
        ("No deterministic resolver is registered for ".toList ++ key ++ ['.'])]
    | some resolver =>
      match resolver plan profile with
      | none => .error [diagnostic "recipe.resolution-failed" "/recipe"
          ("Recipe resolver ".toList ++ key ++ " failed.".toList)]
      | some resolution => .ok { plan, profile, resolution := resolution.norm }
  | diagnostics => .error diagnostics

/-- `compileRepositoryTaskPlan`. -/
def compileRepositoryTaskPlan (T : Tools) (resolvers : JsString → Option Resolver)
    (authoredPlan : AuthoredPlan) (profileInput : Json) : Except (List Diagnostic) GenerationGraph := do
  let resolved ← resolveRecipe T resolvers authoredPlan profileInput
  compileResolution T resolved.plan resolved.profile resolved.resolution

end FactoryFloor
