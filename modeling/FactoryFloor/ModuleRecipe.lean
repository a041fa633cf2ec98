import FactoryFloor.CodePoints
import FactoryFloor.GraphReplay
import FactoryFloor.JsObjects
import FactoryFloor.Separators

/-!
# The recipe of a TypeScript module

`resolve-typescript-module-recipe.mjs` : the inputs of the recipe are normalised, a module and its test
are rendered from them, and the files of a snapshot are reconciled with these texts and with the line
that exports the module. What is not there yet is proposed as file operations.

The checks that do not see the files come first. `recipeContext` is what they compute, and `reconcile`
is the rest. `renderValueLines` makes an object canonical before it lists its members. Here the values
are canonical already, and making them canonical once more changes nothing (`canonicalValue_idem`).
-/

namespace FactoryFloor

open JsonText

namespace ModuleRecipe

/-! ## Values -/

mutual

/-- `canonicalValue`. -/
def canonicalValue : JsValue → JsValue
  | .arr items => .arr (canonicalItems items)
  | .obj members => .obj (defineMembers (sortMembers (canonicalMembers members)))
  | value => value

def canonicalItems : List JsValue → List JsValue
  | [] => []
  | item :: items => canonicalValue item :: canonicalItems items

def canonicalMembers : List (Utf16 × JsValue) → List (Utf16 × JsValue)
  | [] => []
  | (key, value) :: members => (key, canonicalValue value) :: canonicalMembers members

end

/-- `value.trim().replace(/\s+/g, ' ')`. -/
def collapseText (value : Utf16) : Utf16 :=
  go (trimText value)
where
  go : Utf16 → Utf16
    | [] => []
    | c :: text =>
      if isWhiteSpace c then
        match go text with
        | 32 :: rest => 32 :: rest
        | rest => 32 :: rest
      else c :: go text

/-! ## Rendering -/

/-- `value.replaceAll(pattern, replacement)` of a pattern of one code unit. -/
def replaceUnit (pattern : CodeUnit) (replacement value : Utf16) : Utf16 :=
  value.flatMap fun c => if c = pattern then replacement else [c]

/-- `quoteString`. -/
def quoteString (value : Utf16) : Utf16 :=
  let backslashes := replaceUnit 92 (ascii "\\\\") value
  let quotes := replaceUnit 39 (ascii "\\'") backslashes
  let returns := replaceUnit 13 (ascii "\\r") quotes
  let feeds := replaceUnit 10 (ascii "\\n") returns
  let lineSeparators := replaceUnit 0x2028 (ascii "\\u2028") feeds
  let paragraphSeparators := replaceUnit 0x2029 (ascii "\\u2029") lineSeparators
  39 :: paragraphSeparators ++ [39]

/-- `renderScalar`. -/
def renderScalar : JsValue → Utf16
  | .str s => quoteString s
  | value => stringify value

/-- `' '.repeat(n)`. -/
def spaces (n : ℕ) : Utf16 :=
  List.replicate n 32

/-- `lines[lines.length - 1] += suffix`. -/
def appendLast (suffix : Utf16) : List Utf16 → List Utf16
  | [] => []
  | [line] => [line ++ suffix]
  | line :: lines => line :: appendLast suffix lines

/-- `line.trimStart()`. -/
def trimStart (line : Utf16) : Utf16 :=
  line.dropWhile isWhiteSpace

/-- Whether a value is neither an array nor an object. -/
def isScalar : JsValue → Bool
  | .arr _ | .obj _ => false
  | _ => true

/-- The lines of one property, where `child` is the lines of its value. -/
def propertyLines (indentation : ℕ) (key : Utf16) (entry : JsValue) (child : List Utf16) :
    List Utf16 :=
  let propertyIndent := spaces (indentation + 2)
  if isScalar entry then
    let scalar := renderScalar entry
    let oneLine := propertyIndent ++ key ++ ascii ": " ++ scalar ++ ascii ","
    if oneLine.length ≤ 80 then [oneLine]
    else [propertyIndent ++ key ++ ascii ":", spaces (indentation + 4) ++ scalar ++ ascii ","]
  else
    match child with
    | [] => []
    | first :: rest =>
      appendLast (ascii ",") ((propertyIndent ++ key ++ ascii ": " ++ trimStart first) :: rest)

mutual

/-- `renderValueLines` of a canonical value. -/
def renderValueLines (indentation : ℕ) : JsValue → List Utf16
  | .arr items =>
    if items.isEmpty then [spaces indentation ++ ascii "[]"]
    else (spaces indentation ++ ascii "[") :: renderItems indentation items ++
      [spaces indentation ++ ascii "]"]
  | .obj members =>
    if members.isEmpty then [spaces indentation ++ ascii "\x7b\x7d"]
    else (spaces indentation ++ ascii "\x7b") :: renderMembers indentation members ++
      [spaces indentation ++ ascii "\x7d"]
  | value => [spaces indentation ++ renderScalar value]

def renderItems (indentation : ℕ) : List JsValue → List Utf16
  | [] => []
  | item :: items => appendLast (ascii ",") (renderValueLines (indentation + 2) item) ++
      renderItems indentation items

def renderMembers (indentation : ℕ) : List (Utf16 × JsValue) → List Utf16
  | [] => []
  | (key, entry) :: members =>
    propertyLines indentation key entry (renderValueLines (indentation + 2) entry) ++
      renderMembers indentation members

end

/-- The lines of a value that may be `undefined`. -/
def renderOptionLines (indentation : ℕ) : Option JsValue → List Utf16
  | some value => renderValueLines indentation value
  | none => [spaces indentation ++ ascii "undefined"]

/-- `lines.join(separator)`. -/
def joinLines (separator : Utf16) : List Utf16 → Utf16
  | [] => []
  | [line] => line
  | line :: lines => line ++ separator ++ joinLines separator lines

/-- `renderValue`. -/
def renderValue (value : Option JsValue) : Utf16 :=
  joinLines [10] (renderOptionLines 0 value)

structure RecipeExport where
  name : Utf16
  typeName : Utf16
  value : Option JsValue

structure RecipeTestCase where
  name : Utf16
  exportName : Utf16
  expected : Option JsValue

/-- The statements of one export. -/
def renderExport (entry : RecipeExport) : Utf16 :=
  ascii "export const " ++ entry.name ++ ascii " = " ++ renderValue entry.value ++
    ascii " as const;\n\nexport type " ++ entry.typeName ++ ascii " =\n  typeof " ++ entry.name ++
    ascii ";"

/-- `renderModule`. -/
def renderModule (exports : List RecipeExport) : Utf16 :=
  joinLines [10, 10] (exports.map renderExport) ++ [10]

/-- The suite of one test case. -/
def renderSuite (testCase : RecipeTestCase) : Utf16 :=
  let expectedLines := renderOptionLines 4 testCase.expected
  ascii "describe('" ++ testCase.exportName ++ ascii "', () => \x7b\n  it(" ++
    quoteString testCase.name ++ ascii ", () => \x7b\n    expect(" ++ testCase.exportName ++
    ascii ").toEqual(" ++ trimStart (expectedLines.headD []) ++ [10] ++
    joinLines [10] expectedLines.tail ++ ascii ");\n  \x7d);\n\x7d);"

/-- `names.sort(compareStrings)`. -/
def sortNames (names : List Utf16) : List Utf16 :=
  names.insertionSort fun s t => keyLe s t

/-- `renderTest`. -/
def renderTest (moduleName : Utf16) (exports : List RecipeExport)
    (testCases : List RecipeTestCase) : Utf16 :=
  ascii "import \x7b describe, expect, it \x7d from 'vitest';\nimport \x7b " ++
    joinLines (ascii ", ") (sortNames (exports.map (·.name))) ++ ascii " \x7d from '../src/" ++
    moduleName ++ ascii ".js';\n\n" ++ joinLines [10, 10] (testCases.map renderSuite) ++ [10]

/-! ## Inputs -/

/-- The letters of `[A-Za-z_$]`. -/
def isIdentifierStart (c : CodeUnit) : Bool :=
  65 ≤ c.val && c.val ≤ 90 || 97 ≤ c.val && c.val ≤ 122 || c = 95 || c = 36

/-- `isIdentifier`, of a string. -/
def isIdentifier : Utf16 → Bool
  | [] => false
  | c :: rest => isIdentifierStart c && rest.all fun d => isIdentifierStart d || isDigit d

/-- A property that is an identifier. -/
def identifierAt (value : JsValue) (name : String) : Option Utf16 :=
  match property? value name with
  | some (.str s) => if isIdentifier s then some s else none
  | _ => none

/-- A property that is a string. -/
def stringAt (value : JsValue) (name : String) : Option Utf16 :=
  match property? value name with
  | some (.str s) => some s
  | _ => none

/-- A property that is an array. -/
def arrayAt (value : JsValue) (name : String) : Option (List JsValue) :=
  match property? value name with
  | some (.arr items) => some items
  | _ => none

/-- An element of `exports`. -/
def exportOf (entry : JsValue) : Option RecipeExport := do
  let name ← identifierAt entry "name"
  let typeName ← identifierAt entry "typeName"
  return { name, typeName, value := (property? entry "value").map canonicalValue }

/-- An element of `testCases`. -/
def testCaseOf (entry : JsValue) : Option RecipeTestCase := do
  let name ← stringAt entry "name"
  let exportName ← identifierAt entry "exportName"
  if (collapseText name).isEmpty then none
  else return { name := collapseText name, exportName,
                expected := (property? entry "expected").map canonicalValue }

structure RecipeInputs where
  package : Utf16
  moduleName : Utf16
  responsibility : Utf16
  exports : List RecipeExport
  testCases : List RecipeTestCase

/-- `[testCase.exportName, testCase.name].join('\0')`. -/
def RecipeTestCase.sortKey (testCase : RecipeTestCase) : Utf16 :=
  testCase.exportName ++ 0 :: testCase.name

/-- `normalizeInputs`. -/
def normalizeInputs (inputs : JsValue) : Option RecipeInputs := do
  let package ← stringAt inputs "package"
  let moduleName ← stringAt inputs "moduleName"
  let responsibility ← stringAt inputs "responsibility"
  let exports ← (← arrayAt inputs "exports").mapM exportOf
  let testCases ← (← arrayAt inputs "testCases").mapM testCaseOf
  if exports.isEmpty || testCases.isEmpty then none
  else return {
    package := trimText package, moduleName := trimText moduleName
    responsibility := collapseText responsibility
    exports := exports.insertionSort fun e f => keyLe e.name f.name
    testCases := testCases.insertionSort fun t u => keyLe t.sortKey u.sortKey }

/-- `/^[a-z][a-z0-9-]{0,63}$/`. -/
def isKebabCase : Utf16 → Bool
  | [] => false
  | c :: rest => 97 ≤ c.val && c.val ≤ 122 && decide (rest.length ≤ 63) &&
      rest.all fun d => 97 ≤ d.val && d.val ≤ 122 || isDigit d || d = 45

/-! ## Declared names -/

/-- `/\w/`. -/
def isWordUnit (c : CodeUnit) : Bool :=
  65 ≤ c.val && c.val ≤ 90 || 97 ≤ c.val && c.val ≤ 122 || isDigit c || c = 95

/-- `\b` between what is before and what is after. -/
def wordBoundary (before after : Option CodeUnit) : Bool :=
  (before.any isWordUnit) != (after.any isWordUnit)

/-- The keywords of `declaredNamePattern`. -/
def declarationKeywords : List Utf16 :=
  ["const", "let", "var", "function", "class", "interface", "type", "enum"].map ascii

/-- The rest of a text after a first part, and nothing when it does not begin with it. -/
def after? (first text : Utf16) : Option Utf16 :=
  if first.isPrefixOf text then some (text.drop first.length) else none

/-- The rest after `\s+`. -/
def afterSpace? (text : Utf16) : Option Utf16 :=
  if text.head?.any isWhiteSpace then some (text.dropWhile isWhiteSpace) else none

/-- A keyword, `\s+` and the name, at the start of a text. -/
def declarationAt (name text : Utf16) : Bool :=
  declarationKeywords.any fun keyword =>
    (((after? keyword text).bind afterSpace?).bind (after? name)).any fun rest =>
      wordBoundary name.getLast? rest.head?

/-- `declaredNamePattern(name).test(text)`, from a place on that has a code unit before it. -/
def declaresFrom (name : Utf16) (before : Option CodeUnit) : Utf16 → Bool
  | [] => false
  | c :: text =>
    wordBoundary before (some c) &&
      (declarationAt name (c :: text) ||
        ((after? (ascii "export") (c :: text)).bind afterSpace?).any (declarationAt name)) ||
    declaresFrom name (some c) text

/-- `declaredNamePattern(name).test(text)`. -/
def declares (name text : Utf16) : Bool :=
  declaresFrom name none text

/-! ## Before the files -/

/-- A text as the characters of a string. -/
def characters (text : Utf16) : JsString :=
  (points text).map scalar

/-- `diagnostic`, with a message of some texts. -/
def recipeDiagnostic (code path : String) (message : List Utf16) : Diagnostic :=
  diagnostic code path (characters message.flatten)

/-- An output of the plan with its index. `outputs` keeps the last one with a name. -/
def declaredOutput (plan : NormalizedPlan) (name : String) : Option (DeclaredOutput × ℕ) :=
  plan.outputs.zipIdx.reverse.find? (·.1.name = name.toList)

/-- What the resolver knows before it looks at the files. -/
structure RecipeContext where
  inputs : RecipeInputs
  packageIndex : ℕ
  recipeKey : JsString
  sourcePath : Utf16
  testPath : Utf16
  publicExportPath : Utf16
  implementation : DeclaredOutput × ℕ
  publicExport : DeclaredOutput × ℕ
  unitTest : DeclaredOutput × ℕ

/-- The checks of one expected output. -/
def expectedOutput (plan : NormalizedPlan) (name : String) (expectedPath : Utf16) :
    Except Diagnostic (DeclaredOutput × ℕ) :=
  let mismatch := recipeDiagnostic "recipe.output-path-mismatch" "/outputs"
    [ascii "Output ", ascii name, ascii " must target ", expectedPath, ascii "."]
  match declaredOutput plan name with
  | none => .error mismatch
  | some (output, index) =>
    if utf16 output.path ≠ expectedPath then .error mismatch
    else if output.mediaType ≠ "text/typescript".toList then
      .error (recipeDiagnostic "recipe.output-media-type-mismatch"
        (pointer "outputs" index "/mediaType")
        [ascii "Output ", ascii name, ascii " must use text/typescript."])
    else .ok (output, index)

/-- Whether the export names, and the type names, are distinct. -/
def namesDistinct (exports : List RecipeExport) : Bool :=
  decide (exports.map (·.name)).Nodup && decide (exports.map (·.typeName)).Nodup

/-- `resolveTypescriptModuleRecipe`, up to the files. -/
def recipeContext (plan : NormalizedPlan) (profile : RepositoryProfile) :
    Except Diagnostic RecipeContext :=
  match normalizeInputs (jsonValue plan.recipe.inputs) with
  | none => .error (recipeDiagnostic "recipe.invalid-inputs" "/recipe/inputs"
      [ascii "The TypeScript module recipe requires responsibility, ",
        ascii "structured exports, and test cases."])
  | some inputs =>
    if !isKebabCase inputs.moduleName then
      .error (recipeDiagnostic "recipe.invalid-module-name" "/recipe/inputs/moduleName"
        [ascii "Module name ", stringify (.str inputs.moduleName), ascii " is not kebab-case."])
    else
      let packageIndex := profile.packages.findIdx (utf16 ·.name = inputs.package)
      match profile.packages[packageIndex]? with
      | none => .error (recipeDiagnostic "recipe.package-unknown" "/recipe/inputs/package"
          [ascii "Package ", inputs.package, ascii " is not declared by the repository profile."])
      | some packageEntry => do
        let directory := utf16 packageEntry.path ++ ascii "/"
        let sourcePath := directory ++ utf16 packageEntry.sourceDirectory ++ ascii "/" ++
          inputs.moduleName ++ ascii ".ts"
        let testPath := directory ++ utf16 packageEntry.testDirectory ++ ascii "/" ++
          inputs.moduleName ++ ascii ".test.ts"
        let publicExportPath := directory ++ utf16 packageEntry.publicExportPath
        let implementation ← expectedOutput plan "implementation" sourcePath
        let publicExport ← expectedOutput plan "public-export" publicExportPath
        let unitTest ← expectedOutput plan "unit-test" testPath
        if !namesDistinct inputs.exports then
          .error (recipeDiagnostic "recipe.duplicate-export" "/recipe/inputs/exports"
            [ascii "Declared export names and type names must be unique."])
        else match inputs.testCases.find? (·.exportName ∉ inputs.exports.map (·.name)) with
          | some testCase =>
            .error (recipeDiagnostic "recipe.test-export-unknown" "/recipe/inputs/testCases"
              [ascii "Test case references undeclared export ", testCase.exportName, ascii "."])
          | none => .ok {
              inputs, packageIndex, sourcePath, testPath, publicExportPath, implementation,
              publicExport, unitTest
              recipeKey := plan.recipe.name ++ '@' :: plan.recipe.version }

/-! ## The files -/

/-- `repositorySnapshot.files`. -/
abbrev SnapshotFiles := List (Utf16 × JsValue)

/-- A proposal of `operationFor`. -/
structure ModuleOperation where
  outputName : String
  operation : FileOperation
  path : JsString
  mediaType : JsString
  content : Utf16
  contentDigest : Digest
  dependsOn : List JsString
  attribution : List Attribution
  expectedDigest : Option Digest
deriving DecidableEq

/-- `operation:${outputName}`. -/
def operationId (outputName : String) : JsString :=
  "operation:".toList ++ outputName.toList

def ModuleOperation.id (o : ModuleOperation) : JsString :=
  operationId o.outputName

/-- `operationFor`, where `dependsOn` is the output names of the operations before it. -/
def operationFor (H : Sha256) (context : RecipeContext) (outputName : String)
    (declared : DeclaredOutput × ℕ) (operation : FileOperation) (content : Utf16)
    (dependsOn : List String) (previousContent : Option Utf16) : ModuleOperation where
  outputName := outputName
  operation := operation
  path := declared.1.path
  mediaType := declared.1.mediaType
  content := content
  contentDigest := H.digest content
  dependsOn := planNodeId :: profileNodeId :: dependsOn.map operationId
  attribution :=
    [⟨.plan, (pointer "outputs" declared.2 "").toList⟩,
      ⟨.profile, (pointer "packages" context.packageIndex "").toList⟩,
      ⟨.recipe, context.recipeKey ++ '/' :: outputName.toList⟩]
  expectedDigest := previousContent.map H.digest

/-- `currentIndex.split(/\r?\n/)`. -/
def splitLines (text : Utf16) : List Utf16 :=
  let segments := Separators.splitEvery 10 text
  (segments.dropLast.map fun line => if line.getLast? = some 13 then line.dropLast else line) ++
    segments.getLast?.toList

/-- `text.trimEnd()`. -/
def trimEnd (text : Utf16) : Utf16 :=
  text.rdropWhile isWhiteSpace

namespace RecipeContext

variable (context : RecipeContext)

def moduleContent : Utf16 :=
  renderModule context.inputs.exports

def testContent : Utf16 :=
  renderTest context.inputs.moduleName context.inputs.exports context.inputs.testCases

def publicExportStatement : Utf16 :=
  ascii "export * from './" ++ context.inputs.moduleName ++ ascii ".js';"

/-- The index with the export statement. -/
def indexContent (currentIndex : Utf16) : Utf16 :=
  if context.publicExportStatement ∈ splitLines currentIndex then currentIndex
  else trimEnd currentIndex ++ [10] ++ context.publicExportStatement ++ [10]

/-- A file that declares one of the exported names, and the name. -/
def nameConflict (files : SnapshotFiles) : Option (Utf16 × Utf16) :=
  files.findSome? fun file =>
    match file.2 with
    | .str content =>
      if file.1 = context.sourcePath ∨ file.1 = context.testPath then none
      else ((context.inputs.exports.map (·.name)).find? (declares · content)).map (file.1, ·)
    | _ => none

def implementationOperation (H : Sha256) : ModuleOperation :=
  operationFor H context "implementation" context.implementation .create context.moduleContent [] none

def publicExportOperation (H : Sha256) (currentIndex : Utf16) : ModuleOperation :=
  operationFor H context "public-export" context.publicExport .update
    (context.indexContent currentIndex) ["implementation"] (some currentIndex)

def unitTestOperation (H : Sha256) : ModuleOperation :=
  operationFor H context "unit-test" context.unitTest .create context.testContent ["implementation"]
    none

/-- The operations that are proposed. -/
def operations (H : Sha256) (files : SnapshotFiles) (currentIndex : Utf16) : List ModuleOperation :=
  (if files.lookup context.sourcePath = none then [context.implementationOperation H] else []) ++
  (if currentIndex ≠ context.indexContent currentIndex then
    [context.publicExportOperation H currentIndex] else []) ++
  (if files.lookup context.testPath = none then [context.unitTestOperation H] else [])

end RecipeContext

/-- `Buffer.byteLength` of the contents, together. -/
def patchBytes (operations : List ModuleOperation) : ℕ :=
  (operations.map fun o => (encodeText o.content).length).sum

/-- Whether a file is there with a text that is not the expected one. -/
def isConflicting (files : SnapshotFiles) (path content : Utf16) : Bool :=
  match files.lookup path with
  | none => false
  | some (.str current) => current ≠ content
  | some _ => true

/-- `resolveTypescriptModuleRecipe`, from the files on. After the checks, a module or a test is absent
or as it would be rendered. -/
def reconcile (H : Sha256) (maxPatchBytes : ℕ) (context : RecipeContext) (files : SnapshotFiles) :
    Except Diagnostic (List ModuleOperation) :=
  match files.lookup context.publicExportPath with
  | some (.str currentIndex) =>
    match context.nameConflict files with
    | some (path, name) => .error (recipeDiagnostic "recipe.export-name-conflict"
        "/recipe/inputs/exports"
        [ascii "Export name ", name, ascii " is already declared in ", path, ascii "."])
    | none =>
      if isConflicting files context.sourcePath context.moduleContent then
        .error (recipeDiagnostic "recipe.existing-module-conflict" "/repositorySnapshot"
          [ascii "Existing module ", context.sourcePath,
            ascii " cannot be reconciled conservatively."])
      else if isConflicting files context.testPath context.testContent then
        .error (recipeDiagnostic "recipe.existing-test-conflict" "/repositorySnapshot"
          [ascii "Existing test ", context.testPath,
            ascii " cannot be reconciled conservatively."])
      else
        let operations := context.operations H files currentIndex
        if maxPatchBytes < patchBytes operations then
          .error (recipeDiagnostic "recipe.max-patch-bytes-exceeded" "/resourceBounds/maxPatchBytes"
            [ascii "Recipe proposal requires ", natText (patchBytes operations),
              ascii " bytes but the plan allows ", natText maxPatchBytes, ascii "."])
        else .ok operations
  | _ => .error (recipeDiagnostic "recipe.public-export-file-missing" "/repositorySnapshot"
      [ascii "Public export file ", context.publicExportPath,
        ascii " is not present in the repository snapshot."])

/-- `resolveTypescriptModuleRecipe`. -/
def resolveTypescriptModuleRecipe (H : Sha256) (plan : NormalizedPlan) (profile : RepositoryProfile)
    (files : SnapshotFiles) : Except Diagnostic (List ModuleOperation) := do
  let context ← recipeContext plan profile
  reconcile H plan.resourceBounds.maxPatchBytes context files

/-! ## Canonical values -/

theorem canonicalItems_eq (items : List JsValue) :
    canonicalItems items = items.map canonicalValue := by
  induction items with
  | nil => rfl
  | cons item items ih => rw [canonicalItems, ih, List.map_cons]

theorem canonicalMembers_eq (members : List (Utf16 × JsValue)) :
    canonicalMembers members = members.map (mapValue canonicalValue) := by
  induction members with
  | nil => rfl
  | cons m members ih =>
    obtain ⟨key, value⟩ := m
    rw [canonicalMembers, ih, List.map_cons]
    rfl

/-- The members of a canonical object. -/
theorem canonical_perm {members : List (Utf16 × JsValue)} (hkeys : (members.map Prod.fst).Nodup) :
    (defineMembers (sortMembers (members.map (mapValue canonicalValue)))).Perm
      (members.map (mapValue canonicalValue)) := by
  have hsorted := sortMembers_perm (members.map (mapValue canonicalValue))
  have hnodup : ((sortMembers (members.map (mapValue canonicalValue))).map Prod.fst).Nodup := by
    rw [(hsorted.map Prod.fst).nodup_iff, map_fst_mapValue]
    exact hkeys
  exact (defineMembers_perm hnodup).trans hsorted

theorem isJson_canonicalValue {v : JsValue} (h : IsJson v) : IsJson (canonicalValue v) := by
  induction h with
  | arr _ ih =>
    rw [canonicalValue, canonicalItems_eq]
    refine .arr fun item hitem => ?_
    obtain ⟨item, hmem, rfl⟩ := List.mem_map.1 hitem
    exact ih item hmem
  | @obj members hkeys _ ih =>
    have hperm := canonical_perm hkeys
    rw [canonicalValue, canonicalMembers_eq]
    refine .obj ?_ fun m hm => ?_
    · rw [(hperm.map Prod.fst).nodup_iff, map_fst_mapValue]
      exact hkeys
    · obtain ⟨m, hmem, rfl⟩ := List.mem_map.1 (hperm.mem_iff.1 hm)
      exact ih m hmem
  | _ => constructor

/-- A canonical value is canonical in all its parts. -/
theorem canonicalValue_idem {v : JsValue} (h : IsJson v) :
    canonicalValue (canonicalValue v) = canonicalValue v := by
  induction h with
  | arr _ ih =>
    rw [canonicalValue, canonicalValue, canonicalItems_eq, canonicalItems_eq, List.map_map]
    exact congrArg _ (List.map_congr_left ih)
  | @obj members hkeys _ ih =>
    have hperm := canonical_perm hkeys
    have hfixed : (members.map (mapValue canonicalValue)).map (mapValue canonicalValue) =
        members.map (mapValue canonicalValue) := by
      rw [List.map_map]
      refine List.map_congr_left fun m hm => ?_
      simp only [Function.comp_apply, mapValue, ih m hm]
    have hnodup : ((members.map (mapValue canonicalValue)).map Prod.fst).Nodup := by
      rw [map_fst_mapValue]
      exact hkeys
    have hsame := sortMembers_congr (hperm.map (mapValue canonicalValue)) (hfixed.symm ▸ hnodup)
    rw [canonicalValue, canonicalValue, canonicalMembers_eq, canonicalMembers_eq, hsame, hfixed]
  | _ => rfl

end ModuleRecipe

end FactoryFloor
