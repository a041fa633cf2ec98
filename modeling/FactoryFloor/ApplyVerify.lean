import FactoryFloor.FileTrees
import FactoryFloor.JsObjects
import FactoryFloor.Relational
import FactoryFloor.Separators
import FactoryFloor.Utf8

/-!
# Applying a generation graph

`apply-verify-service.ts` : the file operations of a generation graph are read and checked
(`fileOperations`), compared with the worktree (`preflight`), and applied to it (`applyOperations`).

A worktree is a tree of `FileTrees`, whose names are the texts between the slashes of a path. An
operation that fails leaves what the operations before it have written.

Preflight compares every operation with the worktree as it is before the first one. It is sound where
files are read as they are, and each operation leaves room for those after it
(`preflight_sound_iff`). A file and a file below it can both be created for preflight, and not one
after the other (`file_below_created_file`).
-/

namespace FactoryFloor.ApplyVerify

open JsonText FileTrees

/-- SHA-256 of bytes, as a hexadecimal text. -/
structure Sha256 where
  digest : List UInt8 → Utf16
  hex : ∀ bytes, ∀ c ∈ digest bytes, (digitValue c).isSome
  length : ∀ bytes, (digest bytes).length = 64

/-- `sha256` of a text. -/
def Sha256.ofText (H : Sha256) (value : Utf16) : Utf16 :=
  H.digest (encodeText value)

/-- What is thrown : a diagnostic, or an error of the file system. -/
inductive Failure where
  | diagnostic (code : String) (message : Utf16) (path : Option Utf16)
  | system (errno : Errno)
deriving DecidableEq

/-- `fail`. -/
def fail {α : Type} (code : String) (message path : Utf16) : Except Failure α :=
  .error (.diagnostic code message (if path = [] then none else some path))

/-- A check, and the failure when it does not pass. -/
def require (passes : Bool) (code : String) (message path : Utf16) : Except Failure Unit :=
  if passes then .ok () else fail code message path

/-- A text in two others. -/
def quoted (before : String) (text : Utf16) (rest : String) : Utf16 :=
  ascii before ++ text ++ ascii rest

/-! ## Operations of a graph -/

/-- What is read of a normalized plan. -/
structure NormalizedPlan where
  allowedPaths : List Utf16
  /-- The names and paths of the outputs. -/
  outputs : List (Utf16 × Utf16)
  maxFiles : ℕ
  maxPatchBytes : ℕ

/-- What is read of the input of an execution. -/
structure ExecutionInput where
  normalizedPlan : NormalizedPlan
  pathBoundaries : List Utf16
  nodes : List JsValue

/-- An operation of a graph, with the value that names it. -/
structure FileOperation where
  id : Utf16
  operation : JsValue
  path : Utf16
  content : Option Utf16
  contentDigest : Option Utf16
  expectedDigest : Option Utf16

/-- `value === text`. -/
def isText (text : String) : JsValue → Bool
  | .str s => s = ascii text
  | _ => false

def FileOperation.isCreate (o : FileOperation) : Bool :=
  isText "create" o.operation

def FileOperation.isDelete (o : FileOperation) : Bool :=
  isText "delete" o.operation

/-- The word that `String(value)` is, when it can be one : an array of one value is written as it,
and every other value with a character that is no letter, or as no operation. -/
def wordOf : JsValue → Option Utf16
  | .str s => some s
  | .arr [item] => wordOf item
  | _ => none

/-- A property that is a string. -/
def text? (value : JsValue) (name : String) : Option Utf16 :=
  match property? value name with
  | some (.str s) => some s
  | _ => none

/-- `/^[A-Za-z]:/.test(value)`. -/
def hasDrive : Utf16 → Bool
  | c :: 58 :: _ => 65 ≤ c.val && c.val ≤ 90 || 97 ≤ c.val && c.val ≤ 122
  | _ => false

/-- The names of a path. -/
def segments (path : Utf16) : List Utf16 :=
  Separators.splitEvery 47 path

def safePath (value : Utf16) : Bool :=
  !(value.isEmpty || value.head? = some 47 || 92 ∈ value || 0 ∈ value || hasDrive value) &&
    !(segments value).any fun segment =>
      segment.isEmpty || segment = ascii "." || segment = ascii ".." || segment = ascii ".git"

def pathMatches (path constraint : Utf16) : Bool :=
  if (ascii "/**").isSuffixOf constraint then
    let start := constraint.take (constraint.length - 3)
    path = start || (start ++ [47]).isPrefixOf path
  else path = constraint

/-- The operation of a node. The paths of the operations before it are taken. -/
def fileOperation (H : Sha256) (input : ExecutionInput) (paths : List Utf16) (node : JsValue) :
    Except Failure FileOperation :=
  match text? node "id", property? node "operation", text? node "path",
      text? node "outputName" with
  | some id, some operation, some path, some outputName => do
    let plan := input.normalizedPlan
    require (wordOf operation ∈ ["create", "update", "delete"].map (some ∘ ascii))
      "executor.operation-invalid" (ascii "The generation graph contains an invalid file operation.") []
    require (safePath path) "executor.path-unsafe"
      (quoted "Operation path " path " is unsafe.") path
    require (plan.allowedPaths.any (pathMatches path)) "executor.path-not-allowed"
      (quoted "Operation path " path " is outside the authored plan boundaries.") path
    require (input.pathBoundaries.any (pathMatches path)) "executor.path-outside-profile"
      (quoted "Operation path " path " is outside the repository profile.") path
    -- the last output of a name is the one in the map
    require (plan.outputs.reverse.lookup outputName = some path) "executor.output-mismatch"
      (quoted "Operation " id " does not match its declared output.") path
    require (path ∉ paths) "executor.duplicate-path"
      (quoted "Multiple operations target " path ".") path
    let content := text? node "content"
    let contentDigest := text? node "contentDigest"
    let expectedDigest := text? node "expectedDigest"
    require (isText "delete" operation ||
        content.isSome && contentDigest.isSome && content.map H.ofText = contentDigest)
      "executor.content-digest-mismatch"
      (quoted "Operation " id " has invalid retained content.") path
    require (isText "create" operation || expectedDigest.map List.length = some 64)
      "executor.expected-digest-missing"
      (quoted "Operation " id " must identify the bytes it expects to replace.") path
    return ⟨id, operation, path, content, contentDigest, expectedDigest⟩
  | _, _, _, _ => fail "executor.operation-invalid"
      (ascii "The generation graph contains an invalid file operation.") []

/-- The loop of `fileOperations`. -/
def operationsOf (H : Sha256) (input : ExecutionInput) :
    List Utf16 → List JsValue → Except Failure (List FileOperation)
  | _, [] => .ok []
  | paths, node :: nodes =>
    if text? node "kind" = some (ascii "file-operation") then do
      let operation ← fileOperation H input paths node
      let operations ← operationsOf H input (operation.path :: paths) nodes
      return operation :: operations
    else operationsOf H input paths nodes

/-- `Buffer.byteLength` of a content. -/
def contentBytes (operation : FileOperation) : ℕ :=
  (encodeText (operation.content.getD [])).length

def fileOperations (H : Sha256) (input : ExecutionInput) : Except Failure (List FileOperation) := do
  let operations ← operationsOf H input [] input.nodes
  require (operations.length ≤ input.normalizedPlan.maxFiles) "executor.max-files-exceeded"
    (ascii "The generation graph exceeds the plan file limit.") []
  require ((operations.map contentBytes).sum ≤ input.normalizedPlan.maxPatchBytes)
    "executor.max-patch-bytes-exceeded"
    (ascii "The retained operation content exceeds the plan patch limit.") []
  return operations

/-! ## The worktree -/

/-- A worktree : its files hold bytes. -/
abbrev Files := Tree Utf16 (List UInt8)

/-- The loop of `rejectSymlinks`, from a directory that it has come to. -/
def rejectSymlinks (t : Files) (path : Utf16) : List Utf16 → List Utf16 → Except Failure Unit
  | _, [] => .ok ()
  | current, segment :: rest =>
    match lstat t (current ++ [segment]) with
    | .ok .link => fail "executor.symlink-path"
        (quoted "Operation path " path " traverses a symbolic link.") path
    | .ok _ => rejectSymlinks t path (current ++ [segment]) rest
    | .error .noEntry => .ok ()
    | .error errno => .error (.system errno)

/-- The text of a target, and nothing when there is no target. -/
def currentText (t : Files) (path : Utf16) : Except Failure (Option Utf16) :=
  match lstat t (segments path) with
  | .ok (.file bytes) => .ok (some (decodeText bytes))
  | .ok _ => fail "executor.target-not-file"
      (quoted "Operation target " path " is not a regular file.") path
  | .error .noEntry => .ok none
  | .error errno => .error (.system errno)

/-- A step of the loop of `preflight`. -/
def preflightOperation (H : Sha256) (t : Files) (operation : FileOperation) :
    Except Failure Unit := do
  rejectSymlinks t operation.path [] (segments operation.path)
  let bytes ← currentText t operation.path
  require (!operation.isCreate || bytes = none) "executor.create-conflict"
    (quoted "Create target " operation.path " already exists.") operation.path
  require (operation.isCreate || bytes.isSome && bytes.map H.ofText = operation.expectedDigest)
    "executor.mutation-conflict"
    (quoted "Target " operation.path " does not match the reviewed bytes.") operation.path

def preflight (H : Sha256) (t : Files) (operations : List FileOperation) : Except Failure Unit :=
  operations.forM (preflightOperation H t)

/-- What changes a worktree. -/
abbrev Worktree := EStateM Failure Files

/-- A change by the file system. -/
def change (f : Files → Except Errno Files) : Worktree Unit := fun t =>
  match f t with
  | .ok s => .ok () s
  | .error errno => .error (.system errno) t

/-- The name of a file on its way to a path. -/
def temporaryPath (path digest : Utf16) : Utf16 :=
  path ++ ascii ".factory-floor-" ++ digest ++ ascii ".tmp"

/-- A step of the loop of `applyOperations`. -/
def applyOperation (operation : FileOperation) : Worktree Unit :=
  let absolute := segments operation.path
  if operation.isDelete then change (unlink · absolute)
  else do
    change (makeDirectories · absolute.dropLast)
    let temporary := segments (temporaryPath operation.path (operation.contentDigest.getD []))
    change (writeNew · temporary (encodeText (operation.content.getD [])))
    change (renameFile · temporary absolute)

def applyOperations (operations : List FileOperation) : Worktree Unit :=
  operations.forM applyOperation

/-- The operations are compared with the worktree, and then applied to it. -/
def changeWorktree (H : Sha256) (operations : List FileOperation) : Worktree Unit := do
  match preflight H (← get) operations with
  | .ok _ => applyOperations operations
  | .error failure => throw failure

/-! ## What is read of a graph -/

/-- An operation that writes a file has retained its content. -/
def Retained (H : Sha256) (o : FileOperation) : Prop :=
  o.isDelete = false → ∃ content, o.content = some content ∧ o.contentDigest = some (H.ofText content)

section Read

variable {H : Sha256} {input : ExecutionInput} {paths : List Utf16} {node : JsValue}
  {o : FileOperation} {operations : List FileOperation}

theorem require_eq_ok {passes : Bool} {code : String} {message path : Utf16} {u : Unit} :
    require passes code message path = .ok u ↔ passes = true := by
  rw [require]
  split_ifs with hpasses
  · exact iff_of_true rfl hpasses
  · exact iff_of_false (by simp [fail]) hpasses

theorem fileOperation_eq_ok (h : fileOperation H input paths node = .ok o) :
    o.path ∉ paths ∧ Retained H o := by
  rw [fileOperation] at h
  split at h
  · dsimp only at h
    simp only [Except.bind_eq_ok, require_eq_ok, exists_and_left, exists_const] at h
    obtain ⟨-, -, -, -, -, hpath, hcontent, -, h⟩ := h
    obtain rfl := Except.ok.inj h
    refine ⟨by simpa using hpath, fun hdelete => ?_⟩
    rw [FileOperation.isDelete] at hdelete
    simp only [hdelete, Bool.false_or, Bool.and_eq_true, decide_eq_true_eq] at hcontent
    obtain ⟨content, hsome⟩ := Option.isSome_iff_exists.1 hcontent.1.1
    refine ⟨content, hsome, ?_⟩
    rw [← hcontent.2, hsome]
    rfl
  · cases h

theorem operationsOf_eq_ok {nodes : List JsValue} (h : operationsOf H input paths nodes = .ok operations) :
    (∀ o ∈ operations, Retained H o) ∧ (operations.map (·.path)).Nodup ∧
      ∀ o ∈ operations, o.path ∉ paths := by
  induction nodes generalizing paths operations with
  | nil =>
    obtain rfl := Except.ok.inj h
    simp
  | cons node nodes ih =>
    rw [operationsOf] at h
    split_ifs at h
    · obtain ⟨o, hnode, h⟩ := Except.bind_eq_ok.1 h
      obtain ⟨rest, hrest, h⟩ := Except.bind_eq_ok.1 h
      obtain rfl := Except.ok.inj h
      obtain ⟨hpath, hretained⟩ := fileOperation_eq_ok hnode
      obtain ⟨hall, hnodup, hothers⟩ := ih hrest
      refine ⟨List.forall_mem_cons.2 ⟨hretained, hall⟩, ?_, List.forall_mem_cons.2 ⟨hpath, ?_⟩⟩
      · rw [List.map_cons, List.nodup_cons]
        refine ⟨fun hmem => ?_, hnodup⟩
        obtain ⟨d, hd, heq⟩ := List.mem_map.1 hmem
        exact hothers d hd (heq ▸ List.mem_cons_self)
      · exact fun d hd hmem => hothers d hd (List.mem_cons_of_mem _ hmem)
    · exact ih h

/-- The operations of a graph have retained their contents, and no two have the same path. -/
theorem fileOperations_eq_ok (h : fileOperations H input = .ok operations) :
    (∀ o ∈ operations, Retained H o) ∧ (operations.map (·.path)).Nodup := by
  obtain ⟨read, hread, h⟩ := Except.bind_eq_ok.1 h
  obtain ⟨-, -, h⟩ := Except.bind_eq_ok.1 h
  obtain ⟨-, -, h⟩ := Except.bind_eq_ok.1 h
  obtain rfl := Except.ok.inj h
  obtain ⟨hretained, hnodup, -⟩ := operationsOf_eq_ok hread
  exact ⟨hretained, hnodup⟩

end Read

/-! ## Preflight -/

/-- An operation finds what it expects, below directories. -/
structure Prepared (H : Sha256) (t : Files) (o : FileOperation) : Prop where
  clear : ∀ q, q <+: segments o.path → q ≠ segments o.path → t.obstructs q = false
  created : o.isCreate → t (segments o.path) = none
  current : o.isCreate = false → ∃ bytes, t (segments o.path) = some (.file bytes) ∧
    o.expectedDigest = some (H.digest (reencode bytes))

section Preflight

variable {H : Sha256} {t : Files} {o : FileOperation}

theorem segments_ne_nil (path : Utf16) : segments path ≠ [] :=
  Separators.splitEvery_ne_nil path

/-- Links are looked for as far as there is something. -/
theorem rejectSymlinks_eq_ok (hclosed : t.Closed) {path : Utf16} {current rest : List Utf16}
    (hclear : ∀ q, q <+: current → q ≠ current → t.obstructs q = false)
    (hlink : t current ≠ some .link) : rejectSymlinks t path current rest = .ok () ↔
      (∀ q, q <+: current ++ rest → q ≠ current ++ rest → t.obstructs q = false) ∧
        t (current ++ rest) ≠ some .link := by
  induction rest generalizing current with
  | nil =>
    rw [rejectSymlinks, List.append_nil]
    exact iff_of_true rfl ⟨hclear, hlink⟩
  | cons segment rest ih =>
    have hsplit : current ++ segment :: rest = (current ++ [segment]) ++ rest := by simp
    have hfull : current ≠ current ++ segment :: rest := by simp
    rw [rejectSymlinks]
    by_cases hobstructs : t.obstructs current = true
    · have hblocked : t.blocked (current ++ [segment]) = true := by
        by_contra hfalse
        rw [Bool.not_eq_true, blocked_eq_false] at hfalse
        rw [hfalse current (List.prefix_append _ _) (by simp)] at hobstructs
        cases hobstructs
      rw [lstat, if_pos hblocked]
      refine iff_of_false (by simp) fun h => ?_
      rw [h.1 current (List.prefix_append _ _) hfull] at hobstructs
      cases hobstructs
    · have hnext : ∀ q, q <+: current ++ [segment] → q ≠ current ++ [segment] →
          t.obstructs q = false := by
        intro q hq hne
        rcases List.prefix_concat_iff.1 hq with rfl | hq
        · exact absurd rfl hne
        · by_cases heq : q = current
          · rw [heq]
            exact Bool.eq_false_iff.2 hobstructs
          · exact hclear q hq heq
      have hblocked : t.blocked (current ++ [segment]) = false := blocked_eq_false.2 hnext
      rw [lstat, hblocked]
      rcases hentry : t (current ++ [segment]) with - | ⟨bytes | - | -⟩
      · have hnone : ∀ suffix, t (current ++ [segment] ++ suffix) = none := by
          intro suffix
          by_contra hsome
          by_cases hsuffix : suffix = []
          · rw [hsuffix, List.append_nil] at hsome
            exact hsome hentry
          · rw [hclosed.above hsuffix hsome] at hentry
            cases hentry
        refine iff_of_true rfl ⟨fun q hq hne => ?_, by rw [hsplit, hnone]; simp⟩
        rw [hsplit] at hq
        rcases List.prefix_or_prefix_of_prefix hq (List.prefix_append _ rest) with hq | ⟨suffix, rfl⟩
        · by_cases heq : q = current ++ [segment]
          · rw [heq, obstructs_eq_false]
            exact Or.inl hentry
          · exact hnext q hq heq
        · rw [obstructs_eq_false]
          exact Or.inl (hnone suffix)
      · rw [hsplit]
        exact ih hnext (by rw [hentry]; simp)
      · rw [hsplit]
        exact ih hnext (by rw [hentry]; simp)
      · refine iff_of_false (by simp [fail]) fun h => ?_
        rw [hsplit] at h
        by_cases hrest : rest = []
        · subst hrest
          rw [List.append_nil] at h
          exact h.2 hentry
        · have hclean := h.1 _ (List.prefix_append _ rest) (by simpa using hrest)
          rw [obstructs_eq_false, hentry] at hclean
          simp at hclean

/-- The text of a target that only directories are above. -/
theorem currentText_of_clear
    (hclear : ∀ q, q <+: segments o.path → q ≠ segments o.path → t.obstructs q = false)
    {text : Option Utf16} : currentText t o.path = .ok text ↔
      t (segments o.path) = none ∧ text = none ∨
        ∃ bytes, t (segments o.path) = some (.file bytes) ∧ text = some (decodeText bytes) := by
  have hblocked : t.blocked (segments o.path) = false := blocked_eq_false.2 hclear
  rw [currentText, lstat, hblocked]
  rcases t (segments o.path) with - | ⟨bytes | - | -⟩ <;> simp [fail, eq_comm]

/-- Preflight passes an operation exactly when it finds what it expects. -/
theorem preflightOperation_eq_ok (hclosed : t.Closed) :
    preflightOperation H t o = .ok () ↔ Prepared H t o := by
  have hsymlinks : rejectSymlinks t o.path [] (segments o.path) = .ok () ↔ _ :=
    rejectSymlinks_eq_ok hclosed (fun q hq hne => absurd (List.prefix_nil.1 hq) hne)
      (by rw [hclosed.root]; simp)
  rw [List.nil_append] at hsymlinks
  simp only [preflightOperation, Except.bind_eq_ok, require_eq_ok, exists_and_left, exists_const]
  constructor
  · rintro ⟨⟨⟩, hpath, text, htext, hcreate, hcurrent⟩
    obtain ⟨hclear, -⟩ := hsymlinks.1 hpath
    refine ⟨hclear, fun hcreated => ?_, fun hother => ?_⟩
    · rw [hcreated, Bool.not_true, Bool.false_or, decide_eq_true_eq] at hcreate
      rcases (currentText_of_clear hclear).1 htext with ⟨hnone, -⟩ | ⟨bytes, -, hsome⟩
      · exact hnone
      · rw [hcreate] at hsome
        cases hsome
    · rw [hother, Bool.false_or, Bool.and_eq_true, decide_eq_true_eq] at hcurrent
      rcases (currentText_of_clear hclear).1 htext with ⟨-, rfl⟩ | ⟨bytes, hbytes, rfl⟩
      · exact absurd hcurrent.1 (by simp)
      · exact ⟨bytes, hbytes, hcurrent.2.symm⟩
  · rintro ⟨hclear, hcreated, hcurrent⟩
    cases hcreate : o.isCreate with
    | true =>
      have hnone := hcreated hcreate
      exact ⟨(), hsymlinks.2 ⟨hclear, by rw [hnone]; simp⟩, none,
        (currentText_of_clear hclear).2 (Or.inl ⟨hnone, rfl⟩), rfl, rfl⟩
    | false =>
      obtain ⟨bytes, hbytes, hexpected⟩ := hcurrent hcreate
      refine ⟨(), hsymlinks.2 ⟨hclear, by rw [hbytes]; simp⟩, some (decodeText bytes),
        (currentText_of_clear hclear).2 (Or.inr ⟨bytes, hbytes, rfl⟩), rfl, ?_⟩
      rw [hexpected]
      simp [Sha256.ofText, reencode]

theorem preflight_eq_ok (hclosed : t.Closed) {operations : List FileOperation} :
    preflight H t operations = .ok () ↔ ∀ o ∈ operations, Prepared H t o := by
  rw [preflight]
  induction operations with
  | nil => simp [pure, Except.pure]
  | cons o operations ih =>
    rw [List.forM_eq_forM, List.forM_cons, List.forall_mem_cons, ← ih, ← preflightOperation_eq_ok hclosed]
    cases preflightOperation H t o with
    | error failure => simp [bind, Except.bind]
    | ok _ => exact (and_iff_right rfl).symm

end Preflight

/-! ## Application -/

/-- The edit of an operation. -/
def editOf (o : FileOperation) : Edit Utf16 (List UInt8) :=
  ⟨segments o.path, if o.isDelete then none else some (encodeText (o.content.getD []))⟩

/-- The temporary name of an edit. -/
def temporaryOf (H : Sha256) (e : Edit Utf16 (List UInt8)) : List Utf16 :=
  e.path.dropLast ++
    [e.path.getLastD [] ++ (ascii ".factory-floor-" ++ H.digest (e.content.getD []) ++ ascii ".tmp")]

section Apply

variable {H : Sha256} {t s : Files} {o : FileOperation} {operations : List FileOperation}

theorem change_eq_ok {f : Files → Except Errno Files} :
    change f t = .ok () s ↔ f t = .ok s := by
  rw [change]
  cases f t <;> simp

theorem bind_eq_ok {x : Worktree Unit} {f : Worktree Unit} :
    (x >>= fun _ => f) t = .ok () s ↔ ∃ t', x t = .ok () t' ∧ f t' = .ok () s := by
  change EStateM.bind x _ t = _ ↔ _
  rw [EStateM.bind]
  cases x t <;> simp

theorem not_slash_of_digit {c : CodeUnit} (h : (digitValue c).isSome) : c ≠ 47 := by
  rintro rfl
  exact absurd h (by decide)

theorem segments_temporaryPath (path : Utf16) (bytes : List UInt8) :
    segments (temporaryPath path (H.digest bytes)) = (segments path).dropLast ++
      [(segments path).getLastD [] ++ (ascii ".factory-floor-" ++ H.digest bytes ++ ascii ".tmp")] := by
  have hsuffix : (47 : CodeUnit) ∉ ascii ".factory-floor-" ++ H.digest bytes ++ ascii ".tmp" := by
    rw [List.mem_append, List.mem_append, not_or, not_or]
    exact ⟨⟨by decide, fun h => not_slash_of_digit (H.hex bytes _ h) rfl⟩, by decide⟩
  have hpath : temporaryPath path (H.digest bytes) =
      path ++ (ascii ".factory-floor-" ++ H.digest bytes ++ ascii ".tmp") := by
    simp [temporaryPath]
  rw [hpath]
  exact Separators.splitEvery_append_of_notMem hsuffix

theorem beside_temporaryOf (o : FileOperation) : Beside (temporaryOf H (editOf o)) (editOf o) where
  ne_nil := by simp [temporaryOf]
  dropLast := by rw [temporaryOf, List.dropLast_concat]
  other h := by
    have hlast := congrArg (fun path => path.getLastD []) h
    simp only [temporaryOf, List.getLastD_concat] at hlast
    have hlength := congrArg List.length hlast
    rw [List.length_append, List.length_append, List.length_append, H.length] at hlength
    omega

/-- An operation is applied as its edit is made. -/
theorem applyOperation_eq_ok (h : Retained H o) :
    applyOperation o t = .ok () s ↔ makeEdit (temporaryOf H) t (editOf o) = .ok s := by
  rw [applyOperation, makeEdit, editOf]
  cases hdelete : o.isDelete with
  | true =>
    rw [if_pos rfl, if_pos rfl]
    exact change_eq_ok
  | false =>
    obtain ⟨content, hcontent, hdigest⟩ := h hdelete
    have htemporary : temporaryOf H ⟨segments o.path, some (encodeText content)⟩ =
        segments (temporaryPath o.path (H.ofText content)) :=
      (segments_temporaryPath o.path (encodeText content)).symm
    simp only [hcontent, hdigest, Option.getD_some, Bool.false_eq_true, if_false, bind_eq_ok,
      change_eq_ok, replaceFile, Except.bind_eq_ok, htemporary]

/-- Operations are applied as their edits are made. -/
theorem applyOperations_eq_ok (h : ∀ o ∈ operations, Retained H o) :
    applyOperations operations t = .ok () s ↔
      (operations.map editOf).foldlM (makeEdit (temporaryOf H)) t = .ok s := by
  rw [applyOperations, List.forM_eq_forM]
  induction operations generalizing t with
  | nil =>
    change EStateM.Result.ok () t = _ ↔ Except.ok t = _
    simp
  | cons o operations ih =>
    obtain ⟨ho, hrest⟩ := List.forall_mem_cons.1 h
    rw [List.forM_cons, bind_eq_ok, List.map_cons, List.foldlM_cons, Except.bind_eq_ok]
    simp only [applyOperation_eq_ok ho, ih hrest]

end Apply

/-! ## Soundness of preflight -/

/-- What preflight is for. -/
structure PreflightSound (H : Sha256) (t : Files) (operations : List FileOperation) : Prop where
  /-- Where it fails, nothing has been written. -/
  untouched : ∀ failure, preflight H t operations = .error failure →
    changeWorktree H operations t = .error failure t
  /-- Where it passes, the bytes that are replaced or deleted have the expected digests. -/
  reviewed : preflight H t operations = .ok () → ∀ o ∈ operations, o.isCreate = false →
    ∃ bytes, t (segments o.path) = some (.file bytes) ∧ o.expectedDigest = some (H.digest bytes)
  /-- Where it passes, the operations are applied, and leave the files that they describe. -/
  applied : preflight H t operations = .ok () → ∃ s, changeWorktree H operations t = .ok () s ∧
    leaves s = described t (operations.map editOf)

/-- The files that are replaced or deleted have the digests of what they are read as. -/
def ReadAsIs (H : Sha256) (t : Files) (operations : List FileOperation) : Prop :=
  ∀ o ∈ operations, o.isCreate = false → ∀ bytes, t (segments o.path) = some (.file bytes) →
    H.digest (reencode bytes) = H.digest bytes

/-- The operations before another one leave room for it. -/
def RoomForEach (H : Sha256) (t : Files) (operations : List FileOperation) : Prop :=
  ∀ before e later, operations.map editOf = before ++ e :: later →
    LeaveRoom t (temporaryOf H e) before e

section Sound

variable {H : Sha256} {t : Files} {operations : List FileOperation}

theorem isCreate_of_isDelete {o : FileOperation} (h : o.isDelete = true) : o.isCreate = false := by
  rw [FileOperation.isDelete] at h
  rw [FileOperation.isCreate]
  cases hoperation : o.operation with
  | str s =>
    rw [hoperation] at h
    obtain rfl : s = ascii "delete" := by simpa [isText] using h
    decide
  | null | bool | num | arr | obj => rfl

theorem Prepared.placed {o : FileOperation} (h : Prepared H t o) : Placed t (editOf o) where
  ne_nil := segments_ne_nil o.path
  clear := h.clear
  target := by
    cases hcreate : o.isCreate with
    | true => exact Or.inl (h.created hcreate)
    | false =>
      obtain ⟨bytes, hbytes, -⟩ := h.current hcreate
      exact Or.inr ⟨bytes, hbytes⟩
  deleted hcontent := by
    have hdelete : o.isDelete = true := by
      by_contra hother
      rw [editOf, if_neg hother] at hcontent
      cases hcontent
    obtain ⟨bytes, hbytes, -⟩ := h.current (isCreate_of_isDelete hdelete)
    exact ⟨bytes, hbytes⟩

theorem made_of_prepared (h : ∀ o ∈ operations, Prepared H t o)
    (hnodup : (operations.map (·.path)).Nodup) : Made t (operations.map editOf) where
  placed e he := by
    obtain ⟨o, ho, rfl⟩ := List.mem_map.1 he
    exact (h o ho).placed
  nodup := by
    have hpaths : (operations.map editOf).map (·.path) =
        (operations.map (·.path)).map segments := by
      rw [List.map_map, List.map_map]
      rfl
    rw [hpaths]
    exact hnodup.map Separators.splitEvery_injective

theorem changeWorktree_of_ok (h : preflight H t operations = .ok ()) :
    changeWorktree H operations t = applyOperations operations t := by
  change (match preflight H t operations with
    | .ok _ => applyOperations operations
    | .error failure => throw failure) t = _
  rw [h]

theorem changeWorktree_of_error {failure : Failure} (h : preflight H t operations = .error failure) :
    changeWorktree H operations t = .error failure t := by
  change (match preflight H t operations with
    | .ok _ => applyOperations operations
    | .error failure => throw failure) t = _
  rw [h]
  rfl

/-- Preflight is sound exactly when, where every operation finds what it expects, the bytes that are
replaced or deleted have the digests of what they are read as, and each operation is left room by
those before it. -/
theorem preflight_sound_iff {input : ExecutionInput}
    (haccepted : fileOperations H input = .ok operations) (hclosed : t.Closed) :
    PreflightSound H t operations ↔ ((∀ o ∈ operations, Prepared H t o) →
      ReadAsIs H t operations ∧ RoomForEach H t operations) := by
  obtain ⟨hretained, hnodup⟩ := fileOperations_eq_ok haccepted
  have hmade := fun hprepared => made_of_prepared (H := H) (t := t) hprepared hnodup
  have happly := fun hprepared s => (applyOperations_eq_ok (s := s) hretained).trans
    (makeEdits_iff hclosed (hmade hprepared) fun e he => by
      obtain ⟨o, -, rfl⟩ := List.mem_map.1 he
      exact beside_temporaryOf o)
  constructor
  · intro h hprepared
    have hpass := (preflight_eq_ok hclosed).2 hprepared
    refine ⟨fun o ho hcreate bytes hbytes => ?_, ?_⟩
    · obtain ⟨found, hfound, hdigest⟩ := h.reviewed hpass o ho hcreate
      obtain ⟨read, hread, hexpected⟩ := (hprepared o ho).current hcreate
      rw [hbytes] at hfound hread
      cases hfound
      cases hread
      exact Option.some.inj (hexpected.symm.trans hdigest)
    · obtain ⟨s, hs, -⟩ := h.applied hpass
      rw [changeWorktree_of_ok hpass] at hs
      exact ((happly hprepared s).1 hs).1
  · intro h
    refine ⟨fun failure => changeWorktree_of_error, fun hpass o ho hcreate => ?_, fun hpass => ?_⟩
    · have hprepared := (preflight_eq_ok hclosed).1 hpass
      obtain ⟨bytes, hbytes, hexpected⟩ := (hprepared o ho).current hcreate
      exact ⟨bytes, hbytes, hexpected.trans (congrArg some ((h hprepared).1 o ho hcreate bytes hbytes))⟩
    · have hprepared := (preflight_eq_ok hclosed).1 hpass
      refine ⟨after t (operations.map editOf), ?_, leaves_after_eq_described (hmade hprepared)⟩
      rw [changeWorktree_of_ok hpass]
      exact (happly hprepared _).2 ⟨(h hprepared).2, rfl⟩

end Sound

/-- The digest that SHA-256 has for no bytes. -/
def emptyDigest : Utf16 :=
  ascii "e3b0c44298fc1c149afbf4c8996fb92427ae41e4649b934ca495991b7852b855"

/-- SHA-256 for files that are empty. -/
def emptySha256 : Sha256 where
  digest _ := emptyDigest
  hex _ := List.all_eq_true.1 (by decide)
  length _ := rfl

/-- A node that creates an empty file. -/
def createNode (path : String) : JsValue :=
  .obj [(ascii "id", .str (ascii path)), (ascii "kind", .str (ascii "file-operation")),
    (ascii "operation", .str (ascii "create")), (ascii "path", .str (ascii path)),
    (ascii "outputName", .str (ascii path)), (ascii "content", .str []),
    (ascii "contentDigest", .str emptyDigest)]

/-- The operation of such a node. -/
def createOperation (path : String) : FileOperation :=
  ⟨ascii path, .str (ascii "create"), ascii path, some [], some emptyDigest, none⟩

/-- A graph that creates a file and another one below it. -/
def fileAndBelow : ExecutionInput where
  normalizedPlan :=
    { allowedPaths := [ascii "a/**"], outputs := ["a", "a/b"].map fun path => (ascii path, ascii path),
      maxFiles := 2, maxPatchBytes := 0 }
  pathBoundaries := [ascii "a/**"]
  nodes := ["a", "a/b"].map createNode

/-- A worktree without files. -/
def emptyTree : Files := fun path => if path = [] then some .directory else none

theorem emptyTree_closed : emptyTree.Closed where
  root := rfl
  parent path name h := absurd (if_neg (by simp)) h

theorem file_and_below_sound_iff :
    PreflightSound emptySha256 emptyTree (["a", "a/b"].map createOperation) ↔
      ((∀ o ∈ ["a", "a/b"].map createOperation, Prepared emptySha256 emptyTree o) →
        ReadAsIs emptySha256 emptyTree (["a", "a/b"].map createOperation) ∧
          RoomForEach emptySha256 emptyTree (["a", "a/b"].map createOperation)) :=
  preflight_sound_iff (show fileOperations emptySha256 fileAndBelow = _ from rfl) emptyTree_closed

/-- Both files can be created, but not one after the other. -/
theorem file_below_created_file : ¬ ∀ (H : Sha256) (t : Files) (input : ExecutionInput)
    (operations : List FileOperation), fileOperations H input = .ok operations → t.Closed →
    PreflightSound H t operations := by
  intro h
  have hsound := h emptySha256 emptyTree fileAndBelow (["a", "a/b"].map createOperation) rfl
    emptyTree_closed
  obtain ⟨s, hs, -⟩ := hsound.applied rfl
  have hfails : (match changeWorktree emptySha256 (["a", "a/b"].map createOperation) emptyTree with
    | .ok _ _ => true
    | .error _ _ => false) = false := by decide +kernel
  rw [hs] at hfails
  cases hfails

end FactoryFloor.ApplyVerify
