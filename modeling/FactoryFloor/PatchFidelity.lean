import FactoryFloor.ApplyVerify

/-!
# The patch of an execution

`executeRepositoryTaskGraph` applies the operations of a graph to a worktree of the base revision, and
returns the difference that git finds as a text. The text comes from `runGit`, which removes the white
space at the end of what git writes. A difference that is not empty ends with a line feed, so the text is
its bytes only where there is no difference (`patch_fidelity_iff`).

What git does is a parameter (`Git`).
-/

namespace FactoryFloor.ApplyVerify

open JsonText

variable {T : Type}

/-- What the service has git do, with the trees that git stores. -/
structure Git (T : Type) where
  /-- `git worktree add`. -/
  checkout : T → Files
  /-- `git add -A`. -/
  stage : Files → T
  /-- What `git diff --cached --binary --full-index --no-ext-diff` writes. -/
  diff : T → T → List UInt8
  /-- `git apply`. -/
  apply : T → List UInt8 → Option T
  /-- A difference turns the first tree into the second one. -/
  apply_diff : ∀ base verified, apply base (diff base verified) = some verified
  /-- Nothing is written where there is no difference. -/
  diff_eq_nil : ∀ base verified, diff base verified = [] ↔ base = verified
  /-- What is written consists of lines. -/
  getLast_diff : ∀ base verified, diff base verified ≠ [] → (diff base verified).getLast? = some 10

/-- `value.trimEnd()`. -/
def trimEnd (value : Utf16) : Utf16 :=
  value.rdropWhile isWhiteSpace

/-- `runGit`, for a process that exits with 0. -/
def runGit (stdout : List UInt8) : Utf16 :=
  trimEnd (decodeText stdout)

/-- The patch from the base to the tree that is staged. -/
def capturePatch (git : Git T) (base staged : T) : Utf16 :=
  runGit (git.diff base staged)

/-! ## Executions -/

inductive StageStatus where
  | succeeded
  | failed
  | timedOut
deriving DecidableEq, Repr

inductive ExecutionStatus where
  | dryRun
  | succeeded
  | failed
deriving DecidableEq, Repr

/-- An execution, with what is decided outside. -/
structure Execution where
  input : ExecutionInput
  /-- What is found before there is a worktree. -/
  admitted : Except Failure Unit
  dryRun : Bool
  /-- How the verification stages end. -/
  stages : List (Utf16 × StageStatus)

structure ExecutionResult where
  status : ExecutionStatus
  patch : Utf16
  diagnostic : Option Failure

/-- The failure of the first stage that does not succeed. -/
def verify : List (Utf16 × StageStatus) → Option Failure
  | [] => none
  | (_, .succeeded) :: stages => verify stages
  | (id, .timedOut) :: _ => some (.diagnostic "verification.timeout"
      (quoted "Verification stage " id " timed out.") none)
  | (id, .failed) :: _ => some (.diagnostic "verification.failed"
      (quoted "Verification stage " id " failed.") none)

def executeRepositoryTaskGraph (H : Sha256) (git : Git T) (base : T) (e : Execution) :
    ExecutionResult :=
  match e.admitted >>= fun _ => fileOperations H e.input with
  | .error failure => ⟨.failed, [], some failure⟩
  | .ok operations =>
    match preflight H (git.checkout base) operations with
    | .error failure => ⟨.failed, [], some failure⟩
    | .ok _ =>
      if e.dryRun then ⟨.dryRun, [], none⟩
      else
        match applyOperations operations (git.checkout base) with
        | .error failure _ => ⟨.failed, [], some failure⟩
        | .ok _ worktree =>
          let patch := capturePatch git base (git.stage worktree)
          if (encodeText patch).length > e.input.normalizedPlan.maxPatchBytes then
            ⟨.failed, [], some (.diagnostic "executor.max-patch-bytes-exceeded"
              (ascii "The resulting patch exceeds the authored plan limit.") none)⟩
          else
            match verify e.stages with
            | some failure => ⟨.failed, patch, some failure⟩
            | none => ⟨.succeeded, patch, none⟩

/-- The patch that is returned is the one from the base to the worktree after the operations. -/
theorem executeRepositoryTaskGraph_succeeded {H : Sha256} {git : Git T} {base : T} {e : Execution}
    (h : (executeRepositoryTaskGraph H git base e).status = .succeeded) :
    ∃ operations worktree, fileOperations H e.input = .ok operations ∧
      applyOperations operations (git.checkout base) = .ok () worktree ∧
      (executeRepositoryTaskGraph H git base e).patch = capturePatch git base (git.stage worktree) := by
  rw [executeRepositoryTaskGraph] at h ⊢
  cases hread : e.admitted >>= fun _ => fileOperations H e.input with
  | error failure =>
    rw [hread] at h
    cases h
  | ok operations =>
    rw [hread] at h
    dsimp only at h ⊢
    obtain ⟨-, -, hoperations⟩ := Except.bind_eq_ok.1 hread
    cases hpreflight : preflight H (git.checkout base) operations with
    | error failure =>
      rw [hpreflight] at h
      cases h
    | ok _ =>
      rw [hpreflight] at h
      dsimp only at h ⊢
      cases hdry : e.dryRun with
      | true =>
        rw [hdry] at h
        cases h
      | false =>
        rw [hdry] at h
        simp only [Bool.false_eq_true, if_false] at h ⊢
        cases happly : applyOperations operations (git.checkout base) with
        | error failure worktree =>
          rw [happly] at h
          cases h
        | ok _ worktree =>
          rw [happly] at h
          refine ⟨operations, worktree, hoperations, happly, ?_⟩
          dsimp only at h ⊢
          split_ifs at h ⊢
          cases hverify : verify e.stages with
          | some failure => rfl
          | none => rfl

/-! ## Fidelity -/

/-- The patch is the difference byte for byte, and turns the base into the verified tree. -/
structure PatchFidelity (git : Git T) (base verified : T) : Prop where
  bytes : encodeText (capturePatch git base verified) = git.diff base verified
  applies : git.apply base (encodeText (capturePatch git base verified)) = some verified

/-- A character whose encoding ends with a line feed is a line feed. -/
theorem toNat_of_getLast_utf8EncodeChar {c : Char}
    (h : (String.utf8EncodeChar c).getLast? = some 10) : c.toNat = 10 := by
  have hval : c.val.toNat = c.toNat := rfl
  have hvalid : c.toNat.isValidChar := c.valid
  rw [Nat.isValidChar] at hvalid
  rw [String.utf8EncodeChar] at h
  simp only [hval] at h
  generalize c.toNat = v at h hvalid
  have hbyte : ∀ {n : ℕ}, some (UInt8.ofNat n) = some 10 → n % 256 = 10 := fun hn => by
    have hnat := congrArg UInt8.toNat (Option.some.inj hn)
    rwa [UInt8.toNat_ofNat'] at hnat
  -- every byte of a longer encoding is at least 0x80
  split_ifs at h <;> have hlast := hbyte h <;> omega

/-- A text whose encoding ends with a line feed ends with one. -/
theorem getLast_of_encodeText {text : Utf16} (h : (encodeText text).getLast? = some 10) :
    text.getLast? = some 10 := by
  rcases List.eq_nil_or_concat (points text) with hpoints | ⟨before, p, hpoints⟩
  · rw [encodeText, hpoints] at h
    cases h
  have hlast : (String.utf8EncodeChar (scalar p)).getLast? = some 10 := by
    rw [encodeText, hpoints, List.concat_eq_append, List.map_append, List.flatMap_append,
      List.getLast?_append_of_ne_nil] at h
    · simpa using h
    · simp
  have hp : p = 10 := by
    have hnat := toNat_of_getLast_utf8EncodeChar hlast
    by_cases hvalid : p.isValidChar
    · rwa [toNat_scalar hvalid] at hnat
    · rw [scalar, if_neg hvalid] at hnat
      exact absurd hnat (by decide)
  rw [← flatMap_points text, hpoints, List.concat_eq_append, List.flatMap_append, hp,
    List.getLast?_append_of_ne_nil]
  · rfl
  · decide

/-- The text of a process does not end with a line feed. -/
theorem getLast_runGit (stdout : List UInt8) : (runGit stdout).getLast? ≠ some 10 := by
  intro h
  have hne : runGit stdout ≠ [] := by
    rintro hnil
    rw [hnil] at h
    cases h
  have hlast := List.rdropWhile_last_not isWhiteSpace (decodeText stdout) hne
  rw [List.getLast?_eq_some_getLast hne] at h
  have hgetLast : (List.rdropWhile isWhiteSpace (decodeText stdout)).getLast hne = 10 :=
    Option.some.inj h
  rw [hgetLast] at hlast
  exact hlast (by decide)

/-- The patch is the difference exactly when there is none. -/
theorem patch_fidelity_iff (git : Git T) (base verified : T) :
    PatchFidelity git base verified ↔ base = verified := by
  rw [← git.diff_eq_nil]
  constructor
  · intro h
    by_contra hdiff
    have hlast := git.getLast_diff base verified hdiff
    rw [← h.bytes] at hlast
    exact getLast_runGit _ (getLast_of_encodeText hlast)
  · intro h
    have hbytes : encodeText (capturePatch git base verified) = git.diff base verified := by
      rw [capturePatch, h]
      rfl
    exact ⟨hbytes, by rw [hbytes, git.apply_diff]⟩

/-- The difference that git writes between no file and an empty file `a`. -/
def emptyFileDiff (created : Bool) : List UInt8 :=
  (if created then
    "diff --git a/a b/a\nnew file mode 100644\nindex " ++
      "0000000000000000000000000000000000000000..e69de29bb2d1d6434b8b29ae775ad8c2e48c5391\n"
  else
    "diff --git a/a b/a\ndeleted file mode 100644\nindex " ++
      "e69de29bb2d1d6434b8b29ae775ad8c2e48c5391..0000000000000000000000000000000000000000\n").toList.map
    fun c => UInt8.ofNat c.toNat

/-- Git where there can be an empty file `a`, and no other one. -/
def emptyFileGit : Git Bool where
  checkout present path :=
    if path = [] then some .directory
    else if path = [ascii "a"] ∧ present then some (.file []) else none
  stage t := (t [ascii "a"]).isSome
  diff base verified := if base = verified then [] else emptyFileDiff verified
  apply base patch :=
    if patch = [] then some base
    else if patch = emptyFileDiff !base then some !base
    else none
  apply_diff := by decide +kernel
  diff_eq_nil := by decide +kernel
  getLast_diff := by decide +kernel

/-- The patch that creates an empty file has lost the line feed at its end. -/
theorem patch_of_empty_file : ¬ ∀ (T : Type) (git : Git T) (base verified : T),
    PatchFidelity git base verified := by
  intro h
  have hbytes := (h Bool emptyFileGit false true).bytes
  have hlast : (emptyFileGit.diff false true).getLast? = some 10 :=
    emptyFileGit.getLast_diff false true (by decide +kernel)
  rw [← hbytes] at hlast
  exact getLast_runGit _ (getLast_of_encodeText hlast)

end FactoryFloor.ApplyVerify
