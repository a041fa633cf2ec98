import Mathlib.Data.List.Infix
import Mathlib.Logic.Function.Basic

/-!
# Trees of files

A tree maps paths to files, directories and links. The operations are those of a POSIX file system
without limits : each one changes the tree, or fails and leaves it.

`after` says what a list of edits makes of a tree, with the directories that the written files need.
An edit is made with a temporary file beside its target, and `replaces_iff` says when that works on
the tree that the edits before have left : nothing written is above or below the target, and the
temporary name is free.
-/

namespace FileTrees

/-- What a path can name. -/
inductive Entry (β : Type*) where
  | file (bytes : β)
  | directory
  | link

/-- A tree of files. -/
abbrev Tree (ν β : Type*) := List ν → Option (Entry β)

/-- Why an operation fails. -/
inductive Errno where
  | noEntry
  | notDirectory
  | entryExists
  | isDirectory
deriving DecidableEq, Repr

variable {ν β : Type*}

/-- Whether a file or a link is at a path. -/
def Tree.obstructs (t : Tree ν β) (path : List ν) : Bool :=
  match t path with
  | some (.file _) | some .link => true
  | _ => false

/-- Whether a directory is at a path. -/
def Tree.hasDirectory (t : Tree ν β) (path : List ν) : Bool :=
  match t path with
  | some .directory => true
  | _ => false

/-- A tree that has its root, and every entry in a directory. -/
structure Tree.Closed (t : Tree ν β) : Prop where
  root : t [] = some .directory
  parent : ∀ path name, t (path ++ [name]) ≠ none → t path = some .directory

section Operations

variable [DecidableEq ν]

/-- Whether a file or a link is above a path. -/
def Tree.blocked (t : Tree ν β) (path : List ν) : Bool :=
  path.inits.any fun q => q ≠ path && t.obstructs q

/-- What is at a path. -/
def lstat (t : Tree ν β) (path : List ν) : Except Errno (Entry β) :=
  if t.blocked path then .error .notDirectory
  else
    match t path with
    | none => .error .noEntry
    | some entry => .ok entry

/-- A file or a link is removed. -/
def unlink (t : Tree ν β) (path : List ν) : Except Errno (Tree ν β) :=
  match lstat t path with
  | .ok .directory => .error .isDirectory
  | .ok _ => .ok (Function.update t path none)
  | .error e => .error e

/-- A directory is made, and those above it. -/
def makeDirectories (t : Tree ν β) (path : List ν) : Except Errno (Tree ν β) :=
  if t.blocked path then .error .notDirectory
  else if t.obstructs path then .error .entryExists
  else .ok fun q => if q <+: path then (t q).or (some .directory) else t q

/-- A new file is written. -/
def writeNew (t : Tree ν β) (path : List ν) (bytes : β) : Except Errno (Tree ν β) :=
  match lstat t path with
  | .ok _ => .error .entryExists
  | .error .noEntry =>
    if t.hasDirectory path.dropLast then .ok (Function.update t path (some (.file bytes)))
    else .error .noEntry
  | .error e => .error e

/-- A file takes the place of what is at another path, unless that is a directory. -/
def renameFile (t : Tree ν β) (source target : List ν) : Except Errno (Tree ν β) :=
  match lstat t source with
  | .ok .directory => .error .isDirectory
  | .ok entry =>
    match lstat t target with
    | .ok .directory => .error .isDirectory
    | .error .notDirectory => .error .notDirectory
    | _ =>
      if t.hasDirectory target.dropLast then
        .ok (Function.update (Function.update t source none) target (some entry))
      else .error .noEntry
  | .error e => .error e

/-! ## Edits -/

/-- A path, and the bytes that are written there, or nothing when its file is deleted. -/
structure Edit (ν β : Type*) where
  path : List ν
  content : Option β

/-- What edits of different paths make of a tree. -/
def after (t : Tree ν β) (edits : List (Edit ν β)) : Tree ν β := fun q =>
  match edits.find? (·.path = q) with
  | some e => e.content.map .file
  | none =>
    if ∃ e ∈ edits, e.content.isSome ∧ q <+: e.path then (t q).or (some .directory) else t q

/-- The files and links of a tree. -/
def leaves (t : Tree ν β) : Tree ν β := fun q =>
  match t q with
  | some .directory => none
  | entry => entry

/-- The files and links that edits describe, one edit after the other. -/
def described (t : Tree ν β) (edits : List (Edit ν β)) : Tree ν β :=
  edits.foldl (fun files e => Function.update files e.path (e.content.map .file)) (leaves t)

end Operations

/-! ## Entries -/

section Entries

variable {t : Tree ν β} {path q : List ν}

theorem obstructs_eq_false : t.obstructs path = false ↔
    t path = none ∨ t path = some .directory := by
  rw [Tree.obstructs]
  rcases h : t path with - | ⟨bytes | - | -⟩ <;> simp

theorem hasDirectory_iff : t.hasDirectory path ↔ t path = some .directory := by
  rw [Tree.hasDirectory]
  rcases h : t path with - | ⟨bytes | - | -⟩ <;> simp

/-- Above an entry there are directories. -/
theorem Tree.Closed.above (h : t.Closed) {suffix : List ν} (hne : suffix ≠ [])
    (hentry : t (path ++ suffix) ≠ none) : t path = some .directory := by
  induction suffix using List.reverseRecOn with
  | nil => exact absurd rfl hne
  | append_singleton suffix name ih =>
    rw [← List.append_assoc] at hentry
    have hparent := h.parent _ name hentry
    by_cases hsuffix : suffix = []
    · rwa [hsuffix, List.append_nil] at hparent
    · exact ih hsuffix (by simp [hparent])

theorem Tree.Closed.above_of_prefix (h : t.Closed) (hq : q <+: path) (hne : q ≠ path)
    (hentry : t path ≠ none) : t q = some .directory := by
  obtain ⟨suffix, rfl⟩ := hq
  exact h.above (fun hnil => hne (by rw [hnil, List.append_nil])) hentry

theorem prefix_dropLast_iff (hne : path ≠ []) : q <+: path.dropLast ↔ q <+: path ∧ q ≠ path := by
  have hlength : path.dropLast.length < path.length := by
    rw [List.length_dropLast]
    exact Nat.sub_lt (List.length_pos_iff.2 hne) Nat.one_pos
  constructor
  · intro h
    refine ⟨h.trans (List.dropLast_prefix path), ?_⟩
    rintro rfl
    exact absurd h.length_le (by omega)
  · rintro ⟨h, hq⟩
    refine List.prefix_of_prefix_length_le h (List.dropLast_prefix path) ?_
    have hle := h.length_le
    have hlt : q.length ≠ path.length := fun heq => hq (h.eq_of_length heq)
    rw [List.length_dropLast]
    omega

variable [DecidableEq ν]

theorem blocked_eq_false : t.blocked path = false ↔
    ∀ q, q <+: path → q ≠ path → t.obstructs q = false := by
  simp [Tree.blocked]

/-- Where there are directories above a path, it is looked up. -/
theorem lstat_of_directories (hne : path ≠ [])
    (h : ∀ q, q <+: path.dropLast → t q = some .directory) :
    lstat t path = match t path with
      | none => .error .noEntry
      | some entry => .ok entry := by
  have hblocked : t.blocked path = false := blocked_eq_false.2 fun q hq hqne =>
    obstructs_eq_false.2 (Or.inr (h q ((prefix_dropLast_iff hne).2 ⟨hq, hqne⟩)))
  rw [lstat, hblocked]
  rfl

end Entries

/-! ## Edits in order -/

section After

variable [DecidableEq ν] {t : Tree ν β} {edits : List (Edit ν β)} {e : Edit ν β} {q : List ν}

/-- An edit whose target is a file, or nothing where a file is written, below directories. -/
structure Placed (t : Tree ν β) (e : Edit ν β) : Prop where
  ne_nil : e.path ≠ []
  clear : ∀ q, q <+: e.path → q ≠ e.path → t.obstructs q = false
  target : t e.path = none ∨ ∃ bytes, t e.path = some (.file bytes)
  deleted : e.content = none → ∃ bytes, t e.path = some (.file bytes)

/-- The edits that have been made. -/
structure Made (t : Tree ν β) (edits : List (Edit ν β)) : Prop where
  placed : ∀ d ∈ edits, Placed t d
  nodup : (edits.map (·.path)).Nodup

/-- Nothing that has been written is above or below a target. -/
def ClearOf (edits : List (Edit ν β)) (e : Edit ν β) : Prop :=
  ∀ d ∈ edits, d.content.isSome → ¬d.path <+: e.path ∧ ¬e.path <+: d.path

theorem after_of_mem (hmade : Made t edits) {d : Edit ν β} (hd : d ∈ edits) :
    after t edits d.path = d.content.map .file := by
  have hfind : edits.find? (·.path = d.path) = some d := by
    rw [List.find?_eq_some_iff_append]
    obtain ⟨before, later, rfl⟩ := List.append_of_mem hd
    refine ⟨by simp, before, later, rfl, fun c hc => ?_⟩
    have hnodup := hmade.nodup
    rw [List.map_append, List.map_cons, List.nodup_append] at hnodup
    have hne := hnodup.2.2 c.path (List.mem_map_of_mem hc) d.path List.mem_cons_self
    simpa using hne
  rw [after, hfind]

theorem after_of_notMem (h : q ∉ edits.map (·.path)) : after t edits q =
    if ∃ d ∈ edits, d.content.isSome ∧ q <+: d.path then (t q).or (some .directory) else t q := by
  have hfind : edits.find? (·.path = q) = none :=
    List.find?_eq_none.2 fun d hd => by
      have hne : d.path ≠ q := fun heq => h (heq ▸ List.mem_map_of_mem hd)
      simpa using hne
  rw [after, hfind]

/-- Where edits leave a file in the place of a directory or of nothing, one of them has written it. -/
theorem after_obstructs_iff (hmade : Made t edits) (hq : t.obstructs q = false) :
    (after t edits).obstructs q = true ↔ ∃ d ∈ edits, d.content.isSome ∧ d.path = q := by
  by_cases hmem : q ∈ edits.map (·.path)
  · obtain ⟨d, hd, rfl⟩ := List.mem_map.1 hmem
    rw [Tree.obstructs, after_of_mem hmade hd]
    cases hcontent : d.content with
    | none =>
      obtain ⟨bytes, hbytes⟩ := (hmade.placed d hd).deleted hcontent
      rw [obstructs_eq_false, hbytes] at hq
      simp at hq
    | some bytes => exact iff_of_true rfl ⟨d, hd, by rw [hcontent]; rfl, rfl⟩
  · refine iff_of_false ?_ ?_
    · rw [Bool.not_eq_true, obstructs_eq_false, after_of_notMem hmem]
      rcases obstructs_eq_false.1 hq with hnone | hdirectory
      · rw [hnone]
        split_ifs <;> simp
      · rw [hdirectory]
        split_ifs <;> simp
    · rintro ⟨d, hd, -, rfl⟩
      exact hmem (List.mem_map_of_mem hd)

/-- Below its directories, a target is what the tree has there, unless something is written below it. -/
theorem after_target (hmade : Made t edits) (he : Placed t e) (hmem : e.path ∉ edits.map (·.path)) :
    (after t edits).hasDirectory e.path = true ↔
      ∃ d ∈ edits, d.content.isSome ∧ e.path <+: d.path := by
  rw [hasDirectory_iff, after_of_notMem hmem]
  constructor
  · intro h
    by_contra hnone
    rw [if_neg hnone] at h
    rcases he.target with htarget | ⟨bytes, htarget⟩ <;> rw [htarget] at h <;> cases h
  · rintro ⟨d, hd, hwritten, hinitial⟩
    rw [if_pos ⟨d, hd, hwritten, hinitial⟩]
    have hne : e.path ≠ d.path := fun heq => hmem (heq ▸ List.mem_map_of_mem hd)
    have hclear := (hmade.placed d hd).clear e.path hinitial hne
    rcases he.target with htarget | ⟨bytes, htarget⟩
    · rw [htarget]
      rfl
    · rw [obstructs_eq_false, htarget] at hclear
      simp at hclear

/-- The directories of a target can be made where nothing written is above it. -/
theorem makeDirectories_after (hmade : Made t edits) (he : Placed t e) {s : Tree ν β} :
    makeDirectories (after t edits) e.path.dropLast = .ok s ↔
      (∀ d ∈ edits, d.content.isSome → d.path ≠ e.path → ¬d.path <+: e.path) ∧
        s = fun q => if q <+: e.path.dropLast then (after t edits q).or (some .directory)
          else after t edits q := by
  have hobstructs : (∃ q, q <+: e.path.dropLast ∧ (after t edits).obstructs q = true) ↔
      ∃ d ∈ edits, d.content.isSome ∧ d.path ≠ e.path ∧ d.path <+: e.path := by
    constructor
    · rintro ⟨q, hq, hobstructs⟩
      obtain ⟨hinitial, hne⟩ := (prefix_dropLast_iff he.ne_nil).1 hq
      obtain ⟨d, hd, hwritten, rfl⟩ :=
        (after_obstructs_iff hmade (he.clear q hinitial hne)).1 hobstructs
      exact ⟨d, hd, hwritten, hne, hinitial⟩
    · rintro ⟨d, hd, hwritten, hne, hinitial⟩
      exact ⟨d.path, (prefix_dropLast_iff he.ne_nil).2 ⟨hinitial, hne⟩,
        (after_obstructs_iff hmade (he.clear _ hinitial hne)).2 ⟨d, hd, hwritten, rfl⟩⟩
  rw [makeDirectories]
  by_cases hnone : ∃ q, q <+: e.path.dropLast ∧ (after t edits).obstructs q = true
  · obtain ⟨d, hd, hwritten, hne, hinitial⟩ := hobstructs.1 hnone
    refine iff_of_false ?_ fun h => h.1 d hd hwritten hne hinitial
    obtain ⟨q, hq, hqobstructs⟩ := hnone
    by_cases hqe : q = e.path.dropLast
    · subst hqe
      split_ifs <;> simp
    · have hblocked : (after t edits).blocked e.path.dropLast = true := by
        by_contra hfalse
        rw [Bool.not_eq_true, blocked_eq_false] at hfalse
        rw [hfalse q hq hqe] at hqobstructs
        cases hqobstructs
      rw [if_pos hblocked]
      simp
  · have hclear : ∀ q, q <+: e.path.dropLast → (after t edits).obstructs q = false := fun q hq =>
      Bool.eq_false_iff.2 fun hobstructs => hnone ⟨q, hq, hobstructs⟩
    have hblocked : (after t edits).blocked e.path.dropLast = false :=
      blocked_eq_false.2 fun q hq _ => hclear q hq
    rw [hblocked, hclear _ (List.prefix_refl _)]
    simp only [Bool.false_eq_true, if_false, Except.ok.injEq]
    constructor
    · rintro rfl
      exact ⟨fun d hd hwritten hne hinitial =>
        hnone (hobstructs.2 ⟨d, hd, hwritten, hne, hinitial⟩), rfl⟩
    · rintro ⟨-, rfl⟩
      rfl

/-- The tree of a target whose directories have been made. -/
def withDirectories (t : Tree ν β) (path : List ν) : Tree ν β := fun q =>
  if q <+: path.dropLast then some .directory else t q

/-- A file is written at its target by way of a temporary name. -/
def replaceFile (t : Tree ν β) (path temporary : List ν) (bytes : β) : Except Errno (Tree ν β) := do
  let t ← makeDirectories t path.dropLast
  let t ← writeNew t temporary bytes
  renameFile t temporary path

section Replace

variable {s : Tree ν β} {path temporary : List ν} {bytes : β}

theorem writeNew_withDirectories (hne : temporary ≠ []) (hbeside : temporary.dropLast = path.dropLast)
    {s' : Tree ν β} : writeNew (withDirectories s path) temporary bytes = .ok s' ↔
      s temporary = none ∧
        s' = Function.update (withDirectories s path) temporary (some (.file bytes)) := by
  have hdirectories : ∀ q, q <+: temporary.dropLast →
      withDirectories s path q = some .directory := fun q hq => by
    rw [withDirectories, if_pos (hbeside ▸ hq)]
  have htemporary : withDirectories s path temporary = s temporary := by
    rw [withDirectories, if_neg]
    rw [← hbeside]
    exact fun h => ((prefix_dropLast_iff hne).1 h).2 rfl
  have hparent : (withDirectories s path).hasDirectory temporary.dropLast = true :=
    hasDirectory_iff.2 (hdirectories _ (List.prefix_refl _))
  rw [writeNew, lstat_of_directories hne hdirectories, htemporary]
  cases s temporary with
  | none =>
    dsimp only
    rw [if_pos hparent, Except.ok.injEq, eq_comm]
    exact (and_iff_right rfl).symm
  | some entry => simp

theorem renameFile_withDirectories (hne : temporary ≠ []) (hpath : path ≠ [])
    (hbeside : temporary.dropLast = path.dropLast) (hother : temporary ≠ path) {s' : Tree ν β} :
    renameFile (Function.update (withDirectories s path) temporary (some (.file bytes)))
        temporary path = .ok s' ↔
      s.hasDirectory path = false ∧
        s' = Function.update (Function.update (withDirectories s path) temporary none) path
          (some (.file bytes)) := by
  obtain ⟨written, hwritten⟩ : ∃ written : Tree ν β,
    written = Function.update (withDirectories s path) temporary (some (.file bytes)) := ⟨_, rfl⟩
  have hdirectories : ∀ q, q <+: path.dropLast → written q = some .directory := by
    intro q hq
    have hq' : q ≠ temporary := by
      rintro rfl
      exact ((prefix_dropLast_iff hne).1 (hbeside ▸ hq)).2 rfl
    rw [hwritten, Function.update_of_ne hq', withDirectories, if_pos hq]
  have htemporary : written temporary = some (.file bytes) := by
    rw [hwritten]
    exact Function.update_self ..
  have htarget : written path = s path := by
    rw [hwritten, Function.update_of_ne hother.symm, withDirectories, if_neg]
    exact fun h => ((prefix_dropLast_iff hpath).1 h).2 rfl
  have hparent : written.hasDirectory path.dropLast = true :=
    hasDirectory_iff.2 (hdirectories _ (List.prefix_refl _))
  have hclean : Function.update written temporary none =
      Function.update (withDirectories s path) temporary none := by
    rw [hwritten]
    exact Function.update_idem ..
  rw [← hwritten, renameFile, lstat_of_directories hne fun q hq => hdirectories q (hbeside ▸ hq),
    htemporary, lstat_of_directories hpath hdirectories, htarget]
  have hmoved : s.hasDirectory path = false →
      ((if written.hasDirectory path.dropLast then
          Except.ok (Function.update (Function.update written temporary none) path
            (some (.file bytes)))
        else Except.error Errno.noEntry) = .ok s' ↔ s.hasDirectory path = false ∧
        s' = Function.update (Function.update (withDirectories s path) temporary none) path
          (some (.file bytes))) := by
    intro hfile
    rw [if_pos hparent, hclean, Except.ok.injEq, eq_comm]
    exact (and_iff_right hfile).symm
  rcases hs : s path with - | ⟨old | - | -⟩
  · exact hmoved (by rw [Tree.hasDirectory, hs])
  · exact hmoved (by rw [Tree.hasDirectory, hs])
  · simp [Tree.hasDirectory, hs]
  · exact hmoved (by rw [Tree.hasDirectory, hs])

end Replace

/-- What is above a target that nothing is written above is nothing or a directory. -/
theorem withDirectories_after (hmade : Made t edits) (he : Placed t e)
    (habove : ∀ d ∈ edits, d.content.isSome → d.path ≠ e.path → ¬d.path <+: e.path) :
    (fun q => if q <+: e.path.dropLast then (after t edits q).or (some .directory)
      else after t edits q) = withDirectories (after t edits) e.path := by
  funext q
  rw [withDirectories]
  split_ifs with hq
  · obtain ⟨hinitial, hne⟩ := (prefix_dropLast_iff he.ne_nil).1 hq
    have hclear : (after t edits).obstructs q = false := by
      rw [← Bool.not_eq_true, after_obstructs_iff hmade (he.clear q hinitial hne)]
      rintro ⟨d, hd, hwritten, rfl⟩
      exact habove d hd hwritten hne hinitial
    rcases obstructs_eq_false.1 hclear with hnone | hdirectory
    · rw [hnone]
      rfl
    · rw [hdirectory]
      rfl
  · rfl

/-- A file is written after other edits exactly when nothing that they have written is above or below
it, and the temporary name is free. -/
theorem replaces_iff (hmade : Made t edits) (he : Placed t e) (hmem : e.path ∉ edits.map (·.path))
    {temporary : List ν} (hne : temporary ≠ []) (hbeside : temporary.dropLast = e.path.dropLast)
    (hother : temporary ≠ e.path) {bytes : β} {s : Tree ν β} :
    replaceFile (after t edits) e.path temporary bytes = .ok s ↔
      (ClearOf edits e ∧ after t edits temporary = none) ∧
        s = Function.update (Function.update (withDirectories (after t edits) e.path) temporary none)
          e.path (some (.file bytes)) := by
  have hpaths : ∀ d ∈ edits, d.path ≠ e.path := fun d hd heq =>
    hmem (heq ▸ List.mem_map_of_mem hd)
  have hbelow : (after t edits).hasDirectory e.path = false ↔
      ∀ d ∈ edits, d.content.isSome → ¬e.path <+: d.path := by
    rw [← Bool.not_eq_true, after_target hmade he hmem]
    push Not
    exact Iff.rfl
  rw [replaceFile]
  constructor
  · intro h
    cases hdirectories : makeDirectories (after t edits) e.path.dropLast with
    | error errno =>
      rw [hdirectories] at h
      cases h
    | ok s₁ =>
      obtain ⟨habove, rfl⟩ := (makeDirectories_after hmade he).1 hdirectories
      rw [hdirectories, withDirectories_after hmade he habove] at h
      change (writeNew (withDirectories (after t edits) e.path) temporary bytes >>=
        fun t => renameFile t temporary e.path) = _ at h
      cases hnew : writeNew (withDirectories (after t edits) e.path) temporary bytes with
      | error errno =>
        rw [hnew] at h
        cases h
      | ok s₂ =>
        obtain ⟨hfree, rfl⟩ := (writeNew_withDirectories hne hbeside).1 hnew
        rw [hnew] at h
        obtain ⟨hdirectory, rfl⟩ :=
          (renameFile_withDirectories hne he.ne_nil hbeside hother).1 h
        exact ⟨⟨fun d hd hwritten => ⟨habove d hd hwritten (hpaths d hd),
          hbelow.1 hdirectory d hd hwritten⟩, hfree⟩, rfl⟩
  · rintro ⟨⟨hclear, hfree⟩, rfl⟩
    have habove : ∀ d ∈ edits, d.content.isSome → d.path ≠ e.path → ¬d.path <+: e.path :=
      fun d hd hwritten _ => (hclear d hd hwritten).1
    rw [(makeDirectories_after hmade he).2 ⟨habove, rfl⟩, withDirectories_after hmade he habove]
    change (writeNew (withDirectories (after t edits) e.path) temporary bytes >>=
      fun t => renameFile t temporary e.path) = _
    rw [(writeNew_withDirectories hne hbeside).2 ⟨hfree, rfl⟩]
    exact (renameFile_withDirectories hne he.ne_nil hbeside hother).2
      ⟨hbelow.2 fun d hd hwritten => (hclear d hd hwritten).2, rfl⟩

theorem after_append_write (hmem : e.path ∉ edits.map (·.path)) {bytes : β}
    (hcontent : e.content = some bytes) (hmade : Made t edits) (he : Placed t e)
    (hclear : ClearOf edits e) {temporary : List ν} (hne : temporary ≠ [])
    (hbeside : temporary.dropLast = e.path.dropLast) (hother : temporary ≠ e.path)
    (hfree : after t edits temporary = none) :
    Function.update (Function.update (withDirectories (after t edits) e.path) temporary none)
      e.path (some (.file bytes)) = after t (edits ++ [e]) := by
  have habove : ∀ d ∈ edits, d.content.isSome → d.path ≠ e.path → ¬d.path <+: e.path :=
    fun d hd hwritten _ => (hclear d hd hwritten).1
  have hfind : ∀ q, (edits ++ [e]).find? (·.path = q) =
      (edits.find? (·.path = q)).or (if e.path = q then some e else none) := fun q => by
    rw [List.find?_append, List.find?_singleton]
    simp
  have hbeyond : ∀ q, q ≠ e.path → ¬q <+: e.path.dropLast →
      after t (edits ++ [e]) q = after t edits q := by
    intro q hq hdirectory
    have hinitial : ¬q <+: e.path := fun h =>
      hdirectory ((prefix_dropLast_iff he.ne_nil).2 ⟨h, hq⟩)
    rw [after, after, hfind, if_neg (Ne.symm hq), Option.or_none]
    simp [hinitial]
  funext q
  by_cases hq : q = e.path
  · subst hq
    have hnone : edits.find? (·.path = e.path) = none := List.find?_eq_none.2 fun d hd => by
      have hdne : d.path ≠ e.path := fun heq => hmem (heq ▸ List.mem_map_of_mem hd)
      simpa using hdne
    rw [Function.update_self, after, hfind, hnone, if_pos rfl]
    simp [hcontent]
  rw [Function.update_of_ne hq]
  by_cases htemporary : q = temporary
  · subst htemporary
    have hdirectory : ¬q <+: e.path.dropLast := fun h =>
      ((prefix_dropLast_iff hne).1 (hbeside ▸ h)).2 rfl
    rw [Function.update_self, hbeyond q hq hdirectory, hfree]
  rw [Function.update_of_ne htemporary]
  by_cases hdirectory : q <+: e.path.dropLast
  · obtain ⟨hinitial, -⟩ := (prefix_dropLast_iff he.ne_nil).1 hdirectory
    have hunmade : q ∉ edits.map (·.path) := by
      intro hmemq
      obtain ⟨d, hd, rfl⟩ := List.mem_map.1 hmemq
      cases hcontent : d.content with
      | some written => exact habove d hd (by rw [hcontent]; rfl) hq hinitial
      | none =>
        obtain ⟨old, hold⟩ := (hmade.placed d hd).deleted hcontent
        have hclean := he.clear d.path hinitial hq
        rw [obstructs_eq_false, hold] at hclean
        simp at hclean
    have hunmade' : q ∉ (edits ++ [e]).map (·.path) := by
      rw [List.map_append, List.mem_append, not_or]
      exact ⟨hunmade, by simpa using hq⟩
    rw [withDirectories, if_pos hdirectory, after_of_notMem hunmade',
      if_pos ⟨e, by simp, by rw [hcontent]; rfl, hinitial⟩]
    rcases obstructs_eq_false.1 (he.clear q hinitial hq) with hnone | hsome
    · rw [hnone]
      rfl
    · rw [hsome]
      rfl
  · rw [withDirectories, if_neg hdirectory, hbeyond q hq hdirectory]

/-- A file is deleted after other edits : nothing is written above it or below it. -/
theorem unlink_after (hmem : e.path ∉ edits.map (·.path)) (hcontent : e.content = none)
    (hmade : Made t edits) (hclosed : t.Closed) (he : Placed t e) :
    unlink (after t edits) e.path = .ok (after t (edits ++ [e])) := by
  obtain ⟨bytes, hbytes⟩ := he.deleted hcontent
  have hdirectories : ∀ q, q <+: e.path.dropLast → after t edits q = some .directory := by
    intro q hq
    obtain ⟨hinitial, hne⟩ := (prefix_dropLast_iff he.ne_nil).1 hq
    have hdirectory := hclosed.above_of_prefix hinitial hne (by rw [hbytes]; simp)
    have hunmade : q ∉ edits.map (·.path) := by
      intro hmemq
      obtain ⟨d, hd, rfl⟩ := List.mem_map.1 hmemq
      rcases (hmade.placed d hd).target with htarget | ⟨old, htarget⟩ <;>
        rw [hdirectory] at htarget <;> cases htarget
    rw [after_of_notMem hunmade, hdirectory]
    split_ifs <;> rfl
  have htarget : after t edits e.path = some (.file bytes) := by
    rw [after_of_notMem hmem, hbytes]
    split_ifs <;> rfl
  have hnext : Function.update (after t edits) e.path none = after t (edits ++ [e]) := by
    funext q
    by_cases hq : q = e.path
    · subst hq
      have hnone : edits.find? (·.path = e.path) = none := List.find?_eq_none.2 fun d hd => by
        have hdne : d.path ≠ e.path := fun heq => hmem (heq ▸ List.mem_map_of_mem hd)
        simpa using hdne
      rw [Function.update_self, after, List.find?_append, hnone]
      simp [hcontent]
    · rw [Function.update_of_ne hq, after, after, List.find?_append, List.find?_singleton]
      simp [Ne.symm hq, hcontent]
  rw [unlink, lstat_of_directories he.ne_nil hdirectories, htarget]
  exact congrArg _ hnext

/-- An edit is made with a temporary name. -/
def makeEdit (temporary : Edit ν β → List ν) (t : Tree ν β) (e : Edit ν β) :
    Except Errno (Tree ν β) :=
  match e.content with
  | some bytes => replaceFile t e.path (temporary e) bytes
  | none => unlink t e.path

/-- A name beside a target. -/
structure Beside (temporary : List ν) (e : Edit ν β) : Prop where
  ne_nil : temporary ≠ []
  dropLast : temporary.dropLast = e.path.dropLast
  other : temporary ≠ e.path

/-- Nothing is at a path when edits have been made : there was nothing, or it is deleted, and nothing
is written there or below it. -/
def Vacant (t : Tree ν β) (edits : List (Edit ν β)) (path : List ν) : Prop :=
  (t path = none ∨ ∃ d ∈ edits, d.path = path ∧ d.content = none) ∧
    ∀ d ∈ edits, d.content.isSome → ¬path <+: d.path

theorem after_eq_none_iff (hmade : Made t edits) : after t edits q = none ↔ Vacant t edits q := by
  by_cases hmem : q ∈ edits.map (·.path)
  · obtain ⟨d, hd, rfl⟩ := List.mem_map.1 hmem
    rw [after_of_mem hmade hd, Option.map_eq_none_iff]
    constructor
    · intro hcontent
      refine ⟨Or.inr ⟨d, hd, rfl, hcontent⟩, fun d' hd' hwritten hinitial => ?_⟩
      by_cases hpath : d.path = d'.path
      · have hsame := after_of_mem hmade hd'
        rw [← hpath, after_of_mem hmade hd, hcontent] at hsame
        rw [Option.isSome_iff_exists] at hwritten
        obtain ⟨bytes, hbytes⟩ := hwritten
        rw [hbytes] at hsame
        cases hsame
      · obtain ⟨bytes, hbytes⟩ := (hmade.placed d hd).deleted hcontent
        have hclear := (hmade.placed d' hd').clear d.path hinitial hpath
        rw [obstructs_eq_false, hbytes] at hclear
        simp at hclear
    · rintro ⟨-, hbelow⟩
      by_contra hcontent
      exact hbelow d hd (Option.isSome_iff_ne_none.2 hcontent) (List.prefix_refl _)
  · have hkept : ¬∃ d ∈ edits, d.path = q ∧ d.content = none := by
      rintro ⟨d, hd, rfl, -⟩
      exact hmem (List.mem_map_of_mem hd)
    rw [after_of_notMem hmem, Vacant, or_iff_left hkept]
    split_ifs with hwritten
    · obtain ⟨d, hd, hcontent, hinitial⟩ := hwritten
      refine iff_of_false ?_ fun h => h.2 d hd hcontent hinitial
      cases t q <;> simp
    · push Not at hwritten
      exact (and_iff_left hwritten).symm

/-- The edits before another one leave room for it. -/
def LeaveRoom (t : Tree ν β) (temporary : List ν) (before : List (Edit ν β)) (e : Edit ν β) : Prop :=
  e.content.isSome → ClearOf before e ∧ Vacant t before temporary

theorem makeEdit_after (hmem : e.path ∉ edits.map (·.path)) (hmade : Made t edits)
    (hclosed : t.Closed) (he : Placed t e) {temporary : Edit ν β → List ν}
    (hbeside : Beside (temporary e) e) {s : Tree ν β} :
    makeEdit temporary (after t edits) e = .ok s ↔
      LeaveRoom t (temporary e) edits e ∧ s = after t (edits ++ [e]) := by
  rw [makeEdit]
  cases hcontent : e.content with
  | none =>
    dsimp only
    rw [unlink_after hmem hcontent hmade hclosed he, Except.ok.injEq, eq_comm]
    exact (and_iff_right fun hwritten => by rw [hcontent] at hwritten; cases hwritten).symm
  | some bytes =>
    dsimp only
    rw [replaces_iff hmade he hmem hbeside.ne_nil hbeside.dropLast hbeside.other]
    constructor
    · rintro ⟨⟨hclear, hfree⟩, rfl⟩
      exact ⟨fun _ => ⟨hclear, (after_eq_none_iff hmade).1 hfree⟩, after_append_write hmem hcontent
        hmade he hclear hbeside.ne_nil hbeside.dropLast hbeside.other hfree⟩
    · rintro ⟨hroom, rfl⟩
      obtain ⟨hclear, hvacant⟩ := hroom (by rw [hcontent]; rfl)
      have hfree := (after_eq_none_iff hmade).2 hvacant
      exact ⟨⟨hclear, hfree⟩, (after_append_write hmem hcontent hmade he hclear
        hbeside.ne_nil hbeside.dropLast hbeside.other hfree).symm⟩

theorem after_nil (t : Tree ν β) : after t [] = t := by
  funext q
  simp [after]

omit [DecidableEq ν] in
theorem Made.of_append {later : List (Edit ν β)} (h : Made t (edits ++ later)) : Made t edits where
  placed d hd := h.placed d (List.mem_append_left _ hd)
  nodup := h.nodup.sublist ((List.sublist_append_left _ _).map _)

/-- Edits are made one after the other exactly when each one is left room by those before it. -/
theorem makeEdits_iff {temporary : Edit ν β → List ν} (hclosed : t.Closed) (hmade : Made t edits)
    (hbeside : ∀ e ∈ edits, Beside (temporary e) e) {s : Tree ν β} :
    edits.foldlM (makeEdit temporary) t = .ok s ↔
      (∀ before e later, edits = before ++ e :: later →
        LeaveRoom t (temporary e) before e) ∧ s = after t edits := by
  induction edits using List.reverseRecOn generalizing s with
  | nil =>
    rw [after_nil]
    constructor
    · intro h
      exact ⟨by simp, (Except.ok.inj h).symm⟩
    · rintro ⟨-, rfl⟩
      rfl
  | append_singleton edits e ih =>
    have hinitial := fun made => ih (s := made) hmade.of_append fun d hd =>
      hbeside d (List.mem_append_left _ hd)
    have hmem : e.path ∉ edits.map (·.path) := by
      have hnodup := hmade.nodup
      rw [List.map_append, List.nodup_append] at hnodup
      exact fun h => hnodup.2.2 _ h e.path (by simp) rfl
    have he := hmade.placed e (by simp)
    have hlast := fun made => makeEdit_after (s := made) hmem hmade.of_append hclosed he
      (hbeside e (by simp))
    rw [List.foldlM_append]
    constructor
    · intro h
      cases hmiddle : edits.foldlM (makeEdit temporary) t with
      | error errno =>
        rw [hmiddle] at h
        cases h
      | ok middle =>
        obtain ⟨hroom, rfl⟩ := (hinitial middle).1 hmiddle
        rw [hmiddle] at h
        change [e].foldlM (makeEdit temporary) (after t edits) = _ at h
        rw [List.foldlM_cons] at h
        cases hmake : makeEdit temporary (after t edits) e with
        | error errno =>
          rw [hmake] at h
          cases h
        | ok next =>
          obtain ⟨hroomLast, rfl⟩ := (hlast next).1 hmake
          rw [hmake] at h
          refine ⟨fun before d later hsplit => ?_, (Except.ok.inj h).symm⟩
          rcases List.eq_nil_or_concat later with rfl | ⟨later, last, rfl⟩
          · obtain ⟨rfl, hsame⟩ := List.append_inj' hsplit rfl
            obtain rfl := List.singleton_inj.1 hsame
            exact hroomLast
          · have hsplit' : edits ++ [e] = (before ++ d :: later) ++ [last] := by simpa using hsplit
            exact hroom before d later (List.append_inj' hsplit' rfl).1
    · rintro ⟨hroom, rfl⟩
      have hmiddle := (hinitial _).2 ⟨fun before d later hsplit =>
        hroom before d (later ++ [e]) (by simp [hsplit]), rfl⟩
      rw [hmiddle]
      change [e].foldlM (makeEdit temporary) (after t edits) = _
      rw [List.foldlM_cons, (hlast _).2 ⟨hroom edits e [] rfl, rfl⟩]
      rfl

/-! ## What edits describe -/

theorem leaves_after : leaves (after t edits) q =
    match edits.find? (·.path = q) with
    | some e => e.content.map .file
    | none => leaves t q := by
  rw [leaves, after]
  cases hfind : edits.find? (·.path = q) with
  | some e =>
    dsimp only
    cases e.content with
    | none => rfl
    | some bytes => rfl
  | none =>
    dsimp only
    rw [leaves]
    split_ifs
    · rcases t q with - | ⟨bytes | - | -⟩ <;> rfl
    · rfl

/-- The files that edits leave are those that they describe. -/
theorem leaves_after_eq_described (hmade : Made t edits) :
    leaves (after t edits) = described t edits := by
  induction edits using List.reverseRecOn with
  | nil => rw [after_nil, described, List.foldl_nil]
  | append_singleton edits e ih =>
    have hmem : e.path ∉ edits.map (·.path) := by
      have hnodup := hmade.nodup
      rw [List.map_append, List.nodup_append] at hnodup
      exact fun h => hnodup.2.2 _ h e.path (by simp) rfl
    have hstep : described t (edits ++ [e]) =
        Function.update (described t edits) e.path (e.content.map .file) := by
      rw [described, List.foldl_append]
      rfl
    rw [hstep, ← ih hmade.of_append]
    funext q
    rw [leaves_after, List.find?_append, List.find?_singleton]
    by_cases hq : q = e.path
    · subst hq
      have hnone : edits.find? (·.path = e.path) = none := List.find?_eq_none.2 fun d hd => by
        have hdne : d.path ≠ e.path := fun heq => hmem (heq ▸ List.mem_map_of_mem hd)
        simpa using hdne
      rw [hnone, Function.update_self]
      simp
    · rw [Function.update_of_ne hq, leaves_after]
      simp [Ne.symm hq]

end After

end FileTrees
