import FactoryFloor.ArtifactStores
import FactoryFloor.Transition

/-!
# The artifact stores agree

The file-system store and the S3 store are one map from staging ids and digests to bytes
(`stores_write_once`), as long as no promotion finds its object committed already while other bytes
are staged under its id. Both stores look for the committed object first, and then remove what is
staged without reading it : the field `lost` says what becomes of such bytes. Bytes beyond
`Number.MAX_SAFE_INTEGER` are refused by the S3 store alone.

`Agrees` is the simulation of one call : the two fail with the same code, or answer alike and leave
stores that stand for the map.
-/

namespace FactoryFloor

namespace ArtifactStores

open Transition

/-! ## What the stores are for -/

/-- What a caller sees of an error. -/
def kindOf {α : Type} (x : Except StoreError α) : Except (Option ErrorCode) α :=
  x.mapError StoreError.kind

/-- Bytes under staging ids, and bytes under digests. -/
structure BlobMap where
  staged : AList fun _ : Chars => List UInt8
  committed : AList fun _ : Chars => List UInt8

namespace BlobMap

variable (H : Sha256) (m : BlobMap)

/-- Bytes are staged under an id once. -/
def stage (stagingId : Chars) (bytes : List UInt8) (options : StageOptions) :
    Except (Option ErrorCode) (StagingReceipt × BlobMap) := do
  kindOf (validateStage stagingId options)
  kindOf (validateMeasured options (measure H bytes))
  match m.staged.lookup stagingId with
  | none =>
    return ({ measure H bytes with stagingId },
      { m with staged := m.staged.insert stagingId bytes })
  | some old =>
    if measure H old = measure H bytes then return ({ measure H bytes with stagingId }, m)
    else .error (some .stagingConflict)

def withoutStaged (stagingId : Chars) : BlobMap :=
  { m with staged := m.staged.erase stagingId }

/-- Staged bytes are committed under their digest, once. Where they are not what is declared,
nothing is. -/
def promote (stagingId digest : Chars) (size : ℤ) :
    Except (Option ErrorCode) (CommittedReceipt × BlobMap) := do
  kindOf (validatePromotion stagingId digest size)
  match m.committed.lookup digest with
  | some old =>
    if (old.length : ℤ) = size then
      match m.staged.lookup stagingId with
      | some bytes => kindOf (validateStaged "content" digest size (measure H bytes))
      | none => .ok ()
      return ({ digest, size }, m.withoutStaged stagingId)
    else .error (some .committedConflict)
  | none =>
    match m.staged.lookup stagingId with
    | none => .error (some .notFound)
    | some bytes =>
      kindOf (validateStaged "content" digest size (measure H bytes))
      return ({ digest, size },
        ({ m with committed := m.committed.insert digest bytes } : BlobMap).withoutStaged stagingId)

def read (found : Option (List UInt8)) : Except (Option ErrorCode) (List UInt8) :=
  found.elim (.error (some .notFound)) .ok

def ids : List Chars :=
  m.staged.keys.insertionSort (· ≤ ·)

def receipt (stagingId : Chars) : Option StagingReceipt :=
  (m.staged.lookup stagingId).map fun bytes => { measure H bytes with stagingId }

/-- A page of the staged objects, by their ids. -/
def listStaged (limit : ℤ) (cursor : Option Chars) :
    Except (Option ErrorCode) (List StagingReceipt × Option Chars) := do
  kindOf (validateLimit limit)
  return ((Paging.page limit.toNat cursor m.ids).filterMap (m.receipt H),
    Paging.next limit.toNat cursor m.ids)

/-- A call, with the map it leaves. -/
def run : Call → Except (Option ErrorCode) (Answer Chars × BlobMap)
  | .stage stagingId bytes options => writing .staged (m.stage H stagingId bytes options)
  | .readStaged stagingId => reading m .bytes do
    kindOf (validateStagingId stagingId)
    read (m.staged.lookup stagingId)
  | .promote stagingId digest size => writing .promoted (m.promote H stagingId digest size)
  | .readCommitted digest => reading m .bytes do
    kindOf (validateDigest digest)
    read (m.committed.lookup digest)
  | .removeStaged stagingId => writing (fun _ => .removed) do
    kindOf (validateStagingId stagingId)
    return ((), m.withoutStaged stagingId)
  | .stagedExists stagingId => reading m .exist do
    kindOf (validateStagingId stagingId)
    return (m.staged.lookup stagingId).isSome
  | .committedExists digest => reading m .exist do
    kindOf (validateDigest digest)
    return (m.committed.lookup digest).isSome
  | .listStaged limit cursor =>
    reading m (fun page => .page page.1 page.2) (m.listStaged H limit cursor)

end BlobMap

/-! ## Agreement of answers -/

section Agreement

variable {σ α β γ : Type} {R : σ → BlobMap → Prop} {f : β → α}

/-- A call of a store and one of the map fail alike, or give the same answer and leave a store that
stands for the map. -/
inductive Agrees (R : σ → BlobMap → Prop) (f : β → α) :
    Except StoreError (α × σ) → Except (Option ErrorCode) (β × BlobMap) → Prop
  | error (e : StoreError) : Agrees R f (.error e) (.error e.kind)
  | ok {s : σ} {m : BlobMap} (b : β) (h : R s m) : Agrees R f (.ok (f b, s)) (.ok (b, m))

/-- Both make the same check first. -/
theorem Agrees.check {x : Except StoreError Unit} {k : Unit → Except StoreError (α × σ)}
    {l : Unit → Except (Option ErrorCode) (β × BlobMap)}
    (h : x = .ok () → Agrees R f (k ()) (l ())) :
    Agrees R f (x >>= k) (kindOf x >>= l) := by
  cases x with
  | error e => exact .error e
  | ok u => exact h rfl

theorem Agrees.writing {x : Except StoreError (γ × σ)} {y : Except (Option ErrorCode) (γ × BlobMap)}
    (g : γ → α) (g' : γ → β) (h : Agrees R id x y) (hg : ∀ c, g c = f (g' c)) :
    Agrees R f (x.map fun a => (g a.1, a.2)) (y.map fun a => (g' a.1, a.2)) := by
  cases h with
  | error e => exact .error e
  | ok c hR =>
    change Agrees R f (.ok (g c, _)) (.ok (g' c, _))
    rw [hg]
    exact .ok _ hR

theorem Agrees.reading {s : σ} {m : BlobMap} {δ : Type} {x : Except StoreError γ}
    {y : Except (Option ErrorCode) δ} {i : δ → γ} {g : γ → α} {g' : δ → β} (hR : R s m)
    (h : kindOf x = y.map i) (hg : ∀ c, g (i c) = f (g' c)) :
    Agrees R f (x.map fun a => (g a, s)) (y.map fun a => (g' a, m)) := by
  cases x with
  | error e =>
    cases y with
    | error k =>
      obtain rfl : e.kind = k := Except.error.inj h
      exact .error e
    | ok c => exact absurd h nofun
  | ok a =>
    cases y with
    | error k => exact absurd h nofun
    | ok c =>
      obtain rfl : a = i c := Except.ok.inj h
      change Agrees R f (.ok (g (i c), s)) (.ok (g' c, m))
      rw [hg]
      exact .ok _ hR

/-- A check that is made first does not change what two computations have in common. -/
theorem kindOf_check {x : Except StoreError Unit} {k : Unit → Except StoreError γ}
    {l : Unit → Except (Option ErrorCode) γ} (h : x = .ok () → kindOf (k ()) = l ()) :
    kindOf (x >>= k) = kindOf x >>= l := by
  cases x with
  | error e => rfl
  | ok u => exact h rfl

end Agreement

/-! ## Metadata -/

section Metadata

variable {H : Sha256} {bytes : List UInt8} {code : ErrorCode}

theorem isDigit_of_mem_sizeText {n : ℕ} {c : Char} (h : c ∈ sizeText n) : c.isDigit = true :=
  Nat.isDigit_of_mem_toDigits (by decide) (by decide) h

/-- Only the text of zero begins with a zero. -/
theorem head?_sizeText (n : ℕ) : sizeText n = ['0'] ∨ (sizeText n).head? ≠ some '0' := by
  induction n using Nat.strongRecOn with
  | ind n ih =>
    rcases Nat.lt_or_ge n 10 with hn | hn
    · have hdigit : ∀ d < 10, [Nat.digitChar d] = ['0'] ∨ [Nat.digitChar d].head? ≠ some '0' := by
        decide
      rw [sizeText, Nat.toDigits_of_lt_base hn]
      exact hdigit n hn
    · have hsplit : sizeText n = sizeText (n / 10) ++ [(n % 10).digitChar] :=
        Nat.toDigits_of_base_le (by decide) hn
      have hnonempty : sizeText (n / 10) ≠ [] := Nat.toDigits_ne_nil
      rw [hsplit, List.head?_append_of_ne_nil _ hnonempty]
      rcases ih (n / 10) (by omega) with hzero | hhead
      · have hvalue : n / 10 = 0 := by
          have hread := Nat.ofDigitChars_toDigits (b := 10) (n := n / 10) (by decide) (by decide)
          rw [show Nat.toDigits 10 (n / 10) = ['0'] from hzero] at hread
          exact hread.symm
        omega
      · exact Or.inr hhead

theorem readSize_sizeText (n : ℕ) : readSize (sizeText n) = some n := by
  have hdigits : (sizeText n).all Char.isDigit = true :=
    List.all_eq_true.2 fun c hc => isDigit_of_mem_sizeText hc
  rw [readSize, if_pos ⟨Nat.toDigits_ne_nil, hdigits, head?_sizeText n⟩]
  exact congrArg some (Nat.ofDigitChars_toDigits (by decide) (by decide))

theorem validateDigest_digest : validateDigest (H.digest bytes) = .ok () := by
  rw [validateDigest, require, if_pos (H.hex bytes)]

theorem readMetadata_temporary :
    readMetadata code (temporaryDirectory H bytes).metadata = .ok (measure H bytes) := by
  simp only [readMetadata, temporaryDirectory, measure, validateDigest_digest, readSize_sizeText]
  rfl

theorem readVerifiedObjectMetadata_temporary :
    readVerifiedObjectMetadata H code (some (temporaryDirectory H bytes)) =
      .ok (bytes, measure H bytes) := by
  simp only [readVerifiedObjectMetadata, readObjectMetadata, readMetadata_temporary, bind,
    Except.bind]
  simp [temporaryDirectory, require, pure, Except.pure]

theorem parseS3Metadata_put : parseS3Metadata (putBody H bytes).metadata code =
    .ok (measure H bytes) := by
  simp [parseS3Metadata, putBody, objectMetadata, List.lookup_cons, require, measure,
    validateDigest_digest, readSize_sizeText, bind, Except.bind, pure, Except.pure]

theorem parseMetadata_put : parseMetadata (putBody H bytes).metadata code =
    .ok (measure H bytes) := by
  simp [parseMetadata, putBody, objectMetadata, List.lookup_cons, measure, H.hex, readSize_sizeText]

theorem readVerifiedMetadata_put :
    readVerifiedMetadata H code (some (putBody H bytes)) = .ok (bytes, measure H bytes) := by
  simp only [readVerifiedMetadata, getObject, parseS3Metadata_put, bind, Except.bind]
  simp [putBody, require, pure, Except.pure]

end Metadata

/-! ## The file-system store -/

section Filesystem

variable {H : Sha256} {store : FilesystemStore} {m : BlobMap} {stagingId digest : Chars}
  {bytes : List UInt8}

/-- The directories stand for the bytes of a map. -/
structure FilesystemStore.Holds (H : Sha256) (store : FilesystemStore) (m : BlobMap) : Prop where
  staged : ∀ id, store.staging.lookup id = (m.staged.lookup id).map (temporaryDirectory H)
  committed : ∀ d, store.committed.lookup d = (m.committed.lookup d).map (temporaryDirectory H)

theorem lookup_insert_map {f : List UInt8 → γ} {entries : AList fun _ : Chars => List UInt8}
    {directories : AList fun _ : Chars => γ}
    (h : ∀ k, directories.lookup k = (entries.lookup k).map f) (key : Chars) (bytes : List UInt8)
    (k : Chars) : (directories.insert key (f bytes)).lookup k =
      ((entries.insert key bytes).lookup k).map f := by
  by_cases hk : k = key
  · rw [hk, AList.lookup_insert, AList.lookup_insert]
    rfl
  · rw [AList.lookup_insert_ne hk, AList.lookup_insert_ne hk]
    exact h k

theorem FilesystemStore.Holds.insertStaged (h : store.Holds H m) (stagingId : Chars)
    (bytes : List UInt8) :
    FilesystemStore.Holds H
      { store with staging := store.staging.insert stagingId (temporaryDirectory H bytes) }
      { m with staged := m.staged.insert stagingId bytes } :=
  ⟨lookup_insert_map h.staged stagingId bytes, h.committed⟩

theorem FilesystemStore.Holds.insertCommitted (h : store.Holds H m) (digest : Chars)
    (bytes : List UInt8) :
    FilesystemStore.Holds H
      { store with committed := store.committed.insert digest (temporaryDirectory H bytes) }
      { m with committed := m.committed.insert digest bytes } :=
  ⟨h.staged, lookup_insert_map h.committed digest bytes⟩

theorem FilesystemStore.Holds.withoutStaged (h : store.Holds H m) (stagingId : Chars) :
    (store.withoutStaged stagingId).Holds H (m.withoutStaged stagingId) := by
  refine ⟨fun id => ?_, h.committed⟩
  by_cases hid : id = stagingId
  · rw [hid, FilesystemStore.withoutStaged, BlobMap.withoutStaged, AList.lookup_erase,
      AList.lookup_erase]
    rfl
  · rw [FilesystemStore.withoutStaged, BlobMap.withoutStaged, AList.lookup_erase_ne hid,
      AList.lookup_erase_ne hid]
    exact h.staged id

theorem publishObjectDirectory_free {code : ErrorCode} :
    publishObjectDirectory H (temporaryDirectory H bytes) none code (measure H bytes) =
      .ok true := by
  simp [publishObjectDirectory, readVerifiedObjectMetadata_temporary, require, bind, Except.bind,
    pure, Except.pure]

theorem publishObjectDirectory_taken {code : ErrorCode} {old : List UInt8} :
    publishObjectDirectory H (temporaryDirectory H bytes) (some (temporaryDirectory H old)) code
        (measure H bytes) =
      if measure H old = measure H bytes then .ok false
      else .error (.store code "object identity conflicts with existing content") := by
  by_cases hsame : measure H old = measure H bytes <;>
    simp [publishObjectDirectory, readVerifiedObjectMetadata_temporary, require, bind, Except.bind,
      pure, Except.pure, hsame]

theorem FilesystemStore.stage_agrees (h : store.Holds H m) (options : StageOptions) :
    Agrees (FilesystemStore.Holds H) id (store.stage H stagingId bytes options)
      (m.stage H stagingId bytes options) := by
  refine Agrees.check fun _ => Agrees.check fun _ => ?_
  dsimp only
  rw [readMetadata_temporary, h.staged]
  cases hstaged : m.staged.lookup stagingId with
  | none =>
    simp only [Option.map_none, publishObjectDirectory_free, bind, Except.bind]
    exact .ok _ (h.insertStaged stagingId bytes)
  | some old =>
    simp only [Option.map_some, publishObjectDirectory_taken, bind, Except.bind]
    by_cases hsame : measure H old = measure H bytes
    · simp only [readVerifiedObjectMetadata_temporary, hsame]
      exact .ok _ h
    · simp only [if_neg hsame]
      exact .error _

/-- A promotion does not find a committed object of the declared digest and size while other bytes
are staged under its id. -/
def BlobMap.Declared (H : Sha256) (m : BlobMap) (stagingId digest : Chars) (size : ℤ) : Prop :=
  ∀ old, m.committed.lookup digest = some old → (old.length : ℤ) = size →
    ∀ bytes, m.staged.lookup stagingId = some bytes →
      H.digest bytes = digest ∧ (bytes.length : ℤ) = size

theorem validateStaged_declared {what : String} {size : ℤ} (hdigest : H.digest bytes = digest)
    (hsize : (bytes.length : ℤ) = size) :
    validateStaged what digest size (measure H bytes) = .ok () := by
  simp [validateStaged, measure, hdigest, hsize, require, bind, Except.bind]

theorem validateStaged_eq_ok {what : String} {size : ℤ}
    (h : validateStaged what digest size (measure H bytes) = .ok ()) :
    H.digest bytes = digest ∧ (bytes.length : ℤ) = size := by
  by_cases hsize : (bytes.length : ℤ) = size
  · by_cases hdigest : H.digest bytes = digest
    · exact ⟨hdigest, hsize⟩
    · simp [validateStaged, measure, require, hsize, hdigest, bind, Except.bind] at h
  · simp [validateStaged, measure, require, hsize, bind, Except.bind] at h

/-- What the metadata says is checked first, and is what the content would say. -/
theorem kindOf_validateStaged (what what' : String) (size : ℤ) (staged : ObjectMetadata) :
    kindOf (validateStaged what digest size staged) =
      kindOf (validateStaged what' digest size staged) := by
  by_cases hsize : (staged.size : ℤ) = size <;> by_cases hdigest : staged.digest = digest <;>
    simp [validateStaged, require, kindOf, hsize, hdigest, bind, Except.bind, Except.mapError,
      StoreError.kind]

theorem FilesystemStore.promote_agrees (h : store.Holds H m)
    (hhashed : ∀ d old, m.committed.lookup d = some old → H.digest old = d) {size : ℤ}
    (hdeclared : m.Declared H stagingId digest size) :
    Agrees (FilesystemStore.Holds H) id (store.promote H stagingId digest size)
      (m.promote H stagingId digest size) := by
  refine Agrees.check fun _ => ?_
  rw [h.committed]
  cases hcommitted : m.committed.lookup digest with
  | some old =>
    simp only [Option.map_some, readVerifiedObjectMetadata_temporary, bind, Except.bind]
    have hold := hhashed digest old hcommitted
    by_cases hsize : (old.length : ℤ) = size
    · simp only [measure, hold, hsize, require, decide_true, Bool.and_self, if_true]
      cases hstaged : m.staged.lookup stagingId with
      | none => exact .ok _ (h.withoutStaged stagingId)
      | some bytes =>
        obtain ⟨hdigest, hlength⟩ := hdeclared old hcommitted hsize bytes hstaged
        have hvalid :
            validateStaged "content" digest size ⟨H.digest bytes, bytes.length⟩ = .ok () :=
          validateStaged_declared hdigest hlength
        simp only [hvalid]
        exact .ok _ (h.withoutStaged stagingId)
    · simp only [measure, hsize, require, decide_false, Bool.false_and, if_false]
      exact .error _
  | none =>
    simp only [Option.map_none]
    rw [h.staged]
    cases hstaged : m.staged.lookup stagingId with
    | none => exact .error _
    | some bytes =>
      have hread : readObjectMetadata .stagingConflict (some (temporaryDirectory H bytes)) =
          .ok (bytes, measure H bytes) := by
        simp only [readObjectMetadata, readMetadata_temporary]
        rfl
      dsimp only [Option.map_some]
      rw [hread, kindOf_validateStaged "content" "metadata"]
      refine Agrees.check fun hvalid => ?_
      obtain ⟨hdigest, hsize⟩ := validateStaged_eq_ok hvalid
      have hcontent : validateStaged "content" digest size (measure H bytes) = .ok () :=
        validateStaged_declared hdigest hsize
      simp only [hcontent, readMetadata_temporary, publishObjectDirectory_free, bind, Except.bind,
        if_true]
      exact .ok _ ((h.insertCommitted digest bytes).withoutStaged stagingId)

/-- The invariant of the map : what is staged is under a valid id, and what is committed is under
its digest. -/
structure BlobMap.Sound (H : Sha256) (m : BlobMap) : Prop where
  ids : ∀ id, (m.staged.lookup id).isSome → isValidStagingId id = true
  hashed : ∀ d bytes, m.committed.lookup d = some bytes → H.digest bytes = d

theorem ascending_insertionSort {xs : List Chars} (h : xs.Nodup) :
    (xs.insertionSort (· ≤ ·)).Pairwise (· < ·) := by
  have hnodup := (List.perm_insertionSort (· ≤ ·) xs).nodup_iff.2 h
  exact (List.pairwise_insertionSort (· ≤ ·) xs).imp₂ (fun _ _ => lt_of_le_of_ne) hnodup

theorem BlobMap.ids_ascend : m.ids.Pairwise (· < ·) :=
  ascending_insertionSort m.staged.nodupKeys

theorem BlobMap.mem_ids {id : Chars} : id ∈ m.ids ↔ (m.staged.lookup id).isSome := by
  rw [BlobMap.ids, (List.perm_insertionSort _ _).mem_iff, AList.lookup_isSome, AList.mem_keys]

theorem FilesystemStore.ids_eq (h : store.Holds H m) (hm : m.Sound H) : store.ids = m.ids := by
  refine (ascending_insertionSort (store.staging.nodupKeys.filter _)).eq_of_mem_iff m.ids_ascend
    fun id => ?_
  have hkeys : id ∈ store.staging.keys ↔ (m.staged.lookup id).isSome := by
    rw [← AList.mem_keys, ← AList.lookup_isSome, h.staged, Option.isSome_map]
  rw [(List.perm_insertionSort _ _).mem_iff, List.mem_filter, BlobMap.mem_ids]
  exact (and_congr_left' hkeys).trans (and_iff_left_of_imp (hm.ids id))

theorem FilesystemStore.slice_eq (limit : ℕ) (cursor : Option Chars) :
    store.slice limit cursor = Paging.page limit cursor store.ids := by
  cases cursor with
  | none => rfl
  | some c =>
    rw [slice, Paging.page, Paging.after, List.dropWhile_eq_drop_findIdx_not]
    simp only [Bool.not_not]
    congr!

/-- A loop that succeeds at every element gives what the elements stand for. -/
theorem mapM_eq_filterMap {ε γ δ : Type} {f : γ → Except ε δ} {g : γ → Option δ} {xs : List γ}
    (h : ∀ x ∈ xs, ∃ r, f x = .ok r ∧ g x = some r) : xs.mapM f = .ok (xs.filterMap g) := by
  induction xs with
  | nil => rfl
  | cons x xs ih =>
    obtain ⟨r, hf, hg⟩ := h x List.mem_cons_self
    rw [List.mapM_cons, hf, ih fun y hy => h y (List.mem_cons_of_mem _ hy), List.filterMap_cons, hg]
    rfl

theorem BlobMap.receipt_of_mem {id : Chars} (h : id ∈ m.ids) :
    ∃ bytes, m.staged.lookup id = some bytes ∧
      m.receipt H id = some { measure H bytes with stagingId := id } := by
  obtain ⟨bytes, hbytes⟩ := Option.isSome_iff_exists.1 (BlobMap.mem_ids.1 h)
  exact ⟨bytes, hbytes, by rw [BlobMap.receipt, hbytes]; rfl⟩

theorem FilesystemStore.listStaged_agrees (h : store.Holds H m) (hm : m.Sound H) (limit : ℤ)
    (cursor : Option Chars) :
    kindOf (store.listStaged H limit cursor) = m.listStaged H limit cursor := by
  refine kindOf_check fun _ => ?_
  have hobjects : ∀ id ∈ Paging.page limit.toNat cursor m.ids, ∃ r,
      store.listObject H id = .ok r ∧ m.receipt H id = some r := by
    intro id hid
    obtain ⟨bytes, hbytes, hreceipt⟩ := BlobMap.receipt_of_mem (Paging.mem_page m.ids_ascend hid).1
    refine ⟨_, ?_, hreceipt⟩
    rw [FilesystemStore.listObject, h.staged, hbytes, Option.map_some,
      readVerifiedObjectMetadata_temporary]
    rfl
  dsimp only
  rw [slice_eq, ids_eq h hm, mapM_eq_filterMap hobjects, Paging.next]
  simp only [bind, Except.bind, pure, Except.pure, kindOf, Except.mapError]
  congr!

theorem readVerified_agrees (found : Option (List UInt8)) :
    kindOf (do
      let (bytes, _) ← readVerifiedObjectMetadata H .notFound (found.map (temporaryDirectory H))
      return bytes) = BlobMap.read found := by
  cases found with
  | none => rfl
  | some bytes => rw [Option.map_some, readVerifiedObjectMetadata_temporary]; rfl

theorem FilesystemStore.readStaged_agrees (h : store.Holds H m) (stagingId : Chars) :
    kindOf (store.readStaged H stagingId) =
      (do kindOf (validateStagingId stagingId); BlobMap.read (m.staged.lookup stagingId)) := by
  refine kindOf_check fun _ => ?_
  rw [h.staged]
  exact readVerified_agrees _

theorem FilesystemStore.readCommitted_agrees (h : store.Holds H m) (digest : Chars) :
    kindOf (store.readCommitted H digest) =
      (do kindOf (validateDigest digest); BlobMap.read (m.committed.lookup digest)) := by
  refine kindOf_check fun _ => ?_
  rw [h.committed]
  exact readVerified_agrees _

theorem validObjectExists_agrees (found : Option (List UInt8)) :
    kindOf (validObjectExists H (found.map (temporaryDirectory H))) = .ok found.isSome := by
  cases found with
  | none => rfl
  | some bytes =>
    rw [Option.map_some, validObjectExists, readVerifiedObjectMetadata_temporary]
    rfl

/-- What a call must meet for the stores to agree. -/
def Call.Admitted (H : Sha256) (m : BlobMap) : Call → Prop
  | .stage _ bytes _ => bytes.length ≤ maxSafeInteger
  | .promote stagingId digest size => m.Declared H stagingId digest size
  | _ => True

theorem Answer.mapCursor_id {τ : Type} (answer : Answer τ) : answer.mapCursor id = answer := by
  cases answer <;> simp [Answer.mapCursor]

theorem FilesystemStore.run_agrees (h : store.Holds H m) (hm : m.Sound H) {call : Call}
    (hcall : call.Admitted H m) :
    Agrees (FilesystemStore.Holds H) (Answer.mapCursor id) (store.run H call) (m.run H call) := by
  cases call with
  | stage stagingId bytes options =>
    exact Agrees.writing _ _ (stage_agrees h options) fun _ => rfl
  | promote stagingId digest size =>
    exact Agrees.writing _ _ (promote_agrees h hm.hashed hcall) fun _ => rfl
  | readStaged stagingId =>
    refine Agrees.reading (i := id) h ?_ fun _ => rfl
    rw [Except.map_id]
    exact readStaged_agrees h stagingId
  | readCommitted digest =>
    refine Agrees.reading (i := id) h ?_ fun _ => rfl
    rw [Except.map_id]
    exact readCommitted_agrees h digest
  | removeStaged stagingId =>
    have hremove : Agrees (FilesystemStore.Holds H) id (store.removeStaged stagingId) (do
        kindOf (validateStagingId stagingId)
        return ((), m.withoutStaged stagingId)) :=
      Agrees.check fun _ => .ok () (h.withoutStaged stagingId)
    exact Agrees.writing (fun _ => Answer.removed) (fun _ => Answer.removed) hremove fun _ => rfl
  | stagedExists stagingId =>
    refine Agrees.reading (i := id) h ?_ fun _ => rfl
    rw [Except.map_id]
    refine kindOf_check fun _ => ?_
    rw [h.staged]
    exact validObjectExists_agrees _
  | committedExists digest =>
    refine Agrees.reading (i := id) h ?_ fun _ => rfl
    rw [Except.map_id]
    refine kindOf_check fun _ => ?_
    rw [h.committed]
    exact validObjectExists_agrees _
  | listStaged limit cursor =>
    refine Agrees.reading (i := id) h ?_ fun page => by simp [Answer.mapCursor]
    rw [Except.map_id]
    exact listStaged_agrees h hm limit cursor

end Filesystem

/-! ## The S3 store -/

section Service

variable {σ τ : Type} {H : Sha256} {S : ObjectService σ τ} {keyPrefix : Chars} {s : σ} {m : BlobMap}
  {stagingId digest : Chars} {bytes : List UInt8}

theorem stagingKey_injective (keyPrefix : Chars) : Function.Injective (stagingKey keyPrefix) := by
  intro id id' h
  exact List.append_cancel_left (List.append_cancel_left h)

theorem committedKey_injective (keyPrefix : Chars) :
    Function.Injective (committedKey keyPrefix) := by
  intro d d' h
  have h := List.append_cancel_left (List.append_cancel_left h)
  have hlength : d.length = d'.length := by
    have := congrArg List.length h
    simp only [List.length_append, List.length_take, List.length_cons] at this
    omega
  exact (List.cons.inj (List.append_inj' h (by simp [hlength])).2).2

theorem stagingKey_ne_committedKey :
    stagingKey keyPrefix stagingId ≠ committedKey keyPrefix digest := by
  intro h
  have h : 's' :: _ = 'c' :: _ := List.append_cancel_left h
  exact absurd (List.cons.inj h).1 (by decide)

/-- The objects under the prefix of the store stand for the bytes of a map. -/
structure S3Store.Holds (H : Sha256) (S : ObjectService σ τ) (keyPrefix : Chars) (s : σ)
    (m : BlobMap) : Prop where
  staged : ∀ id, S.object? s (stagingKey keyPrefix id) = (m.staged.lookup id).map (putBody H)
  committed : ∀ d, S.object? s (committedKey keyPrefix d) = (m.committed.lookup d).map (putBody H)
  keys : ∀ key, stagingKey keyPrefix [] <+: key → (S.object? s key).isSome →
    ∃ id, key = stagingKey keyPrefix id ∧ (m.staged.lookup id).isSome

theorem S3Store.Holds.putStaged (h : S3Store.Holds H S keyPrefix s m)
    (hfree : m.staged.lookup stagingId = none) (bytes : List UInt8) :
    ∃ s', S.put (stagingKey keyPrefix stagingId) (putBody H bytes) s = some s' ∧
      S3Store.Holds H S keyPrefix s' { m with staged := m.staged.insert stagingId bytes } := by
  obtain ⟨s', hput, hobject⟩ := S.put_free s (stagingKey keyPrefix stagingId) (putBody H bytes)
    (by rw [h.staged, hfree]; rfl)
  refine ⟨s', hput, fun id => ?_, fun d => ?_, fun key hstarts hkey => ?_⟩
  · by_cases hid : id = stagingId
    · rw [hobject, if_pos (congrArg _ hid), hid, AList.lookup_insert]
      rfl
    · rw [hobject, if_neg fun heq => hid (stagingKey_injective keyPrefix heq),
        AList.lookup_insert_ne hid, h.staged]
  · rw [hobject, if_neg stagingKey_ne_committedKey.symm, h.committed]
  · by_cases hsame : key = stagingKey keyPrefix stagingId
    · exact ⟨stagingId, hsame, by rw [AList.lookup_insert]; rfl⟩
    · rw [hobject, if_neg hsame] at hkey
      obtain ⟨id, rfl, hid⟩ := h.keys key hstarts hkey
      refine ⟨id, rfl, ?_⟩
      rwa [AList.lookup_insert_ne fun heq => hsame (congrArg _ heq)]

theorem S3Store.Holds.putCommitted (h : S3Store.Holds H S keyPrefix s m)
    (hfree : m.committed.lookup digest = none) (bytes : List UInt8) :
    ∃ s', S.put (committedKey keyPrefix digest) (putBody H bytes) s = some s' ∧
      S3Store.Holds H S keyPrefix s' { m with committed := m.committed.insert digest bytes } := by
  obtain ⟨s', hput, hobject⟩ := S.put_free s (committedKey keyPrefix digest) (putBody H bytes)
    (by rw [h.committed, hfree]; rfl)
  refine ⟨s', hput, fun id => ?_, fun d => ?_, fun key hstarts hkey => ?_⟩
  · rw [hobject, if_neg stagingKey_ne_committedKey, h.staged]
  · by_cases hd : d = digest
    · rw [hobject, if_pos (congrArg _ hd), hd, AList.lookup_insert]
      rfl
    · rw [hobject, if_neg fun heq => hd (committedKey_injective keyPrefix heq),
        AList.lookup_insert_ne hd, h.committed]
  · have hother : key ≠ committedKey keyPrefix digest := by
      rintro rfl
      obtain ⟨rest, hrest⟩ := hstarts
      have hkeys : stagingKey keyPrefix rest = committedKey keyPrefix digest := by
        rw [← hrest, stagingKey, stagingKey, List.append_nil, List.append_assoc]
      exact stagingKey_ne_committedKey hkeys
    rw [hobject, if_neg hother] at hkey
    exact h.keys key hstarts hkey

theorem S3Store.Holds.withoutStaged (h : S3Store.Holds H S keyPrefix s m) (stagingId : Chars) :
    S3Store.Holds H S keyPrefix (S.delete (stagingKey keyPrefix stagingId) s)
      (m.withoutStaged stagingId) := by
  refine ⟨fun id => ?_, fun d => ?_, fun key hstarts hkey => ?_⟩
  · by_cases hid : id = stagingId
    · rw [S.object?_delete, if_pos (congrArg _ hid), hid, BlobMap.withoutStaged, AList.lookup_erase]
      rfl
    · rw [S.object?_delete, if_neg fun heq => hid (stagingKey_injective keyPrefix heq),
        BlobMap.withoutStaged, AList.lookup_erase_ne hid, h.staged]
  · rw [S.object?_delete, if_neg stagingKey_ne_committedKey.symm, h.committed]
    rfl
  · rw [S.object?_delete] at hkey
    split at hkey
    · exact absurd hkey nofun
    · rename_i hother
      obtain ⟨id, rfl, hid⟩ := h.keys key hstarts hkey
      refine ⟨id, rfl, ?_⟩
      rwa [BlobMap.withoutStaged, AList.lookup_erase_ne fun heq => hother (congrArg _ heq)]

theorem contentLength_of_le (h : bytes.length ≤ maxSafeInteger) :
    contentLength (measure H bytes).size = .ok () := by
  rw [contentLength, require]
  exact if_pos (decide_eq_true h)

theorem S3Store.stage_agrees (h : S3Store.Holds H S keyPrefix s m)
    (hsize : bytes.length ≤ maxSafeInteger) (options : StageOptions) :
    Agrees (S3Store.Holds H S keyPrefix) id (S3Store.stage H S keyPrefix s stagingId bytes options)
      (m.stage H stagingId bytes options) := by
  refine Agrees.check fun _ => Agrees.check fun _ => ?_
  dsimp only
  rw [contentLength_of_le hsize]
  cases hstaged : m.staged.lookup stagingId with
  | none =>
    obtain ⟨s', hput, hholds⟩ := h.putStaged hstaged bytes
    simp only [hput, bind, Except.bind]
    exact .ok _ hholds
  | some old =>
    have hobject : S.object? s (stagingKey keyPrefix stagingId) = some (putBody H old) := by
      rw [h.staged, hstaged]
      rfl
    simp only [S.put_taken _ _ _ (by rw [hobject]; rfl), hobject, readVerifiedMetadata_put, bind,
      Except.bind]
    by_cases hsame : measure H old = measure H bytes
    · simp only [hsame, require, decide_true, Bool.and_self, if_true]
      exact .ok _ h
    · have hdiffer : (decide ((measure H old).digest = (measure H bytes).digest) &&
          decide ((measure H old).size = (measure H bytes).size)) = false := by
        rw [Bool.and_eq_false_iff, decide_eq_false_iff_not, decide_eq_false_iff_not]
        by_contra hboth
        push Not at hboth
        exact hsame (by rw [measure, measure, ObjectMetadata.mk.injEq]; exact hboth)
      simp only [hdiffer, if_neg hsame, require]
      exact .error _

theorem S3Store.promote_agrees (h : S3Store.Holds H S keyPrefix s m)
    (hhashed : ∀ d old, m.committed.lookup d = some old → H.digest old = d)
    (hsizes : ∀ id old, m.staged.lookup id = some old → old.length ≤ maxSafeInteger) {size : ℤ}
    (hdeclared : m.Declared H stagingId digest size) :
    Agrees (S3Store.Holds H S keyPrefix) id (S3Store.promote H S keyPrefix s stagingId digest size)
      (m.promote H stagingId digest size) := by
  refine Agrees.check fun _ => ?_
  dsimp only
  rw [h.committed]
  cases hcommitted : m.committed.lookup digest with
  | some old =>
    simp only [Option.map_some, Option.isSome_some, if_true, readVerifiedMetadata_put, bind,
      Except.bind]
    have hold := hhashed digest old hcommitted
    by_cases hsize : (old.length : ℤ) = size
    · simp only [measure, hold, hsize, require, decide_true, Bool.and_self, if_true]
      cases hstaged : m.staged.lookup stagingId with
      | none => exact .ok _ (h.withoutStaged stagingId)
      | some bytes =>
        obtain ⟨hdigest, hlength⟩ := hdeclared old hcommitted hsize bytes hstaged
        have hvalid :
            validateStaged "content" digest size ⟨H.digest bytes, bytes.length⟩ = .ok () :=
          validateStaged_declared hdigest hlength
        simp only [hvalid]
        exact .ok _ (h.withoutStaged stagingId)
    · simp only [measure, hsize, require, decide_false, Bool.and_false, if_false]
      exact .error _
  | none =>
    simp only [Option.map_none, Option.isSome_none]
    rw [h.staged]
    cases hstaged : m.staged.lookup stagingId with
    | none => exact .error _
    | some bytes =>
      dsimp only [Option.map_some]
      rw [if_neg Bool.false_ne_true, parseMetadata_put, kindOf_validateStaged "content" "metadata"]
      refine Agrees.check fun hvalid => ?_
      obtain ⟨hdigest, hsize⟩ := validateStaged_eq_ok hvalid
      have hcontent : validateStaged "content" digest size (measure H bytes) = .ok () :=
        validateStaged_declared hdigest hsize
      obtain ⟨s', hput, hholds⟩ := h.putCommitted hcommitted bytes
      have hlength : contentLength (measure H (putBody H bytes).body).size = .ok () :=
        contentLength_of_le (hsizes stagingId bytes hstaged)
      have hbody : (putBody H bytes).body = bytes := rfl
      simp only [hbody, hcontent, hput, bind, Except.bind] at hlength ⊢
      simp only [hlength]
      exact .ok _ (hholds.withoutStaged stagingId)

theorem readVerifiedMetadata_agrees (found : Option (List UInt8)) :
    kindOf (do
      let (bytes, _) ← readVerifiedMetadata H .notFound (found.map (putBody H))
      return bytes) = BlobMap.read found := by
  cases found with
  | none => rfl
  | some bytes => rw [Option.map_some, readVerifiedMetadata_put]; rfl

theorem S3Store.readStaged_agrees (h : S3Store.Holds H S keyPrefix s m) (stagingId : Chars) :
    kindOf (S3Store.readStaged H S keyPrefix s stagingId) =
      (do kindOf (validateStagingId stagingId); BlobMap.read (m.staged.lookup stagingId)) := by
  refine kindOf_check fun _ => ?_
  rw [h.staged]
  exact readVerifiedMetadata_agrees _

theorem S3Store.readCommitted_agrees (h : S3Store.Holds H S keyPrefix s m) (digest : Chars) :
    kindOf (S3Store.readCommitted H S keyPrefix s digest) =
      (do kindOf (validateDigest digest); BlobMap.read (m.committed.lookup digest)) := by
  refine kindOf_check fun _ => ?_
  rw [h.committed]
  exact readVerifiedMetadata_agrees _

theorem validS3ObjectExists_agrees {expectedDigest : Option Chars} (found : Option (List UInt8))
    (h : ∀ bytes d, found = some bytes → expectedDigest = some d → H.digest bytes = d) :
    kindOf (validS3ObjectExists H expectedDigest (found.map (putBody H))) = .ok found.isSome := by
  cases found with
  | none => rfl
  | some bytes =>
    have hdigest : expectedDigest.all ((measure H bytes).digest = ·) = true := by
      cases expectedDigest with
      | none => rfl
      | some d => exact decide_eq_true (h bytes d rfl rfl)
    rw [Option.map_some, validS3ObjectExists, readVerifiedMetadata_put]
    dsimp only
    rw [hdigest]
    rfl

/-! ### Listing -/

theorem stagingKey_lt {id id' : Chars} :
    stagingKey keyPrefix id < stagingKey keyPrefix id' ↔ id < id' := by
  have hmono : ∀ {a b : Chars}, a < b → stagingKey keyPrefix a < stagingKey keyPrefix b :=
    fun h => List.append_left_lt (List.append_left_lt h)
  refine ⟨fun h => ?_, hmono⟩
  rcases lt_trichotomy id id' with hlt | heq | hgt
  · exact hlt
  · exact absurd (heq ▸ h) (lt_irrefl _)
  · exact absurd (h.trans (hmono hgt)) (lt_irrefl _)

/-- The letters of a staging id. -/
theorem mem_stagingId {c : Char} (h : isValidStagingId stagingId = true) (hc : c ∈ stagingId) :
    c ≠ '/' := by
  rintro rfl
  cases stagingId with
  | nil => exact absurd hc List.not_mem_nil
  | cons d rest =>
    simp only [isValidStagingId, Bool.and_eq_true] at h
    obtain ⟨⟨⟨hd, -⟩, hrest⟩, -⟩ := h
    rcases List.mem_cons.1 hc with rfl | hc
    · exact absurd hd (by decide)
    · exact absurd (List.all_eq_true.1 hrest _ hc) (by decide)

theorem getLast?_stagingKey (h : isValidStagingId stagingId = true) :
    (stagingKey keyPrefix stagingId).getLast? ≠ some '/' := by
  have hnonempty : stagingId ≠ [] := by
    rintro rfl
    exact absurd h nofun
  rw [stagingKey, ← List.append_assoc, List.getLast?_append_of_ne_nil _ hnonempty]
  intro hlast
  exact mem_stagingId h (List.mem_of_getLast? hlast) rfl

theorem drop_stagingKey : (stagingKey keyPrefix stagingId).drop (stagingKey keyPrefix []).length =
    stagingId := by
  have hsplit : stagingKey keyPrefix stagingId = stagingKey keyPrefix [] ++ stagingId := by
    rw [stagingKey, stagingKey, List.append_nil, List.append_assoc]
  rw [hsplit, List.drop_left]

theorem S3Store.listObjects_agrees (h : S3Store.Holds H S keyPrefix s m) (hm : m.Sound H)
    {ids : List Chars} (hids : ∀ id ∈ ids, id ∈ m.ids) :
    S3Store.listObjects H S keyPrefix s (ids.map (stagingKey keyPrefix)) =
      .ok (ids.filterMap (m.receipt H)) := by
  induction ids with
  | nil => rfl
  | cons id ids ih =>
    obtain ⟨bytes, hbytes, hreceipt⟩ := BlobMap.receipt_of_mem (H := H) (hids id List.mem_cons_self)
    have hvalid := hm.ids id (by rw [hbytes]; rfl)
    have hkept : ¬((stagingKey keyPrefix id).getLast? = some '/' ∨ isValidStagingId
        ((stagingKey keyPrefix id).drop (stagingKey keyPrefix []).length) = false) := by
      rw [drop_stagingKey, hvalid]
      exact not_or.2 ⟨getLast?_stagingKey hvalid, nofun⟩
    rw [List.map_cons, S3Store.listObjects, if_neg hkept, h.staged, hbytes, Option.map_some,
      readVerifiedMetadata_put, ih fun id hid => hids id (List.mem_cons_of_mem _ hid),
      List.filterMap_cons, hreceipt, drop_stagingKey]
    rfl

theorem S3Store.listStaged_agrees (h : S3Store.Holds H S keyPrefix s m) (hm : m.Sound H) (limit : ℤ)
    (cursor : Option Chars) :
    kindOf (S3Store.listStaged H S keyPrefix s limit (cursor.map (S3Store.cursorOf S keyPrefix))) =
      (m.listStaged H limit cursor).map fun page =>
        (page.1, page.2.map (S3Store.cursorOf S keyPrefix)) := by
  have hmono : StrictMono (stagingKey keyPrefix) := fun _ _ hlt => stagingKey_lt.2 hlt
  obtain ⟨keys, hkeys, hmem, hlist⟩ := S.list_eq s (stagingKey keyPrefix [])
    (cursor.map (stagingKey keyPrefix)) limit.toNat
  have hkeys : keys = m.ids.map (stagingKey keyPrefix) := by
    refine hkeys.eq_of_mem_iff (List.pairwise_map.2 (m.ids_ascend.imp fun hlt => hmono hlt))
      fun key => ?_
    rw [hmem, List.mem_map]
    constructor
    · rintro ⟨hstarts, hkey⟩
      obtain ⟨id, rfl, hid⟩ := h.keys key hstarts hkey
      exact ⟨id, BlobMap.mem_ids.2 hid, rfl⟩
    · rintro ⟨id, hid, rfl⟩
      refine ⟨⟨id, by rw [stagingKey, stagingKey, List.append_nil, List.append_assoc]⟩, ?_⟩
      rw [h.staged, Option.isSome_map]
      exact BlobMap.mem_ids.1 hid
  have hcursor : cursor.map (S3Store.cursorOf S keyPrefix) =
      (cursor.map (stagingKey keyPrefix)).map S.token := by
    rw [Option.map_map]
    rfl
  unfold S3Store.listStaged BlobMap.listStaged
  cases hlimit : validateLimit limit with
  | error e => rfl
  | ok u =>
    have hpage : ∀ id ∈ Paging.page limit.toNat cursor m.ids, id ∈ m.ids := fun id hid =>
      (Paging.mem_page m.ids_ascend hid).1
    rw [hcursor, hlist, hkeys, Paging.page_map hmono, Paging.next_map hmono, Option.map_map]
    simp only [bind, Except.bind, S3Store.listObjects_agrees h hm hpage]
    rfl

theorem S3Store.run_agrees (h : S3Store.Holds H S keyPrefix s m) (hm : m.Sound H)
    (hsizes : ∀ id old, m.staged.lookup id = some old → old.length ≤ maxSafeInteger) {call : Call}
    (hcall : call.Admitted H m) :
    Agrees (S3Store.Holds H S keyPrefix) (Answer.mapCursor (S3Store.cursorOf S keyPrefix))
      (S3Store.run H S keyPrefix s call) (m.run H call) := by
  cases call with
  | stage stagingId bytes options =>
    exact Agrees.writing _ _ (stage_agrees h hcall options) fun _ => rfl
  | promote stagingId digest size =>
    exact Agrees.writing _ _ (promote_agrees h hm.hashed hsizes hcall) fun _ => rfl
  | readStaged stagingId =>
    refine Agrees.reading (i := id) h ?_ fun _ => rfl
    rw [Except.map_id]
    exact readStaged_agrees h stagingId
  | readCommitted digest =>
    refine Agrees.reading (i := id) h ?_ fun _ => rfl
    rw [Except.map_id]
    exact readCommitted_agrees h digest
  | removeStaged stagingId =>
    have hremove : Agrees (S3Store.Holds H S keyPrefix) id
        (S3Store.removeStaged S keyPrefix s stagingId) (do
          kindOf (validateStagingId stagingId)
          return ((), m.withoutStaged stagingId)) :=
      Agrees.check fun _ => .ok () (h.withoutStaged stagingId)
    exact Agrees.writing (fun _ => Answer.removed) (fun _ => Answer.removed) hremove fun _ => rfl
  | stagedExists stagingId =>
    refine Agrees.reading (i := id) h ?_ fun _ => rfl
    rw [Except.map_id]
    refine kindOf_check fun _ => ?_
    rw [h.staged]
    exact validS3ObjectExists_agrees _ fun _ _ _ hnone => nomatch hnone
  | committedExists digest =>
    refine Agrees.reading (i := id) h ?_ fun _ => rfl
    rw [Except.map_id]
    refine kindOf_check fun _ => ?_
    rw [h.committed]
    refine validS3ObjectExists_agrees _ fun bytes d hfound hd => ?_
    exact Option.some.inj hd ▸ hm.hashed digest bytes hfound
  | listStaged limit cursor =>
    refine Agrees.reading (i := fun page => (page.1, page.2.map (S3Store.cursorOf S keyPrefix))) h
      (listStaged_agrees h hm limit cursor) fun _ => rfl

end Service

/-! ## Runs -/

/-- The two stores beside the map they stand for. -/
structure Stores (σ : Type) where
  map : BlobMap
  files : FilesystemStore
  bucket : σ

/-- What a call leaves. A call that throws leaves the store as it is. -/
def leaves {ε α σ : Type} (s : σ) : Except ε (α × σ) → σ
  | .ok (_, s') => s'
  | .error _ => s

section Runs

variable {σ τ : Type} (H : Sha256) (S : ObjectService σ τ) (keyPrefix : Chars)

/-- The same calls, on both stores and on the map. -/
def stores : System (Stores σ) Call :=
  ⟨fun s => s.map = ⟨∅, ∅⟩ ∧ s.files = ⟨∅, ∅⟩ ∧
      ∀ key, keyPrefix <+: key → S.object? s.bucket key = none,
    fun s call t => t = ⟨leaves s.map (s.map.run H call), leaves s.files (s.files.run H call),
      leaves s.bucket (S3Store.run H S keyPrefix s.bucket call)⟩⟩

/-- The calls that are made meet the condition. -/
def Admits (s : Stores σ) (call : Call) : Prop :=
  call.Admitted H s.map

/-- What holds of the stores in a state, and from then on. -/
structure WriteOnce (s : Stores σ) : Prop where
  /-- Both stores answer as the map does, up to the form of cursors. -/
  answers : ∀ call : Call, call.Admitted H s.map →
    kindOf ((s.files.run H call).map Prod.fst) = (s.map.run H call).map Prod.fst ∧
      kindOf ((S3Store.run H S keyPrefix s.bucket call).map Prod.fst) =
        (s.map.run H call).map fun a => a.1.mapCursor (S3Store.cursorOf S keyPrefix)
  /-- Committed bytes hash to their digest. -/
  hashed : ∀ digest bytes, (s.files.readCommitted H digest = .ok bytes ∨
    S3Store.readCommitted H S keyPrefix s.bucket digest = .ok bytes) → H.digest bytes = digest
  /-- Committed bytes never change. -/
  kept : ∀ t, ((stores H S keyPrefix).restrict (Admits H)).Later s t → ∀ digest bytes,
    (s.files.readCommitted H digest = .ok bytes → t.files.readCommitted H digest = .ok bytes) ∧
      (S3Store.readCommitted H S keyPrefix s.bucket digest = .ok bytes →
        S3Store.readCommitted H S keyPrefix t.bucket digest = .ok bytes)
  /-- A promotion of staged bytes under another digest or size fails, and leaves them. -/
  refused : ∀ stagingId digest size bytes, s.map.Declared H stagingId digest size →
    s.files.readStaged H stagingId = .ok bytes →
    ¬(H.digest bytes = digest ∧ (bytes.length : ℤ) = size) →
      (∃ e, s.files.promote H stagingId digest size = .error e) ∧
        ∃ e, S3Store.promote H S keyPrefix s.bucket stagingId digest size = .error e
  /-- Where such an object is committed already, the staged bytes are lost. -/
  lost : ∀ stagingId digest size, validatePromotion stagingId digest size = .ok () →
    ¬s.map.Declared H stagingId digest size →
      (∃ files, s.files.promote H stagingId digest size = .ok (⟨digest, size⟩, files) ∧
        files.staging.lookup stagingId = none) ∧
      ∃ bucket, S3Store.promote H S keyPrefix s.bucket stagingId digest size =
          .ok (⟨digest, size⟩, bucket) ∧ S.object? bucket (stagingKey keyPrefix stagingId) = none

variable {H S keyPrefix} {s t : Stores σ} {m : BlobMap} {call : Call}

theorem Agrees.leaves {α β : Type} {R : σ → BlobMap → Prop} {f : β → α} {s : σ}
    {x : Except StoreError (α × σ)} {y : Except (Option ErrorCode) (β × BlobMap)}
    (h : Agrees R f x y) (hR : R s m) : R (leaves s x) (leaves m y) := by
  cases h with
  | error e => exact hR
  | ok b h => exact h

theorem kindOf_check_eq_ok {α : Type} {x : Except StoreError Unit}
    {k : Unit → Except (Option ErrorCode) α} {a : α} (h : (kindOf x >>= k) = .ok a) :
    x = .ok () ∧ k () = .ok a := by
  cases x with
  | error e => exact absurd h nofun
  | ok u => exact ⟨rfl, h⟩

theorem validateStage_eq_ok {stagingId : Chars} {options : StageOptions}
    (h : validateStage stagingId options = .ok ()) : isValidStagingId stagingId = true := by
  by_contra hvalid
  rw [Bool.not_eq_true] at hvalid
  unfold validateStage at h
  rw [validateStagingId, require, hvalid] at h
  exact absurd h nofun

/-- What a call leaves of the map. -/
theorem BlobMap.run_cases (H : Sha256) (m : BlobMap) (call : Call) :
    leaves m (m.run H call) = m ∨
    (∃ stagingId bytes options, call = .stage stagingId bytes options ∧
      isValidStagingId stagingId = true ∧
      leaves m (m.run H call) = { m with staged := m.staged.insert stagingId bytes }) ∨
    (∃ stagingId, leaves m (m.run H call) = m.withoutStaged stagingId) ∨
    ∃ stagingId bytes, m.committed.lookup (H.digest bytes) = none ∧
      leaves m (m.run H call) =
        ({ m with committed := m.committed.insert (H.digest bytes) bytes } : BlobMap).withoutStaged
          stagingId := by
  cases hrun : m.run H call with
  | error e => exact Or.inl rfl
  | ok answer =>
    obtain ⟨answer, m'⟩ := answer
    change m' = m ∨ _
    have hread : ∀ {α : Type} {f : α → Answer Chars} {x : Except (Option ErrorCode) α},
        reading m f x = .ok (answer, m') → m' = m := by
      intro α f x h
      cases x with
      | error e => exact absurd h nofun
      | ok a => exact (Prod.mk.inj (Except.ok.inj h)).2.symm
    have hwrite : ∀ {α : Type} {f : α → Answer Chars} {x : Except (Option ErrorCode) (α × BlobMap)},
        writing f x = .ok (answer, m') → ∃ a, x = .ok (a, m') := by
      intro α f x h
      cases x with
      | error e => exact absurd h nofun
      | ok a => exact ⟨a.1, congrArg Except.ok (Prod.ext rfl (Prod.mk.inj (Except.ok.inj h)).2)⟩
    cases call with
    | readStaged | readCommitted | stagedExists | committedExists | listStaged =>
      exact Or.inl (hread hrun)
    | removeStaged stagingId =>
      obtain ⟨a, h⟩ := hwrite (f := fun _ => Answer.removed) hrun
      obtain ⟨-, h⟩ := kindOf_check_eq_ok h
      exact Or.inr (Or.inr (Or.inl ⟨stagingId, (Prod.mk.inj (Except.ok.inj h)).2.symm⟩))
    | stage stagingId bytes options =>
      obtain ⟨a, h⟩ := hwrite hrun
      obtain ⟨hvalid, h⟩ := kindOf_check_eq_ok h
      obtain ⟨-, h⟩ := kindOf_check_eq_ok h
      split at h
      · exact Or.inr (Or.inl ⟨stagingId, bytes, options, rfl, validateStage_eq_ok hvalid,
          (Prod.mk.inj (Except.ok.inj h)).2.symm⟩)
      · split at h
        · exact Or.inl (Prod.mk.inj (Except.ok.inj h)).2.symm
        · exact absurd h nofun
    | promote stagingId digest size =>
      obtain ⟨a, h⟩ := hwrite hrun
      obtain ⟨-, h⟩ := kindOf_check_eq_ok h
      split at h
      · split at h
        · refine Or.inr (Or.inr (Or.inl ⟨stagingId, ?_⟩))
          split at h
          · obtain ⟨-, h⟩ := kindOf_check_eq_ok h
            exact (Prod.mk.inj (Except.ok.inj h)).2.symm
          · exact (Prod.mk.inj (Except.ok.inj h)).2.symm
        · exact absurd h nofun
      · rename_i hfree
        split at h
        · exact absurd h nofun
        · rename_i bytes hbytes
          obtain ⟨hvalid, h⟩ := kindOf_check_eq_ok h
          obtain ⟨rfl, -⟩ := validateStaged_eq_ok hvalid
          exact Or.inr (Or.inr (Or.inr ⟨stagingId, bytes, hfree,
            (Prod.mk.inj (Except.ok.inj h)).2.symm⟩))

theorem lookup_erase_eq_some {γ : Type} {entries : AList fun _ : Chars => γ} {key k : Chars} {c : γ}
    (h : (entries.erase key).lookup k = some c) : entries.lookup k = some c := by
  by_cases hk : k = key
  · rw [hk, AList.lookup_erase] at h
    exact absurd h nofun
  · rwa [AList.lookup_erase_ne hk] at h

theorem lookup_insert_eq_some {γ : Type} {entries : AList fun _ : Chars => γ} {key k : Chars}
    {c c' : γ} (h : (entries.insert key c).lookup k = some c') :
    k = key ∧ c' = c ∨ entries.lookup k = some c' := by
  by_cases hk : k = key
  · rw [hk, AList.lookup_insert] at h
    exact Or.inl ⟨hk, (Option.some.inj h).symm⟩
  · rw [AList.lookup_insert_ne hk] at h
    exact Or.inr h

theorem BlobMap.Sound.run (h : m.Sound H) (call : Call) : (leaves m (m.run H call)).Sound H := by
  have herased : ∀ (staged : AList fun _ : Chars => List UInt8) stagingId id,
      ((staged.erase stagingId).lookup id).isSome → (staged.lookup id).isSome := by
    intro staged stagingId id hid
    obtain ⟨bytes, hbytes⟩ := Option.isSome_iff_exists.1 hid
    exact Option.isSome_iff_exists.2 ⟨bytes, lookup_erase_eq_some hbytes⟩
  rcases BlobMap.run_cases H m call with
    hsame | ⟨stagingId, bytes, options, -, hvalid, hm⟩ | ⟨stagingId, hm⟩ | ⟨stagingId, bytes, -, hm⟩
  · rwa [hsame]
  · rw [hm]
    refine ⟨fun id hid => ?_, h.hashed⟩
    obtain ⟨old, hold⟩ := Option.isSome_iff_exists.1 hid
    rcases lookup_insert_eq_some hold with ⟨rfl, -⟩ | hold
    · exact hvalid
    · exact h.ids id (by rw [hold]; rfl)
  · rw [hm]
    exact ⟨fun id hid => h.ids id (herased _ _ id hid), h.hashed⟩
  · rw [hm]
    refine ⟨fun id hid => h.ids id (herased _ _ id hid), fun d old hold => ?_⟩
    rcases lookup_insert_eq_some hold with ⟨rfl, rfl⟩ | hold
    · rfl
    · exact h.hashed d old hold

/-- Committed bytes stay through a call. -/
theorem BlobMap.run_committed {digest : Chars} {bytes : List UInt8}
    (h : m.committed.lookup digest = some bytes) (call : Call) :
    (leaves m (m.run H call)).committed.lookup digest = some bytes := by
  rcases BlobMap.run_cases H m call with
    hsame | ⟨stagingId, new, options, -, -, hm⟩ | ⟨stagingId, hm⟩ | ⟨stagingId, new, hfree, hm⟩
  · rwa [hsame]
  · rwa [hm]
  · rwa [hm]
  · rw [hm]
    have hother : digest ≠ H.digest new := by
      rintro rfl
      rw [hfree] at h
      exact absurd h nofun
    change (m.committed.insert (H.digest new) new).lookup digest = some bytes
    rwa [AList.lookup_insert_ne hother]

/-- The invariant of the runs : both stores stand for the map. -/
structure Stores.Denotes (H : Sha256) (S : ObjectService σ τ) (keyPrefix : Chars) (s : Stores σ) :
    Prop where
  sound : s.map.Sound H
  sizes : ∀ id old, s.map.staged.lookup id = some old → old.length ≤ maxSafeInteger
  files : s.files.Holds H s.map
  bucket : S3Store.Holds H S keyPrefix s.bucket s.map

theorem Stores.Denotes.step (h : s.Denotes H S keyPrefix) (hcall : call.Admitted H s.map)
    (hst : (stores H S keyPrefix).step s call t) : t.Denotes H S keyPrefix := by
  obtain rfl : t = _ := hst
  refine ⟨h.sound.run call, fun id old hold => ?_,
    (FilesystemStore.run_agrees h.files h.sound hcall).leaves h.files,
    (S3Store.run_agrees h.bucket h.sound h.sizes hcall).leaves h.bucket⟩
  dsimp only at hold
  rcases BlobMap.run_cases H s.map call with
    hsame | ⟨stagingId, bytes, options, rfl, -, hm⟩ | ⟨stagingId, hm⟩ | ⟨stagingId, bytes, -, hm⟩
  · rw [hsame] at hold
    exact h.sizes id old hold
  · rw [hm] at hold
    rcases lookup_insert_eq_some hold with ⟨-, rfl⟩ | hold
    · exact hcall
    · exact h.sizes id old hold
  · rw [hm] at hold
    exact h.sizes id old (lookup_erase_eq_some hold)
  · rw [hm] at hold
    exact h.sizes id old (lookup_erase_eq_some hold)

theorem reachable_denotes (h : ((stores H S keyPrefix).restrict (Admits H)).Reachable s) :
    s.Denotes H S keyPrefix := by
  refine h.invariant (fun s hinit => ?_) fun s call t hs hst => hs.step hst.2 hst.1
  obtain ⟨hmap, hfiles, hbucket⟩ := hinit
  have hstaging : ∀ rest, S.object? s.bucket (keyPrefix ++ rest) = none := fun rest =>
    hbucket _ (List.prefix_append _ _)
  refine ⟨⟨?_, ?_⟩, ?_, ⟨?_, ?_⟩, ⟨?_, ?_, ?_⟩⟩
  · simp [hmap]
  · simp [hmap]
  · simp [hmap]
  · simp [hmap, hfiles]
  · simp [hmap, hfiles]
  · exact fun id => by rw [stagingKey, hstaging, hmap, AList.lookup_empty]; rfl
  · exact fun d => by rw [committedKey, hstaging, hmap, AList.lookup_empty]; rfl
  · intro key hstarts hkey
    have hunder : keyPrefix <+: key := (List.prefix_append _ _).trans hstarts
    rw [hbucket key hunder] at hkey
    exact absurd hkey nofun

theorem Agrees.answer {α β : Type} {R : σ → BlobMap → Prop} {f : β → α}
    {x : Except StoreError (α × σ)} {y : Except (Option ErrorCode) (β × BlobMap)}
    (h : Agrees R f x y) : kindOf (x.map Prod.fst) = y.map fun a => f a.1 := by
  cases h <;> rfl

/-- The map refuses what both stores refuse. -/
theorem Agrees.refused {α β : Type} {R : σ → BlobMap → Prop} {f : β → α}
    {x : Except StoreError (α × σ)} {y : Except (Option ErrorCode) (β × BlobMap)}
    (h : Agrees R f x y) (hy : ∃ k, y = .error k) : ∃ e, x = .error e := by
  cases h with
  | error e => exact ⟨e, rfl⟩
  | ok b h =>
    obtain ⟨k, hk⟩ := hy
    exact absurd hk nofun

theorem read_eq_ok {x : Except StoreError (List UInt8)} {check : Except StoreError Unit}
    {found : Option (List UInt8)} {bytes : List UInt8}
    (h : kindOf x = (do kindOf check; BlobMap.read found)) :
    x = .ok bytes ↔ check = .ok () ∧ found = some bytes := by
  cases check with
  | error e =>
    cases x with
    | error e => exact iff_of_false nofun fun h => nomatch h.1
    | ok a => exact absurd h nofun
  | ok u =>
    cases found with
    | none =>
      cases x with
      | error e => exact iff_of_false nofun fun h => nomatch h.2
      | ok a => exact absurd h nofun
    | some b =>
      cases x with
      | error e => exact absurd h nofun
      | ok a =>
        obtain rfl : a = b := Except.ok.inj h
        simp

/-- The map refuses a promotion of bytes under another digest or size. -/
theorem BlobMap.promote_refused {stagingId digest : Chars} {size : ℤ} {bytes : List UInt8}
    (hstaged : m.staged.lookup stagingId = some bytes)
    (hother : ¬(H.digest bytes = digest ∧ (bytes.length : ℤ) = size)) :
    ∃ k, m.promote H stagingId digest size = .error k := by
  cases hrun : m.promote H stagingId digest size with
  | error k => exact ⟨k, rfl⟩
  | ok a =>
    obtain ⟨-, h⟩ := kindOf_check_eq_ok hrun
    rw [hstaged] at h
    split at h
    · split at h
      · obtain ⟨hvalid, -⟩ := kindOf_check_eq_ok h
        exact absurd (validateStaged_eq_ok hvalid) hother
      · exact absurd h nofun
    · obtain ⟨hvalid, -⟩ := kindOf_check_eq_ok h
      exact absurd (validateStaged_eq_ok hvalid) hother

/-- A promotion that finds its object committed removes what is staged, whatever that is. -/
theorem FilesystemStore.promote_committed {store : FilesystemStore} {stagingId digest : Chars}
    {size : ℤ} {old : List UInt8} (h : store.Holds H m) (hm : m.Sound H)
    (hvalid : validatePromotion stagingId digest size = .ok ())
    (hold : m.committed.lookup digest = some old) (hsize : (old.length : ℤ) = size) :
    store.promote H stagingId digest size =
      .ok (⟨digest, size⟩, store.withoutStaged stagingId) := by
  have hdigest := hm.hashed digest old hold
  simp only [FilesystemStore.promote, hvalid, h.committed, hold, Option.map_some,
    readVerifiedObjectMetadata_temporary, measure, hdigest, hsize, require, decide_true,
    Bool.and_self, if_true, bind, Except.bind]
  rfl

theorem S3Store.promote_committed {b : σ} {stagingId digest : Chars} {size : ℤ} {old : List UInt8}
    (h : S3Store.Holds H S keyPrefix b m) (hm : m.Sound H)
    (hvalid : validatePromotion stagingId digest size = .ok ())
    (hold : m.committed.lookup digest = some old) (hsize : (old.length : ℤ) = size) :
    S3Store.promote H S keyPrefix b stagingId digest size =
      .ok (⟨digest, size⟩, S.delete (stagingKey keyPrefix stagingId) b) := by
  have hdigest := hm.hashed digest old hold
  simp only [S3Store.promote, hvalid, h.committed, hold, Option.map_some, Option.isSome_some,
    readVerifiedMetadata_put, measure, hdigest, hsize, require, decide_true, Bool.and_self, if_true,
    bind, Except.bind]
  rfl

/-- Through any calls that meet the condition, the two stores are one write-once map. -/
theorem stores_write_once (h : ((stores H S keyPrefix).restrict (Admits H)).Reachable s) :
    WriteOnce H S keyPrefix s := by
  have hs := reachable_denotes h
  have hcommitted : ∀ {u : Stores σ}, u.Denotes H S keyPrefix → ∀ digest bytes,
      (u.files.readCommitted H digest = .ok bytes ↔
        validateDigest digest = .ok () ∧ u.map.committed.lookup digest = some bytes) ∧
      (S3Store.readCommitted H S keyPrefix u.bucket digest = .ok bytes ↔
        validateDigest digest = .ok () ∧ u.map.committed.lookup digest = some bytes) :=
    fun hu digest bytes => ⟨read_eq_ok (FilesystemStore.readCommitted_agrees hu.files digest),
      read_eq_ok (S3Store.readCommitted_agrees hu.bucket digest)⟩
  refine ⟨fun call hcall => ⟨?_, ?_⟩, fun digest bytes hread => ?_, fun t ht digest bytes => ?_,
    fun stagingId digest size bytes hdeclared hread hother => ?_,
    fun stagingId digest size hvalid hundeclared => ?_⟩
  · have hfiles := (FilesystemStore.run_agrees hs.files hs.sound hcall).answer
    simpa only [Answer.mapCursor_id] using hfiles
  · exact (S3Store.run_agrees hs.bucket hs.sound hs.sizes hcall).answer
  · obtain ⟨hfiles, hbucket⟩ := hcommitted hs digest bytes
    rcases hread with hread | hread
    · exact hs.sound.hashed digest bytes (hfiles.1 hread).2
    · exact hs.sound.hashed digest bytes (hbucket.1 hread).2
  · have hkept : s.map.committed.lookup digest = some bytes →
        t.map.committed.lookup digest = some bytes := fun hlookup =>
      ht.preserves (P := fun u => u.map.committed.lookup digest = some bytes)
        (fun u call v _ hu hst => by
          obtain rfl : v = _ := hst.1
          exact BlobMap.run_committed hu call) h hlookup
    obtain ⟨hfiles, hbucket⟩ := hcommitted hs digest bytes
    obtain ⟨hfiles', hbucket'⟩ := hcommitted (reachable_denotes (h.later ht)) digest bytes
    exact ⟨fun hread => hfiles'.2 ((hfiles.1 hread).imp_right hkept),
      fun hread => hbucket'.2 ((hbucket.1 hread).imp_right hkept)⟩
  · obtain ⟨-, hstaged⟩ :=
      (read_eq_ok (FilesystemStore.readStaged_agrees hs.files stagingId)).1 hread
    have hrefused := BlobMap.promote_refused (H := H) hstaged hother
    exact ⟨(FilesystemStore.promote_agrees hs.files hs.sound.hashed hdeclared).refused hrefused,
      (S3Store.promote_agrees hs.bucket hs.sound.hashed hs.sizes hdeclared).refused hrefused⟩
  · unfold BlobMap.Declared at hundeclared
    push Not at hundeclared
    obtain ⟨old, hold, hsize, -⟩ := hundeclared
    refine ⟨⟨_, FilesystemStore.promote_committed hs.files hs.sound hvalid hold hsize,
      AList.lookup_erase _ _⟩,
      _, S3Store.promote_committed hs.bucket hs.sound hvalid hold hsize, ?_⟩
    rw [S.object?_delete, if_pos rfl]

end Runs

/-! ## A store with one object -/

/-- An object service that keeps its objects in a table. -/
def tableService : ObjectService (AList fun _ : Chars => S3Object) Chars where
  object? s key := s.lookup key
  put key object s := if key ∈ s then none else some (s.insert key object)
  delete key s := s.erase key
  token key := key
  list keyPrefix cursor limit s :=
    let keys := (s.keys.filter (keyPrefix <+: ·)).insertionSort (· ≤ ·)
    (Paging.page limit cursor keys, Paging.next limit cursor keys)
  put_taken s key object h := if_pos (AList.lookup_isSome.1 h)
  put_free s key object h := by
    refine ⟨s.insert key object, if_neg (AList.lookup_eq_none.1 h), fun k => ?_⟩
    split
    · rename_i hk
      rw [hk, AList.lookup_insert]
    · exact AList.lookup_insert_ne ‹_›
  object?_delete s key k := by
    split
    · rename_i hk
      rw [hk, AList.lookup_erase]
    · exact AList.lookup_erase_ne ‹_›
  list_eq s keyPrefix cursor limit := by
    refine ⟨(s.keys.filter (keyPrefix <+: ·)).insertionSort (· ≤ ·),
      ascending_insertionSort (s.nodupKeys.filter _), fun k => ?_, ?_⟩
    · rw [(List.perm_insertionSort _ _).mem_iff, List.mem_filter, decide_eq_true_eq,
        AList.lookup_isSome, AList.mem_keys, and_comm]
    · rw [Option.map_id', Option.map_id']

/-- The digest of the letter `a`. -/
def letterSha : Sha256 where
  digest _ := "ca978112ca1bbdcafac231b39a23dc4da786eff8147c4e72b9807785afee48bb".toList
  hex _ := by decide

/-- The stores before any call. -/
def emptyStores : Stores (AList fun _ : Chars => S3Object) :=
  ⟨⟨∅, ∅⟩, ⟨∅, ∅⟩, ∅⟩

/-- The stores after some calls. -/
def after (s : Stores (AList fun _ : Chars => S3Object)) (call : Call) :
    Stores (AList fun _ : Chars => S3Object) :=
  ⟨leaves s.map (s.map.run letterSha call), leaves s.files (s.files.run letterSha call),
    leaves s.bucket (S3Store.run letterSha tableService [] s.bucket call)⟩

/-- The upload of the letter, and its promotion. -/
def stageLetter : Call :=
  .stage ['x'] [97] ⟨none, none⟩

def promoteLetter : Call :=
  .promote ['x'] (letterSha.digest [97]) 1

theorem letter_write_once :
    S3Store.readCommitted letterSha tableService [] (after (after emptyStores stageLetter)
        promoteLetter).bucket (letterSha.digest [97]) = .ok [97] ∧
      WriteOnce letterSha tableService []
        (after (after emptyStores stageLetter) promoteLetter) := by
  refine ⟨by rfl, stores_write_once ?_⟩
  have hstart : ((stores letterSha tableService []).restrict (Admits letterSha)).Reachable
      emptyStores := .start ⟨rfl, rfl, fun key _ => rfl⟩
  have hstaged : Admits letterSha emptyStores stageLetter := by
    change [97].length ≤ maxSafeInteger
    decide
  refine (hstart.next (l := stageLetter) ⟨rfl, hstaged⟩).next (l := promoteLetter) ⟨rfl, ?_⟩
  intro old hold
  exact absurd hold nofun

end ArtifactStores

end FactoryFloor
