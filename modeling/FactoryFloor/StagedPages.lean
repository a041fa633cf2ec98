import FactoryFloor.BlobStore
import FactoryFloor.Execution
import FactoryFloor.JsonText
import Mathlib.Data.List.Lex

/-!
# Listing the staged objects

`FilesystemArtifactBlobStore.listStaged` with the directory it reads. `staging` may hold entries of any
name, and those whose names are no staging ids are not listed. A page begins after the cursor it is
given, and its own cursor is its last id when a greater one is there.

A client reads page after page with the cursors it is given, and between two pages objects come and
go. Every id that is there throughout is listed once, the ids ascend over all pages, and the listing
ends when no ids come that follow its cursor (`stable_paging`). The store must not hold damaged
objects : a page with one of them throws.
-/

namespace FactoryFloor

open JsonText Relational

/-! ## The directory -/

/-- An entry of the directory `staging`. -/
structure StagingEntry where
  name : Utf16
  directory : ObjectDirectory
  modifiedAt : Time

/-- The directory `staging`. -/
structure StagingDirectory where
  entries : List StagingEntry
  keyed : Keyed (·.name) entries

/-- `[A-Za-z0-9]`. -/
def isStagingIdStart (c : CodeUnit) : Bool :=
  65 ≤ c.val && c.val ≤ 90 || 97 ≤ c.val && c.val ≤ 122 || isDigit c

/-- `isValidStagingId`. -/
def isValidStagingId : Utf16 → Bool
  | [] => false
  | c :: rest => isStagingIdStart c && decide (rest.length ≤ 127) &&
      rest.all (fun d => isStagingIdStart d || d ∈ ascii "._-") && !decide (ascii ".." <:+: c :: rest)

/-- `StagedObject`. -/
structure ListedObject extends ObjectMetadata where
  stagingId : Utf16
  stagedLocator : Utf16
  lastModifiedAt : Time

namespace StagingDirectory

variable (P : Platform) (staging : StagingDirectory)

/-- `entries.filter((entry) => isValidStagingId(entry)).sort()`. -/
def ids : List Utf16 :=
  ((staging.entries.map (·.name)).filter isValidStagingId).insertionSort (· ≤ ·)

/-- The object of one id. -/
def listObject (id : Utf16) : Except BlobError ListedObject :=
  match staging.entries.find? (·.name = id) with
  | none => .error (.store .notFound "directory not found")
  | some entry => do
    let metadata ← readVerifiedObjectMetadata P .notFound (some entry.directory)
    return { metadata with
      stagingId := id, stagedLocator := ascii "file:staging/" ++ id,
      lastModifiedAt := entry.modifiedAt }

/-- The ids of a page. -/
def slice (limit : ℕ) (cursor : Option Utf16) : List Utf16 :=
  let start := match cursor with
    | none => 0
    | some cursor => staging.ids.findIdx (cursor < ·)
  (staging.ids.drop start).take limit

/-- `listStaged`, with the next cursor. -/
def listStaged (limit : ℕ) (cursor : Option Utf16) :
    Except BlobError (List ListedObject × Option Utf16) :=
  if limit < 1 ∨ 1000 < limit then
    .error (.thrown "RangeError" "limit must be an integer from 1 to 1000")
  else do
    let objects ← (staging.slice limit cursor).mapM (staging.listObject P)
    let last := (staging.slice limit cursor).getLast?
    return (objects, last.filter fun last => staging.ids.any (last < ·))

/-- Whether an object is staged under an id. -/
def Holds (id : Utf16) : Prop :=
  isValidStagingId id = true ∧ ∃ entry ∈ staging.entries, entry.name = id

/-- Every staged object is as it was written. -/
def Undamaged : Prop :=
  ∀ entry ∈ staging.entries, isValidStagingId entry.name = true → IsWritten P (some entry.directory)

end StagingDirectory

/-! ## Reading the pages -/

/-- What a client has that lists the staged objects. -/
structure StagedListing where
  pages : List (List ListedObject)
  cursor : Option Utf16
  ended : Bool

/-- The ids that were listed, in order. -/
def StagedListing.stagingIds (l : StagedListing) : List Utf16 :=
  l.pages.flatten.map (·.stagingId)

/-- The next page, unless the listing has ended. -/
def StagedListing.readPage (P : Platform) (limit : ℕ) (staging : StagingDirectory)
    (l : StagedListing) : Except BlobError StagedListing :=
  if l.ended then .ok l
  else do
    let (objects, nextCursor) ← staging.listStaged P limit l.cursor
    return ⟨l.pages ++ [objects], nextCursor, nextCursor.isNone⟩

/-- A listing after some reads. `stagings k` is what `staging` holds at the read of page `k`. -/
def readPages (P : Platform) (limits : ℕ → ℕ) (stagings : ℕ → StagingDirectory) :
    ℕ → Except BlobError StagedListing
  | 0 => .ok ⟨[], none, false⟩
  | n + 1 => do (← readPages P limits stagings n).readPage P (limits n) (stagings n)

/-- From the read of a page on, no ids come that follow the cursor. -/
def NoNewIds (P : Platform) (limits : ℕ → ℕ) (stagings : ℕ → StagingDirectory) (n : ℕ) : Prop :=
  ∀ k ≥ n, ∀ l, readPages P limits stagings (k + 1) = .ok l →
    ∀ id, (stagings (k + 1)).Holds id → (∀ cursor, l.cursor = some cursor → cursor < id) →
      (stagings k).Holds id

section Pages

variable {P : Platform} {staging : StagingDirectory} {limit : ℕ} {cursor : Option Utf16}

theorem StagingDirectory.ids_ascend : staging.ids.Pairwise (· < ·) := by
  have hnodup : staging.ids.Nodup :=
    (List.perm_insertionSort _ _).nodup_iff.2 (staging.keyed.filter _)
  exact ((List.pairwise_insertionSort _ _).and hnodup).imp fun h => lt_of_le_of_ne h.1 h.2

theorem StagingDirectory.mem_ids {id : Utf16} : id ∈ staging.ids ↔ staging.Holds id := by
  simp only [ids, Holds, List.mem_insertionSort, List.mem_filter, List.mem_map]
  exact and_comm

/-- The ids of a page are those of a page of the sorted ids. -/
theorem StagingDirectory.slice_eq : staging.slice limit cursor = Paging.page limit cursor staging.ids := by
  cases cursor with
  | none => rfl
  | some cursor =>
    rw [slice, Paging.page, Paging.after, List.dropWhile_eq_drop_findIdx_not]
    simp only [Bool.not_not]
    congr!

/-- An undamaged object is listed. -/
theorem StagingDirectory.Undamaged.listObject (h : staging.Undamaged P) {id : Utf16}
    (hid : id ∈ staging.ids) :
    ∃ object, staging.listObject P id = .ok object ∧ object.stagingId = id := by
  obtain ⟨hvalid, entry, hentry, rfl⟩ := mem_ids.1 hid
  obtain ⟨bytes, hwritten⟩ := h entry hentry hvalid
  refine ⟨{ measure P bytes with
    stagingId := entry.name, stagedLocator := ascii "file:staging/" ++ entry.name,
    lastModifiedAt := entry.modifiedAt }, ?_, rfl⟩
  rw [StagingDirectory.listObject, staging.keyed.find?_eq_some hentry]
  dsimp only
  rw [readVerifiedObjectMetadata_eq_ok.2 ⟨bytes, hwritten, rfl⟩]
  rfl

/-- A page of an undamaged directory has the objects of its ids. -/
theorem StagingDirectory.Undamaged.listStaged (h : staging.Undamaged P)
    (hlimit : 1 ≤ limit ∧ limit ≤ 1000) (cursor : Option Utf16) :
    ∃ objects, staging.listStaged P limit cursor =
        .ok (objects, Paging.next limit cursor staging.ids) ∧
      objects.map (·.stagingId) = Paging.page limit cursor staging.ids := by
  have hobjects : ∀ ids : List Utf16, (∀ id ∈ ids, id ∈ staging.ids) →
      ∃ objects, ids.mapM (staging.listObject P) = .ok objects ∧
        objects.map (·.stagingId) = ids := by
    intro ids hids
    induction ids with
    | nil => exact ⟨[], rfl, rfl⟩
    | cons id ids ih =>
      obtain ⟨hid, hids⟩ := List.forall_mem_cons.1 hids
      obtain ⟨object, hobject, hname⟩ := h.listObject hid
      obtain ⟨objects, hrest, hnames⟩ := ih hids
      refine ⟨object :: objects, ?_, by rw [List.map_cons, hname, hnames]⟩
      rw [List.mapM_cons, hobject, hrest]
      rfl
  obtain ⟨objects, hrun, hnames⟩ := hobjects (staging.slice limit cursor) fun id hid => by
    rw [slice_eq] at hid
    exact (Paging.page_sublist ..).subset hid
  refine ⟨objects, ?_, hnames.trans slice_eq⟩
  have hnext : (Paging.page limit cursor staging.ids).getLast?.filter
      (fun last => staging.ids.any (last < ·)) = Paging.next limit cursor staging.ids := by
    rw [Paging.next]
    congr!
  rw [StagingDirectory.listStaged, if_neg (by omega), hrun, slice_eq]
  exact congrArg (fun next => Except.ok (objects, next)) hnext

end Pages

/-! ## Stable paging -/

section Listings

variable {P : Platform} {limits : ℕ → ℕ} {stagings : ℕ → StagingDirectory}

/-- The reads follow the listing of the sorted ids. -/
theorem readPages_listing (hlimits : ∀ n, 1 ≤ limits n ∧ limits n ≤ 1000)
    (hwhole : ∀ n, (stagings n).Undamaged P) (n : ℕ) :
    ∃ l, readPages P limits stagings n = .ok l ∧
      l.pages.map (·.map (·.stagingId)) =
        (Paging.listing limits (fun k => (stagings k).ids) n).pages ∧
      l.cursor = (Paging.listing limits (fun k => (stagings k).ids) n).cursor ∧
      l.ended = (Paging.listing limits (fun k => (stagings k).ids) n).ended := by
  induction n with
  | zero => exact ⟨_, rfl, rfl, rfl, rfl⟩
  | succ n ih =>
    obtain ⟨l, hl, hpages, hcursor, hended⟩ := ih
    obtain ⟨objects, hread, hobjects⟩ :=
      StagingDirectory.Undamaged.listStaged (hwhole n) (hlimits n) l.cursor
    rw [readPages, hl, Paging.listing, Paging.Listing.read, ← hended, ← hcursor]
    cases hdone : l.ended with
    | true =>
      refine ⟨l, ?_, by rw [if_pos rfl]; exact hpages, ?_, ?_⟩
      · change l.readPage P (limits n) (stagings n) = .ok l
        rw [StagedListing.readPage, hdone, if_pos rfl]
      · rw [if_pos rfl, hcursor]
      · rw [if_pos rfl, hended]
    | false =>
      refine ⟨⟨l.pages ++ [objects], Paging.next (limits n) l.cursor (stagings n).ids,
        (Paging.next (limits n) l.cursor (stagings n).ids).isNone⟩, ?_, ?_, ?_, ?_⟩
      · change l.readPage P (limits n) (stagings n) = _
        rw [StagedListing.readPage, hdone, if_neg Bool.false_ne_true, hread]
        rfl
      · rw [if_neg Bool.false_ne_true, List.map_append, hpages, List.map_singleton, hobjects]
      · rw [if_neg Bool.false_ne_true]
      · rw [if_neg Bool.false_ne_true]

/-- Every id that is staged throughout a listing is listed once, in ascending order, and the listing
ends when no ids come that follow its cursor. -/
theorem stable_paging (P : Platform) (limits : ℕ → ℕ) (stagings : ℕ → StagingDirectory)
    (hlimits : ∀ n, 1 ≤ limits n ∧ limits n ≤ 1000) (hwhole : ∀ n, (stagings n).Undamaged P) :
    (∀ n, ∃ l, readPages P limits stagings n = .ok l ∧ l.stagingIds.Pairwise (· < ·) ∧
      (l.ended = true → ∀ id, (∀ k < l.pages.length, (stagings k).Holds id) →
        l.stagingIds.count id = 1)) ∧
    ∀ n, NoNewIds P limits stagings n →
      ∃ m l, readPages P limits stagings m = .ok l ∧ l.ended = true := by
  have hsorted : ∀ n, (stagings n).ids.Pairwise (· < ·) := fun n => StagingDirectory.ids_ascend
  have hpositive : ∀ n, 1 ≤ limits n := fun n => (hlimits n).1
  constructor
  · intro n
    obtain ⟨l, hl, hpages, -, hended⟩ := readPages_listing hlimits hwhole n
    have hids : l.stagingIds = (Paging.listing limits (fun k => (stagings k).ids) n).names := by
      rw [Paging.Listing.names, ← hpages, ← List.map_flatten]
      rfl
    have hascends : l.stagingIds.Pairwise (· < ·) := by
      rw [hids]
      exact Paging.listing_ascends hsorted hpositive n
    refine ⟨l, hl, hascends, fun hend id hpresent => ?_⟩
    have hlength : l.pages.length =
        (Paging.listing limits (fun k => (stagings k).ids) n).pages.length := by
      rw [← hpages, List.length_map]
    have hmem : id ∈ l.stagingIds := by
      rw [hids]
      exact Paging.listing_complete hsorted hpositive (hended.symm.trans hend) fun k hk =>
        StagingDirectory.mem_ids.2 (hpresent k (hlength ▸ hk))
    exact List.count_eq_one_of_mem (hascends.imp ne_of_lt) hmem
  · intro n hquiet
    have hlists : Paging.QuietFrom limits (fun k => (stagings k).ids) n := by
      intro k hk id hid hfollows
      obtain ⟨l, hl, -, hcursor, -⟩ := readPages_listing hlimits hwhole (k + 1)
      exact StagingDirectory.mem_ids.2 (hquiet k hk l hl id (StagingDirectory.mem_ids.1 hid)
        fun cursor h => hfollows cursor (hcursor ▸ h))
    obtain ⟨m, hm⟩ := Paging.listing_ends hsorted hlists
    obtain ⟨l, hl, -, -, hended⟩ := readPages_listing hlimits hwhole m
    exact ⟨m, l, hl, hended.trans hm⟩

end Listings

/-- A staged object without bytes. -/
def emptyStagedObject (name : String) : StagingEntry :=
  ⟨ascii name, .written samplePlatform [], 0⟩

/-- While the first page is read, `a` and `c` are staged. Then `c` is removed and `b` comes. -/
def changingDirectory : ℕ → StagingDirectory
  | 0 => ⟨["a", "c"].map emptyStagedObject, by decide⟩
  | _ + 1 => ⟨["a", "b"].map emptyStagedObject, by decide⟩

/-- A listing of one id at a time ends, and has `a` once. -/
theorem changing_directory_listed : ∃ m l,
    readPages samplePlatform (fun _ => 1) changingDirectory m = .ok l ∧ l.ended = true ∧
      l.stagingIds.count (ascii "a") = 1 := by
  have hwhole : ∀ n, (changingDirectory n).Undamaged samplePlatform := by
    intro n entry hentry _
    cases n with
    | zero | succ n =>
      obtain ⟨name, -, rfl⟩ := List.mem_map.1 hentry
      exact isWritten_written
  have ha : ∀ n, (changingDirectory n).Holds (ascii "a") := by
    intro n
    refine ⟨by decide, emptyStagedObject "a", ?_, rfl⟩
    cases n with
    | zero | succ n => exact List.mem_cons_self
  have hpaging := stable_paging samplePlatform (fun _ => 1) changingDirectory
    (fun _ => ⟨le_rfl, by decide⟩) hwhole
  have hquiet : NoNewIds samplePlatform (fun _ => 1) changingDirectory 1 := by
    intro k hk l hl id hid _
    obtain ⟨k, rfl⟩ : ∃ n, k = n + 1 := ⟨k - 1, by omega⟩
    exact hid
  obtain ⟨m, l, hl, hended⟩ := hpaging.2 1 hquiet
  obtain ⟨l', hl', -, hcount⟩ := hpaging.1 m
  obtain rfl := Except.ok.inj (hl.symm.trans hl')
  exact ⟨m, l, hl, hended, hcount hended _ fun k _ => ha k⟩

end FactoryFloor
