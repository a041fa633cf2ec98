import FactoryFloor.CanonicalJson
import FactoryFloor.PythonJson
import FactoryFloor.StableSorts

/-!
# The encoders of workers and runtime

Three functions write a JSON document in a canonical form : `canonicalizeJson` of the runtime,
`canonicalJson` of the TypeScript worker SDK and `canonical_json_bytes` of the Python one. They
agree on some bytes exactly when the document is written alike (`encoders_agree`) :

* no object has the key `__proto__`, which the runtime loses, and no number is infinite ;
* for the TypeScript SDK, `localeCompare` orders the keys of each object as their code units do,
  apart from array indices, which JavaScript enumerates first in any case ;
* for the Python SDK, no string has a lone surrogate, every number is one that Python and JavaScript
  print alike (`numberAgrees`), and the keys of each object are in the same order by code points as
  they are by array indices and code units.

An encoder is given abstractly by how it prints numbers and orders keys (`write`), and each of the
three is one of these. The collation of `localeCompare` is a parameter, and a document has distinct
keys.
-/

namespace FactoryFloor.Encoders

open JsonText Doubles StableSorts

/-! ## Sorted members -/

section Sorted

variable {α β : Type*} (le le' : Utf16 → Utf16 → Prop) [DecidableRel le] [DecidableRel le']

/-- The order of members by their keys. -/
def byKey (m n : Utf16 × α) : Prop :=
  le m.1 n.1

instance : DecidableRel (byKey le (α := α)) :=
  fun m n => inferInstanceAs (Decidable (le m.1 n.1))

instance [Std.Total le] : Std.Total (byKey le (α := α)) :=
  ⟨fun m n => Std.Total.total m.1 n.1⟩

instance [IsTrans Utf16 le] : IsTrans (Utf16 × α) (byKey le) :=
  ⟨fun m n o => IsTrans.trans m.1 n.1 o.1⟩

/-- Members in the order of their keys. -/
def sortBy (members : List (Utf16 × α)) : List (Utf16 × α) :=
  members.insertionSort (byKey le)

theorem sortBy_perm (members : List (Utf16 × α)) : (sortBy le members).Perm members :=
  List.perm_insertionSort _ members

theorem map_sortBy (f : α → β) (members : List (Utf16 × α)) :
    (sortBy le members).map (mapValue f) = sortBy le (members.map (mapValue f)) :=
  List.map_insertionSort _ _ _ _ fun _ _ _ _ => Iff.rfl

theorem map_fst_sortBy (members : List (Utf16 × α)) :
    (sortBy le members).map Prod.fst = (members.map Prod.fst).insertionSort le :=
  List.map_insertionSort _ _ _ _ fun _ _ _ _ => Iff.rfl

variable {le le'} [Std.Total le] [IsTrans Utf16 le] [Std.Total le'] [IsTrans Utf16 le']

/-- Members that are written in two ways and sorted by two orders are the same exactly when their
values are, and the orders agree on each key and the ones behind it. -/
theorem sortBy_eq_iff {members : List (Utf16 × α)} (h : (members.map Prod.fst).Nodup)
    {f g : α → β} :
    sortBy le (members.map (mapValue f)) = sortBy le' (members.map (mapValue g)) ↔
      ((members.map Prod.fst).Pairwise fun a b => le a b ↔ le' a b) ∧
        ∀ m ∈ members, f m.2 = g m.2 := by
  constructor
  · intro heq
    have hkeys := congrArg (List.map Prod.fst) heq
    rw [map_fst_sortBy, map_fst_sortBy, map_fst_mapValue, map_fst_mapValue] at hkeys
    refine ⟨insertionSort_eq_iff.1 hkeys, fun m hm => ?_⟩
    have hmem : mapValue f m ∈ sortBy le' (members.map (mapValue g)) :=
      heq ▸ (sortBy_perm le _).mem_iff.2 (List.mem_map_of_mem hm)
    obtain ⟨n, hn, hvalue⟩ := List.mem_map.1 ((sortBy_perm le' _).mem_iff.1 hmem)
    obtain ⟨hkey, hvalue⟩ := Prod.mk.inj hvalue
    rw [← hvalue, List.inj_on_of_nodup_map h hn hm hkey]
  · rintro ⟨horder, hvalues⟩
    have hmap : members.map (mapValue f) = members.map (mapValue g) :=
      List.map_congr_left fun m hm => Prod.ext rfl (hvalues m hm)
    rw [hmap]
    refine insertionSort_congr ?_
    rw [← map_fst_mapValue g, List.pairwise_map] at horder
    exact horder

end Sorted

/-! ## The order of enumeration -/

section Enumeration

variable {α : Type*}

/-- Whether a key is not enumerated after another one by JavaScript, when it was defined before. -/
def enumeratedLe (a b : Utf16) : Prop :=
  enumeratedBefore b a = false

instance : DecidableRel enumeratedLe := fun a b =>
  inferInstanceAs (Decidable (enumeratedBefore b a = false))

instance : Std.Total enumeratedLe where
  total a b := by
    unfold enumeratedLe enumeratedBefore
    cases arrayIndex a <;> cases arrayIndex b <;> simp
    omega

instance : IsTrans Utf16 enumeratedLe where
  trans a b c := by
    unfold enumeratedLe enumeratedBefore
    cases arrayIndex a <;> cases arrayIndex b <;> cases arrayIndex c <;> simp
    omega

theorem insertMember_eq (m : Utf16 × α) (members : List (Utf16 × α)) :
    insertMember m.1 m.2 members = insertBehind (byKey enumeratedLe) m members := by
  induction members with
  | nil => rfl
  | cons n members ih =>
    rw [insertMember, insertBehind, ih]
    by_cases h : enumeratedBefore m.1 n.1
    · rw [if_pos h, if_neg (show ¬byKey enumeratedLe n m by simp [byKey, enumeratedLe, h])]
    · rw [if_neg h, if_pos (show byKey enumeratedLe n m by simpa [byKey, enumeratedLe] using h)]

/-- An object enumerates its members in the order of their definition, array indices first. -/
theorem defineMembers_eq {members : List (Utf16 × α)} (h : (members.map Prod.fst).Nodup) :
    defineMembers members = sortBy enumeratedLe members := by
  rw [sortBy, ← foldl_insertBehind, defineMembers]
  suffices hgo : ∀ (rest done : List (Utf16 × α)), ((done ++ rest).map Prod.fst).Nodup →
      rest.foldl setMember done =
        rest.foldl (fun done m => insertBehind (byKey enumeratedLe) m done) done from
    hgo members [] h
  intro rest
  induction rest with
  | nil => exact fun _ _ => rfl
  | cons m rest ih =>
    intro done hdone
    have hnew : m.1 ∉ done.map Prod.fst := by
      rw [List.map_append, List.nodup_append] at hdone
      exact fun hmem => hdone.2.2 _ hmem _ (by simp) rfl
    have hset : setMember done m = insertBehind (byKey enumeratedLe) m done := by
      rw [setMember, if_neg hnew, insertMember_eq]
    have hmove : (setMember done m ++ rest).Perm (done ++ m :: rest) :=
      ((setMember_perm hnew).append_right rest).trans List.perm_middle.symm
    rw [List.foldl_cons, List.foldl_cons, ← hset]
    exact ih _ ((hmove.map Prod.fst).nodup_iff.2 hdone)

variable {le : Utf16 → Utf16 → Prop} [DecidableRel le] [Std.Total le] [IsTrans Utf16 le]

/-- Members that are sorted and defined in that order. -/
theorem defineMembers_sortBy {members : List (Utf16 × α)} (h : (members.map Prod.fst).Nodup) :
    defineMembers (sortBy le members) = sortBy (thenBy enumeratedLe le) members := by
  have hnodup := ((sortBy_perm le members).map Prod.fst).nodup_iff.2 h
  rw [defineMembers_eq hnodup, sortBy, sortBy, insertionSort_insertionSort]
  exact insertionSort_congr (List.pairwise_of_forall fun _ _ => Iff.rfl)

/-- The members of an object that are sorted and defined anew. -/
theorem defineMembers_sortBy_defineMembers {members : List (Utf16 × α)}
    (h : (members.map Prod.fst).Nodup) :
    defineMembers (sortBy le (defineMembers members)) =
      sortBy (thenBy enumeratedLe le) members := by
  have hnodup := ((defineMembers_perm h).map Prod.fst).nodup_iff.2 h
  rw [defineMembers_sortBy hnodup, defineMembers_eq h, sortBy, sortBy, insertionSort_insertionSort]
  refine insertionSort_congr (List.pairwise_of_forall fun m n => ?_)
  exact ⟨fun hmn => hmn.1, fun hmn => ⟨hmn, fun _ => hmn.1⟩⟩

end Enumeration

/-! ## Encoders -/

section Write

variable (num : Utf16 → Utf16) (le : Utf16 → Utf16 → Prop) [DecidableRel le]

mutual

/-- A document with its numbers printed and its members sorted. -/
def write : Tree → Tree
  | .num token => .num (num token)
  | .arr items => .arr (writeItems items)
  | .obj members => .obj (sortBy le (writeMembers members))
  | t => t

def writeItems : List Tree → List Tree
  | [] => []
  | item :: items => write item :: writeItems items

def writeMembers : List (Utf16 × Tree) → List (Utf16 × Tree)
  | [] => []
  | (key, value) :: members => (key, write value) :: writeMembers members

end

theorem writeItems_eq (items : List Tree) : writeItems num le items = items.map (write num le) := by
  induction items with
  | nil => rfl
  | cons item items ih => rw [writeItems, ih, List.map_cons]

theorem writeMembers_eq (members : List (Utf16 × Tree)) :
    writeMembers num le members = members.map (mapValue (write num le)) := by
  induction members with
  | nil => rfl
  | cons m members ih =>
    obtain ⟨key, value⟩ := m
    rw [writeMembers, ih, List.map_cons]
    rfl

end Write

/-- A document with distinct keys in each object. -/
inductive Distinct : Tree → Prop
  | null : Distinct .null
  | bool (b : Bool) : Distinct (.bool b)
  | num (token : Utf16) : Distinct (.num token)
  | str (s : Utf16) : Distinct (.str s)
  | arr {items : List Tree} (h : ∀ item ∈ items, Distinct item) : Distinct (.arr items)
  | obj {members : List (Utf16 × Tree)} (hkeys : (members.map Prod.fst).Nodup)
      (h : ∀ m ∈ members, Distinct m.2) : Distinct (.obj members)

/-- A document whose numbers are of a kind, without a key `__proto__`, and with a relation between
each key of an object and the ones behind it. -/
inductive Alike (number : Utf16 → Prop) (order : Utf16 → Utf16 → Prop) : Tree → Prop
  | null : Alike number order .null
  | bool (b : Bool) : Alike number order (.bool b)
  | num {token : Utf16} (h : number token) : Alike number order (.num token)
  | str (s : Utf16) : Alike number order (.str s)
  | arr {items : List Tree} (h : ∀ item ∈ items, Alike number order item) :
      Alike number order (.arr items)
  | obj {members : List (Utf16 × Tree)} (hproto : protoKey ∉ members.map Prod.fst)
      (horder : (members.map Prod.fst).Pairwise order)
      (h : ∀ m ∈ members, Alike number order m.2) : Alike number order (.obj members)

section Alike

variable {number number' : Utf16 → Prop} {order order' : Utf16 → Utf16 → Prop}

theorem alike_arr_iff {items : List Tree} :
    Alike number order (.arr items) ↔ ∀ item ∈ items, Alike number order item :=
  ⟨fun h => by cases h; assumption, .arr⟩

theorem alike_obj_iff {members : List (Utf16 × Tree)} :
    Alike number order (.obj members) ↔ protoKey ∉ members.map Prod.fst ∧
      (members.map Prod.fst).Pairwise order ∧ ∀ m ∈ members, Alike number order m.2 :=
  ⟨fun h => by cases h; exact ⟨‹_›, ‹_›, ‹_›⟩, fun ⟨hproto, horder, h⟩ => .obj hproto horder h⟩

/-- The kind and the relation are replaced by weaker ones, on the numbers that a document has. -/
theorem Alike.mono {t : Tree} (hvalid : t.Valid)
    (hnumber : ∀ token, isNumber token → number token → number' token)
    (horder : ∀ a b, order a b → order' a b) (h : Alike number order t) :
    Alike number' order' t := by
  induction h with
  | null => exact .null
  | bool b => exact .bool b
  | str s => exact .str s
  | num h => exact .num (hnumber _ hvalid h)
  | arr _ ih => exact .arr fun item hitem => ih item hitem (validItems_iff.1 hvalid item hitem)
  | obj hproto hkeys _ ih =>
    exact .obj hproto (hkeys.imp (horder _ _)) fun m hm => ih m hm (validMembers_iff.1 hvalid m hm)

end Alike

/-! ## The runtime -/

/-- `JSON.stringify` of the number of a text. -/
def jsText (token : Utf16) : Utf16 :=
  match numberOf token with
  | .finite x => numberToString x
  | .infinite _ => []

/-- Whether the number of a text is finite. -/
def isFinite (token : Utf16) : Prop :=
  ∃ x, numberOf token = .finite x

/-- The order of the keys of an object that the runtime builds : array indices, and then the other
keys by their code units. -/
def runtimeLe : Utf16 → Utf16 → Prop :=
  thenBy enumeratedLe fun a b => keyLe a b

instance : DecidableRel runtimeLe :=
  inferInstanceAs (DecidableRel (thenBy enumeratedLe fun a b => (keyLe a b : Prop)))

instance : Std.Total fun a b : Utf16 => (keyLe a b : Prop) :=
  ⟨fun _ _ => unitsLe_total _ _⟩

instance : IsTrans Utf16 fun a b => (keyLe a b : Prop) :=
  ⟨fun _ _ _ => unitsLe_trans⟩

instance : Std.Total runtimeLe :=
  inferInstanceAs (Std.Total (thenBy enumeratedLe fun a b => (keyLe a b : Prop)))

instance : IsTrans Utf16 runtimeLe :=
  inferInstanceAs (IsTrans Utf16 (thenBy enumeratedLe fun a b => (keyLe a b : Prop)))

/-- The document that `canonicalizeJson` writes. -/
def runtimeTree (t : Tree) : Tree :=
  toTree (norm (ofTree t))

theorem rebuild_eq_sortBy {members : List (Utf16 × Tree)} (h : (members.map Prod.fst).Nodup)
    (hproto : protoKey ∉ members.map Prod.fst) :
    rebuild members = sortBy runtimeLe members := by
  have hother : otherMembers (sortMembers members) = sortMembers members := by
    refine List.filter_eq_self.2 fun m hm => ?_
    have hmem := (sortMembers_perm members).mem_iff.1 hm
    simpa using fun heq : m.1 = protoKey => hproto (heq ▸ List.mem_map_of_mem hmem)
  have hsort : sortMembers members = sortBy (fun a b => (keyLe a b : Prop)) members :=
    insertionSort_congr (List.pairwise_of_forall fun _ _ => Iff.rfl)
  rw [rebuild_eq, hother, hsort, defineMembers_sortBy h]
  exact insertionSort_congr (List.pairwise_of_forall fun _ _ => Iff.rfl)

/-- An object without the key `__proto__` keeps all its members. -/
theorem length_rebuild {members : List (Utf16 × Tree)} (h : (members.map Prod.fst).Nodup)
    (hproto : protoKey ∈ members.map Prod.fst) : (rebuild members).length < members.length := by
  rw [(rebuild_perm h).length_eq, otherMembers, List.length_filter_lt_length_iff_exists]
  obtain ⟨m, hm, hkey⟩ := List.mem_map.1 hproto
  exact ⟨m, hm, by simp [hkey]⟩

theorem runtimeTree_arr (items : List Tree) :
    runtimeTree (.arr items) = .arr (items.map runtimeTree) := by
  rw [runtimeTree, ofTree, ofItems_eq, toTree_norm_arr, List.map_map]
  rfl

theorem runtimeTree_obj {members : List (Utf16 × Tree)} (h : (members.map Prod.fst).Nodup) :
    runtimeTree (.obj members) = .obj (rebuild (members.map (mapValue runtimeTree))) := by
  have hmap : (members.map (mapValue ofTree)).map (mapValue fun v => toTree (norm v)) =
      members.map (mapValue runtimeTree) := by
    rw [List.map_map]
    rfl
  have hnodup : ((members.map (mapValue runtimeTree)).map Prod.fst).Nodup := by
    rwa [map_fst_mapValue]
  rw [runtimeTree, ofTree, ofMembers_eq, toTree_norm_obj, map_defineMembers, hmap,
    rebuild_congr (defineMembers_perm hnodup) hnodup]

theorem allFinite_arr_iff {items : List Tree} :
    allFinite (ofTree (.arr items)) ↔ ∀ item ∈ items, allFinite (ofTree item) := by
  rw [ofTree, allFinite, allFiniteItems_iff, ofItems_eq, List.forall_mem_map]

theorem allFinite_obj_iff {members : List (Utf16 × Tree)} (h : (members.map Prod.fst).Nodup) :
    allFinite (ofTree (.obj members)) ↔ ∀ m ∈ members, allFinite (ofTree m.2) := by
  have hnodup : ((members.map (mapValue ofTree)).map Prod.fst).Nodup := by
    rwa [map_fst_mapValue]
  rw [ofTree, allFinite, allFiniteMembers_iff, ofMembers_eq]
  constructor
  · exact fun hall m hm => hall (mapValue ofTree m)
      ((defineMembers_perm hnodup).mem_iff.2 (List.mem_map_of_mem hm))
  · intro hall m hm
    obtain ⟨n, hn, rfl⟩ := List.mem_map.1 ((defineMembers_perm hnodup).mem_iff.1 hm)
    exact hall n hn

section Agreement

variable (num : Utf16 → Utf16) (le : Utf16 → Utf16 → Prop) [DecidableRel le] [Std.Total le]
  [IsTrans Utf16 le]

/-- An encoder writes what the runtime does exactly when it prints each number so, and has each key
and the ones behind it in the same order. -/
theorem write_eq_iff {t : Tree} (h : Distinct t) :
    (allFinite (ofTree t) ∧ write num le t = runtimeTree t) ↔
      Alike (fun token => isFinite token ∧ num token = jsText token)
        (fun a b => le a b ↔ runtimeLe a b) t := by
  induction h with
  | null => exact ⟨fun _ => .null, fun _ => ⟨rfl, rfl⟩⟩
  | bool b => exact ⟨fun _ => .bool b, fun _ => ⟨rfl, rfl⟩⟩
  | str s => exact ⟨fun _ => .str s, fun _ => ⟨rfl, rfl⟩⟩
  | num token =>
    constructor
    · rintro ⟨hfinite, heq⟩
      cases hnumber : numberOf token with
      | finite x =>
        refine .num ⟨⟨x, hnumber⟩, ?_⟩
        simpa [write, runtimeTree, ofTree, norm, toTree, hnumber, jsText] using heq
      | infinite negative => simp [ofTree, allFinite, hnumber] at hfinite
    · intro h
      cases h with
      | num h =>
        obtain ⟨⟨x, hx⟩, htext⟩ := h
        refine ⟨by simp [ofTree, allFinite, hx], ?_⟩
        simpa [write, runtimeTree, ofTree, norm, toTree, hx, jsText] using htext
  | @arr items _ ih =>
    rw [alike_arr_iff, allFinite_arr_iff, write, writeItems_eq, runtimeTree_arr, Tree.arr.injEq,
      List.map_inj_left]
    constructor
    · rintro ⟨hfinite, heq⟩ item hitem
      exact (ih item hitem).1 ⟨hfinite item hitem, heq item hitem⟩
    · intro hall
      exact ⟨fun item hitem => ((ih item hitem).2 (hall item hitem)).1,
        fun item hitem => ((ih item hitem).2 (hall item hitem)).2⟩
  | @obj members hkeys _ ih =>
    have hnodup : ((members.map (mapValue runtimeTree)).map Prod.fst).Nodup := by
      rwa [map_fst_mapValue]
    rw [alike_obj_iff, allFinite_obj_iff hkeys, write, writeMembers_eq, runtimeTree_obj hkeys,
      Tree.obj.injEq]
    by_cases hproto : protoKey ∈ members.map Prod.fst
    · -- the runtime loses a member
      constructor
      · rintro ⟨-, heq⟩
        have hlength := length_rebuild hnodup (by rwa [map_fst_mapValue])
        rw [← heq, (sortBy_perm le _).length_eq, List.length_map, List.length_map] at hlength
        exact absurd hlength (lt_irrefl _)
      · rintro ⟨hnot, -⟩
        exact absurd hproto hnot
    · rw [rebuild_eq_sortBy hnodup (by rwa [map_fst_mapValue]), sortBy_eq_iff hkeys]
      constructor
      · rintro ⟨hfinite, horder, hvalues⟩
        exact ⟨hproto, horder, fun m hm => (ih m hm).1 ⟨hfinite m hm, hvalues m hm⟩⟩
      · rintro ⟨-, horder, hall⟩
        exact ⟨fun m hm => ((ih m hm).2 (hall m hm)).1, horder,
          fun m hm => ((ih m hm).2 (hall m hm)).2⟩

end Agreement

/-- The bytes that the runtime hashes. -/
def runtimeBytes (t : Tree) : Option (List UInt8) :=
  (canonicalizeJson (ofTree t)).map encodeText

theorem runtimeBytes_eq_some_iff {t : Tree} {bytes : List UInt8} :
    runtimeBytes t = some bytes ↔
      allFinite (ofTree t) ∧ encodeText (render (runtimeTree t)) = bytes := by
  rw [runtimeBytes, canonicalizeJson]
  split <;> simp_all [stringify, runtimeTree]

/-! ## The TypeScript SDK -/

/-- `localeCompare` of a locale, a consistent comparator. -/
structure Collation where
  localeCompare : Utf16 → Utf16 → ℤ
  swap : ∀ a b, 0 < localeCompare a b ↔ localeCompare b a < 0
  trans : ∀ a b c, localeCompare a b ≤ 0 → localeCompare b c ≤ 0 → localeCompare a c ≤ 0

namespace Collation

variable (C : Collation)

/-- `left.localeCompare(right)` is not positive. -/
def le (a b : Utf16) : Prop :=
  C.localeCompare a b ≤ 0

instance : DecidableRel C.le := fun a b => inferInstanceAs (Decidable (C.localeCompare a b ≤ 0))

instance : Std.Total C.le where
  total a b := by
    have hswap := C.swap a b
    unfold le
    omega

instance : IsTrans Utf16 C.le := ⟨C.trans⟩

mutual

/-- `sortJson` of a value with finite numbers. -/
def sortJson : JsValue → JsValue
  | .arr items => .arr (sortJsonItems items)
  | .obj members => .obj (defineMembers (sortBy C.le (sortJsonMembers members)))
  | value => value

def sortJsonItems : List JsValue → List JsValue
  | [] => []
  | item :: items => sortJson item :: sortJsonItems items

def sortJsonMembers : List (Utf16 × JsValue) → List (Utf16 × JsValue)
  | [] => []
  | (key, value) :: members => (key, sortJson value) :: sortJsonMembers members

end

/-- `canonicalJson`, and nothing when it throws. -/
def canonicalJson (value : JsValue) : Option (List UInt8) :=
  if allFinite value then some (encodeText (stringify (C.sortJson value))) else none

theorem sortJsonItems_eq (items : List JsValue) : C.sortJsonItems items = items.map C.sortJson := by
  induction items with
  | nil => rfl
  | cons item items ih => rw [sortJsonItems, ih, List.map_cons]

theorem sortJsonMembers_eq (members : List (Utf16 × JsValue)) :
    C.sortJsonMembers members = members.map (mapValue C.sortJson) := by
  induction members with
  | nil => rfl
  | cons m members ih =>
    obtain ⟨key, value⟩ := m
    rw [sortJsonMembers, ih, List.map_cons]
    rfl

/-- What `canonicalJson` writes. -/
theorem toTree_sortJson {t : Tree} (h : Distinct t) (hfinite : allFinite (ofTree t)) :
    toTree (C.sortJson (ofTree t)) = write jsText (thenBy enumeratedLe C.le) t := by
  induction h with
  | null | bool | str => rfl
  | num token =>
    cases hnumber : numberOf token with
    | finite x => simp [ofTree, sortJson, toTree, write, jsText, hnumber]
    | infinite negative => simp [ofTree, allFinite, hnumber] at hfinite
  | @arr items _ ih =>
    have hall := allFinite_arr_iff.1 hfinite
    rw [ofTree, ofItems_eq, sortJson, sortJsonItems_eq, toTree, toItems_eq, write, writeItems_eq,
      List.map_map, List.map_map]
    exact congrArg Tree.arr (List.map_congr_left fun item hitem => ih item hitem (hall item hitem))
  | @obj members hkeys _ ih =>
    have hall := (allFinite_obj_iff hkeys).1 hfinite
    have hmap : ((members.map (mapValue ofTree)).map (mapValue C.sortJson)).map (mapValue toTree) =
        members.map (mapValue (write jsText (thenBy enumeratedLe C.le))) := by
      rw [List.map_map, List.map_map]
      exact List.map_congr_left fun m hm => Prod.ext rfl (ih m hm (hall m hm))
    have hnodup : ((members.map (mapValue (write jsText (thenBy enumeratedLe C.le)))).map
        Prod.fst).Nodup := by
      rwa [map_fst_mapValue]
    rw [ofTree, ofMembers_eq, sortJson, sortJsonMembers_eq, toTree, toMembers_eq,
      map_defineMembers, map_sortBy, map_defineMembers, map_defineMembers, hmap,
      defineMembers_sortBy_defineMembers hnodup, write, writeMembers_eq]

/-- Keys that `localeCompare` orders as their code units do, unless one of them is enumerated before
the other one in any case. -/
def OrdersAlike (a b : Utf16) : Prop :=
  enumeratedLe a b → enumeratedLe b a → (C.le a b ↔ keyLe a b)

theorem ordersAlike_iff (a b : Utf16) :
    (thenBy enumeratedLe C.le a b ↔ runtimeLe a b) ↔ C.OrdersAlike a b := by
  unfold OrdersAlike runtimeLe thenBy
  by_cases hab : enumeratedLe a b
  · by_cases hba : enumeratedLe b a
    · simp [hab, hba]
    · simp [hab, hba]
  · simp [hab]

/-- The TypeScript SDK and the runtime. -/
theorem canonicalJson_agrees {t : Tree} (hvalid : t.Valid) (h : Distinct t) :
    (∃ bytes, C.canonicalJson (ofTree t) = some bytes ∧ runtimeBytes t = some bytes) ↔
      Alike isFinite C.OrdersAlike t := by
  have hwrite := write_eq_iff jsText (thenBy enumeratedLe C.le) h
  have halike : Alike isFinite C.OrdersAlike t ↔
      Alike (fun token => isFinite token ∧ jsText token = jsText token)
        (fun a b => thenBy enumeratedLe C.le a b ↔ runtimeLe a b) t :=
    ⟨.mono hvalid (fun _ _ hfinite => ⟨hfinite, rfl⟩) fun a b => (C.ordersAlike_iff a b).2,
      .mono hvalid (fun _ _ hfinite => hfinite.1) fun a b => (C.ordersAlike_iff a b).1⟩
  rw [halike, ← hwrite]
  constructor
  · rintro ⟨bytes, hsdk, hruntime⟩
    obtain ⟨hfinite, hbytes⟩ := runtimeBytes_eq_some_iff.1 hruntime
    rw [canonicalJson, if_pos hfinite, Option.some.injEq, stringify, ← hbytes] at hsdk
    refine ⟨hfinite, ?_⟩
    rw [← C.toTree_sortJson h hfinite]
    exact render_injective (toTree_valid _) (toTree_valid _)
      (encodeText_injective (wellFormed_render (toTree_valid _))
        (wellFormed_render (toTree_valid _)) hsdk)
  · rintro ⟨hfinite, heq⟩
    refine ⟨_, ?_, runtimeBytes_eq_some_iff.2 ⟨hfinite, rfl⟩⟩
    rw [canonicalJson, if_pos hfinite, stringify, C.toTree_sortJson h hfinite, heq]

end Collation

/-! ## The Python SDK -/

/-- A value that `json.loads` returns. A string is given by its code units. -/
inductive PyValue where
  | none
  | bool (b : Bool)
  | num (x : PyNumber)
  | str (s : Utf16)
  | list (items : List PyValue)
  | dict (items : List (Utf16 × PyValue))

/-- `d[key] = value`. -/
def setItem (d : List (Utf16 × PyValue)) (m : Utf16 × PyValue) : List (Utf16 × PyValue) :=
  if m.1 ∈ d.map Prod.fst then d.map fun n => if n.1 = m.1 then (n.1, m.2) else n else d ++ [m]

mutual

/-- `json.loads`. -/
def loads : Tree → PyValue
  | .null => .none
  | .bool b => .bool b
  | .num token => .num (pyNumberOf token)
  | .str s => .str s
  | .arr items => .list (loadsItems items)
  | .obj members => .dict ((loadsMembers members).foldl setItem [])

def loadsItems : List Tree → List PyValue
  | [] => []
  | item :: items => loads item :: loadsItems items

def loadsMembers : List (Utf16 × Tree) → List (Utf16 × PyValue)
  | [] => []
  | (key, value) :: members => (key, loads value) :: loadsMembers members

end

/-- The order of strings in Python, by their code points. -/
def pointsLe (a b : Utf16) : Prop :=
  unitsLe (points a) (points b)

instance : DecidableRel pointsLe := fun _ _ => inferInstanceAs (Decidable (unitsLe _ _ = true))

instance : Std.Total pointsLe := ⟨fun _ _ => unitsLe_total _ _⟩

instance : IsTrans Utf16 pointsLe := ⟨fun _ _ _ => unitsLe_trans⟩

mutual

/-- Whether `json.dumps` meets no number that `allow_nan` forbids. -/
def dumpable : PyValue → Bool
  | .num x => x.text?.isSome
  | .list items => dumpableItems items
  | .dict items => dumpableMembers items
  | _ => true

def dumpableItems : List PyValue → Bool
  | [] => true
  | item :: items => dumpable item && dumpableItems items

def dumpableMembers : List (Utf16 × PyValue) → Bool
  | [] => true
  | (_, value) :: items => dumpable value && dumpableMembers items

end

mutual

/-- The document that `json.dumps` writes with `sort_keys`, for a value it can write. -/
def dumped : PyValue → Tree
  | .none => .null
  | .bool b => .bool b
  | .num x => .num (x.text?.getD [48])
  | .str s => .str s
  | .list items => .arr (dumpedItems items)
  | .dict items => .obj (sortBy pointsLe (dumpedMembers items))

def dumpedItems : List PyValue → List Tree
  | [] => []
  | item :: items => dumped item :: dumpedItems items

def dumpedMembers : List (Utf16 × PyValue) → List (Utf16 × Tree)
  | [] => []
  | (key, value) :: items => (key, dumped value) :: dumpedMembers items

end

/-- `json.dumps` with `sort_keys`, without `ensure_ascii` and `allow_nan`. -/
def dumps (value : PyValue) : Option Utf16 :=
  if dumpable value then some (renderWith pyQuote (dumped value)) else none

/-- `str.encode`, which raises an error at a lone surrogate. -/
def encode (text : Utf16) : Option (List UInt8) :=
  if wellFormed text then some (encodeText text) else none

/-- `canonical_json_bytes`, and nothing when it raises an error. -/
def canonicalJsonBytes (value : PyValue) : Option (List UInt8) :=
  (dumps value).bind encode

theorem loadsItems_eq (items : List Tree) : loadsItems items = items.map loads := by
  induction items with
  | nil => rfl
  | cons item items ih => rw [loadsItems, ih, List.map_cons]

theorem loadsMembers_eq (members : List (Utf16 × Tree)) :
    loadsMembers members = members.map (mapValue loads) := by
  induction members with
  | nil => rfl
  | cons m members ih =>
    obtain ⟨key, value⟩ := m
    rw [loadsMembers, ih, List.map_cons]
    rfl

theorem dumpedItems_eq (items : List PyValue) : dumpedItems items = items.map dumped := by
  induction items with
  | nil => rfl
  | cons item items ih => rw [dumpedItems, ih, List.map_cons]

theorem dumpedMembers_eq (members : List (Utf16 × PyValue)) :
    dumpedMembers members = members.map (mapValue dumped) := by
  induction members with
  | nil => rfl
  | cons m members ih =>
    obtain ⟨key, value⟩ := m
    rw [dumpedMembers, ih, List.map_cons]
    rfl

theorem dumpableItems_iff {items : List PyValue} :
    dumpableItems items ↔ ∀ item ∈ items, dumpable item := by
  induction items with
  | nil => simp [dumpableItems]
  | cons item items ih => rw [dumpableItems, Bool.and_eq_true, ih, List.forall_mem_cons]

theorem dumpableMembers_iff {items : List (Utf16 × PyValue)} :
    dumpableMembers items ↔ ∀ m ∈ items, dumpable m.2 := by
  induction items with
  | nil => simp [dumpableMembers]
  | cons m items ih =>
    obtain ⟨key, value⟩ := m
    rw [dumpableMembers, Bool.and_eq_true, ih, List.forall_mem_cons]

/-- Distinct keys are set in order. -/
theorem foldl_setItem {members : List (Utf16 × PyValue)} (h : (members.map Prod.fst).Nodup) :
    members.foldl setItem [] = members := by
  induction members using List.reverseRecOn with
  | nil => rfl
  | append_singleton members m ih =>
    rw [List.map_append, List.nodup_append] at h
    have hnew : m.1 ∉ members.map Prod.fst := fun hmem => h.2.2 _ hmem _ (by simp) rfl
    rw [List.foldl_append, ih h.1, List.foldl_cons, List.foldl_nil, setItem, if_neg hnew]

theorem loads_obj {members : List (Utf16 × Tree)} (h : (members.map Prod.fst).Nodup) :
    loads (.obj members) = .dict (members.map (mapValue loads)) := by
  rw [loads, loadsMembers_eq, foldl_setItem]
  rwa [map_fst_mapValue]

/-- The text of a number, with a number in place of what cannot be written. -/
def pyText (token : Utf16) : Utf16 :=
  (pyNumberOf token).text?.getD [48]

theorem isNumber_pyText (token : Utf16) : isNumber (pyText token) := by
  unfold pyText
  cases pyNumberOf token with
  | int n => exact isNumber_intRepr n
  | float x => exact isNumber_floatRepr x
  | infinite negative => exact (by decide : isNumber ([48] : Utf16))

/-- What `canonical_json_bytes` writes. -/
theorem dumped_loads {t : Tree} (h : Distinct t) : dumped (loads t) = write pyText pointsLe t := by
  induction h with
  | null | bool | str | num => rfl
  | @arr items _ ih =>
    rw [loads, loadsItems_eq, dumped, dumpedItems_eq, write, writeItems_eq, List.map_map]
    exact congrArg Tree.arr (List.map_congr_left ih)
  | @obj members hkeys _ ih =>
    rw [loads_obj hkeys, dumped, dumpedMembers_eq, write, writeMembers_eq, List.map_map]
    exact congrArg (fun ms => Tree.obj (sortBy pointsLe ms))
      (List.map_congr_left fun m hm => Prod.ext rfl (ih m hm))

/-- A number that JavaScript reads as a finite one is finite in Python. -/
theorem text?_isSome {token : Utf16} (h : isFinite token) :
    (pyNumberOf token).text? = some (pyText token) := by
  obtain ⟨x, hx⟩ := h
  unfold pyText
  cases hnumber : pyNumberOf token with
  | int n => rfl
  | float y => rfl
  | infinite negative =>
    unfold pyNumberOf at hnumber
    unfold numberOf at hx
    cases hread : readNumber token with
    | none => simp [hread] at hnumber
    | some d =>
      cases hnearest : nearest d.toRat with
      | none => simp [hread, hnearest] at hx
      | some magnitude =>
        simp only [hread, hnearest] at hnumber
        split at hnumber <;> cases hnumber

theorem dumpable_loads {t : Tree} (h : Distinct t) (hfinite : allFinite (ofTree t)) :
    dumpable (loads t) := by
  induction h with
  | null | bool | str => rfl
  | num token =>
    cases hnumber : numberOf token with
    | finite x => rw [loads, dumpable, text?_isSome ⟨x, hnumber⟩]; rfl
    | infinite negative => simp [ofTree, allFinite, hnumber] at hfinite
  | @arr items _ ih =>
    have hall := allFinite_arr_iff.1 hfinite
    rw [loads, dumpable, dumpableItems_iff, loadsItems_eq, List.forall_mem_map]
    exact fun item hitem => ih item hitem (hall item hitem)
  | @obj members hkeys _ ih =>
    have hall := (allFinite_obj_iff hkeys).1 hfinite
    rw [loads_obj hkeys, dumpable, dumpableMembers_iff, List.forall_mem_map]
    exact fun m hm => ih m hm (hall m hm)

section Write

variable {num : Utf16 → Utf16} (le : Utf16 → Utf16 → Prop) [DecidableRel le]

theorem write_valid (hnum : ∀ token, isNumber (num token)) (t : Tree) :
    (write num le t).Valid := by
  induction t with
  | null | bool | str => trivial
  | num token => exact hnum token
  | arr items ih =>
    rw [write, writeItems_eq, Tree.Valid, validItems_iff]
    exact List.forall_mem_map.2 ih
  | obj members ih =>
    rw [write, writeMembers_eq, Tree.Valid, validMembers_iff]
    intro m hm
    obtain ⟨n, hn, rfl⟩ := List.mem_map.1 ((sortBy_perm le _).mem_iff.1 hm)
    exact ih n hn

theorem allStrings_write {P : Utf16 → Bool} (t : Tree) :
    allStrings P (write num le t) ↔ allStrings P t := by
  induction t with
  | null | bool | str | num => rfl
  | arr items ih =>
    rw [write, writeItems_eq, allStrings, allStrings, allStringsItems_iff, allStringsItems_iff,
      List.forall_mem_map]
    exact forall₂_congr ih
  | obj members ih =>
    rw [write, writeMembers_eq, allStrings, allStrings, allStringsMembers_iff,
      allStringsMembers_iff]
    have hmem : ∀ m, m ∈ sortBy le (members.map (mapValue (write num le))) ↔
        ∃ n ∈ members, mapValue (write num le) n = m := fun m => by
      rw [(sortBy_perm le _).mem_iff, List.mem_map]
    constructor
    · exact fun hall m hm => (hall _ ((hmem _).2 ⟨m, hm, rfl⟩)).imp id (ih m hm).1
    · rintro hall m hm
      obtain ⟨n, hn, rfl⟩ := (hmem m).1 hm
      exact (hall n hn).imp id (ih n hn).2

end Write

/-- Keys that Python and the runtime order alike. -/
def PointsAlike (a b : Utf16) : Prop :=
  pointsLe a b ↔ runtimeLe a b

theorem canonicalJsonBytes_eq_some_iff {t : Tree} (h : Distinct t) (hfinite : allFinite (ofTree t))
    {bytes : List UInt8} :
    canonicalJsonBytes (loads t) = some bytes ↔
      allStrings wellFormed t ∧ encodeText (render (write pyText pointsLe t)) = bytes := by
  have hvalid : (write pyText pointsLe t).Valid := write_valid pointsLe isNumber_pyText t
  have hwell : wellFormed (renderWith pyQuote (write pyText pointsLe t)) ↔
      allStrings wellFormed t := by
    have hwrites := WritesWell.tree writesWell_pyQuote hvalid []
    rw [List.append_nil] at hwrites
    rw [hwrites, wellFormed, Bool.and_true, allStrings_write]
  rw [canonicalJsonBytes, dumps, if_pos (dumpable_loads h hfinite), Option.bind_some, encode,
    dumped_loads h]
  by_cases hstrings : allStrings wellFormed t
  · have htext : renderWith pyQuote (write pyText pointsLe t) =
        render (write pyText pointsLe t) := by
      rw [render_eq]
      exact (renderWith_congr (fun _ => quote_eq) ((allStrings_write pointsLe t).2 hstrings)).symm
    rw [if_pos (hwell.2 hstrings), htext, Option.some.injEq, and_iff_right hstrings]
  · rw [if_neg (mt hwell.1 hstrings)]
    exact ⟨fun heq => absurd heq (by simp), fun heq => absurd heq.1 hstrings⟩

/-- The Python SDK and the runtime. -/
theorem canonicalJsonBytes_agrees {t : Tree} (hvalid : t.Valid) (h : Distinct t) :
    (∃ bytes, canonicalJsonBytes (loads t) = some bytes ∧ runtimeBytes t = some bytes) ↔
      allStrings wellFormed t ∧ Alike numberAgrees PointsAlike t := by
  have halike : Alike numberAgrees PointsAlike t ↔
      Alike (fun token => isFinite token ∧ pyText token = jsText token) PointsAlike t := by
    have hnumber : ∀ token, isNumber token →
        (isFinite token ∧ pyText token = jsText token ↔ numberAgrees token) := by
      intro token htoken
      rw [← pyNumberOf_eq_iff htoken]
      constructor
      · rintro ⟨⟨x, hx⟩, heq⟩
        exact ⟨x, hx, by rw [text?_isSome ⟨x, hx⟩, heq, jsText, hx]⟩
      · rintro ⟨x, hx, heq⟩
        refine ⟨⟨x, hx⟩, ?_⟩
        rw [text?_isSome ⟨x, hx⟩, Option.some.injEq] at heq
        rw [heq, jsText, hx]
    exact ⟨.mono hvalid (fun token htoken => (hnumber token htoken).2) fun _ _ => id,
      .mono hvalid (fun token htoken => (hnumber token htoken).1) fun _ _ => id⟩
  have hwrite := write_eq_iff pyText pointsLe h
  rw [halike]
  constructor
  · rintro ⟨bytes, hpython, hruntime⟩
    obtain ⟨hfinite, hbytes⟩ := runtimeBytes_eq_some_iff.1 hruntime
    obtain ⟨hstrings, hbytes'⟩ := (canonicalJsonBytes_eq_some_iff h hfinite).1 hpython
    have hpy := write_valid pointsLe isNumber_pyText t
    refine ⟨hstrings, hwrite.1 ⟨hfinite, ?_⟩⟩
    exact render_injective hpy (toTree_valid _) (encodeText_injective (wellFormed_render hpy)
      (wellFormed_render (toTree_valid _)) (hbytes'.trans hbytes.symm))
  · rintro ⟨hstrings, hall⟩
    obtain ⟨hfinite, heq⟩ := hwrite.2 hall
    exact ⟨_, (canonicalJsonBytes_eq_some_iff h hfinite).2 ⟨hstrings, rfl⟩,
      runtimeBytes_eq_some_iff.2 ⟨hfinite, by rw [heq]⟩⟩

/-- A worker of either language and the runtime compute the same bytes of a document exactly when it
is written alike. -/
theorem encoders_agree (C : Collation) {t : Tree} (hvalid : t.Valid) (h : Distinct t) :
    ((∃ bytes, C.canonicalJson (ofTree t) = some bytes ∧ runtimeBytes t = some bytes) ↔
        Alike isFinite C.OrdersAlike t) ∧
      ((∃ bytes, canonicalJsonBytes (loads t) = some bytes ∧ runtimeBytes t = some bytes) ↔
        allStrings wellFormed t ∧ Alike numberAgrees PointsAlike t) :=
  ⟨C.canonicalJson_agrees hvalid h, canonicalJsonBytes_agrees hvalid h⟩

/-- The collation by code units. -/
def unitCollation : Collation where
  localeCompare a b := if keyLe a b then if keyLe b a then 0 else -1 else 1
  swap a b := by
    have htotal : keyLe a b ∨ keyLe b a := unitsLe_total _ _
    by_cases hab : keyLe a b
    · by_cases hba : keyLe b a <;> simp [hab, hba]
    · have hba : keyLe b a := htotal.resolve_left hab
      simp [hab, hba]
  trans a b c hab hbc := by
    have hle : ∀ {a b : Utf16},
        (if keyLe a b then if keyLe b a then (0 : ℤ) else -1 else 1) ≤ 0 → keyLe a b := by
      intro a b h
      by_contra hnot
      rw [if_neg hnot] at h
      exact absurd h (by decide)
    have hac : keyLe a c := unitsLe_trans (hle hab) (hle hbc)
    rw [if_pos hac]
    split <;> decide

theorem unitCollation_le (a b : Utf16) : unitCollation.le a b ↔ keyLe a b := by
  unfold Collation.le unitCollation
  by_cases h : keyLe a b
  · by_cases h' : keyLe b a <;> simp [h, h']
  · simp [h]

/-- `{"unit":"ms","amount":9007199254740991}`. -/
def amountDocument : Tree :=
  .obj [(ascii "unit", .str (ascii "ms")), (ascii "amount", .num (ascii "9007199254740991"))]

theorem amount_agrees : numberAgrees (ascii "9007199254740991") :=
  ⟨⟨false, 9007199254740991, 0⟩, by decide, by
    rw [if_pos (by decide)]
    exact intAgrees_of_lt (by norm_num)⟩

theorem encoders_agree_amount :
    (∃ bytes, unitCollation.canonicalJson (ofTree amountDocument) = some bytes ∧
        runtimeBytes amountDocument = some bytes) ∧
      ∃ bytes, canonicalJsonBytes (loads amountDocument) = some bytes ∧
        runtimeBytes amountDocument = some bytes := by
  have hnumber : isNumber (ascii "9007199254740991") := by decide
  have hvalid : amountDocument.Valid := ⟨trivial, hnumber, trivial⟩
  have hdistinct : Distinct amountDocument :=
    .obj (by decide) (List.forall_mem_cons.2 ⟨.str _, List.forall_mem_singleton.2 (.num _)⟩)
  have hagree := encoders_agree unitCollation hvalid hdistinct
  obtain ⟨x, hx, -⟩ := (pyNumberOf_eq_iff hnumber).2 amount_agrees
  refine ⟨hagree.1.2 (.obj (by decide) ?_ ?_), hagree.2.2 ⟨by decide, .obj (by decide) ?_ ?_⟩⟩
  · exact List.pairwise_pair.2 fun _ _ => unitCollation_le _ _
  · exact List.forall_mem_cons.2 ⟨.str _, List.forall_mem_singleton.2 (.num ⟨x, hx⟩)⟩
  · exact List.pairwise_pair.2 (by unfold PointsAlike; decide)
  · exact List.forall_mem_cons.2 ⟨.str _, List.forall_mem_singleton.2 (.num amount_agrees)⟩

end FactoryFloor.Encoders
