import FactoryFloor.JsStrings
import FactoryFloor.JsValues

/-!
# Canonical JSON

`canonicalizeJson` rebuilds a value with the keys of its objects in order (`norm`), and writes it with
`JSON.stringify`. An object is rebuilt by assignments to a fresh object, and the assignment of the key
`__proto__` sets the prototype of that object, or does nothing. So an own member `__proto__` is lost.

`canonicalizeJson_eq_iff` says what two values with the same canonical text have in common : they are
the same up to the order of keys, once every member `__proto__` is left out. `content_identity_iff` is
when that makes the text a content identity. The canonical text of a value is always a fixed point.

A value is one that JSON can write, so the checks of `norm` for cycles, prototypes and other types are
left out.
-/

namespace FactoryFloor

open JsonText Doubles

/-! ## Objects -/

section Members

variable {α β : Type*}

/-- `__proto__`. -/
def protoKey : Utf16 := ascii "__proto__"

/-- Whether a key is not after another, in the order of `sort()`. -/
def keyLe (s t : Utf16) : Bool :=
  unitsLe (s.map (·.val)) (t.map (·.val))

/-- `Object.keys(value).sort()`, with the values. -/
def sortMembers (members : List (Utf16 × α)) : List (Utf16 × α) :=
  members.insertionSort fun m n => keyLe m.1 n.1

/-- `output[key] = value` of a plain object without own accessors. -/
def assign (output : List (Utf16 × α)) (m : Utf16 × α) : List (Utf16 × α) :=
  if m.1 = protoKey then output else setMember output m

/-- The members of the object that `norm` builds. -/
def rebuild (members : List (Utf16 × α)) : List (Utf16 × α) :=
  (sortMembers members).foldl assign []

theorem keyLe_antisymm {s t : Utf16} (hst : keyLe s t) (hts : keyLe t s) : s = t :=
  List.map_injective_iff.2 Fin.val_injective (unitsLe_antisymm hst hts)

instance : Std.Total (fun m n : Utf16 × α => (keyLe m.1 n.1 : Prop)) :=
  ⟨fun _ _ => unitsLe_total _ _⟩

instance : IsTrans (Utf16 × α) (fun m n : Utf16 × α => (keyLe m.1 n.1 : Prop)) :=
  ⟨fun _ _ _ => unitsLe_trans⟩

theorem sortMembers_perm (members : List (Utf16 × α)) : (sortMembers members).Perm members :=
  List.perm_insertionSort _ members

theorem sortMembers_sorted (members : List (Utf16 × α)) :
    (sortMembers members).Pairwise fun m n => keyLe m.1 n.1 :=
  List.pairwise_insertionSort _ members

/-- Members in order are determined by what they are, when their keys are distinct. -/
theorem eq_of_sorted {members members' : List (Utf16 × α)} (hperm : members.Perm members')
    (hkeys : (members'.map Prod.fst).Nodup) (h : members.Pairwise fun m n => keyLe m.1 n.1)
    (h' : members'.Pairwise fun m n => keyLe m.1 n.1) : members = members' := by
  refine hperm.eq_of_pairwise (fun m n hm hn hmn hnm => ?_) h h'
  exact List.inj_on_of_nodup_map hkeys (hperm.mem_iff.1 hm) hn (keyLe_antisymm hmn hnm)

theorem sortMembers_congr {members members' : List (Utf16 × α)} (hperm : members.Perm members')
    (hkeys : (members'.map Prod.fst).Nodup) : sortMembers members = sortMembers members' := by
  have hsorted := sortMembers_perm members'
  exact eq_of_sorted ((sortMembers_perm members).trans (hperm.trans hsorted.symm))
    ((hsorted.map Prod.fst).nodup_iff.2 hkeys) (sortMembers_sorted members)
    (sortMembers_sorted members')

/-- The members other than `__proto__`. -/
def otherMembers (members : List (Utf16 × α)) : List (Utf16 × α) :=
  members.filter fun m => m.1 ≠ protoKey

/-- `norm` defines the members other than `__proto__`, in order. -/
theorem rebuild_eq (members : List (Utf16 × α)) :
    rebuild members = defineMembers (otherMembers (sortMembers members)) := by
  unfold rebuild defineMembers otherMembers
  generalize ([] : List (Utf16 × α)) = output
  induction sortMembers members generalizing output with
  | nil => rfl
  | cons m members ih =>
    rw [List.foldl_cons, List.filter_cons, assign]
    by_cases hm : m.1 = protoKey
    · simp [hm, ih]
    · simp [hm, ih]

theorem nodup_otherMembers {members : List (Utf16 × α)} (h : (members.map Prod.fst).Nodup) :
    ((otherMembers members).map Prod.fst).Nodup :=
  h.sublist (List.filter_sublist.map Prod.fst)

theorem rebuild_perm {members : List (Utf16 × α)} (h : (members.map Prod.fst).Nodup) :
    (rebuild members).Perm (otherMembers members) := by
  have hsorted := sortMembers_perm members
  rw [rebuild_eq]
  exact (defineMembers_perm (nodup_otherMembers ((hsorted.map Prod.fst).nodup_iff.2 h))).trans
    (hsorted.filter _)

/-- What is rebuilt depends on the members only, not on their order. -/
theorem rebuild_congr {members members' : List (Utf16 × α)} (hperm : members.Perm members')
    (hkeys : (members'.map Prod.fst).Nodup) : rebuild members = rebuild members' := by
  rw [rebuild_eq, rebuild_eq, sortMembers_congr hperm hkeys]

/-- What is rebuilt depends on the members other than `__proto__`. -/
theorem rebuild_otherMembers {members : List (Utf16 × α)} (h : (members.map Prod.fst).Nodup) :
    rebuild (otherMembers members) = rebuild members := by
  have hother := nodup_otherMembers h
  have hsort : sortMembers (otherMembers members) = otherMembers (sortMembers members) := by
    have hperm : (otherMembers (sortMembers members)).Perm (otherMembers members) :=
      (sortMembers_perm members).filter _
    refine eq_of_sorted ((sortMembers_perm _).trans hperm.symm)
      ((hperm.map Prod.fst).nodup_iff.2 hother) (sortMembers_sorted _) ?_
    exact (sortMembers_sorted members).filter _
  rw [rebuild_eq, rebuild_eq, hsort, otherMembers, otherMembers, List.filter_filter]
  simp

theorem map_otherMembers (f : α → β) (members : List (Utf16 × α)) :
    (otherMembers members).map (mapValue f) = otherMembers (members.map (mapValue f)) := by
  rw [otherMembers, otherMembers, List.filter_map]
  rfl

/-- The order of what is rebuilt does not depend on the values. -/
theorem map_rebuild (f : α → β) (members : List (Utf16 × α)) :
    (rebuild members).map (mapValue f) = rebuild (members.map (mapValue f)) := by
  have hsort : (sortMembers members).map (mapValue f) = sortMembers (members.map (mapValue f)) :=
    List.map_insertionSort _ _ _ _ fun _ _ _ _ => Iff.rfl
  rw [rebuild_eq, rebuild_eq, map_defineMembers, map_otherMembers, hsort]

end Members

/-! ## Values -/

mutual

/-- `norm` of a value with finite numbers. -/
def norm : JsValue → JsValue
  | .arr items => .arr (normItems items)
  | .obj members => .obj (rebuild (normMembers members))
  | value => value

def normItems : List JsValue → List JsValue
  | [] => []
  | item :: items => norm item :: normItems items

def normMembers : List (Utf16 × JsValue) → List (Utf16 × JsValue)
  | [] => []
  | (key, value) :: members => (key, norm value) :: normMembers members

end

mutual

/-- Whether `norm` meets no number that is not finite. -/
def allFinite : JsValue → Bool
  | .num (.infinite _) => false
  | .arr items => allFiniteItems items
  | .obj members => allFiniteMembers members
  | _ => true

def allFiniteItems : List JsValue → Bool
  | [] => true
  | item :: items => allFinite item && allFiniteItems items

def allFiniteMembers : List (Utf16 × JsValue) → Bool
  | [] => true
  | (_, value) :: members => allFinite value && allFiniteMembers members

end

/-- `canonicalizeJson`, and nothing when it throws. -/
def canonicalizeJson (value : JsValue) : Option Utf16 :=
  if allFinite value then some (stringify (norm value)) else none

mutual

/-- A value without the members `__proto__` of its objects. -/
def withoutProto : JsValue → JsValue
  | .arr items => .arr (withoutProtoItems items)
  | .obj members => .obj (withoutProtoMembers members)
  | value => value

def withoutProtoItems : List JsValue → List JsValue
  | [] => []
  | item :: items => withoutProto item :: withoutProtoItems items

def withoutProtoMembers : List (Utf16 × JsValue) → List (Utf16 × JsValue)
  | [] => []
  | (key, value) :: members =>
    if key = protoKey then withoutProtoMembers members
    else (key, withoutProto value) :: withoutProtoMembers members

end

theorem normItems_eq (items : List JsValue) : normItems items = items.map norm := by
  induction items with
  | nil => rfl
  | cons item items ih => rw [normItems, ih, List.map_cons]

theorem normMembers_eq (members : List (Utf16 × JsValue)) :
    normMembers members = members.map (mapValue norm) := by
  induction members with
  | nil => rfl
  | cons m members ih =>
    obtain ⟨key, value⟩ := m
    rw [normMembers, ih, List.map_cons]
    rfl

theorem allFiniteItems_iff {items : List JsValue} :
    allFiniteItems items ↔ ∀ item ∈ items, allFinite item := by
  induction items with
  | nil => simp [allFiniteItems]
  | cons item items ih => rw [allFiniteItems, Bool.and_eq_true, ih, List.forall_mem_cons]

theorem allFiniteMembers_iff {members : List (Utf16 × JsValue)} :
    allFiniteMembers members ↔ ∀ m ∈ members, allFinite m.2 := by
  induction members with
  | nil => simp [allFiniteMembers]
  | cons m members ih =>
    obtain ⟨key, value⟩ := m
    rw [allFiniteMembers, Bool.and_eq_true, ih, List.forall_mem_cons]

theorem withoutProtoItems_eq (items : List JsValue) :
    withoutProtoItems items = items.map withoutProto := by
  induction items with
  | nil => rfl
  | cons item items ih => rw [withoutProtoItems, ih, List.map_cons]

theorem withoutProtoMembers_eq (members : List (Utf16 × JsValue)) :
    withoutProtoMembers members = (otherMembers members).map (mapValue withoutProto) := by
  induction members with
  | nil => rfl
  | cons m members ih =>
    obtain ⟨key, value⟩ := m
    rw [withoutProtoMembers, ih, otherMembers, otherMembers, List.filter_cons]
    by_cases hkey : key = protoKey
    · simp [hkey]
    · simp [hkey, mapValue]

theorem norm_obj (members : List (Utf16 × JsValue)) :
    norm (.obj members) = .obj ((rebuild members).map (mapValue norm)) := by
  rw [norm, normMembers_eq, map_rebuild]

/-- `norm` does not throw on a JSON value. -/
theorem allFinite_of_isJson {v : JsValue} (h : IsJson v) : allFinite v := by
  induction h with
  | null | bool | num | str => rfl
  | arr _ ih =>
    rw [allFinite, allFiniteItems_iff]
    exact ih
  | obj _ _ ih =>
    rw [allFinite, allFiniteMembers_iff]
    exact ih

/-- What `norm` builds is the value without its members `__proto__`, up to the order of keys. -/
theorem same_norm_withoutProto {v : JsValue} (h : IsJson v) :
    Same (norm v) (withoutProto v) ∧ IsJson (norm v) ∧ IsJson (withoutProto v) := by
  induction h with
  | null | bool | num | str => exact ⟨Same.refl _, by constructor, by constructor⟩
  | @arr items hitems ih =>
    rw [norm, normItems_eq, withoutProto, withoutProtoItems_eq]
    refine ⟨.arr ?_, .arr ?_, .arr ?_⟩
    · exact List.forall₂_map_left_iff.2 (List.forall₂_map_right_iff.2
        (List.forall₂_same.2 fun item hitem => (ih item hitem).1))
    · exact List.forall_mem_map.2 fun item hitem => (ih item hitem).2.1
    · exact List.forall_mem_map.2 fun item hitem => (ih item hitem).2.2
  | @obj members hkeys hmembers ih =>
    have hperm := rebuild_perm hkeys
    have hother : ∀ m ∈ otherMembers members, m ∈ members := fun m hm => (List.mem_filter.1 hm).1
    have hnodup := nodup_otherMembers hkeys
    rw [norm_obj, withoutProto, withoutProtoMembers_eq]
    refine ⟨?_, .obj ?_ ?_, .obj ?_ ?_⟩
    · -- both have the same members, the values of which are the same
      refine Same.symm (same_obj.2 ⟨_, hperm.map (mapValue norm), ?_⟩)
      exact List.forall₂_map_left_iff.2 (List.forall₂_map_right_iff.2
        (List.forall₂_same.2 fun m hm => ⟨rfl, (ih m (hother m hm)).1.symm⟩))
    · rw [map_fst_mapValue]
      exact (hperm.map Prod.fst).nodup_iff.2 hnodup
    · exact List.forall_mem_map.2 fun m hm => (ih m (hother m (hperm.mem_iff.1 hm))).2.1
    · rw [map_fst_mapValue]
      exact hnodup
    · exact List.forall_mem_map.2 fun m hm => (ih m (hother m hm)).2.2

/-- Numbers that are equal are printed alike. -/
theorem numberToString_congr {x y : FiniteDouble} (h : sameDouble x y) :
    numberToString x = numberToString y := by
  rcases h with rfl | ⟨hx, hy⟩
  · rfl
  · rw [numberToString, numberToString, dif_neg (not_not.2 hx), dif_neg (not_not.2 hy)]

theorem map_eq_of_forall₂ {α β γ : Type*} {R : α → β → Prop} {f : α → γ} {g : β → γ}
    {xs : List α} {ys : List β} (h : List.Forall₂ R xs ys)
    (hR : ∀ x ∈ xs, ∀ y ∈ ys, R x y → f x = g y) : xs.map f = ys.map g := by
  induction h with
  | nil => rfl
  | cons hxy _ ih =>
    rw [List.map_cons, List.map_cons, hR _ List.mem_cons_self _ List.mem_cons_self hxy,
      ih fun x hx y hy => hR x (List.mem_cons_of_mem _ hx) y (List.mem_cons_of_mem _ hy)]

theorem toTree_norm_arr (items : List JsValue) :
    toTree (norm (.arr items)) = .arr (items.map fun item => toTree (norm item)) := by
  rw [norm, toTree, toItems_eq, normItems_eq, List.map_map]
  rfl

theorem toTree_norm_obj (members : List (Utf16 × JsValue)) :
    toTree (norm (.obj members)) =
      .obj (rebuild (members.map (mapValue fun value => toTree (norm value)))) := by
  rw [norm_obj, toTree, toMembers_eq, List.map_map, ← map_rebuild]
  rfl

/-- Values that are the same are rebuilt and written alike. -/
theorem toTree_norm_congr {v w : JsValue} (hv : IsJson v) (hw : IsJson w) (h : Same v w) :
    toTree (norm v) = toTree (norm w) := by
  induction hv generalizing w with
  | null | bool | str => cases h; rfl
  | num x =>
    cases h with
    | num h => simp only [norm, toTree, numberToString_congr h]
  | @arr items hitems ih =>
    cases h with
    | arr h =>
      cases hw with
      | arr hitems' =>
        rw [toTree_norm_arr, toTree_norm_arr, map_eq_of_forall₂ h fun x hx y hy hxy =>
          ih x hx (hitems' y hy) hxy]
  | @obj members hkeys hmembers ih =>
    cases hw with
    | @obj members' hkeys' hmembers' =>
      obtain ⟨zs, hperm, hzs⟩ := same_obj.1 h
      rw [toTree_norm_obj, toTree_norm_obj]
      congr 1
      have hmap : members.map (mapValue fun value => toTree (norm value)) =
          zs.map (mapValue fun value => toTree (norm value)) :=
        map_eq_of_forall₂ hzs fun m hm n hn hmn =>
          Prod.ext hmn.1 (ih m hm (hmembers' n (hperm.mem_iff.2 hn)) hmn.2)
      rw [hmap]
      refine (rebuild_congr (hperm.map _) ?_).symm
      rw [map_fst_mapValue]
      exact (hperm.map Prod.fst).nodup_iff.1 hkeys'
    | _ => cases h

/-- The members `__proto__` do not reach the text. -/
theorem toTree_norm_withoutProto {v : JsValue} (h : IsJson v) :
    toTree (norm (withoutProto v)) = toTree (norm v) := by
  induction h with
  | null | bool | num | str => rfl
  | @arr items hitems ih =>
    rw [withoutProto, withoutProtoItems_eq, toTree_norm_arr, toTree_norm_arr, List.map_map]
    congr 1
    exact List.map_congr_left ih
  | @obj members hkeys hmembers ih =>
    rw [withoutProto, withoutProtoMembers_eq, toTree_norm_obj, toTree_norm_obj, List.map_map]
    congr 1
    have hmap : (otherMembers members).map
          ((mapValue fun value => toTree (norm value)) ∘ mapValue withoutProto) =
        otherMembers (members.map (mapValue fun value => toTree (norm value))) := by
      rw [← map_otherMembers]
      refine List.map_congr_left fun m hm => ?_
      exact Prod.ext rfl (ih m (List.mem_filter.1 hm).1)
    rw [hmap, rebuild_otherMembers]
    rw [map_fst_mapValue]
    exact hkeys

/-- Values are written alike exactly when they are the same without their members `__proto__`. -/
theorem toTree_norm_eq_iff {v w : JsValue} (hv : IsJson v) (hw : IsJson w) :
    toTree (norm v) = toTree (norm w) ↔ Same (withoutProto v) (withoutProto w) := by
  obtain ⟨hsame, hnorm, hother⟩ := same_norm_withoutProto hv
  obtain ⟨hsame', hnorm', hother'⟩ := same_norm_withoutProto hw
  constructor
  · intro h
    exact hsame.symm.trans ((same_of_toTree_eq hnorm hnorm' h).trans hsame')
  · intro h
    rw [← toTree_norm_withoutProto hv, ← toTree_norm_withoutProto hw]
    exact toTree_norm_congr hother hother' h

theorem canonicalizeJson_eq {v : JsValue} (h : IsJson v) :
    canonicalizeJson v = some (render (toTree (norm v))) := by
  rw [canonicalizeJson, if_pos (allFinite_of_isJson h), stringify]

/-- Values have the same canonical text exactly when they are the same without their members
`__proto__`. -/
theorem canonicalizeJson_eq_iff {v w : JsValue} (hv : IsJson v) (hw : IsJson w) :
    canonicalizeJson v = canonicalizeJson w ↔ Same (withoutProto v) (withoutProto w) := by
  rw [canonicalizeJson_eq hv, canonicalizeJson_eq hw, ← toTree_norm_eq_iff hv hw, Option.some.injEq]
  exact ⟨fun h => render_injective (toTree_valid _) (toTree_valid _) h, fun h => by rw [h]⟩

/-- The canonical text of a value is read as the value without its members `__proto__`, and that has
the same canonical text. -/
theorem canonicalizeJson_jsonParse {v : JsValue} (h : IsJson v) :
    ∃ text value, canonicalizeJson v = some text ∧ jsonParse text = some value ∧
      canonicalizeJson value = some text ∧ IsJson value ∧ Same value (withoutProto v) := by
  obtain ⟨hnorm, hjson, hother⟩ := same_norm_withoutProto h
  obtain ⟨hread, hvalue⟩ := same_ofTree_toTree hjson
  refine ⟨_, ofTree (toTree (norm v)), canonicalizeJson_eq h, ?_, ?_, hvalue, hread.trans hnorm⟩
  · rw [jsonParse, parse_render (toTree_valid _), Option.map_some]
  · rw [canonicalizeJson_eq hvalue, toTree_norm_congr hvalue hother (hread.trans hnorm),
      toTree_norm_withoutProto h]

/-! ## Content identity -/

/-- A JSON value. -/
abbrev JsonValue := {value : JsValue // IsJson value}

/-- Canonical JSON as a content identity for two values. -/
structure ContentIdentity (a b : JsonValue) : Prop where
  /-- Values with the same canonical text are equal up to the order of keys, and conversely. -/
  identifies : canonicalizeJson a.1 = canonicalizeJson b.1 ↔ Same a.1 b.1
  /-- Parsing the canonical text gives a value with that canonical text. -/
  parsed : ∃ text value, canonicalizeJson a.1 = some text ∧ jsonParse text = some value ∧
    canonicalizeJson value = some text

/-- Leaving out the members `__proto__` keeps equal values equal. -/
theorem same_withoutProto {v w : JsValue} (hv : IsJson v) (hw : IsJson w) (h : Same v w) :
    Same (withoutProto v) (withoutProto w) :=
  (toTree_norm_eq_iff hv hw).1 (toTree_norm_congr hv hw h)

/-- Canonical JSON is a content identity of two values unless they differ only in their members
`__proto__`. -/
theorem content_identity_iff (a b : JsonValue) :
    ContentIdentity a b ↔ (Same (withoutProto a.1) (withoutProto b.1) → Same a.1 b.1) := by
  have hiff := canonicalizeJson_eq_iff a.2 b.2
  constructor
  · intro h hsame
    exact h.identifies.1 (hiff.2 hsame)
  · intro h
    obtain ⟨text, value, htext, hparse, hvalue, -⟩ := canonicalizeJson_jsonParse a.2
    exact ⟨hiff.trans ⟨h, same_withoutProto a.2 b.2⟩, text, value, htext, hparse, hvalue⟩

/-- `{"__proto__": true}`. -/
def protoMember : JsonValue :=
  ⟨.obj [(protoKey, .bool true)], .obj (List.nodup_singleton _) (by simpa using IsJson.bool true)⟩

/-- `{}`. -/
def emptyObject : JsonValue :=
  ⟨.obj [], .obj List.nodup_nil (by simp)⟩

/-- `{"__proto__": true}` has the canonical text of `{}`. -/
theorem proto_member_unidentified : ¬ ∀ a b : JsonValue, ContentIdentity a b := by
  intro h
  have hsame := (h protoMember emptyObject).identifies.1 rfl
  obtain ⟨members, hperm, hmembers⟩ := same_obj.1 hsame
  obtain rfl : members = [] := List.nil_perm.1 hperm
  cases hmembers

end FactoryFloor
