import FactoryFloor.JsonText
import Mathlib.Data.List.Forall2
import Mathlib.Data.List.Perm.Basic

/-!
# JSON values of JavaScript

A `JsValue` is a value that `JSON.parse` can return. The members of an object are in the order in
which its keys are enumerated. An assignment of a new key puts array indices first, in ascending
order, and other keys last (`setMember`).

`Same` says that two values are equal up to the order of the keys of objects, with `0` and `-0`
equal. It is an equivalence, a value that `JSON.stringify` writes is read back as the same value
(`same_ofTree_toTree`), and values that are written alike are the same (`same_of_toTree_eq`).
-/

namespace JsonText

open Doubles

/-! ## Values -/

/-- A number that `JSON.parse` can return : one that is too large is infinite. -/
inductive JsNumber where
  | finite (x : FiniteDouble)
  | infinite (negative : Bool)
deriving DecidableEq

/-- A value that `JSON.parse` can return. -/
inductive JsValue where
  | null
  | bool (b : Bool)
  | num (x : JsNumber)
  | str (s : Utf16)
  | arr (items : List JsValue)
  | obj (members : List (Utf16 × JsValue))

/-- Induction over a value, its items and its members. -/
@[elab_as_elim, induction_eliminator]
theorem JsValue.induct {P : JsValue → Prop} (null : P .null) (bool : ∀ b, P (.bool b))
    (num : ∀ x, P (.num x)) (str : ∀ s, P (.str s))
    (arr : ∀ items, (∀ item ∈ items, P item) → P (.arr items))
    (obj : ∀ members, (∀ member ∈ members, P member.2) → P (.obj members)) : ∀ v, P v
  | .null => null
  | .bool b => bool b
  | .num x => num x
  | .str s => str s
  | .arr items => arr items fun item _ => JsValue.induct null bool num str arr obj item
  | .obj members => obj members fun member _ => JsValue.induct null bool num str arr obj member.2
termination_by v => sizeOf v
decreasing_by
  · have := List.sizeOf_lt_of_mem ‹_›
    simp only [JsValue.arr.sizeOf_spec]
    omega
  · have := List.sizeOf_lt_of_mem ‹_›
    obtain ⟨key, value⟩ := member
    simp only [JsValue.obj.sizeOf_spec, Prod.mk.sizeOf_spec] at this ⊢
    omega

/-- A JSON value : its numbers are finite, and the keys of an object are distinct. -/
inductive IsJson : JsValue → Prop
  | null : IsJson .null
  | bool (b : Bool) : IsJson (.bool b)
  | num (x : FiniteDouble) : IsJson (.num (.finite x))
  | str (s : Utf16) : IsJson (.str s)
  | arr {items : List JsValue} (h : ∀ item ∈ items, IsJson item) : IsJson (.arr items)
  | obj {members : List (Utf16 × JsValue)} (hkeys : (members.map Prod.fst).Nodup)
      (h : ∀ member ∈ members, IsJson member.2) : IsJson (.obj members)

/-! ## Equality up to the order of keys -/

/-- The same double, with `0` and `-0` equal. -/
def sameDouble (x y : FiniteDouble) : Prop :=
  x = y ∨ x.magnitude.mantissa = 0 ∧ y.magnitude.mantissa = 0

/-- Equality up to the order of the keys of objects, with `0` and `-0` equal. -/
inductive Same : JsValue → JsValue → Prop
  | null : Same .null .null
  | bool (b : Bool) : Same (.bool b) (.bool b)
  | num {x y : FiniteDouble} (h : sameDouble x y) : Same (.num (.finite x)) (.num (.finite y))
  | infinite (negative : Bool) : Same (.num (.infinite negative)) (.num (.infinite negative))
  | str (s : Utf16) : Same (.str s) (.str s)
  | arr {xs ys : List JsValue} (h : List.Forall₂ Same xs ys) : Same (.arr xs) (.arr ys)
  | obj {xs ys zs : List (Utf16 × JsValue)} (hperm : ys.Perm zs)
      (hkeys : xs.map Prod.fst = zs.map Prod.fst)
      (h : List.Forall₂ (fun m n => Same m.2 n.2) xs zs) : Same (.obj xs) (.obj ys)

/-- Members with the same keys in the same order, and the same values. -/
def SameMember (m n : Utf16 × JsValue) : Prop :=
  m.1 = n.1 ∧ Same m.2 n.2

theorem forall₂_sameMember {xs zs : List (Utf16 × JsValue)} :
    List.Forall₂ SameMember xs zs ↔
      xs.map Prod.fst = zs.map Prod.fst ∧ List.Forall₂ (fun m n => Same m.2 n.2) xs zs := by
  constructor
  · intro h
    induction h with
    | nil => exact ⟨rfl, .nil⟩
    | cons hxy _ ih => exact ⟨by simp [hxy.1, ih.1], .cons hxy.2 ih.2⟩
  · rintro ⟨hkeys, h⟩
    induction h with
    | nil => exact .nil
    | cons hxy _ ih =>
      obtain ⟨hkey, hkeys⟩ := List.cons.inj hkeys
      exact .cons ⟨hkey, hxy⟩ (ih hkeys)

/-- Objects are the same when the members of one are those of the other in some order. -/
theorem same_obj {xs ys : List (Utf16 × JsValue)} :
    Same (.obj xs) (.obj ys) ↔ ∃ zs, ys.Perm zs ∧ List.Forall₂ SameMember xs zs := by
  constructor
  · intro h
    cases h with
    | obj hperm hkeys h => exact ⟨_, hperm, forall₂_sameMember.2 ⟨hkeys, h⟩⟩
  · rintro ⟨zs, hperm, h⟩
    obtain ⟨hkeys, h⟩ := forall₂_sameMember.1 h
    exact .obj hperm hkeys h

theorem sameDouble_refl (x : FiniteDouble) : sameDouble x x := Or.inl rfl

theorem sameDouble_symm {x y : FiniteDouble} (h : sameDouble x y) : sameDouble y x :=
  h.imp Eq.symm And.symm

theorem sameDouble_trans {x y z : FiniteDouble} (h : sameDouble x y) (h' : sameDouble y z) :
    sameDouble x z := by
  rcases h with rfl | ⟨hx, hy⟩
  · exact h'
  · rcases h' with rfl | ⟨-, hz⟩
    · exact Or.inr ⟨hx, hy⟩
    · exact Or.inr ⟨hx, hz⟩

theorem Same.refl (v : JsValue) : Same v v := by
  induction v with
  | null => exact .null
  | bool b => exact .bool b
  | num x =>
    cases x with
    | finite x => exact .num (sameDouble_refl x)
    | infinite negative => exact .infinite negative
  | str s => exact .str s
  | arr items ih => exact .arr (List.forall₂_same.2 ih)
  | obj members ih => exact same_obj.2 ⟨members, .refl _, List.forall₂_same.2 fun m hm => ⟨rfl, ih m hm⟩⟩

/-- Pointwise facts about the elements of the first list. -/
theorem forall₂_imp_mem {α β : Type*} {R S : α → β → Prop} {xs : List α} {ys : List β}
    (h : List.Forall₂ R xs ys) (himp : ∀ x ∈ xs, ∀ y, R x y → S x y) : List.Forall₂ S xs ys := by
  induction h with
  | nil => exact .nil
  | cons hxy _ ih =>
    exact .cons (himp _ List.mem_cons_self _ hxy) (ih fun x hx => himp x (List.mem_cons_of_mem _ hx))

theorem forall₂_trans_mem {α β γ : Type*} {R : α → β → Prop} {S : β → γ → Prop} {T : α → γ → Prop}
    {xs : List α} {ys : List β} {zs : List γ} (h : List.Forall₂ R xs ys) (h' : List.Forall₂ S ys zs)
    (htrans : ∀ x ∈ xs, ∀ y z, R x y → S y z → T x z) : List.Forall₂ T xs zs := by
  induction h generalizing zs with
  | nil =>
    cases h'
    exact .nil
  | cons hxy _ ih =>
    cases h' with
    | cons hyz h' =>
      exact .cons (htrans _ List.mem_cons_self _ _ hxy hyz)
        (ih h' fun x hx => htrans x (List.mem_cons_of_mem _ hx))

theorem Same.symm {v w : JsValue} (h : Same v w) : Same w v := by
  induction v generalizing w with
  | null | bool b | str s => cases h; exact Same.refl _
  | num x =>
    cases h with
    | num h => exact .num (sameDouble_symm h)
    | infinite negative => exact .infinite negative
  | arr items ih =>
    cases h with
    | arr h => exact .arr (forall₂_imp_mem h fun x hx y hxy => ih x hx hxy).flip
  | obj members ih =>
    cases h with
    | @obj _ ys zs hperm hkeys h =>
      have hpairs : List.Forall₂ (fun m n => SameMember n m) members zs :=
        forall₂_imp_mem (forall₂_sameMember.2 ⟨hkeys, h⟩) fun m hm n hmn =>
          ⟨hmn.1.symm, ih m hm hmn.2⟩
      obtain ⟨us, hus, hperm'⟩ := List.perm_comp_forall₂ hperm hpairs.flip
      exact same_obj.2 ⟨us, hperm'.symm, hus⟩

theorem Same.trans {u v w : JsValue} (h : Same u v) (h' : Same v w) : Same u w := by
  induction u generalizing v w with
  | null | bool b | str s => cases h; exact h'
  | num x =>
    cases h with
    | num h =>
      cases h' with
      | num h' => exact .num (sameDouble_trans h h')
    | infinite negative => exact h'
  | arr items ih =>
    cases h with
    | arr h =>
      cases h' with
      | arr h' => exact .arr (forall₂_trans_mem h h' fun x hx y z => ih x hx)
  | obj members ih =>
    cases v with
    | obj ys =>
      cases w with
      | obj ws =>
        obtain ⟨zs, hperm, hzs⟩ := same_obj.1 h
        obtain ⟨us, hperm', hus⟩ := same_obj.1 h'
        -- the members of the second object, in the order of those of the first
        obtain ⟨vs, hvs, hperm''⟩ := List.perm_comp_forall₂ hperm.symm hus
        refine same_obj.2 ⟨vs, hperm'.trans hperm''.symm, ?_⟩
        exact forall₂_trans_mem hzs hvs fun m hm n o hmn hno =>
          ⟨hmn.1.trans hno.1, ih m hm hmn.2 hno.2⟩
      | null | bool | num | str | arr => cases h'
    | null | bool | num | str | arr => cases h

/-! ## Members -/

section Members

variable {α β : Type*}

/-- The number of a key that is an array index. -/
def arrayIndex (key : Utf16) : Option ℕ :=
  if key.all isDigit && validInteger (spanDigits key).1 &&
      decide (ofDigits (spanDigits key).1 < 4294967295) then
    some (ofDigits (spanDigits key).1)
  else none

/-- Whether a new key is enumerated before another one. -/
def enumeratedBefore (key other : Utf16) : Bool :=
  match arrayIndex key, arrayIndex other with
  | some n, some m => n < m
  | some _, none => true
  | none, _ => false

/-- A new key at its place. -/
def insertMember (key : Utf16) (value : α) : List (Utf16 × α) → List (Utf16 × α)
  | [] => [(key, value)]
  | m :: members =>
    if enumeratedBefore key m.1 then (key, value) :: m :: members
    else m :: insertMember key value members

/-- `CreateDataProperty` : the value of a key is replaced, or the key is new. -/
def setMember (members : List (Utf16 × α)) (m : Utf16 × α) : List (Utf16 × α) :=
  if m.1 ∈ members.map Prod.fst then
    members.map fun n => if n.1 = m.1 then (n.1, m.2) else n
  else insertMember m.1 m.2 members

/-- The members of an object that some keys are defined in. -/
def defineMembers (members : List (Utf16 × α)) : List (Utf16 × α) :=
  members.foldl setMember []

theorem insertMember_perm (key : Utf16) (value : α) (members : List (Utf16 × α)) :
    (insertMember key value members).Perm ((key, value) :: members) := by
  induction members with
  | nil => exact .refl _
  | cons m members ih =>
    rw [insertMember]
    split
    · exact .refl _
    · exact (ih.cons m).trans (.swap _ _ _)

theorem setMember_perm {members : List (Utf16 × α)} {m : Utf16 × α}
    (h : m.1 ∉ members.map Prod.fst) : (setMember members m).Perm (m :: members) := by
  rw [setMember, if_neg h]
  exact insertMember_perm _ _ _

/-- Distinct keys are all defined. -/
theorem defineMembers_perm {members : List (Utf16 × α)} (h : (members.map Prod.fst).Nodup) :
    (defineMembers members).Perm members := by
  suffices hgo : ∀ (rest done : List (Utf16 × α)), ((done ++ rest).map Prod.fst).Nodup →
      (rest.foldl setMember done).Perm (done ++ rest) from hgo members [] h
  intro rest
  induction rest with
  | nil =>
    intro done _
    rw [List.append_nil]
    exact .refl _
  | cons m rest ih =>
    intro done hdone
    have hnew : m.1 ∉ done.map Prod.fst := by
      rw [List.map_append, List.nodup_append] at hdone
      exact fun hmem => hdone.2.2 _ hmem _ (by simp) rfl
    have hset := setMember_perm hnew
    have hmove : (setMember done m ++ rest).Perm (done ++ m :: rest) :=
      (hset.append_right rest).trans List.perm_middle.symm
    have hnodup : ((setMember done m ++ rest).map Prod.fst).Nodup :=
      (hmove.map Prod.fst).nodup_iff.2 hdone
    exact (ih _ hnodup).trans hmove

theorem setMember_keys {members : List (Utf16 × α)}
    (h : (members.map Prod.fst).Nodup) (m : Utf16 × α) :
    ((setMember members m).map Prod.fst).Nodup := by
  by_cases hm : m.1 ∈ members.map Prod.fst
  · have hkeys : (setMember members m).map Prod.fst = members.map Prod.fst := by
      rw [setMember, if_pos hm, List.map_map]
      refine List.map_congr_left fun n _ => ?_
      by_cases hn : n.1 = m.1 <;> simp [hn]
    rw [hkeys]
    exact h
  · exact ((setMember_perm hm).map Prod.fst).nodup_iff.2 (List.nodup_cons.2 ⟨hm, h⟩)

theorem mem_setMember {members : List (Utf16 × α)} {m n : Utf16 × α}
    (h : n ∈ setMember members m) : n ∈ members ∨ n.2 = m.2 := by
  by_cases hm : m.1 ∈ members.map Prod.fst
  · rw [setMember, if_pos hm] at h
    obtain ⟨o, ho, rfl⟩ := List.mem_map.1 h
    by_cases hkey : o.1 = m.1
    · exact Or.inr (by simp [hkey])
    · exact Or.inl (by simpa [hkey] using ho)
  · rcases List.mem_cons.1 ((setMember_perm hm).mem_iff.1 h) with rfl | h
    · exact Or.inr rfl
    · exact Or.inl h

/-- An object has each key once, and values that were defined. -/
theorem defineMembers_spec (members : List (Utf16 × α)) :
    ((defineMembers members).map Prod.fst).Nodup ∧
      ∀ m ∈ defineMembers members, ∃ n ∈ members, n.2 = m.2 := by
  suffices hgo : ∀ (rest done : List (Utf16 × α)), (done.map Prod.fst).Nodup →
      ((rest.foldl setMember done).map Prod.fst).Nodup ∧
        ∀ m ∈ rest.foldl setMember done, m ∈ done ∨ ∃ n ∈ rest, n.2 = m.2 by
    obtain ⟨hkeys, hvalues⟩ := hgo members [] List.nodup_nil
    exact ⟨hkeys, fun m hm => (hvalues m hm).resolve_left (List.not_mem_nil)⟩
  intro rest
  induction rest with
  | nil => exact fun done hdone => ⟨hdone, fun m hm => Or.inl hm⟩
  | cons n rest ih =>
    intro done hdone
    obtain ⟨hkeys, hvalues⟩ := ih _ (setMember_keys hdone n)
    refine ⟨hkeys, fun m hm => ?_⟩
    rcases hvalues m hm with h | ⟨o, ho, heq⟩
    · rcases mem_setMember h with h | h
      · exact Or.inl h
      · exact Or.inr ⟨n, List.mem_cons_self, h.symm⟩
    · exact Or.inr ⟨o, List.mem_cons_of_mem _ ho, heq⟩

/-- A member with another value. -/
def mapValue (f : α → β) (m : Utf16 × α) : Utf16 × β :=
  (m.1, f m.2)

theorem map_insertMember (f : α → β) (key : Utf16) (value : α) (members : List (Utf16 × α)) :
    (insertMember key value members).map (mapValue f) =
      insertMember key (f value) (members.map (mapValue f)) := by
  induction members with
  | nil => rfl
  | cons m members ih =>
    rw [List.map_cons, insertMember, insertMember]
    change _ = if enumeratedBefore key m.1 then _ else _
    split
    · rfl
    · rw [List.map_cons, ih]

theorem map_setMember (f : α → β) (members : List (Utf16 × α)) (m : Utf16 × α) :
    (setMember members m).map (mapValue f) = setMember (members.map (mapValue f)) (mapValue f m) := by
  have hkeys : (members.map (mapValue f)).map Prod.fst = members.map Prod.fst := by
    rw [List.map_map]
    rfl
  rw [setMember, setMember, hkeys]
  change _ = if m.1 ∈ members.map Prod.fst then _ else _
  split
  · rw [List.map_map, List.map_map]
    refine List.map_congr_left fun n _ => ?_
    by_cases hn : n.1 = m.1 <;> simp [mapValue, hn]
  · exact map_insertMember f m.1 m.2 members

/-- The order of the keys does not depend on the values. -/
theorem map_defineMembers (f : α → β) (members : List (Utf16 × α)) :
    (defineMembers members).map (mapValue f) = defineMembers (members.map (mapValue f)) := by
  suffices hgo : ∀ (rest done : List (Utf16 × α)), (rest.foldl setMember done).map (mapValue f) =
      (rest.map (mapValue f)).foldl setMember (done.map (mapValue f)) from hgo members []
  intro rest
  induction rest with
  | nil => intro done; rfl
  | cons m rest ih =>
    intro done
    rw [List.foldl_cons, List.map_cons, List.foldl_cons, ih, map_setMember]

end Members

/-! ## Writing and reading values -/

mutual

/-- The text that `JSON.stringify` writes a value as. -/
def toTree : JsValue → Tree
  | .null => .null
  | .bool b => .bool b
  | .num (.finite x) => .num (numberToString x)
  | .num (.infinite _) => .null
  | .str s => .str s
  | .arr items => .arr (toItems items)
  | .obj members => .obj (toMembers members)

def toItems : List JsValue → List Tree
  | [] => []
  | item :: items => toTree item :: toItems items

def toMembers : List (Utf16 × JsValue) → List (Utf16 × Tree)
  | [] => []
  | (key, value) :: members => (key, toTree value) :: toMembers members

end

/-- `JSON.stringify`. -/
def stringify (v : JsValue) : Utf16 :=
  render (toTree v)

/-- The number of a text. -/
def numberOf (token : Utf16) : JsNumber :=
  match readNumber token with
  | some d =>
    match nearest d.toRat with
    | some magnitude => .finite ⟨d.negative, magnitude⟩
    | none => .infinite d.negative
  | none => .finite ⟨false, Magnitude.zero⟩

mutual

/-- The value of a text. -/
def ofTree : Tree → JsValue
  | .null => .null
  | .bool b => .bool b
  | .num token => .num (numberOf token)
  | .str s => .str s
  | .arr items => .arr (ofItems items)
  | .obj members => .obj (defineMembers (ofMembers members))

def ofItems : List Tree → List JsValue
  | [] => []
  | item :: items => ofTree item :: ofItems items

def ofMembers : List (Utf16 × Tree) → List (Utf16 × JsValue)
  | [] => []
  | (key, value) :: members => (key, ofTree value) :: ofMembers members

end

/-- `JSON.parse`. -/
def jsonParse (text : Utf16) : Option JsValue :=
  (parse text).map ofTree

theorem toItems_eq (items : List JsValue) : toItems items = items.map toTree := by
  induction items with
  | nil => rfl
  | cons item items ih => rw [toItems, ih, List.map_cons]

theorem toMembers_eq (members : List (Utf16 × JsValue)) :
    toMembers members = members.map (mapValue toTree) := by
  induction members with
  | nil => rfl
  | cons m members ih =>
    obtain ⟨key, value⟩ := m
    rw [toMembers, ih, List.map_cons]
    rfl

theorem ofItems_eq (items : List Tree) : ofItems items = items.map ofTree := by
  induction items with
  | nil => rfl
  | cons item items ih => rw [ofItems, ih, List.map_cons]

theorem ofMembers_eq (members : List (Utf16 × Tree)) :
    ofMembers members = members.map (mapValue ofTree) := by
  induction members with
  | nil => rfl
  | cons m members ih =>
    obtain ⟨key, value⟩ := m
    rw [ofMembers, ih, List.map_cons]
    rfl

theorem validItems_iff {items : List Tree} : ValidItems items ↔ ∀ item ∈ items, item.Valid := by
  induction items with
  | nil => simp [ValidItems]
  | cons item items ih => rw [ValidItems, ih, List.forall_mem_cons]

theorem validMembers_iff {members : List (Utf16 × Tree)} :
    ValidMembers members ↔ ∀ m ∈ members, m.2.Valid := by
  induction members with
  | nil => simp [ValidMembers]
  | cons m members ih =>
    obtain ⟨key, value⟩ := m
    rw [ValidMembers, ih, List.forall_mem_cons]

/-- What `JSON.stringify` writes is a JSON text. -/
theorem toTree_valid (v : JsValue) : (toTree v).Valid := by
  induction v with
  | null | bool b | str s => trivial
  | num x =>
    cases x with
    | finite x => exact isNumber_numberToString x
    | infinite negative => trivial
  | arr items ih =>
    rw [toTree, toItems_eq, Tree.Valid, validItems_iff]
    exact List.forall_mem_map.2 ih
  | obj members ih =>
    rw [toTree, toMembers_eq, Tree.Valid, validMembers_iff]
    exact List.forall_mem_map.2 ih

/-- A double is printed and read as the same double. -/
theorem numberOf_numberToString (x : FiniteDouble) :
    ∃ y, numberOf (numberToString x) = .finite y ∧ sameDouble y x := by
  obtain ⟨d, hread, hnearest, hsign, -⟩ := readNumber_numberToString x
  refine ⟨⟨d.negative, x.magnitude⟩, by simp [numberOf, hread, hnearest], ?_⟩
  by_cases h : x.magnitude.mantissa = 0
  · exact Or.inr ⟨h, h⟩
  · refine Or.inl ?_
    rw [hsign h]

/-- Doubles that are printed alike are the same. -/
theorem sameDouble_of_numberToString {x y : FiniteDouble} (h : numberToString x = numberToString y) :
    sameDouble x y := by
  obtain ⟨z, hz, hzx⟩ := numberOf_numberToString x
  obtain ⟨w, hw, hwy⟩ := numberOf_numberToString y
  rw [h, hw] at hz
  cases hz
  exact sameDouble_trans (sameDouble_symm hzx) hwy

theorem map_fst_mapValue {α β : Type*} (f : α → β) (members : List (Utf16 × α)) :
    (members.map (mapValue f)).map Prod.fst = members.map Prod.fst := by
  rw [List.map_map]
  rfl

/-- A JSON value that is written is read back as the same value. -/
theorem same_ofTree_toTree {v : JsValue} (h : IsJson v) :
    Same (ofTree (toTree v)) v ∧ IsJson (ofTree (toTree v)) := by
  induction v with
  | null | bool b | str s => exact ⟨Same.refl _, h⟩
  | num x =>
    cases h with
    | num x =>
      obtain ⟨y, hy, hsame⟩ := numberOf_numberToString x
      rw [toTree, ofTree, hy]
      exact ⟨.num hsame, .num y⟩
  | arr items ih =>
    cases h with
    | arr hitems =>
      rw [toTree, ofTree, toItems_eq, ofItems_eq, List.map_map]
      refine ⟨.arr (List.forall₂_map_left_iff.2 (List.forall₂_same.2 fun item hitem =>
        (ih item hitem (hitems item hitem)).1)), .arr ?_⟩
      exact List.forall_mem_map.2 fun item hitem => (ih item hitem (hitems item hitem)).2
  | obj members ih =>
    cases h with
    | obj hkeys hmembers =>
      have hmap : ofMembers (toMembers members) =
          members.map (mapValue fun value => ofTree (toTree value)) := by
        rw [toMembers_eq, ofMembers_eq, List.map_map]
        rfl
      have hnodup : ((members.map (mapValue fun value => ofTree (toTree value))).map Prod.fst).Nodup := by
        rw [map_fst_mapValue]
        exact hkeys
      have hperm := defineMembers_perm hnodup
      have hpairs : List.Forall₂ SameMember members
          (members.map (mapValue fun value => ofTree (toTree value))) :=
        List.forall₂_map_right_iff.2 (List.forall₂_same.2 fun m hm =>
          ⟨rfl, (ih m hm (hmembers m hm)).1.symm⟩)
      rw [toTree, ofTree, hmap]
      refine ⟨(same_obj.2 ⟨_, hperm, hpairs⟩).symm, .obj ((hperm.map Prod.fst).nodup_iff.2 hnodup) ?_⟩
      intro m hm
      obtain ⟨n, hn, rfl⟩ := List.mem_map.1 (hperm.mem_iff.1 hm)
      exact (ih n hn (hmembers n hn)).2

/-- Lists with the same image are related pointwise. -/
theorem forall₂_of_map_eq {α β : Type*} {f : α → β} {R : α → α → Prop} {xs ys : List α}
    (h : xs.map f = ys.map f) (hR : ∀ x ∈ xs, ∀ y ∈ ys, f x = f y → R x y) :
    List.Forall₂ R xs ys := by
  induction xs generalizing ys with
  | nil =>
    obtain rfl : ys = [] := by simpa using h.symm
    exact .nil
  | cons x xs ih =>
    cases ys with
    | nil => cases h
    | cons y ys =>
      obtain ⟨hxy, hrest⟩ := List.cons.inj h
      exact .cons (hR x List.mem_cons_self y List.mem_cons_self hxy)
        (ih hrest fun x' hx' y' hy' => hR x' (List.mem_cons_of_mem _ hx') y'
          (List.mem_cons_of_mem _ hy'))

/-- JSON values that are written alike are the same. -/
theorem same_of_toTree_eq {v w : JsValue} (hv : IsJson v) (hw : IsJson w)
    (h : toTree v = toTree w) : Same v w := by
  induction hv generalizing w with
  | null => cases hw <;> simp_all [toTree, Same.refl]
  | bool b => cases hw <;> simp_all [toTree, Same.refl]
  | str s => cases hw <;> simp_all [toTree, Same.refl]
  | num x =>
    cases hw with
    | num y => exact .num (sameDouble_of_numberToString (Tree.num.inj h))
    | _ => cases h
  | @arr items hitems ih =>
    cases hw with
    | @arr items' hitems' =>
      rw [toTree, toTree, toItems_eq, toItems_eq] at h
      exact .arr (forall₂_of_map_eq (Tree.arr.inj h) fun x hx y hy => ih x hx (hitems' y hy))
    | _ => cases h
  | @obj members hkeys hmembers ih =>
    cases hw with
    | @obj members' hkeys' hmembers' =>
      rw [toTree, toTree, toMembers_eq, toMembers_eq] at h
      refine same_obj.2 ⟨members', .refl _, forall₂_of_map_eq (Tree.obj.inj h) ?_⟩
      intro m hm n hn heq
      obtain ⟨hkey, hvalue⟩ := Prod.mk.inj heq
      exact ⟨hkey, ih m hm (hmembers' n hn) hvalue⟩
    | _ => cases h

end JsonText
