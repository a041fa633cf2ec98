import FactoryFloor.Values
import Mathlib.Data.List.Dedup
import Mathlib.Data.List.DropRight
import Mathlib.Data.List.Sort

/-!
# Strings as the scripts compare them

A `JsString` is the list of the characters of a string. The scripts sort by `compareStrings`, which
compares UTF-16 code units : a character beyond the basic plane counts as its two surrogates, so the
order is not the one of code points.

`compareStrings` is a linear order (`unitsLe_total`, `compareStrings_antisymm`), so a list sorted by it
is determined by its elements (`sortStrings_eq_of_perm`).
-/

namespace FactoryFloor

/-- A string, as the list of its characters. -/
abbrev JsString := List Char

/-! ## Code units -/

/-- The UTF-16 code units of a character. -/
def codeUnits (c : Char) : List ℕ :=
  if c.toNat < 0x10000 then [c.toNat]
  else [0xd800 + (c.toNat - 0x10000) / 0x400, 0xdc00 + (c.toNat - 0x10000) % 0x400]

/-- Whether a list of code units is not after another. -/
def unitsLe : List ℕ → List ℕ → Bool
  | [], _ => true
  | _ :: _, [] => false
  | a :: as, b :: bs => a < b || (a = b && unitsLe as bs)

/-- `compareStrings(left, right) <= 0`. -/
def compareStrings (left right : JsString) : Bool :=
  unitsLe (left.flatMap codeUnits) (right.flatMap codeUnits)

theorem unitsLe_total : ∀ as bs : List ℕ, unitsLe as bs ∨ unitsLe bs as
  | [], _ => Or.inl rfl
  | _ :: _, [] => Or.inr rfl
  | a :: as, b :: bs => by
    rcases lt_trichotomy a b with h | rfl | h
    · simp [unitsLe, h]
    · simpa [unitsLe] using unitsLe_total as bs
    · simp [unitsLe, h]

theorem unitsLe_trans : ∀ {as bs cs : List ℕ}, unitsLe as bs → unitsLe bs cs → unitsLe as cs
  | [], _, _, _, _ => rfl
  | _ :: _, [], _, h, _ => by simp [unitsLe] at h
  | _ :: _, _ :: _, [], _, h => by simp [unitsLe] at h
  | a :: as, b :: bs, c :: cs, hab, hbc => by
    simp only [unitsLe, Bool.or_eq_true, Bool.and_eq_true, decide_eq_true_eq] at hab hbc ⊢
    rcases hab with hab | ⟨rfl, hab⟩
    · rcases hbc with hbc | ⟨rfl, -⟩
      · exact Or.inl (hab.trans hbc)
      · exact Or.inl hab
    · rcases hbc with hbc | ⟨rfl, hbc⟩
      · exact Or.inl hbc
      · exact Or.inr ⟨rfl, unitsLe_trans hab hbc⟩

theorem unitsLe_antisymm : ∀ {as bs : List ℕ}, unitsLe as bs → unitsLe bs as → as = bs
  | [], [], _, _ => rfl
  | [], _ :: _, _, h => by simp [unitsLe] at h
  | _ :: _, [], h, _ => by simp [unitsLe] at h
  | a :: as, b :: bs, hab, hba => by
    simp only [unitsLe, Bool.or_eq_true, Bool.and_eq_true, decide_eq_true_eq] at hab hba
    rcases hab with hab | ⟨rfl, hab⟩
    · rcases hba with hba | ⟨rfl, -⟩ <;> omega
    · rcases hba with hba | ⟨-, hba⟩
      · omega
      · rw [unitsLe_antisymm hab hba]

/-- The first code unit tells whether a second one follows, so strings can be read back. -/
theorem codeUnits_append_inj {c d : Char} {us vs : List ℕ}
    (h : codeUnits c ++ us = codeUnits d ++ vs) : c = d ∧ us = vs := by
  have hc : c.toNat < 0xd800 ∨ 0xdfff < c.toNat ∧ c.toNat < 0x110000 := c.valid
  have hd : d.toNat < 0xd800 ∨ 0xdfff < d.toNat ∧ d.toNat < 0x110000 := d.valid
  have heq : c.toNat = d.toNat → c = d := fun h => Char.ext (UInt32.toNat_inj.1 h)
  unfold codeUnits at h
  split_ifs at h with h₁ h₂ h₂
  · simp only [List.cons_append, List.nil_append, List.cons.injEq] at h
    exact ⟨heq h.1, h.2⟩
  · simp only [List.cons_append, List.nil_append, List.cons.injEq] at h
    omega
  · simp only [List.cons_append, List.nil_append, List.cons.injEq] at h
    omega
  · simp only [List.cons_append, List.nil_append, List.cons.injEq] at h
    exact ⟨heq (by omega), h.2.2⟩

theorem codeUnits_ne_nil (c : Char) : codeUnits c ≠ [] := by
  unfold codeUnits
  split_ifs <;> simp

theorem flatMap_codeUnits_injective : ∀ {s t : JsString},
    s.flatMap codeUnits = t.flatMap codeUnits → s = t
  | [], [], _ => rfl
  | [], d :: t, h => by
    rw [List.flatMap_cons, List.flatMap_nil] at h
    exact absurd (List.append_eq_nil_iff.1 h.symm).1 (codeUnits_ne_nil d)
  | c :: s, [], h => by
    rw [List.flatMap_cons, List.flatMap_nil] at h
    exact absurd (List.append_eq_nil_iff.1 h).1 (codeUnits_ne_nil c)
  | c :: s, d :: t, h => by
    rw [List.flatMap_cons, List.flatMap_cons] at h
    obtain ⟨rfl, hrest⟩ := codeUnits_append_inj h
    rw [flatMap_codeUnits_injective hrest]

theorem compareStrings_antisymm {s t : JsString} (hst : compareStrings s t)
    (hts : compareStrings t s) : s = t :=
  flatMap_codeUnits_injective (unitsLe_antisymm hst hts)

instance : Std.Total (fun s t : JsString => (compareStrings s t : Prop)) :=
  ⟨fun _ _ => unitsLe_total _ _⟩

instance : IsTrans JsString (fun s t : JsString => (compareStrings s t : Prop)) :=
  ⟨fun _ _ _ => unitsLe_trans⟩

instance : Std.Antisymm (fun s t : JsString => (compareStrings s t : Prop)) :=
  ⟨fun _ _ => compareStrings_antisymm⟩

/-! ## Sorting -/

/-- `values.sort(compareStrings)`. -/
def sortStrings (values : List JsString) : List JsString :=
  values.insertionSort fun s t => compareStrings s t

theorem mem_sortStrings {values : List JsString} {s : JsString} :
    s ∈ sortStrings values ↔ s ∈ values :=
  (List.perm_insertionSort _ values).mem_iff

/-- What is sorted depends on the elements only. -/
theorem sortStrings_eq_of_perm {values values' : List JsString} (h : values.Perm values') :
    sortStrings values = sortStrings values' := by
  refine List.Perm.eq_of_pairwise' (List.pairwise_insertionSort _ _)
    (List.pairwise_insertionSort _ _) ?_
  exact ((List.perm_insertionSort _ _).trans h).trans (List.perm_insertionSort _ _).symm

/-! ## Trimming -/

/-- `s.trim()`. -/
def JsString.trim (s : JsString) : JsString :=
  (s.dropWhile isTrimmed).rdropWhile isTrimmed

theorem dropWhile_trim (s : JsString) : (JsString.trim s).dropWhile isTrimmed = JsString.trim s := by
  unfold JsString.trim
  cases hdrop : s.dropWhile isTrimmed with
  | nil => rfl
  | cons c rest =>
    have hc : isTrimmed c = false := by
      have := List.head_dropWhile_not isTrimmed (by simp [hdrop] : s.dropWhile isTrimmed ≠ [])
      simpa [hdrop] using this
    cases htrim : (c :: rest).rdropWhile isTrimmed with
    | nil => rfl
    | cons d kept =>
      obtain ⟨_, hinitial⟩ := List.rdropWhile_prefix isTrimmed (c :: rest)
      rw [htrim, List.cons_append] at hinitial
      rw [(List.cons.inj hinitial).1, List.dropWhile_cons_of_neg (by simp [hc])]

theorem trim_trim (s : JsString) : JsString.trim (JsString.trim s) = JsString.trim s := by
  conv_lhs => rw [JsString.trim, dropWhile_trim]
  exact List.rdropWhile_idempotent isTrimmed _

/-- `[...new Set(values.map((value) => value.trim()))].sort(compareStrings)`. -/
def sortedStrings (values : List JsString) : List JsString :=
  sortStrings (values.map JsString.trim).dedup

/-- `value.trim().replace(/\s+/g, ' ')`. -/
def collapseWhitespace (s : JsString) : JsString :=
  go (JsString.trim s)
where
  go : JsString → JsString
    | [] => []
    | c :: s =>
      if isTrimmed c then
        match go s with
        | ' ' :: rest => ' ' :: rest
        | rest => ' ' :: rest
      else c :: go s

end FactoryFloor
