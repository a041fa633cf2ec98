import Mathlib.Data.List.Induction
import Mathlib.Data.List.Sort

/-!
# Stable sorts

`List.insertionSort` is stable : elements of which each is not after the other stay in the order of
the list. So two relations sort a list alike exactly when they agree on each of its elements and the
ones behind it (`insertionSort_eq_iff`). A list that is filled from its beginning, each element
behind those that are not after it, is sorted in the same way (`foldl_insertBehind`), and a sort by
one relation and then by another is one sort (`insertionSort_insertionSort`).
-/

set_option linter.unusedSectionVars false

namespace StableSorts

open List

variable {α : Type*}

/-! ## Filling a list -/

section Fill

variable (r : α → α → Prop) [DecidableRel r]

/-- An element behind those of a list that are not after it. -/
def insertBehind (a : α) : List α → List α
  | [] => [a]
  | b :: l => if r b a then b :: insertBehind a l else a :: b :: l

variable {r} [Std.Total r] [IsTrans α r]

theorem total_of_not {a b : α} (h : ¬r a b) : r b a :=
  (Std.Total.total a b).resolve_left h

/-- Elements that are put into a list from its two ends. -/
theorem orderedInsert_insertBehind (a b : α) (l : List α) :
    orderedInsert r a (insertBehind r b l) = insertBehind r b (orderedInsert r a l) := by
  induction l with
  | nil =>
    by_cases hab : r a b
    · simp [insertBehind, hab]
    · simp [insertBehind, hab]
  | cons c l ih =>
    by_cases hcb : r c b
    · by_cases hac : r a c
      · have hab : r a b := IsTrans.trans _ _ _ hac hcb
        simp [insertBehind, hcb, hac, hab]
      · simp [insertBehind, hcb, hac, ih]
    · by_cases hac : r a c
      · by_cases hab : r a b
        · simp [insertBehind, hcb, hac, hab]
        · simp [insertBehind, hcb, hac, hab]
      · have hab : ¬r a b := fun hab => hac (IsTrans.trans _ _ _ hab (total_of_not hcb))
        simp [insertBehind, hcb, hac, hab]

theorem insertionSort_append_singleton (l : List α) (a : α) :
    insertionSort r (l ++ [a]) = insertBehind r a (insertionSort r l) := by
  induction l with
  | nil => rfl
  | cons b l ih =>
    rw [cons_append, insertionSort_cons, ih, orderedInsert_insertBehind, insertionSort_cons]

/-- A list that is filled from its beginning is sorted. -/
theorem foldl_insertBehind (l : List α) :
    l.foldl (fun done a => insertBehind r a done) [] = insertionSort r l := by
  induction l using reverseRecOn with
  | nil => rfl
  | append_singleton l a ih => rw [foldl_append, ih, insertionSort_append_singleton]; rfl

end Fill

/-! ## Two relations -/

section Two

variable {r s : α → α → Prop} [DecidableRel r] [DecidableRel s]

theorem orderedInsert_congr {a : α} {l : List α} (h : ∀ b ∈ l, r a b ↔ s a b) :
    orderedInsert r a l = orderedInsert s a l := by
  induction l with
  | nil => rfl
  | cons b l ih =>
    obtain ⟨hb, hl⟩ := forall_mem_cons.1 h
    rw [orderedInsert_cons, orderedInsert_cons, ih hl]
    exact if_congr hb rfl rfl

/-- Relations that agree on each element and the ones behind it sort alike. -/
theorem insertionSort_congr {l : List α} (h : l.Pairwise fun a b => r a b ↔ s a b) :
    insertionSort r l = insertionSort s l := by
  induction l with
  | nil => rfl
  | cons a l ih =>
    obtain ⟨ha, hl⟩ := pairwise_cons.1 h
    rw [insertionSort_cons, insertionSort_cons, ih hl]
    exact orderedInsert_congr fun b hb => ha b ((mem_insertionSort s).1 hb)

variable [Std.Total r] [IsTrans α r] [Std.Total s] [IsTrans α s]

theorem rel_of_insertionSort_eq {l : List α} (h : insertionSort r l = insertionSort s l) {a b : α}
    (hab : [a, b] <+ l) (hr : r a b) : s a b := by
  have hsorted : [a, b] <+ insertionSort s l := h ▸ pair_sublist_insertionSort hr hab
  exact pairwise_pair.1 ((pairwise_insertionSort s l).sublist hsorted)

/-- Relations sort a list alike exactly when they agree on each element and the ones behind it. -/
theorem insertionSort_eq_iff {l : List α} :
    insertionSort r l = insertionSort s l ↔ l.Pairwise fun a b => r a b ↔ s a b := by
  refine ⟨fun h => pairwise_iff_forall_sublist.2 fun hab => ?_, insertionSort_congr⟩
  exact ⟨rel_of_insertionSort_eq h hab, rel_of_insertionSort_eq h.symm hab⟩

/-- The order by one relation, and by another one among what the first one does not tell apart. -/
def thenBy (s r : α → α → Prop) (a b : α) : Prop :=
  s a b ∧ (s b a → r a b)

instance : DecidableRel (thenBy s r) :=
  fun a b => inferInstanceAs (Decidable (s a b ∧ (s b a → r a b)))

instance : Std.Total (thenBy s r) where
  total a b := by
    by_cases hab : s a b
    · by_cases hba : s b a
      · have hr : r a b ∨ r b a := Std.Total.total a b
        exact hr.imp (fun h => ⟨hab, fun _ => h⟩) fun h => ⟨hba, fun _ => h⟩
      · exact Or.inl ⟨hab, fun h => absurd h hba⟩
    · exact Or.inr ⟨total_of_not hab, fun h => absurd h hab⟩

instance : IsTrans α (thenBy s r) where
  trans a b c hab hbc := by
    refine ⟨IsTrans.trans _ _ _ hab.1 hbc.1, fun hca => ?_⟩
    exact IsTrans.trans _ _ _ (hab.2 (IsTrans.trans _ _ _ hbc.1 hca))
      (hbc.2 (IsTrans.trans _ _ _ hca hab.1))

/-- An element that goes before another one in the second sort. -/
theorem orderedInsert_comm {a b : α} (h : ¬r a b) (l : List α) :
    orderedInsert s b (orderedInsert (thenBy s r) a l) =
      orderedInsert (thenBy s r) a (orderedInsert s b l) := by
  have hab : thenBy s r a b ↔ ¬s b a :=
    ⟨fun hab hba => h (hab.2 hba), fun hba => ⟨total_of_not hba, fun h => absurd h hba⟩⟩
  induction l with
  | nil =>
    by_cases hba : s b a
    · simp [hab, hba]
    · simp [hab, hba]
  | cons c l ih =>
    by_cases hbc : s b c
    · by_cases hac : thenBy s r a c
      · by_cases hba : s b a
        · simp [hab, hba, hbc, hac]
        · simp [hab, hba, hbc, hac]
      · have hba : s b a := by
          by_contra hba
          refine hac ⟨IsTrans.trans _ _ _ (total_of_not hba) hbc, fun hca => ?_⟩
          exact absurd (IsTrans.trans _ _ _ hbc hca) hba
        simp [hab, hba, hbc, hac]
    · by_cases hac : thenBy s r a c
      · have hba : ¬s b a := fun hba => hbc (IsTrans.trans _ _ _ hba hac.1)
        simp [hba, hbc, hac]
      · simp [hbc, hac, ih]

theorem insertionSort_orderedInsert {a : α} {l : List α} (h : l.Pairwise r) :
    insertionSort s (orderedInsert r a l) = orderedInsert (thenBy s r) a (insertionSort s l) := by
  induction l with
  | nil => rfl
  | cons b l ih =>
    obtain ⟨hb, hl⟩ := pairwise_cons.1 h
    by_cases hab : r a b
    · -- the element is before all others in the first sort, so only the second one counts
      rw [orderedInsert_cons_of_le r l hab, insertionSort_cons]
      refine orderedInsert_congr fun c hc => ?_
      have hac : r a c := by
        rcases mem_cons.1 ((mem_insertionSort s).1 hc) with rfl | hc
        · exact hab
        · exact IsTrans.trans _ _ _ hab (hb c hc)
      exact ⟨fun hs => ⟨hs, fun _ => hac⟩, And.left⟩
    · rw [orderedInsert_of_not_le r l hab, insertionSort_cons, ih hl, orderedInsert_comm hab,
        insertionSort_cons]

/-- A sort and another one after it. -/
theorem insertionSort_insertionSort (l : List α) :
    insertionSort s (insertionSort r l) = insertionSort (thenBy s r) l := by
  induction l with
  | nil => rfl
  | cons a l ih =>
    rw [insertionSort_cons, insertionSort_orderedInsert (pairwise_insertionSort r l), ih,
      insertionSort_cons]

end Two

end StableSorts
