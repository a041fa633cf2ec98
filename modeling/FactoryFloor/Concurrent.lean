import FactoryFloor.Relational

/-!
# Rows of open transactions

A table under concurrent transactions is the list of its committed rows, and for each open
transaction the list of the rows it has inserted. No other transaction sees these before the commit.

An insert waits for the transactions that have inserted a row with its key, and fails if one of
them commits. So a key is unique across the committed rows and those of all open transactions
(`KeyedAcross`), and every statement keeps it : an insert of a row with a fresh key, a commit, and
a rollback.
-/

namespace Relational

variable {α β : Type*} {key : α → β} {rows own : List α} {uncommitted pre post : List (List α)}
  {r s : α}

/-- `INSERT … ON CONFLICT DO NOTHING`, and the row that conflicts when nothing is inserted : the row
the statement ends with, and the rows it inserts. -/
def findOrInsert (conflict : α → Bool) (r : α) (rows : List α) : α × List α :=
  match rows.find? conflict with
  | some s => (s, [])
  | none => (r, [r])

theorem findOrInsert_eq (conflict : α → Bool) (r : α) (rows : List α) :
    (∃ s ∈ rows, conflict s ∧ findOrInsert conflict r rows = (s, [])) ∨
      (∀ s ∈ rows, ¬conflict s) ∧ findOrInsert conflict r rows = (r, [r]) := by
  unfold findOrInsert
  cases h : rows.find? conflict with
  | none => exact Or.inr ⟨List.find?_eq_none.1 h, rfl⟩
  | some s => exact Or.inl ⟨s, List.mem_of_find?_eq_some h, List.find?_some h, rfl⟩

theorem findOrInsert_fst (conflict : α → Bool) (r : α) (rows : List α) :
    (findOrInsert conflict r rows).1 = (rows.find? conflict).getD r := by
  unfold findOrInsert
  cases rows.find? conflict <;> rfl

/-- The row that is inserted is the one given. -/
theorem mem_findOrInsert {conflict : α → Bool} (h : s ∈ (findOrInsert conflict r rows).2) :
    s = r := by
  rcases findOrInsert_eq conflict r rows with ⟨_, _, _, heq⟩ | ⟨_, heq⟩ <;> rw [heq] at h
  · cases h
  · exact List.mem_singleton.1 h

/-- A statement on rows that are images of rows. -/
theorem findOrInsert_map {γ : Type*} (f : α → γ) (conflict : γ → Bool) (r : α) (rows : List α) :
    findOrInsert conflict (f r) (rows.map f) =
      (f (findOrInsert (fun s => conflict (f s)) r rows).1,
        (findOrInsert (fun s => conflict (f s)) r rows).2.map f) := by
  unfold findOrInsert
  rw [List.find?_map, Function.comp_def]
  cases rows.find? fun s => conflict (f s) <;> rfl

/-- Where the conflict is on a key, the row that the statement ends with is found by the key, and the
others are found as before. -/
theorem find?_findOrInsert [DecidableEq β] (key : α → β) (r : α) (rows : List α) (k : β) :
    (rows ++ (findOrInsert (fun s => key s = key r) r rows).2).find? (fun s => key s = k) =
      if k = key r then some (findOrInsert (fun s => key s = key r) r rows).1
      else rows.find? fun s => key s = k := by
  unfold findOrInsert
  by_cases hk : k = key r
  · subst hk
    cases h : rows.find? fun s => key s = key r with
    | none => simp [h]
    | some s => simp [h]
  · have hne : ¬key r = k := fun h => hk h.symm
    cases h : rows.find? fun s => key s = key r with
    | none => simp [hk, hne]
    | some s => simp [hk]

/-- A key that no committed row has, and no row of an open transaction. -/
def FreshAcross (key : α → β) (rows : List α) (uncommitted : List (List α)) (k : β) : Prop :=
  (∀ r ∈ rows, key r ≠ k) ∧ ∀ own ∈ uncommitted, ∀ r ∈ own, key r ≠ k

/-- `key` is a primary key of the committed rows and the rows of open transactions together. -/
def KeyedAcross (key : α → β) (rows : List α) (uncommitted : List (List α)) : Prop :=
  Keyed key (rows ++ uncommitted.flatten)

theorem FreshAcross.ne {k : β} (h : FreshAcross key rows uncommitted k) :
    ∀ s ∈ rows ++ uncommitted.flatten, key s ≠ k := by
  intro s hs
  rcases List.mem_append.1 hs with hs | hs
  · exact h.1 s hs
  · obtain ⟨own, hown, hs⟩ := List.mem_flatten.1 hs
    exact h.2 own hown s hs

namespace KeyedAcross

theorem committed (h : KeyedAcross key rows uncommitted) : Keyed key rows :=
  List.Nodup.sublist ((List.sublist_append_left ..).map _) h

theorem of_nil (h : Keyed key rows) : KeyedAcross key rows [] := by
  simpa [KeyedAcross] using h

theorem begin (h : KeyedAcross key rows uncommitted) : KeyedAcross key rows ([] :: uncommitted) := by
  simpa [KeyedAcross] using h

theorem insert (h : KeyedAcross key rows (pre ++ own :: post))
    (hr : FreshAcross key rows (pre ++ own :: post) (key r)) :
    KeyedAcross key rows (pre ++ (own ++ [r]) :: post) := by
  refine (List.Perm.nodup_iff (List.Perm.map key ?_)).2 (Keyed.append h hr.ne)
  simp only [List.flatten_append, List.flatten_cons, List.append_assoc]
  refine List.Perm.append_left _ (List.Perm.append_left _ (List.Perm.append_left _ ?_))
  exact List.perm_append_comm

theorem insert_all {new : List α} (h : KeyedAcross key rows (pre ++ own :: post))
    (hnew : Keyed key new)
    (hfresh : ∀ r ∈ new, FreshAcross key rows (pre ++ own :: post) (key r)) :
    KeyedAcross key rows (pre ++ (own ++ new) :: post) := by
  induction new generalizing own with
  | nil => simpa using h
  | cons r new ih =>
    obtain ⟨hr, hnew⟩ := List.nodup_cons.1 hnew
    obtain ⟨hrfresh, hfresh⟩ := List.forall_mem_cons.1 hfresh
    have hstep : KeyedAcross key rows (pre ++ (own ++ [r] ++ new) :: post) := by
      refine ih (h.insert hrfresh) hnew fun s hs => ⟨(hfresh s hs).1, fun own' hown t ht => ?_⟩
      have hsr : key r ≠ key s := fun heq => hr (heq ▸ List.mem_map_of_mem hs)
      rcases List.mem_append.1 hown with hown | hown
      · exact (hfresh s hs).2 own' (by simp [hown]) t ht
      · rcases List.mem_cons.1 hown with rfl | hown
        · rcases List.mem_append.1 ht with ht | ht
          · exact (hfresh s hs).2 own (by simp) t ht
          · rwa [List.mem_singleton.1 ht]
        · exact (hfresh s hs).2 own' (by simp [hown]) t ht
    simpa using hstep

/-- An insert outside of transactions. -/
theorem insert_committed (h : KeyedAcross key rows uncommitted)
    (hr : FreshAcross key rows uncommitted (key r)) :
    KeyedAcross key (rows ++ [r]) uncommitted := by
  refine (List.Perm.nodup_iff (List.Perm.map key ?_)).2 (Keyed.append h hr.ne)
  rw [List.append_assoc, List.append_assoc]
  exact List.Perm.append_left _ List.perm_append_comm

theorem commit (h : KeyedAcross key rows (pre ++ own :: post)) :
    KeyedAcross key (rows ++ own) (pre ++ post) := by
  refine (List.Perm.nodup_iff (List.Perm.map key ?_)).1 h
  rw [List.append_assoc]
  refine List.Perm.append_left _ ?_
  simp only [List.flatten_append, List.flatten_cons, ← List.append_assoc]
  exact List.Perm.append_right _ List.perm_append_comm

/-- A transaction that is rolled back and run again. -/
theorem restart (h : KeyedAcross key rows (pre ++ post)) : KeyedAcross key rows (pre ++ [] :: post) := by
  simpa [KeyedAcross] using h

theorem rollback (h : KeyedAcross key rows (pre ++ own :: post)) :
    KeyedAcross key rows (pre ++ post) := by
  refine List.Nodup.sublist (List.Sublist.map key ?_) h
  simp only [List.flatten_append, List.flatten_cons]
  exact (((List.sublist_append_right _ _).append_left _).append_left _)

/-- An update of committed rows that keeps their keys. -/
theorem updateWhere {p : α → Bool} {f : α → α} (h : KeyedAcross key rows uncommitted)
    (hf : ∀ r, key (f r) = key r) : KeyedAcross key (updateWhere p f rows) uncommitted := by
  unfold KeyedAcross Keyed at *
  rwa [List.map_append, map_updateWhere key hf, ← List.map_append]

/-- Committed rows that are deleted. -/
theorem sublist {rows' : List α} (h : KeyedAcross key rows uncommitted)
    (hsub : List.Sublist rows' rows) : KeyedAcross key rows' uncommitted :=
  List.Nodup.sublist ((hsub.append_right _).map key) h

/-- The rows a transaction sees. -/
theorem seen (h : KeyedAcross key rows uncommitted) (hown : own ∈ uncommitted) :
    Keyed key (rows ++ own) :=
  List.Nodup.sublist (List.Sublist.map key ((List.sublist_flatten_of_mem hown).append_left rows)) h

end KeyedAcross

end Relational
