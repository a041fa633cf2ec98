import FactoryFloor.StuckGroups

/-!
# Poisoned groups

A poll should end with a lease or with none. It fails on a group whose next execution has the
trigger of another one (`Db.Poisoned`) : executions are looked up by the digest of their inputs, but
the table is also unique on the trigger. A late delivery at an optional port makes a new digest of
the inputs of a pending retry, and with the retry's trigger in front the insert breaks the key
(`poll_poisoned`). The group is due at every poll from then on.

`polls_end` says that nothing else fails : every poll ends, whatever locks it gets, exactly when no
candidate's group is poisoned.
-/

namespace FactoryFloor

open Relational Transition

variable {P : Platform} {db db' : Db} {now : Time} {s : Installation}

/-! ## Candidates -/

theorem mem_of_firstOfGroups {ds : List Delivery} {d : Delivery} (h : d ∈ firstOfGroups ds) :
    d ∈ ds := by
  induction ds with
  | nil => exact h
  | cons e ds ih =>
    rcases List.mem_cons.1 h with rfl | h
    · exact List.mem_cons_self
    · exact List.mem_cons_of_mem e (ih (List.mem_filter.1 h).1)

/-- A candidate is a ready delivery that the selectors match. -/
theorem mem_candidates {selectors : Option (List String)} {c : Delivery}
    (h : c ∈ candidates now selectors db) :
    c ∈ db.deliveries ∧ c.status = .ready ∧ matchesSelectors db selectors c := by
  have hmem := (List.perm_insertionSort _ _).mem_iff.1
    (mem_of_firstOfGroups (List.mem_of_mem_take h))
  simp only [List.mem_filter, Bool.and_eq_true, decide_eq_true_eq] at hmem
  exact ⟨hmem.1, hmem.2.1.1, hmem.2.2⟩

/-- Putting off another group poisons none. -/
theorem Db.Poisoned.deferred {group : GroupKey} {candidate : Delivery}
    (hne : candidate.toGroupKey ≠ group) (h : Deferred now group db db')
    (hp : db'.Poisoned now candidate) : db.Poisoned now candidate := by
  obtain ⟨selected, trigger, ⟨hselects, region, hregion, hnone⟩, htrigger, e, he, hid⟩ := hp
  have hput := h.putOff
  rw [Db.region?, hput.regions] at hregion
  rw [hput.executions] at hnone he
  exact ⟨selected, trigger, ⟨hselects.deferred hne h, region, hregion, hnone⟩, htrigger, e, he, hid⟩

end FactoryFloor
