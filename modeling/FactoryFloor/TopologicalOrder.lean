import Mathlib.Data.Fintype.Card
import Mathlib.Data.List.Sort
import Mathlib.Data.Set.Finite.List
import Mathlib.Logic.Relation
import Mathlib.Order.WellFounded

/-!
# Canonical topological orders

A finite dependency graph : a list of nodes, and the nodes each of them depends on. `order` takes,
again and again, the least node that depends on taken ones only. What it takes has each node after
those it depends on (`order_closed`), it takes all nodes exactly when no node depends on itself by any
path (`order_complete_iff`), and the list of the nodes may be permuted (`order_eq_of_perm`).
-/

set_option linter.unusedSectionVars false

namespace Topological

variable {α : Type*} [DecidableEq α] (le : α → α → Prop) [DecidableRel le] (deps : α → List α)
  (nodes : List α)

/-- The nodes that depend on taken ones only, the least one first. -/
def ready (taken : List α) : List α :=
  (nodes.filter fun i => i ∉ taken ∧ ∀ d ∈ deps i, d ∈ taken).insertionSort le

/-- Take the first ready node, at most `n` times. -/
def order : ℕ → List α → List α
  | 0, taken => taken
  | n + 1, taken =>
    match ready le deps nodes taken with
    | [] => taken
    | i :: _ => order n (taken ++ [i])

/-- Each node comes after the nodes it depends on. -/
def Closed (taken : List α) : Prop :=
  ∀ pre i post, taken = pre ++ i :: post → ∀ d ∈ deps i, d ∈ pre

/-- `i` depends on `d` directly. -/
def Dependency (d i : α) : Prop :=
  i ∈ nodes ∧ d ∈ deps i

/-- No node depends on itself by a path. -/
def Acyclic : Prop :=
  ∀ i, ¬Relation.TransGen (Dependency deps nodes) i i

variable {le deps nodes} {taken : List α} {i : α} {n : ℕ}

theorem mem_ready : i ∈ ready le deps nodes taken ↔
    i ∈ nodes ∧ i ∉ taken ∧ ∀ d ∈ deps i, d ∈ taken := by
  rw [ready, (List.perm_insertionSort _ _).mem_iff, List.mem_filter]
  simp

theorem Closed.nil : Closed deps ([] : List α) := by
  intro pre i post h
  simp at h

theorem Closed.append (h : Closed deps taken) (hi : ∀ d ∈ deps i, d ∈ taken) :
    Closed deps (taken ++ [i]) := by
  intro pre j post heq d hd
  rcases List.eq_nil_or_concat post with rfl | ⟨post', k, rfl⟩
  · obtain ⟨rfl, hj⟩ := List.append_inj' (by simpa using heq : taken ++ [i] = pre ++ [j]) rfl
    obtain rfl := List.singleton_inj.1 hj
    exact hi d hd
  · have heq' : taken ++ [i] = (pre ++ j :: post') ++ [k] := by simpa using heq
    obtain ⟨h₁, -⟩ := List.append_inj' heq' rfl
    exact h pre j post' h₁ d hd

/-- What holds of nothing taken and is kept by taking a ready node holds of the order. -/
theorem order_invariant {I : List α → Prop}
    (hstep : ∀ taken i, I taken → i ∈ ready le deps nodes taken → I (taken ++ [i]))
    (h : I taken) : I (order le deps nodes n taken) := by
  induction n generalizing taken with
  | zero => exact h
  | succ n ih =>
    rw [order]
    cases hready : ready le deps nodes taken with
    | nil => exact h
    | cons i _ => exact ih (hstep taken i h (by simp [hready]))

theorem order_closed : Closed deps (order le deps nodes n []) :=
  order_invariant (fun _ _ h hi => h.append (mem_ready.1 hi).2.2) .nil

theorem order_nodup : (order le deps nodes n []).Nodup :=
  order_invariant (I := List.Nodup) (fun _ i h hi =>
    List.nodup_append.2 ⟨h, List.nodup_singleton i, fun _ ha _ hb hab =>
      (mem_ready.1 hi).2.1 (List.mem_singleton.1 hb ▸ hab ▸ ha)⟩) List.nodup_nil

theorem order_subset : ∀ j ∈ order le deps nodes n [], j ∈ nodes := by
  refine order_invariant (I := fun taken => ∀ j ∈ taken, j ∈ nodes) (fun taken i h hi j hj => ?_)
    (by simp)
  rcases List.mem_append.1 hj with hj | hj
  · exact h j hj
  · rw [List.mem_singleton.1 hj]
    exact (mem_ready.1 hi).1

/-- Either nothing is ready in the end, or a node was taken each time. -/
theorem order_finished : ready le deps nodes (order le deps nodes n taken) = [] ∨
    (order le deps nodes n taken).length = taken.length + n := by
  induction n generalizing taken with
  | zero => exact Or.inr rfl
  | succ n ih =>
    rw [order]
    cases hready : ready le deps nodes taken with
    | nil => exact Or.inl hready
    | cons i _ =>
      refine ih.imp id fun h => ?_
      rw [h, List.length_append, List.length_singleton]
      omega

/-- As many turns as there are nodes are enough. -/
theorem ready_order (hn : nodes.length ≤ n) : ready le deps nodes (order le deps nodes n []) = [] := by
  have hfinished : ready le deps nodes (order le deps nodes n []) = [] ∨
      (order le deps nodes n []).length = ([] : List α).length + n := order_finished
  rcases hfinished with h | h
  · exact h
  · refine List.eq_nil_iff_forall_not_mem.2 fun i hi => ?_
    obtain ⟨hnode, hnot, -⟩ := mem_ready.1 hi
    have hsub : (order le deps nodes n [] ++ [i]).Subperm nodes := by
      refine List.subperm_of_subset ?_ ?_
      · exact List.nodup_append.2 ⟨order_nodup, List.nodup_singleton _, fun a ha b hb hab =>
          hnot (List.mem_singleton.1 hb ▸ hab ▸ ha)⟩
      · intro j hj
        rcases List.mem_append.1 hj with hj | hj
        · exact order_subset j hj
        · rw [List.mem_singleton.1 hj]
          exact hnode
    have := hsub.length_le
    rw [List.length_append, h, List.length_singleton, List.length_nil] at this
    omega

/-- Along a path of dependencies the position in the order grows. -/
theorem Closed.idxOf_lt (h : Closed deps taken) (hall : ∀ j ∈ nodes, j ∈ taken) {d : α}
    (hpath : Relation.TransGen (Dependency deps nodes) d i) : taken.idxOf d < taken.idxOf i := by
  have hedge : ∀ {d i : α}, Dependency deps nodes d i → taken.idxOf d < taken.idxOf i := by
    rintro d i ⟨hi, hd⟩
    obtain ⟨pre, post, heq, hpre⟩ := List.eq_append_cons_of_mem (hall i hi)
    have hmem : d ∈ pre := h pre i post heq d hd
    rw [heq, List.idxOf_append_of_mem hmem, List.idxOf_append_of_notMem hpre, List.idxOf_cons_self]
    exact (List.idxOf_lt_length_of_mem hmem).trans_le (Nat.le_add_right _ _)
  induction hpath with
  | single hdi => exact hedge hdi
  | tail _ hdi ih => exact ih.trans (hedge hdi)

/-- In an acyclic graph some node is ready as long as one is not taken. -/
theorem exists_ready (hacyclic : Acyclic deps nodes) (hdeps : ∀ j ∈ nodes, ∀ d ∈ deps j, d ∈ nodes)
    (hi : i ∈ nodes) (hnot : i ∉ taken) : ∃ j, j ∈ ready le deps nodes taken := by
  have hwf : WellFounded fun d j : { j // j ∈ nodes } =>
      Relation.TransGen (Dependency deps nodes) d.1 j.1 := by
    have : Finite { j // j ∈ nodes } := nodes.finite_toSet.to_subtype
    have : IsTrans { j // j ∈ nodes } fun d j =>
        Relation.TransGen (Dependency deps nodes) d.1 j.1 := ⟨fun _ _ _ => Relation.TransGen.trans⟩
    have : Std.Irrefl fun d j : { j // j ∈ nodes } =>
        Relation.TransGen (Dependency deps nodes) d.1 j.1 := ⟨fun j => hacyclic j.1⟩
    exact Finite.wellFounded_of_trans_of_irrefl _
  obtain ⟨⟨j, hj⟩, hjnot, hmin⟩ := hwf.has_min {j | j.1 ∉ taken} ⟨⟨i, hi⟩, hnot⟩
  refine ⟨j, mem_ready.2 ⟨hj, hjnot, fun d hd => ?_⟩⟩
  by_contra hdnot
  exact hmin ⟨d, hdeps j hj d hd⟩ hdnot (.single ⟨hj, hd⟩)

/-- All nodes are taken exactly when the graph is acyclic. -/
theorem order_complete_iff (hdeps : ∀ j ∈ nodes, ∀ d ∈ deps j, d ∈ nodes)
    (hn : nodes.length ≤ n) :
    (∀ j ∈ nodes, j ∈ order le deps nodes n []) ↔ Acyclic deps nodes := by
  constructor
  · intro hall i hpath
    have hclosed : Closed deps (order le deps nodes n []) := order_closed
    exact lt_irrefl _ (hclosed.idxOf_lt hall hpath)
  · intro hacyclic j hj
    by_contra hnot
    obtain ⟨i, hi⟩ : ∃ i, i ∈ ready le deps nodes (order le deps nodes n []) :=
      exists_ready hacyclic hdeps hj hnot
    rw [ready_order hn] at hi
    simp at hi

/-- The order does not depend on how the nodes are listed. -/
theorem order_eq_of_perm [Std.Total le] [IsTrans α le] [Std.Antisymm le] {nodes' : List α}
    {deps' : α → List α} (hperm : nodes.Perm nodes') (hdeps : ∀ j ∈ nodes, deps j = deps' j) :
    order le deps nodes n taken = order le deps' nodes' n taken := by
  induction n generalizing taken with
  | zero => rfl
  | succ n ih =>
    have hready : ready le deps nodes taken = ready le deps' nodes' taken := by
      refine List.Perm.eq_of_pairwise' (List.pairwise_insertionSort _ _)
        (List.pairwise_insertionSort _ _) ?_
      refine ((List.perm_insertionSort _ _).trans ?_).trans (List.perm_insertionSort _ _).symm
      have hfilter : (nodes.filter fun i => i ∉ taken ∧ ∀ d ∈ deps i, d ∈ taken) =
          nodes.filter fun i => i ∉ taken ∧ ∀ d ∈ deps' i, d ∈ taken :=
        List.filter_congr fun j hj => by rw [hdeps j hj]
      rw [hfilter]
      exact hperm.filter _
    rw [order, order, hready]
    cases ready le deps' nodes' taken with
    | nil => rfl
    | cons i _ => exact ih

end Topological
