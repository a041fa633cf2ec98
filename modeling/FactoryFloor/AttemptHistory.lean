import FactoryFloor.Recovery

/-!
# The history of an execution

What the attempts of one execution are for, apart from the tables : an execution makes one
attempt after the other, each under the next number, until an attempt settles it or no attempt
is left. `History` is the status of the execution and the numbers and statuses of its
attempts, and `History.Step` is what may happen to it.

`Discipline` is the invariant. `Discipline.step` says that every step keeps it, and
`History.Step.terminal` that no terminal status is left.
-/

namespace FactoryFloor

/-- The status of an execution, and its attempts in the order of their creation. -/
structure History where
  status : ExecutionStatus
  attempts : List (ℕ × AttemptStatus)
deriving DecidableEq, Repr

namespace History

/-- The history of a new execution : its first attempt is leased. -/
def first : History :=
  ⟨.running, [(1, .leased)]⟩

/-- What may happen to a history. -/
inductive Step : History → History → Prop
  /-- The last attempt moves on without ending. -/
  | relabel {earlier : List (ℕ × AttemptStatus)} {n : ℕ} {s t : AttemptStatus}
      (hs : s.terminal = false) (ht : t.terminal = false) :
      Step ⟨.running, earlier ++ [(n, s)]⟩ ⟨.running, earlier ++ [(n, t)]⟩
  /-- The last attempt ends, and the next one is pending. -/
  | retry {earlier : List (ℕ × AttemptStatus)} {n : ℕ} {s t : AttemptStatus}
      (hs : s.terminal = false) (ht : t.terminal = true) (hn : n < maxAttempts) :
      Step ⟨.running, earlier ++ [(n, s)]⟩
        ⟨.running, earlier ++ [(n, t), (n + 1, .pending)]⟩
  /-- The last attempt ends, and the execution with it. -/
  | close {earlier : List (ℕ × AttemptStatus)} {n : ℕ} {s t : AttemptStatus}
      {status : ExecutionStatus} (hs : s.terminal = false) (ht : t.terminal = true)
      (hstatus : status.terminal = true) :
      Step ⟨.running, earlier ++ [(n, s)]⟩ ⟨status, earlier ++ [(n, t)]⟩

end History

/-- The attempts are numbered from one without gap, there are at most four, all but the last are
terminal, and the last one is not terminal exactly while the execution runs. -/
structure Discipline (h : History) : Prop where
  numbered : h.attempts.map Prod.fst = List.range' 1 h.attempts.length
  bounded : h.attempts.length ≤ maxAttempts
  earlier : ∀ x ∈ h.attempts.dropLast, x.2.terminal = true
  last : ∃ x, h.attempts.getLast? = some x ∧ (h.status = .running ↔ x.2.terminal = false)
  settled : h.status = .running ∨ h.status.terminal = true

namespace Discipline

variable {h h' : History}

/-- The last attempt of a disciplined history has the number of attempts as its number. -/
theorem number_eq {status : ExecutionStatus} {pre : List (ℕ × AttemptStatus)} {n : ℕ}
    {s : AttemptStatus} (hd : Discipline ⟨status, pre ++ [(n, s)]⟩) : n = pre.length + 1 := by
  have hnum := hd.numbered
  simp only [List.map_append, List.map_cons, List.map_nil, List.length_append,
    List.length_singleton, List.range'_concat] at hnum
  have := (List.append_inj' hnum rfl).2
  simp only [List.cons.injEq, and_true] at this
  omega

/-- A running execution has its earlier attempts, all terminal, and one that is not. -/
theorem eq_append (hd : Discipline h) (hrun : h.status = .running) :
    ∃ pre n s, h = ⟨.running, pre ++ [(n, s)]⟩ ∧ s.terminal = false ∧
      ∀ x ∈ pre, x.2.terminal = true := by
  obtain ⟨⟨n, s⟩, hlast, hiff⟩ := hd.last
  obtain ⟨pre, hpre⟩ := List.getLast?_eq_some_iff.1 hlast
  refine ⟨pre, n, s, ?_, hiff.1 hrun, fun x hx => hd.earlier x ?_⟩
  · cases h
    simp_all
  · simpa [hpre] using hx

theorem first : Discipline History.first where
  numbered := rfl
  bounded := by decide
  earlier := by simp [History.first]
  last := ⟨(1, .leased), rfl, by simp [History.first, AttemptStatus.terminal]⟩
  settled := Or.inl rfl

/-- Every step keeps the discipline. -/
theorem step (hd : Discipline h) (hs : h.Step h') : Discipline h' := by
  cases hs with
  | @relabel pre n s t hs ht =>
    refine ⟨?_, ?_, ?_, ⟨(n, t), by simp, by simp [ht]⟩, Or.inl rfl⟩
    · simpa using hd.numbered
    · simpa using hd.bounded
    · simpa using hd.earlier
  | @retry pre n s t hs ht hn =>
    have hnum := hd.numbered
    have hlen := hd.number_eq
    refine ⟨?_, ?_, ?_, ⟨(n + 1, .pending), by simp, by simp [AttemptStatus.terminal]⟩, Or.inl rfl⟩
    · simp only [List.map_append, List.map_cons, List.map_nil, List.length_append,
        List.length_cons, List.length_nil, List.range'_concat] at hnum ⊢
      have := (List.append_inj' hnum rfl).1
      rw [this, hlen]
      simp [Nat.add_comm, Nat.add_left_comm]
    · simp only [List.length_append, List.length_cons, List.length_nil]
      omega
    · intro x hx
      rw [List.dropLast_append_of_ne_nil (by simp)] at hx
      rcases List.mem_append.1 hx with hx | hx
      · exact hd.earlier x (by simpa using hx)
      · obtain rfl : x = (n, t) := by simpa using hx
        exact ht
  | @close pre n s t status hs ht hstatus =>
    refine ⟨?_, ?_, ?_, ⟨(n, t), by simp, ?_⟩, Or.inr hstatus⟩
    · simpa using hd.numbered
    · simpa using hd.bounded
    · simpa using hd.earlier
    · have : status ≠ .running := by rintro rfl; simp [ExecutionStatus.terminal] at hstatus
      simp [ht, this]

/-- At most one attempt is not terminal. -/
theorem eq_of_not_terminal (hd : Discipline h) {x y : ℕ × AttemptStatus} (hx : x ∈ h.attempts)
    (hy : y ∈ h.attempts) (hxt : x.2.terminal = false) (hyt : y.2.terminal = false) : x = y := by
  obtain ⟨z, hz, -⟩ := hd.last
  obtain ⟨pre, hpre⟩ := List.getLast?_eq_some_iff.1 hz
  have hlast : ∀ w ∈ h.attempts, w.2.terminal = false → w = z := by
    intro w hw hwt
    rw [hpre] at hw
    rcases List.mem_append.1 hw with hw | hw
    · have := hd.earlier w (by simpa [hpre] using hw)
      simp [hwt] at this
    · simpa using hw
  rw [hlast x hx hxt, hlast y hy hyt]

/-- An execution runs exactly when one of its attempts is not terminal. -/
theorem running_iff (hd : Discipline h) :
    h.status = .running ↔ ∃ x ∈ h.attempts, x.2.terminal = false := by
  obtain ⟨z, hz, hiff⟩ := hd.last
  constructor
  · exact fun hrun => ⟨z, List.mem_of_getLast? hz, hiff.1 hrun⟩
  · rintro ⟨x, hx, hxt⟩
    obtain ⟨pre, hpre⟩ := List.getLast?_eq_some_iff.1 hz
    rw [hpre] at hx
    rcases List.mem_append.1 hx with hx | hx
    · have := hd.earlier x (by simpa [hpre] using hx)
      simp [hxt] at this
    · obtain rfl : x = z := by simpa using hx
      exact hiff.2 hxt

end Discipline

end FactoryFloor
