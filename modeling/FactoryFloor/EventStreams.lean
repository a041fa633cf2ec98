import FactoryFloor.Commands
import FactoryFloor.Transition
import Mathlib.Data.List.Range

/-!
# Event streams under concurrent transactions

`EventService.insert` takes the next number of a stream and inserts the event with it. In a
transaction the row of the counter stays locked from there to the end, and a rollback gives the
numbers back. So the events of a stream are numbered without gaps, in the order of their commits.

The recovery pass inserts its event outside a transaction : the number is taken by one statement
and used by another, and nothing is locked in between. A pass that fails between the two leaves a
gap, and two passes can use their numbers in the other order (`recovery_stream_gap`).
`streams_gapless` is about the runs in which a recovery pass takes a number only when each number
taken before it has its event.
-/

namespace FactoryFloor

open Transition

/-! ## The counter of a stream -/

/-- The number `allocateSequence` gives next : a stream without a row starts with 1. -/
def nextNumber (streamKey : StreamKey) (streams : List (StreamKey × ℕ)) : ℕ :=
  (streams.lookup streamKey).getD 1

theorem lookup_updateWhere {k k' : StreamKey} {n : ℕ} (streams : List (StreamKey × ℕ)) :
    (Relational.updateWhere (fun s => s.1 = k) (fun s => (s.1, n)) streams).lookup k' =
      (streams.lookup k').map fun m => if k' = k then n else m := by
  induction streams with
  | nil => rfl
  | cons s streams ih =>
    obtain ⟨j, m⟩ := s
    simp only [Relational.updateWhere, List.map_cons] at ih ⊢
    by_cases hk : k' = j
    · subst hk
      by_cases hj : k' = k <;> simp [hj]
    · have hne : (k' == j) = false := beq_eq_false_iff_ne.2 hk
      rw [show ((j, m) :: streams).lookup k' = streams.lookup k' by rw [List.lookup_cons, hne], ← ih]
      by_cases hj : j = k
      · subst hj
        simp [List.lookup_cons, hne]
      · simp [List.lookup_cons, hne, hj]

/-- `allocateSequence` gives the next number of the stream, and moves that stream's counter on. -/
theorem allocateSequence_spec (k k' : StreamKey) (streams : List (StreamKey × ℕ)) :
    (allocateSequence k streams).1 = nextNumber k streams ∧
      nextNumber k' (allocateSequence k streams).2 =
        if k' = k then nextNumber k streams + 1 else nextNumber k' streams := by
  unfold allocateSequence nextNumber
  cases hk : streams.lookup k with
  | none =>
    refine ⟨rfl, ?_⟩
    by_cases h : k' = k
    · subst h
      simp [List.lookup_append, hk]
    · have hne : (k' == k) = false := beq_eq_false_iff_ne.2 h
      simp [List.lookup_append, List.lookup_cons, h, hne]
  | some n =>
    refine ⟨rfl, ?_⟩
    rw [lookup_updateWhere]
    by_cases h : k' = k
    · subst h
      simp [hk]
    · simp [h]

/-! ## Transactions that append events -/

/-- A stream : one that transactions append to, or `runtime:recovery`. -/
inductive Stream where
  | ofKey (streamKey : StreamKey)
  | recovery
deriving DecidableEq, Repr

/-- The columns of an event that its stream orders. -/
structure StreamEvent where
  id : Uuid
  stream : Stream
  sequenceNumber : ℕ
deriving DecidableEq, Repr

/-- An open transaction. Every counter it has written is locked by it. -/
structure Appender where
  /-- The next number of each stream whose counter the transaction has written. -/
  held : StreamKey → Option ℕ
  /-- The number taken for the event that is inserted next. -/
  taken : Option (StreamKey × ℕ)
  events : List StreamEvent

structure EventLog where
  /-- The next number of each stream, as committed. -/
  next : Stream → ℕ
  /-- The committed events, in the order of their commits. -/
  events : List StreamEvent
  appenders : List Appender
  /-- The numbers recovery passes have taken and not used yet. -/
  passes : List ℕ

/-- The next number of a stream, as a transaction sees it. -/
def EventLog.nextFor (s : EventLog) (a : Appender) (streamKey : StreamKey) : ℕ :=
  (a.held streamKey).getD (s.next (.ofKey streamKey))

/-- The counters after a transaction commits. -/
def EventLog.nextAfter (s : EventLog) (a : Appender) : Stream → ℕ
  | .ofKey streamKey => s.nextFor a streamKey
  | .recovery => s.next .recovery

inductive AppendLabel where
  | begin
  | allocate (streamKey : StreamKey)
  | insert (id : Uuid)
  | commit
  | rollback
  | recoveryAllocate
  | recoveryInsert (id : Uuid) (number : ℕ)
  | recoveryFail (number : ℕ)

inductive AppendStep : EventLog → AppendLabel → EventLog → Prop
  | begin {s : EventLog} :
      AppendStep s .begin { s with appenders := ⟨fun _ => none, none, []⟩ :: s.appenders }
  /-- The statement waits while another transaction has the counter locked. -/
  | allocate {s : EventLog} {a : Appender} {streamKey : StreamKey} {pre post : List Appender}
      (hmem : s.appenders = pre ++ a :: post) (htaken : a.taken = none)
      (hlock : ∀ b ∈ pre ++ post, b.held streamKey = none) :
      AppendStep s (.allocate streamKey)
        { s with appenders := pre ++
            { a with held := Function.update a.held streamKey (some (s.nextFor a streamKey + 1)),
                     taken := some (streamKey, s.nextFor a streamKey) } :: post }
  | insert {s : EventLog} {a : Appender} {streamKey : StreamKey} {number : ℕ} {id : Uuid}
      {pre post : List Appender} (hmem : s.appenders = pre ++ a :: post)
      (htaken : a.taken = some (streamKey, number)) :
      AppendStep s (.insert id)
        { s with appenders := pre ++
            { a with taken := none, events := a.events ++ [⟨id, .ofKey streamKey, number⟩] } ::
            post }
  | commit {s : EventLog} {a : Appender} {pre post : List Appender}
      (hmem : s.appenders = pre ++ a :: post) (htaken : a.taken = none) :
      AppendStep s .commit
        { s with next := s.nextAfter a, events := s.events ++ a.events, appenders := pre ++ post }
  | rollback {s : EventLog} {a : Appender} {pre post : List Appender}
      (hmem : s.appenders = pre ++ a :: post) :
      AppendStep s .rollback { s with appenders := pre ++ post }
  | recoveryAllocate {s : EventLog} :
      AppendStep s .recoveryAllocate
        { s with next := Function.update s.next .recovery (s.next .recovery + 1),
                 passes := s.next .recovery :: s.passes }
  | recoveryInsert {s : EventLog} {id : Uuid} {number : ℕ} {pre post : List ℕ}
      (hmem : s.passes = pre ++ number :: post) :
      AppendStep s (.recoveryInsert id number)
        { s with events := s.events ++ [⟨id, .recovery, number⟩], passes := pre ++ post }
  | recoveryFail {s : EventLog} {number : ℕ} {pre post : List ℕ}
      (hmem : s.passes = pre ++ number :: post) :
      AppendStep s (.recoveryFail number) { s with passes := pre ++ post }

/-- The events of a database under concurrent transactions and recovery passes. -/
def eventLog : System EventLog AppendLabel :=
  ⟨fun s => (∀ k, s.next k = 1) ∧ s.events = [] ∧ s.appenders = [] ∧ s.passes = [], AppendStep⟩

/-! ## Gapless streams -/

/-- The numbers of a stream, in order. -/
def numbersOf (k : Stream) (events : List StreamEvent) : List ℕ :=
  (events.filter (·.stream = k)).map (·.sequenceNumber)

@[simp] theorem numbersOf_nil (k : Stream) : numbersOf k [] = [] := rfl

@[simp] theorem numbersOf_append (k : Stream) (xs ys : List StreamEvent) :
    numbersOf k (xs ++ ys) = numbersOf k xs ++ numbersOf k ys := by
  simp [numbersOf]

@[simp] theorem numbersOf_singleton (k : Stream) (e : StreamEvent) :
    numbersOf k [e] = if e.stream = k then [e.sequenceNumber] else [] := by
  by_cases h : e.stream = k <;> simp [numbersOf, h]

/-- The committed events of each stream carry 1, 2, … in the order of their commits. -/
def EventLog.Gapless (s : EventLog) : Prop :=
  ∀ k, numbersOf k s.events = List.range' 1 (numbersOf k s.events).length

/-- Each number of the recovery stream that was taken has its event. -/
def EventLog.recovered (s : EventLog) : Bool :=
  s.next .recovery = (numbersOf .recovery s.events).length + 1

/-- The runs in which a recovery pass takes a number only when each number before it has its
event. -/
def takesInTurn (s : EventLog) : AppendLabel → Prop
  | .recoveryAllocate => s.recovered
  | _ => True

/-- What a transaction does to a stream it has locked : its own events carry on the committed
numbers, and its counter is after them. -/
structure Appender.Continues (a : Appender) (s : EventLog) (streamKey : StreamKey) : Prop where
  events : numbersOf (.ofKey streamKey) a.events =
    List.range' (s.next (.ofKey streamKey)) (numbersOf (.ofKey streamKey) a.events).length
  unlocked : a.held streamKey = none → numbersOf (.ofKey streamKey) a.events = [] ∧
    ∀ n, a.taken ≠ some (streamKey, n)
  taken : ∀ n, a.taken = some (streamKey, n) →
    n = s.next (.ofKey streamKey) + (numbersOf (.ofKey streamKey) a.events).length ∧
      s.nextFor a streamKey = n + 1
  idle : (∀ n, a.taken ≠ some (streamKey, n)) →
    s.nextFor a streamKey =
      s.next (.ofKey streamKey) + (numbersOf (.ofKey streamKey) a.events).length

/-- What holds in every state of such a run. -/
structure EventLog.InTurn (s : EventLog) : Prop where
  gapless : s.Gapless
  next : ∀ streamKey,
    s.next (.ofKey streamKey) = (numbersOf (.ofKey streamKey) s.events).length + 1
  continues : ∀ a ∈ s.appenders, ∀ streamKey, a.Continues s streamKey
  keyed : ∀ a ∈ s.appenders, numbersOf .recovery a.events = []
  /-- A counter is locked by one transaction. -/
  locked : s.appenders.Pairwise fun a b => ∀ streamKey, a.held streamKey = none ∨ b.held streamKey = none
  /-- At most one number of the recovery stream has no event, the last one. -/
  recovery : s.passes = [] ∧ (s.recovered = true ∨
      s.next .recovery = (numbersOf .recovery s.events).length + 2) ∨
    s.passes = [(numbersOf .recovery s.events).length + 1] ∧
      s.next .recovery = (numbersOf .recovery s.events).length + 2

theorem Appender.Continues.congr {s t : EventLog} {a : Appender} {k : StreamKey}
    (h : a.Continues s k) (hnext : t.next (.ofKey k) = s.next (.ofKey k)) : a.Continues t k := by
  have hfor : t.nextFor a k = s.nextFor a k := by rw [EventLog.nextFor, EventLog.nextFor, hnext]
  exact ⟨hnext ▸ h.events, h.unlocked, by rw [hfor, hnext]; exact h.taken,
    by rw [hfor, hnext]; exact h.idle⟩

theorem Appender.Continues.begin (s : EventLog) (k : StreamKey) :
    Appender.Continues ⟨fun _ => none, none, []⟩ s k :=
  ⟨rfl, fun _ => ⟨rfl, by simp⟩, by simp, fun _ => rfl⟩

/-- Taking the next number of a stream. -/
theorem Appender.Continues.allocate {s : EventLog} {a : Appender} {k : StreamKey}
    (h : ∀ j, a.Continues s j) (htaken : a.taken = none) (j : StreamKey) :
    Appender.Continues
      { a with held := Function.update a.held k (some (s.nextFor a k + 1)),
               taken := some (k, s.nextFor a k) } s j := by
  by_cases hj : j = k
  · subst hj
    refine ⟨(h j).events, by simp, fun n hn => ?_, fun hn => absurd rfl (hn _)⟩
    obtain rfl : s.nextFor a j = n := by simpa using hn
    exact ⟨(h j).idle (by simp [htaken]), by simp [EventLog.nextFor]⟩
  · have hheld : Function.update a.held k (some (s.nextFor a k + 1)) j = a.held j := by simp [hj]
    refine ⟨(h j).events, fun hnone => ?_, fun n hn => ?_, fun _ => ?_⟩
    · exact ⟨((h j).unlocked (hheld ▸ hnone)).1, by simp [Ne.symm hj]⟩
    · simp [Ne.symm hj] at hn
    · have hidle := (h j).idle (by simp [htaken])
      simpa [EventLog.nextFor, hj] using hidle

/-- Inserting the event a number was taken for. -/
theorem Appender.Continues.insert {s : EventLog} {a : Appender} {k : StreamKey} {n : ℕ} {id : Uuid}
    (h : ∀ j, a.Continues s j) (htaken : a.taken = some (k, n)) (j : StreamKey) :
    Appender.Continues
      { a with taken := none, events := a.events ++ [⟨id, .ofKey k, n⟩] } s j := by
  by_cases hj : j = k
  · subst hj
    obtain ⟨hn, hnext⟩ := (h j).taken n htaken
    refine ⟨?_, fun hnone => absurd htaken (((h j).unlocked hnone).2 n), by simp, fun _ => ?_⟩
    · have hevents := (h j).events
      simp only [numbersOf_append, numbersOf_singleton, if_true, List.length_append,
        List.length_singleton]
      rw [List.range'_concat, ← hevents, hn, Nat.one_mul]
    · have hfor : s.nextFor a j = n + 1 := hnext
      simp only [numbersOf_append, numbersOf_singleton, if_true, List.length_append,
        List.length_singleton]
      rw [show s.nextFor { a with taken := none, events := a.events ++ [⟨id, .ofKey j, n⟩] } j =
        s.nextFor a j from rfl]
      omega
  · have hsame : numbersOf (.ofKey j) (a.events ++ [⟨id, .ofKey k, n⟩]) =
        numbersOf (.ofKey j) a.events := by simp [Ne.symm hj]
    have hne : ∀ m, a.taken ≠ some (j, m) := by simp [htaken, Ne.symm hj]
    refine ⟨by simpa only [hsame] using (h j).events,
      fun hnone => ⟨hsame.trans ((h j).unlocked hnone).1, by simp⟩, by simp, fun _ => ?_⟩
    rw [hsame]
    exact (h j).idle hne

/-- Another transaction commits what it appended. -/
theorem Appender.Continues.commit {s t : EventLog} {a b : Appender} {k : StreamKey}
    (hb : b.Continues s k) (hlocked : a.held k = none ∨ b.held k = none)
    (hnext : t.next (.ofKey k) = s.nextFor a k) : b.Continues t k := by
  rcases hlocked with hfree | hfree
  · exact hb.congr (by rw [hnext, EventLog.nextFor, hfree, Option.getD_none])
  · obtain ⟨hnone, hidle⟩ := hb.unlocked hfree
    refine ⟨by simp [hnone], fun _ => ⟨hnone, hidle⟩, fun n hn => absurd hn (hidle n), fun _ => ?_⟩
    simp [EventLog.nextFor, hfree, hnone]

theorem range'_append_length {xs ys : List ℕ} {n : ℕ} (hx : xs = List.range' n xs.length)
    (hy : ys = List.range' (n + xs.length) ys.length) :
    xs ++ ys = List.range' n (xs ++ ys).length := by
  rw [List.length_append, ← List.range'_append_1, ← hx, ← hy]

/-- A number of the recovery stream is taken when none before it is missing its event. -/
theorem EventLog.InTurn.passes_nil {s : EventLog} (h : s.InTurn) (hrecovered : s.recovered = true) :
    s.passes = [] := by
  have hnext : s.next .recovery = (numbersOf .recovery s.events).length + 1 := by
    simpa [EventLog.recovered] using hrecovered
  rcases h.recovery with ⟨hnil, -⟩ | ⟨-, hmissing⟩
  · exact hnil
  · omega

/-- The pass that has taken a number is the only one, and the number is the last. -/
theorem EventLog.InTurn.pass {s : EventLog} (h : s.InTurn) {number : ℕ} {pre post : List ℕ}
    (hmem : s.passes = pre ++ number :: post) :
    pre = [] ∧ post = [] ∧ number = (numbersOf .recovery s.events).length + 1 ∧
      s.next .recovery = (numbersOf .recovery s.events).length + 2 := by
  rcases h.recovery with ⟨hnil, -⟩ | ⟨hone, hnext⟩
  · simp [hnil] at hmem
  · rw [hone] at hmem
    obtain ⟨rfl, rfl, rfl⟩ : pre = [] ∧ post = [] ∧
        number = (numbersOf .recovery s.events).length + 1 := by
      cases pre with
      | nil => simpa [eq_comm, and_comm] using hmem
      | cons x pre => simp at hmem
    exact ⟨rfl, rfl, rfl, hnext⟩

/-- A transaction changes nothing before it commits. -/
theorem EventLog.InTurn.replace {s : EventLog} (h : s.InTurn) {a a' : Appender}
    {pre post : List Appender} (hmem : s.appenders = pre ++ a :: post)
    (hcontinues : ∀ k, a'.Continues s k) (hkeyed : numbersOf .recovery a'.events = [])
    (hlocked : ∀ b ∈ pre ++ post, ∀ k, a'.held k = none ∨ b.held k = none) :
    EventLog.InTurn { s with appenders := pre ++ a' :: post } := by
  have hall : ∀ b ∈ pre ++ a' :: post, b = a' ∨ b ∈ s.appenders := by
    intro b hb
    rw [hmem]
    rcases List.mem_append.1 hb with hb | hb
    · exact Or.inr (List.mem_append_left _ hb)
    · rcases List.mem_cons.1 hb with rfl | hb
      · exact Or.inl rfl
      · exact Or.inr (List.mem_append_right _ (List.mem_cons_of_mem _ hb))
  refine ⟨h.gapless, h.next, fun b hb k => ?_, fun b hb => ?_, ?_, h.recovery⟩
  · rcases hall b hb with rfl | hb
    · exact (hcontinues k).congr rfl
    · exact (h.continues b hb k).congr rfl
  · rcases hall b hb with rfl | hb
    · exact hkeyed
    · exact h.keyed b hb
  · have hold := h.locked
    rw [hmem, List.pairwise_append, List.pairwise_cons] at hold
    obtain ⟨hpre, ⟨-, hpost⟩, hcross⟩ := hold
    rw [List.pairwise_append, List.pairwise_cons]
    refine ⟨hpre, ⟨fun b hb => hlocked b (List.mem_append_right _ hb), hpost⟩, fun b hb c hc => ?_⟩
    rcases List.mem_cons.1 hc with rfl | hc
    · exact fun k => (hlocked b (List.mem_append_left _ hb) k).symm
    · exact hcross b hb c (List.mem_cons_of_mem _ hc)

/-- The transactions that are left. -/
theorem EventLog.InTurn.mem_left {s : EventLog} {a : Appender} {pre post : List Appender}
    (hmem : s.appenders = pre ++ a :: post) : ∀ b ∈ pre ++ post, b ∈ s.appenders := by
  intro b hb
  rw [hmem]
  exact List.mem_append.2 ((List.mem_append.1 hb).imp_right (List.mem_cons_of_mem _))

theorem EventLog.InTurn.locked_left {s : EventLog} (h : s.InTurn) {a : Appender}
    {pre post : List Appender} (hmem : s.appenders = pre ++ a :: post) :
    ((pre ++ post).Pairwise fun b c => ∀ k, b.held k = none ∨ c.held k = none) ∧
      ∀ b ∈ pre ++ post, ∀ k, a.held k = none ∨ b.held k = none := by
  have hold := h.locked
  rw [hmem, List.pairwise_append, List.pairwise_cons] at hold
  obtain ⟨hpre, ⟨ha, hpost⟩, hcross⟩ := hold
  refine ⟨List.pairwise_append.2 ⟨hpre, hpost, fun b hb c hc =>
    hcross b hb c (List.mem_cons_of_mem _ hc)⟩, fun b hb k => ?_⟩
  rcases List.mem_append.1 hb with hb | hb
  · exact (hcross b hb a List.mem_cons_self k).symm
  · exact ha b hb k

theorem EventLog.InTurn.commit {s : EventLog} (h : s.InTurn) {a : Appender}
    {pre post : List Appender} (hmem : s.appenders = pre ++ a :: post) (htaken : a.taken = none) :
    EventLog.InTurn
      { s with next := s.nextAfter a, events := s.events ++ a.events, appenders := pre ++ post } := by
  have ha : a ∈ s.appenders := by simp [hmem]
  have hrecovery : numbersOf .recovery a.events = [] := h.keyed a ha
  have hidle : ∀ k, s.nextFor a k =
      s.next (.ofKey k) + (numbersOf (.ofKey k) a.events).length := fun k =>
    (h.continues a ha k).idle (by simp [htaken])
  obtain ⟨hlocked, hapart⟩ := h.locked_left hmem
  refine ⟨fun k => ?_, fun k => ?_, fun b hb k => ?_, fun b hb =>
    h.keyed b (InTurn.mem_left hmem b hb), hlocked, ?_⟩
  · cases k with
    | recovery => simpa [hrecovery] using h.gapless .recovery
    | ofKey k =>
      have hevents := (h.continues a ha k).events
      rw [h.next k, Nat.add_comm] at hevents
      rw [numbersOf_append]
      exact range'_append_length (h.gapless _) hevents
  · change s.nextFor a k = _
    rw [hidle, h.next, numbersOf_append, List.length_append]
    omega
  · exact (h.continues b (InTurn.mem_left hmem b hb) k).commit (hapart b hb k) rfl
  · simpa [hrecovery, EventLog.recovered, EventLog.nextAfter] using h.recovery

theorem AppendStep.inTurn {s t : EventLog} {l : AppendLabel} (h : s.InTurn)
    (hstep : AppendStep s l t) (hturn : takesInTurn s l) : t.InTurn := by
  cases hstep with
  | begin =>
    refine ⟨h.gapless, h.next, fun a ha k => ?_, fun a ha => ?_, ?_, h.recovery⟩
    · rcases List.mem_cons.1 ha with rfl | ha
      · exact (Appender.Continues.begin s k).congr rfl
      · exact (h.continues a ha k).congr rfl
    · rcases List.mem_cons.1 ha with rfl | ha
      · rfl
      · exact h.keyed a ha
    · exact List.pairwise_cons.2 ⟨fun b _ k => Or.inl rfl, h.locked⟩
  | @allocate a streamKey pre post hmem htaken hlock =>
    have ha : a ∈ s.appenders := by simp [hmem]
    refine h.replace hmem (Appender.Continues.allocate (h.continues a ha) htaken) (h.keyed a ha)
      fun b hb k => ?_
    by_cases hk : k = streamKey
    · exact Or.inr (hk ▸ hlock b hb)
    · simpa [hk] using (h.locked_left hmem).2 b hb k
  | @insert a streamKey number id pre post hmem htaken =>
    have ha : a ∈ s.appenders := by simp [hmem]
    exact h.replace hmem (Appender.Continues.insert (h.continues a ha) htaken)
      (by simp [h.keyed a ha]) (h.locked_left hmem).2
  | commit hmem htaken => exact h.commit hmem htaken
  | rollback hmem =>
    exact ⟨h.gapless, h.next, fun b hb k => (h.continues b (EventLog.InTurn.mem_left hmem b hb) k).congr rfl,
      fun b hb => h.keyed b (EventLog.InTurn.mem_left hmem b hb), (h.locked_left hmem).1, h.recovery⟩
  | recoveryAllocate =>
    have hnil := h.passes_nil hturn
    have hnext : s.next .recovery = (numbersOf .recovery s.events).length + 1 := by
      simpa [takesInTurn, EventLog.recovered] using hturn
    refine ⟨h.gapless, fun k => by simpa using h.next k, fun a ha k =>
      (h.continues a ha k).congr (by simp), h.keyed, h.locked, Or.inr ?_⟩
    simp [hnil, hnext]
  | recoveryInsert hmem =>
    obtain ⟨rfl, rfl, rfl, hnext⟩ := h.pass hmem
    refine ⟨fun k => ?_, fun k => by simpa using h.next k, fun a ha k =>
      (h.continues a ha k).congr rfl, h.keyed, h.locked, Or.inl ?_⟩
    · cases k with
      | ofKey k => simpa using h.gapless (.ofKey k)
      | recovery =>
        rw [numbersOf_append]
        refine range'_append_length (h.gapless .recovery) ?_
        simp [Nat.add_comm]
    · simp [EventLog.recovered, hnext]
  | recoveryFail hmem =>
    obtain ⟨rfl, rfl, -, hnext⟩ := h.pass hmem
    exact ⟨h.gapless, h.next, fun a ha k => (h.continues a ha k).congr rfl, h.keyed, h.locked,
      Or.inl ⟨rfl, Or.inr hnext⟩⟩

theorem inTurn_initial {s : EventLog} (h : eventLog.init s) : s.InTurn := by
  obtain ⟨hnext, hevents, happenders, hpasses⟩ := h
  refine ⟨fun k => by simp [hevents], fun k => by simp [hnext, hevents], ?_, ?_, ?_, Or.inl ?_⟩
  · simp [happenders]
  · simp [happenders]
  · simp [happenders]
  · simp [hpasses, EventLog.recovered, hnext, hevents]

/-- While recovery passes take their numbers in turn, the committed events of each stream carry
exactly the numbers 1, 2, …, each once, in the order of their commits. -/
theorem streams_gapless {s : EventLog} (h : (eventLog.restrict takesInTurn).Reachable s) :
    s.Gapless := by
  have hinTurn : s.InTurn := by
    induction h with
    | start h0 => exact inTurn_initial h0
    | next _ hstep ih => exact hstep.1.inTurn ih hstep.2
  exact hinTurn.gapless

/-- Two transactions append to the stream of a region's commands, one of them rolls back, and a
recovery pass records its event. -/
theorem streams_gapless_appended : ∃ s, (eventLog.restrict takesInTurn).Reachable s ∧
    s.events.map (·.sequenceNumber) = [1, 1] ∧ s.Gapless := by
  have hstart : (eventLog.restrict takesInTurn).Reachable ⟨fun _ => 1, [], [], []⟩ :=
    .start ⟨fun _ => rfl, rfl, rfl, rfl⟩
  have htaken := (hstart.next ⟨.begin, trivial⟩).next
    ⟨@AppendStep.allocate _ _ (.regionCommands 100) [] [] rfl rfl (by simp), trivial⟩
  have hrolled := htaken.next ⟨@AppendStep.rollback _ _ [] [] rfl, trivial⟩
  have hagain := (hrolled.next ⟨.begin, trivial⟩).next
    ⟨@AppendStep.allocate _ _ (.regionCommands 100) [] [] rfl rfl (by simp), trivial⟩
  have hinserted := hagain.next ⟨@AppendStep.insert _ _ _ _ 0 [] [] rfl rfl, trivial⟩
  have hcommitted := hinserted.next ⟨@AppendStep.commit _ _ [] [] rfl rfl, trivial⟩
  have hpass := hcommitted.next ⟨.recoveryAllocate, rfl⟩
  have hrecovered := hpass.next ⟨@AppendStep.recoveryInsert _ 1 1 [] [] rfl, trivial⟩
  exact ⟨_, hrecovered, rfl, streams_gapless hrecovered⟩

/-- A pass whose event is not inserted leaves a gap. -/
theorem recovery_stream_gap : ∃ s, eventLog.Reachable s ∧ ¬s.Gapless := by
  have hstart : eventLog.Reachable ⟨fun _ => 1, [], [], []⟩ :=
    .start ⟨fun _ => rfl, rfl, rfl, rfl⟩
  have hfailed := (hstart.next .recoveryAllocate).next (@AppendStep.recoveryFail _ 1 [] [] rfl)
  have hgap := (hfailed.next .recoveryAllocate).next
    (@AppendStep.recoveryInsert _ 0 2 [] [] rfl)
  refine ⟨_, hgap, fun hgapless => ?_⟩
  have hone := hgapless .recovery
  simp at hone

end FactoryFloor
