import FactoryFloor.CancelRun
import FactoryFloor.Concurrent
import FactoryFloor.Execution
import FactoryFloor.Transition
import Mathlib.Algebra.Group.Nat.Defs

/-!
# Following the events of a run

`listRunEvents` returns the events of a run in the order of their ids, page by page. A client
follows the run with the cursor of the last event it has received.

An id is drawn before the transaction of its event commits. So a transaction that commits late
adds an event behind the cursor of a client, which no later page returns (`late_event_lost`).
`run_followed` is about the runs in which every event commits before a client that follows its
run has received an event with a greater id : a client that goes on, with any page sizes, has then
received every committed event of the run exactly once.
-/

namespace FactoryFloor

open Relational Transition

/-! ## Ids -/

/-- `createUuidV7` : the time, the version, and random bits. -/
def createUuidV7 (now : Time) (randA randB : ℕ) : Uuid :=
  now % 2 ^ 48 * 2 ^ 80 + 7 * 2 ^ 76 + randA % 2 ^ 12 * 2 ^ 64 + 2 * 2 ^ 62 + randB % 2 ^ 62

/-! ## Pages -/

/-- `RunCursor`, of the kind `run-events`. -/
structure RunCursor where
  runId : Uuid
  after : Uuid
deriving DecidableEq, Repr

structure RunEventPage where
  items : List Event
  nextCursor : Option RunCursor
  resumeCursor : Option RunCursor
  complete : Bool

/-- `normalizePageLimit`. -/
def normalizePageLimit (limit : Option ℤ) : Outcome ℕ := do
  let limit := limit.getD 25
  require (1 ≤ limit && limit ≤ 100) (.request "invalid_limit")
  return limit.toNat

/-- `decodeRunCursor`, of a cursor that is well formed. -/
def decodeRunCursor (cursor : Option RunCursor) (runId : Uuid) : Outcome (Option Uuid) := do
  require (cursor.all (·.runId = runId)) (.request "cursor_run_mismatch")
  return cursor.map (·.after)

/-- `assertEventCursorAnchor`. -/
def assertEventCursorAnchor (correlationId : Text) (after : Option Uuid) (db : Db) : Outcome Unit :=
  require (after.all fun id => db.events.any fun e => e.id = id && e.correlationId = correlationId)
    (.request "cursor_expired")

/-- The events of a correlation after an id, in the order of their ids. -/
def eventsAfter (correlationId : Text) (after : Option Uuid) (db : Db) : List Event :=
  (db.events.filter fun e => e.correlationId = correlationId && after.all (· < e.id)).insertionSort
    fun d e => d.id ≤ e.id

/-- `listRunEvents`. -/
def listRunEvents (context : OperatorContext) (runId : Uuid) (limit : Option ℤ)
    (cursor : Option RunCursor) (db : Db) : Outcome RunEventPage := do
  require (context.roles.contains "operator" || context.roles.contains "admin")
    (.request "operator_forbidden")
  match db.commands.find? (·.id = runId) with
  | none => .error (.request "run_not_found")
  | some run =>
    let limit ← normalizePageLimit limit
    let after ← decodeRunCursor cursor run.id
    assertEventCursorAnchor run.correlationId after db
    let rows := (eventsAfter run.correlationId after db).take (limit + 1)
    let items := rows.take limit
    let lastId := (items.getLast?.map (·.id)).or after
    let resumeCursor := lastId.map fun id => ⟨run.id, id⟩
    return { items, nextCursor := if limit < rows.length then resumeCursor else none, resumeCursor,
             complete := rows.length ≤ limit }

/-! ## Clients and transactions -/

/-- A client that follows a run : its cursor, and the events it has received. -/
structure Follower where
  context : OperatorContext
  runId : Uuid
  cursor : Option RunCursor
  received : List Event

/-- A client asks for its next page, and goes on from the page's cursor. -/
def Follower.poll (f : Follower) (limit : Option ℤ) (db : Db) : Outcome Follower := do
  let page ← listRunEvents f.context f.runId limit f.cursor db
  return { f with cursor := page.nextCursor.or page.resumeCursor, received := f.received ++ page.items }

/-- A client that asks for one page after another. -/
def Follower.follow (f : Follower) (limits : List (Option ℤ)) (db : Db) : Outcome Follower :=
  limits.foldlM (fun f limit => f.poll limit db) f

structure Feed where
  db : Db
  now : Time
  /-- The events that open transactions have inserted. -/
  uncommitted : List (List Event)
  followers : List Follower

inductive FeedLabel where
  | tick (now : Time)
  | begin
  | insert (event : Event)
  | commit (events : List Event)
  | rollback
  | start (context : OperatorContext) (runId : Uuid)
  | poll (runId : Uuid) (limit : Option ℤ)

inductive FeedStep : Feed → FeedLabel → Feed → Prop
  | tick {s : Feed} {now : Time} (hnow : s.now ≤ now) : FeedStep s (.tick now) { s with now }
  | begin {s : Feed} : FeedStep s .begin { s with uncommitted := [] :: s.uncommitted }
  | insert {s : Feed} {event : Event} {events : List Event} {pre post : List (List Event)}
      {randA randB : ℕ} (hmem : s.uncommitted = pre ++ events :: post)
      (hid : event.id = createUuidV7 s.now randA randB)
      (hfresh : FreshAcross (·.id) s.db.events s.uncommitted event.id) :
      FeedStep s (.insert event) { s with uncommitted := pre ++ (events ++ [event]) :: post }
  | commit {s : Feed} {events : List Event} {pre post : List (List Event)}
      (hmem : s.uncommitted = pre ++ events :: post) :
      FeedStep s (.commit events)
        { s with db := { s.db with events := s.db.events ++ events }, uncommitted := pre ++ post }
  | rollback {s : Feed} {events : List Event} {pre post : List (List Event)}
      (hmem : s.uncommitted = pre ++ events :: post) :
      FeedStep s .rollback { s with uncommitted := pre ++ post }
  | start {s : Feed} {context : OperatorContext} {runId : Uuid}
      (hrole : context.roles.contains "operator" || context.roles.contains "admin")
      (hrun : s.db.commands.any (·.id = runId)) :
      FeedStep s (.start context runId)
        { s with followers := ⟨context, runId, none, []⟩ :: s.followers }
  | poll {s : Feed} {f g : Follower} {limit : Option ℤ} {pre post : List Follower}
      (hmem : s.followers = pre ++ f :: post) (hop : f.poll limit s.db = .ok g) :
      FeedStep s (.poll f.runId limit) { s with followers := pre ++ g :: post }

/-- The events of runs, the transactions that insert them, and the clients that follow them. -/
def feed : System Feed FeedLabel :=
  ⟨fun s => Keyed (·.id) s.db.events ∧ s.uncommitted = [] ∧ s.followers = [], FeedStep⟩

/-! ## Following -/

/-- The committed events of a run. -/
def runEvents (runId : Uuid) (db : Db) : List Event :=
  db.events.filter fun e => (db.commands.find? (·.id = runId)).any (·.correlationId = e.correlationId)

/-- Every client that asks for enough pages, of any sizes, receives every committed event of its
run exactly once. -/
def Feed.Followed (s : Feed) : Prop :=
  Keyed (·.id) s.db.events ∧ ∀ f ∈ s.followers, ∀ limits : List (Option ℤ),
    (∀ limit ∈ limits, ∀ n ∈ limit, 1 ≤ n ∧ n ≤ 100) →
    (runEvents f.runId s.db).length ≤ limits.length →
    ∃ g, f.follow limits s.db = .ok g ∧ g.received.Perm (runEvents f.runId s.db)

/-- The runs in which an event commits before a client has received a later one of its run. -/
def commitsInTime (s : Feed) : FeedLabel → Prop
  | .commit events => ∀ f ∈ s.followers, ∀ e ∈ events,
      (s.db.commands.find? (·.id = f.runId)).any (·.correlationId = e.correlationId) →
      f.cursor.all (·.after < e.id)
  | _ => True

/-! ## Rows in the order of a key -/

section Sorted

variable {α : Type*} {key : α → ℕ} {xs ys : List α}

/-- Rows in the order of their keys are those up to a key, and those after it. -/
theorem filter_le_append_filter_lt (h : xs.Pairwise (key · < key ·)) (n : ℕ) :
    xs.filter (key · ≤ n) ++ xs.filter (n < key ·) = xs := by
  induction xs with
  | nil => rfl
  | cons x xs ih =>
    obtain ⟨hx, hxs⟩ := List.pairwise_cons.1 h
    by_cases hle : key x ≤ n
    · simpa [hle, Nat.not_lt.2 hle] using ih hxs
    · have hlt := Nat.not_le.1 hle
      have hnone : xs.filter (key · ≤ n) = [] :=
        List.filter_eq_nil_iff.2 fun y hy => by simpa using hlt.trans (hx y hy)
      have hall : xs.filter (n < key ·) = xs :=
        List.filter_eq_self.2 fun y hy => by simpa using hlt.trans (hx y hy)
      simp [hle, hlt, hnone, hall]

/-- Rows with the same keys in the same order are the same rows. -/
theorem eq_of_perm_of_keys (h : xs.Perm ys) (hx : xs.Pairwise (key · < key ·))
    (hy : ys.Pairwise (key · < key ·)) : xs = ys :=
  h.eq_of_pairwise (fun _ _ _ _ hab hba => absurd hab (Nat.lt_asymm hba)) hx hy

theorem keys_insertionSort (h : Keyed key xs) :
    (xs.insertionSort fun a b => key a ≤ key b).Pairwise (key · < key ·) := by
  have : Std.Total fun a b : α => key a ≤ key b := ⟨fun _ _ => le_total _ _⟩
  have : IsTrans α fun a b => key a ≤ key b := ⟨fun _ _ _ => le_trans⟩
  have hle := List.pairwise_insertionSort (fun a b => key a ≤ key b) xs
  have hne : (xs.insertionSort fun a b => key a ≤ key b).Pairwise (key · ≠ key ·) :=
    List.pairwise_map.1 ((List.perm_insertionSort _ xs).map key |>.nodup_iff.2 h)
  exact hle.imp₂ (fun _ _ hle hne => lt_of_le_of_ne hle hne) hne

/-- A sorted prefix is what is not after its last row. -/
theorem prefix_eq_filter {x : α} (h : ys.Pairwise (key · < key ·)) (hextends : xs <+: ys)
    (hlast : xs.getLast? = some x) : ys.filter (key · ≤ key x) = xs ∧
      ys.filter (key x < key ·) = ys.drop xs.length := by
  obtain ⟨zs, rfl⟩ := hextends
  obtain ⟨ws, rfl⟩ := List.getLast?_eq_some_iff.1 hlast
  obtain ⟨hxs, -, hcross⟩ := List.pairwise_append.1 h
  obtain ⟨-, -, hws⟩ := List.pairwise_append.1 hxs
  have hupto : ∀ y ∈ ws ++ [x], key y ≤ key x := by
    intro y hy
    rcases List.mem_append.1 hy with hy | hy
    · exact (hws y hy x (List.mem_singleton_self x)).le
    · rw [List.mem_singleton.1 hy]
  have hafter : ∀ z ∈ zs, key x < key z := fun z hz => hcross x (by simp) z hz
  have hle : (ws ++ [x]).filter (key · ≤ key x) = ws ++ [x] :=
    List.filter_eq_self.2 fun y hy => by simpa using hupto y hy
  have hnone : zs.filter (key · ≤ key x) = [] :=
    List.filter_eq_nil_iff.2 fun z hz => by simpa using hafter z hz
  refine ⟨by rw [List.filter_append, hle, hnone, List.append_nil], ?_⟩
  have hgt : (ws ++ [x]).filter (key x < key ·) = [] :=
    List.filter_eq_nil_iff.2 fun y hy => by simpa using hupto y hy
  have hall : zs.filter (key x < key ·) = zs :=
    List.filter_eq_self.2 fun z hz => by simpa using hafter z hz
  rw [List.filter_append, hgt, hall, List.nil_append, List.drop_left]

/-- Sorting commutes with a selection. -/
theorem insertionSort_filter (h : Keyed key xs) (p : α → Bool) :
    ((xs.filter p).insertionSort fun a b => key a ≤ key b) =
      (xs.insertionSort fun a b => key a ≤ key b).filter p := by
  refine @eq_of_perm_of_keys _ key _ _ ?_ (keys_insertionSort (h.sublist ?_)) ?_
  · exact (List.perm_insertionSort _ _).trans ((List.perm_insertionSort _ xs).symm.filter p)
  · exact List.filter_sublist.map key
  · exact (keys_insertionSort h).filter p

end Sorted

/-! ## What a client has received -/

section Clients

variable {s t : Feed} {l : FeedLabel} {db : Db} {f g : Follower} {run : Command}

/-- The committed events of a run, in the order of their ids. -/
def orderedEvents (runId : Uuid) (db : Db) : List Event :=
  (runEvents runId db).insertionSort fun d e => d.id ≤ e.id

theorem orderedEvents_keys (h : Keyed (·.id) db.events) (runId : Uuid) :
    (orderedEvents runId db).Pairwise (·.id < ·.id) :=
  keys_insertionSort (h.sublist (List.filter_sublist.map _))

/-- A client has received the first events of its run, and its cursor is at the last of them. -/
structure Follower.Reads (f : Follower) (db : Db) : Prop where
  role : f.context.roles.contains "operator" || f.context.roles.contains "admin"
  run : ∃ run, db.commands.find? (·.id = f.runId) = some run
  received : f.received <+: orderedEvents f.runId db
  cursor : f.cursor = f.received.getLast?.map fun e => ⟨f.runId, e.id⟩

/-- The events after a client's cursor are those it has not received. -/
theorem Follower.Reads.eventsAfter_eq (h : f.Reads db) (hkeyed : Keyed (·.id) db.events)
    (hrun : db.commands.find? (·.id = f.runId) = some run) :
    eventsAfter run.correlationId (f.cursor.map (·.after)) db =
      (orderedEvents f.runId db).drop f.received.length := by
  have hevents : runEvents f.runId db =
      db.events.filter fun e => e.correlationId = run.correlationId := by
    simp [runEvents, hrun, eq_comm]
  cases hlast : f.received.getLast? with
  | none =>
    have hnil : f.received = [] := List.getLast?_eq_none_iff.1 hlast
    simp [eventsAfter, orderedEvents, hevents, h.cursor, hnil]
  | some x =>
    have hkeys := orderedEvents_keys hkeyed f.runId
    have hrows : Keyed (·.id) (runEvents f.runId db) :=
      hkeyed.sublist (List.filter_sublist.map _)
    rw [← (prefix_eq_filter hkeys h.received hlast).2, orderedEvents,
      ← insertionSort_filter hrows, hevents, List.filter_filter]
    simp [eventsAfter, h.cursor, hlast, Bool.and_comm]

theorem Follower.Reads.anchored (h : f.Reads db)
    (hrun : db.commands.find? (·.id = f.runId) = some run) :
    assertEventCursorAnchor run.correlationId (f.cursor.map (·.after)) db = .ok () := by
  rw [assertEventCursorAnchor, require_eq_ok, h.cursor]
  cases hlast : f.received.getLast? with
  | none => rfl
  | some x =>
    have hmem : x ∈ orderedEvents f.runId db :=
      h.received.subset (List.mem_of_getLast? hlast)
    obtain ⟨hx, hcorrelation⟩ := List.mem_filter.1 ((List.perm_insertionSort _ _).mem_iff.1 hmem)
    rw [hrun, Option.any_some, decide_eq_true_eq] at hcorrelation
    exact List.any_eq_true.2 ⟨x, hx, by simp [hcorrelation]⟩

theorem normalizePageLimit_eq_ok {limit : Option ℤ} {n : ℕ} :
    normalizePageLimit limit = .ok n ↔
      (∀ m ∈ limit, 1 ≤ m ∧ m ≤ 100) ∧ n = (limit.getD 25).toNat := by
  have hbound : (1 ≤ limit.getD 25 ∧ limit.getD 25 ≤ 100) ↔ ∀ m ∈ limit, 1 ≤ m ∧ m ≤ 100 := by
    cases limit with
    | none => simp
    | some m => simp
  rw [← hbound]
  constructor
  · intro h
    obtain ⟨⟨⟩, hrange, hn⟩ := Except.bind_eq_ok.1 h
    exact ⟨by simpa using require_eq_ok.1 hrange, (Except.ok.inj hn).symm⟩
  · rintro ⟨hrange, rfl⟩
    exact Except.bind_eq_ok.2 ⟨(), require_eq_ok.2 (by simpa using hrange), rfl⟩

/-- The next page has the events that follow, as many as the limit says, or all that are left. -/
theorem Follower.Reads.poll (h : f.Reads db) (hkeyed : Keyed (·.id) db.events)
    {limit : Option ℤ} (hlimit : ∀ n ∈ limit, 1 ≤ n ∧ n ≤ 100) :
    ∃ g n, f.poll limit db = .ok g ∧ g.Reads db ∧ g.runId = f.runId ∧ 1 ≤ n ∧
      g.received = f.received ++ ((orderedEvents f.runId db).drop f.received.length).take n := by
  obtain ⟨run, hrun⟩ := h.run
  have hid : run.id = f.runId := by simpa using List.find?_some hrun
  obtain ⟨n, hnormal⟩ : ∃ n, normalizePageLimit limit = .ok n :=
    ⟨_, normalizePageLimit_eq_ok.2 ⟨hlimit, rfl⟩⟩
  have hn : 1 ≤ n := by
    obtain ⟨-, rfl⟩ := normalizePageLimit_eq_ok.1 hnormal
    cases limit with
    | none => decide
    | some m => have hm := (hlimit m rfl).1; simp; omega
  have hdecode : decodeRunCursor f.cursor run.id = .ok (f.cursor.map (·.after)) := by
    refine Except.bind_eq_ok.2 ⟨(), require_eq_ok.2 ?_, rfl⟩
    rw [h.cursor, hid]
    cases f.received.getLast? <;> simp
  obtain ⟨rest, hrest⟩ : ∃ rest, rest = (orderedEvents f.runId db).drop f.received.length :=
    ⟨_, rfl⟩
  have hitems : ((eventsAfter run.correlationId (f.cursor.map (·.after)) db).take (n + 1)).take n =
      rest.take n := by
    rw [h.eventsAfter_eq hkeyed hrun, List.take_take, hrest, Nat.min_eq_left (Nat.le_succ n)]
  have hcursor : (((rest.take n).getLast?.map (·.id)).or (f.cursor.map (·.after))).map
      (fun id => (⟨run.id, id⟩ : RunCursor)) =
      (f.received ++ rest.take n).getLast?.map fun e => ⟨f.runId, e.id⟩ := by
    rw [List.getLast?_append, h.cursor, hid]
    cases (rest.take n).getLast? <;> cases f.received.getLast? <;> rfl
  have hreceived : f.received ++ rest.take n <+: orderedEvents f.runId db := by
    conv_rhs => rw [← List.prefix_iff_eq_append.1 h.received]
    rw [← hrest]
    exact (List.prefix_append_right_inj _).2 (List.take_prefix n rest)
  refine ⟨{ f with cursor := (f.received ++ rest.take n).getLast?.map fun e => ⟨f.runId, e.id⟩,
                   received := f.received ++ rest.take n }, n, ?_,
    ⟨h.role, h.run, hreceived, rfl⟩, rfl, hn, by rw [hrest]⟩
  obtain ⟨rows, hrows⟩ : ∃ rows,
      rows = (eventsAfter run.correlationId (f.cursor.map (·.after)) db).take (n + 1) := ⟨_, rfl⟩
  obtain ⟨cursor, hc⟩ : ∃ cursor, cursor = (f.received ++ rest.take n).getLast?.map
      fun e => (⟨f.runId, e.id⟩ : RunCursor) := ⟨_, rfl⟩
  have hpage : listRunEvents f.context f.runId limit f.cursor db =
      .ok ⟨rest.take n, if n < rows.length then cursor else none, cursor, rows.length ≤ n⟩ := by
    refine Except.bind_eq_ok.2 ⟨(), require_eq_ok.2 h.role, ?_⟩
    simp only [hrun]
    refine Except.bind_eq_ok.2 ⟨n, hnormal, Except.bind_eq_ok.2 ⟨_, hdecode, ?_⟩⟩
    refine Except.bind_eq_ok.2 ⟨(), h.anchored hrun, ?_⟩
    rw [hitems, hcursor, ← hrows, ← hc]
    rfl
  refine Except.bind_eq_ok.2 ⟨_, hpage, ?_⟩
  have hnext : (if n < rows.length then cursor else none).or cursor = cursor := by
    split <;> simp
  rw [hnext, hc]
  rfl

/-- A page is returned for a limit in range. -/
theorem Follower.Reads.limit_of_poll (h : f.Reads db) {limit : Option ℤ}
    (hop : f.poll limit db = .ok g) : ∀ n ∈ limit, 1 ≤ n ∧ n ≤ 100 := by
  obtain ⟨run, hrun⟩ := h.run
  obtain ⟨page, hpage, -⟩ := Except.bind_eq_ok.1 hop
  obtain ⟨⟨⟩, -, hpage⟩ := Except.bind_eq_ok.1 hpage
  simp only [hrun] at hpage
  obtain ⟨n, hnormal, -⟩ := Except.bind_eq_ok.1 hpage
  exact (normalizePageLimit_eq_ok.1 hnormal).1

/-- A client that asks for one page after another receives as many events as it asks for pages, or
all that there are. -/
theorem Follower.Reads.follow (hkeyed : Keyed (·.id) db.events) (limits : List (Option ℤ))
    (hlimits : ∀ limit ∈ limits, ∀ n ∈ limit, 1 ≤ n ∧ n ≤ 100) (h : f.Reads db) :
    ∃ g, f.follow limits db = .ok g ∧ g.Reads db ∧ g.runId = f.runId ∧
      min (orderedEvents f.runId db).length (f.received.length + limits.length) ≤
        g.received.length := by
  induction limits generalizing f with
  | nil => exact ⟨f, rfl, h, rfl, Nat.min_le_right _ _⟩
  | cons limit limits ih =>
    obtain ⟨g, n, hpoll, hg, hrun, hn, hreceived⟩ := h.poll hkeyed (hlimits limit (by simp))
    obtain ⟨g', hfollow, hg', hrun', hle⟩ :=
      ih (fun limit hmem => hlimits limit (List.mem_cons_of_mem _ hmem)) hg
    refine ⟨g', ?_, hg', hrun'.trans hrun, ?_⟩
    · rw [Follower.follow, List.foldlM_cons]
      exact Except.bind_eq_ok.2 ⟨g, hpoll, hfollow⟩
    · have hlength : g.received.length =
          f.received.length + min n ((orderedEvents f.runId db).length - f.received.length) := by
        rw [hreceived, List.length_append, List.length_take, List.length_drop]
      rw [hrun] at hle
      simp only [List.length_cons]
      omega

/-- A client that has received as many events as there are has received each once. -/
theorem Follower.Reads.perm (h : f.Reads db)
    (hlength : (runEvents f.runId db).length ≤ f.received.length) :
    f.received.Perm (runEvents f.runId db) := by
  have hperm : (orderedEvents f.runId db).Perm (runEvents f.runId db) :=
    List.perm_insertionSort _ _
  rw [h.received.eq_of_length_le (hperm.length_eq ▸ hlength)]
  exact hperm

/-- Events that commit in time are behind no client's cursor. -/
theorem Follower.Reads.commit (h : f.Reads db) {events : List Event}
    (hkeyed : Keyed (·.id) (db.events ++ events))
    (htime : ∀ e ∈ events,
      (db.commands.find? (·.id = f.runId)).any (·.correlationId = e.correlationId) →
      f.cursor.all (·.after < e.id)) :
    f.Reads { db with events := db.events ++ events } := by
  refine ⟨h.role, h.run, ?_, h.cursor⟩
  cases hlast : f.received.getLast? with
  | none => simp [List.getLast?_eq_none_iff.1 hlast]
  | some x =>
    obtain ⟨added, hadded⟩ : ∃ added, added = events.filter fun e =>
        (db.commands.find? (·.id = f.runId)).any (·.correlationId = e.correlationId) := ⟨_, rfl⟩
    have hevents : runEvents f.runId { db with events := db.events ++ events } =
        runEvents f.runId db ++ added := by
      rw [hadded]
      exact List.filter_append ..
    have hafter : added.filter (·.id ≤ x.id) = [] := by
      refine List.filter_eq_nil_iff.2 fun e he => ?_
      obtain ⟨hmem, hrun⟩ := List.mem_filter.1 (hadded ▸ he)
      have hlt : x.id < e.id := by simpa [h.cursor, hlast] using htime e hmem hrun
      simpa using hlt
    have hold : Keyed (·.id) db.events := hkeyed.sublist (List.sublist_append_left ..|>.map _)
    -- what the client has received are the events up to its cursor, before and after
    have hupto : (orderedEvents f.runId { db with events := db.events ++ events }).filter
        (·.id ≤ x.id) = f.received := by
      have hrows : Keyed (·.id) (runEvents f.runId db) :=
        hold.sublist (List.filter_sublist.map _)
      have hrows' : Keyed (·.id) (runEvents f.runId db ++ added) := by
        rw [← hevents]
        exact List.Nodup.sublist (List.filter_sublist.map _) hkeyed
      rw [orderedEvents, hevents, ← insertionSort_filter hrows', List.filter_append, hafter,
        List.append_nil, insertionSort_filter hrows]
      exact (prefix_eq_filter (orderedEvents_keys hold f.runId) h.received hlast).1
    rw [← hupto]
    exact ⟨_, filter_le_append_filter_lt (orderedEvents_keys hkeyed f.runId) x.id⟩

/-! ## Runs -/

/-- What holds in every state of a run whose events commit in time. -/
structure Feed.Sound (s : Feed) : Prop where
  keyed : KeyedAcross (·.id) s.db.events s.uncommitted
  reads : ∀ f ∈ s.followers, f.Reads s.db

theorem FeedStep.sound (h : s.Sound) (hstep : FeedStep s l t) (htime : commitsInTime s l) :
    t.Sound := by
  cases hstep with
  | tick => exact ⟨h.keyed, h.reads⟩
  | begin => exact ⟨h.keyed.begin, h.reads⟩
  | insert hmem _ hfresh =>
    have hkeyed := h.keyed
    rw [hmem] at hkeyed hfresh
    exact ⟨hkeyed.insert hfresh, h.reads⟩
  | commit hmem =>
    have hkeyed := h.keyed
    rw [hmem] at hkeyed
    exact ⟨hkeyed.commit, fun f hf => (h.reads f hf).commit hkeyed.commit.committed (htime f hf)⟩
  | rollback hmem =>
    have hkeyed := h.keyed
    rw [hmem] at hkeyed
    exact ⟨hkeyed.rollback, h.reads⟩
  | @start context runId hrole hrun =>
    refine ⟨h.keyed, fun f hf => ?_⟩
    rcases List.mem_cons.1 hf with rfl | hf
    · refine ⟨hrole, ?_, List.nil_prefix, rfl⟩
      obtain ⟨run, hmem, hid⟩ := List.any_eq_true.1 hrun
      exact Option.isSome_iff_exists.1 (List.find?_isSome.2 ⟨run, hmem, hid⟩)
    · exact h.reads f hf
  | @poll f g limit pre post hmem hop =>
    have hf : f.Reads s.db := h.reads f (by simp [hmem])
    obtain ⟨g', -, hpoll, hg, -⟩ := hf.poll h.keyed.committed (hf.limit_of_poll hop)
    obtain rfl : g' = g := Except.ok.inj (hpoll.symm.trans hop)
    refine ⟨h.keyed, fun f' hf' => ?_⟩
    rcases List.mem_append.1 hf' with hf' | hf'
    · exact h.reads f' (by simp [hmem, hf'])
    · rcases List.mem_cons.1 hf' with rfl | hf'
      · exact hg
      · exact h.reads f' (by simp [hmem, hf'])

theorem sound_initial (h : feed.init s) : s.Sound := by
  obtain ⟨hkeyed, huncommitted, hfollowers⟩ := h
  exact ⟨huncommitted ▸ .of_nil hkeyed, by simp [hfollowers]⟩

end Clients

/-- While every event commits before a client has received a later one of its run, every client
that asks for enough pages receives every committed event of its run exactly once. -/
theorem run_followed {s : Feed} (h : (feed.restrict commitsInTime).Reachable s) : s.Followed := by
  have hsound : s.Sound := by
    induction h with
    | start h0 => exact sound_initial h0
    | next _ hstep ih => exact hstep.1.sound ih hstep.2
  refine ⟨hsound.keyed.committed, fun f hf limits hlimits hlength => ?_⟩
  obtain ⟨g, hfollow, hg, hrun, hle⟩ := (hsound.reads f hf).follow hsound.keyed.committed limits hlimits
  refine ⟨g, hfollow, ?_⟩
  rw [← hrun] at hlength hle ⊢
  refine hg.perm ?_
  have hperm : (orderedEvents g.runId s.db).length = (runEvents g.runId s.db).length :=
    List.length_insertionSort _ _
  omega

/-- The plant with a run, and no events yet. -/
def orderedPlant : Feed :=
  { db := { plant.db with
      commands := [⟨1, 100, "order", .null, .accepted, 0, none, .other "c", none⟩] },
    now := 1, uncommitted := [], followers := [] }

/-- An event of the run. -/
def orderEvent (randB sequenceNumber : ℕ) : Event :=
  ⟨createUuidV7 1 0 randB, 100, "order", .null, .regionCommands 100, sequenceNumber, .other "c",
    .command 1⟩

/-- Two transactions have inserted an event of the run each. -/
theorem orderedPlant_inserted (ok : Feed → FeedLabel → Prop)
    (hbegin : ∀ s, ok s .begin) (hinsert : ∀ s e, ok s (.insert e)) :
    (feed.restrict ok).Reachable
      { orderedPlant with uncommitted := [[orderEvent 1 2], [orderEvent 0 1]] } := by
  have hstart : (feed.restrict ok).Reachable orderedPlant := .start ⟨List.nodup_nil, rfl, rfl⟩
  have hfirst := (hstart.next ⟨.begin, hbegin _⟩).next
    ⟨@FeedStep.insert _ (orderEvent 0 1) [] [] [] 0 0 rfl rfl ⟨by decide, by decide⟩, hinsert _ _⟩
  exact (hfirst.next ⟨.begin, hbegin _⟩).next
    ⟨@FeedStep.insert _ (orderEvent 1 2) [] [] [[orderEvent 0 1]] 0 1 rfl rfl ⟨by decide, by decide⟩,
      hinsert _ _⟩

/-- The events commit in the order of their ids, and the client asks for a page after the first. -/
theorem run_followed_ordered : ∃ s, (feed.restrict commitsInTime).Reachable s ∧
    (runEvents 1 s.db).length = 2 ∧ s.followers.map (·.received.length) = [1] ∧ s.Followed := by
  have hinserted := orderedPlant_inserted commitsInTime (fun _ => trivial)
    (fun _ _ => trivial)
  have hcommitted := hinserted.next
    ⟨@FeedStep.commit _ [orderEvent 0 1] [[orderEvent 1 2]] [] rfl,
      by simp [commitsInTime, orderedPlant]⟩
  have hstarted := hcommitted.next ⟨@FeedStep.start _ ⟨"p", ["operator"]⟩ 1 rfl rfl, trivial⟩
  have hpolled := hstarted.next ⟨@FeedStep.poll _ _ ⟨⟨"p", ["operator"]⟩, 1,
    some ⟨1, createUuidV7 1 0 0⟩, [orderEvent 0 1]⟩ none [] [] rfl rfl, trivial⟩
  have hfollowed := hpolled.next
    ⟨@FeedStep.commit _ [orderEvent 1 2] [] [] rfl, by simp only [commitsInTime]; decide⟩
  exact ⟨_, hfollowed, rfl, rfl, run_followed hfollowed⟩

/-- The event with the smaller id commits after a client has received the other one. -/
theorem late_event_lost : ∃ s, feed.Reachable s ∧ ¬s.Followed := by
  have hinserted := (orderedPlant_inserted (fun _ _ => True) (fun _ => trivial)
    (fun _ _ => trivial)).of_restrict
  have hcommitted := hinserted.next (@FeedStep.commit _ [orderEvent 1 2] [] [[orderEvent 0 1]] rfl)
  have hstarted := hcommitted.next (@FeedStep.start _ ⟨"p", ["operator"]⟩ 1 rfl rfl)
  have hpolled := hstarted.next (@FeedStep.poll _ _ ⟨⟨"p", ["operator"]⟩, 1,
    some ⟨1, createUuidV7 1 0 1⟩, [orderEvent 1 2]⟩ none [] [] rfl rfl)
  have hlate := hpolled.next (@FeedStep.commit _ [orderEvent 0 1] [] [] rfl)
  refine ⟨_, hlate, fun hfollowed => ?_⟩
  obtain ⟨g, hfollow, hperm⟩ := hfollowed.2 _ (List.mem_singleton_self _) [none, none]
    (by simp) (by decide)
  have hreceived : g.received.length = 1 := by
    have hone := congrArg (Except.map fun g : Follower => g.received.length) hfollow
    exact (Except.ok.inj hone).symm
  exact absurd (hreceived.symm.trans hperm.length_eq) (by decide)

end FactoryFloor
