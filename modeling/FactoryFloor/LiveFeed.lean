import FactoryFloor.EventBatches
import FactoryFloor.RunEvents
import Mathlib.Logic.Function.Iterate

/-!
# Following the inspection stream

`useLiveEvents` asks for a batch, reads it, keeps the events it has not seen and the cursor, and
asks again. Events commit at any time between, in any order of their ids, and a request fails or is
given up at any point of it. A request that is made while another is under way aborts that one.

`live_events` says what the console has in every reachable state : the newest events of those it has
followed, each once, in the order of their ids. An event it has not followed is still to come, or
was committed behind a page that had been read (`late`). Requests that succeed follow the pending
events, 25 at a time, in their order.

`followed` and `late` are kept to say this. No step depends on them.
-/

namespace FactoryFloor

open Relational Transition

namespace LiveEvents

open JsonText

/-! ## The console and the route -/

/-- A request of the console. The page of an answer is kept beside its text. -/
inductive Flight where
  | idle
  | requested (cursor : Option Utf16)
  | answered (page : EventPage) (body : Utf16)

/-- The events in the order of their commits, and the hook. -/
structure Live where
  events : List EventRow
  buffer : List RuntimeEvent
  cursor : JsValue
  flight : Flight
  followed : List EventRow
  late : List Uuid

/-- A cursor as the text of a query parameter, where it is truthy. -/
def queryText : JsValue → Option Utf16
  | .null | .bool false | .str [] => none
  | .num (.finite x) =>
    if x.magnitude.mantissa = 0 then none else some (stringify (.num (.finite x)))
  | .str s => some s
  | value => some (stringify value)

section Steps

variable (U : UuidTexts) (max : ℕ)

/-- Whether a page has been read that ends after an id. -/
def Live.passed (s : Live) (id : Uuid) : Bool :=
  s.followed.any (id < ·.id) ||
    match s.flight with
    | .answered page _ => page.items.any (id < ·.id)
    | _ => false

/-- An event commits. -/
def Live.commit (e : EventRow) (s : Live) : Live :=
  { s with
    events := s.events ++ [e]
    late := if s.passed e.id then s.late ++ [e.id] else s.late }

/-- `run`, up to its `fetch`. -/
def Live.request (s : Live) : Live :=
  { s with flight := .requested (queryText s.cursor) }

/-- The route answers, with a batch of at most 25 events or an error status. -/
def Live.serve (s : Live) : Live :=
  match s.flight with
  | .requested cursor =>
    match listEvents U cursor 25 s.events with
    | .ok page => { s with flight := .answered page (streamBody U page) }
    | .error _ => { s with flight := .idle }
  | _ => s

/-- `run`, from the text of the response on. -/
def Live.receive (s : Live) : Live :=
  match s.flight with
  | .answered page body =>
    match parseSseBatch body with
    | some batch =>
      { s with
        buffer := appendDeduped s.buffer batch.events max
        cursor := if (queryText batch.cursor).isSome then batch.cursor else s.cursor
        flight := .idle
        followed := s.followed ++ page.items }
    | none => { s with flight := .idle }
  | _ => s

/-- A request that succeeds. -/
def Live.poll (s : Live) : Live :=
  ((s.request).serve U).receive max

/-- The steps of the console, the route and the runtime. -/
inductive LiveStep : Live → Unit → Live → Prop
  | commit {s : Live} (e : EventRow) (hid : ∀ e' ∈ s.events, e'.id ≠ e.id) :
    LiveStep s () (s.commit e)
  | request {s : Live} : LiveStep s () s.request
  | serve {s : Live} : LiveStep s () (s.serve U)
  | receive {s : Live} : LiveStep s () (s.receive max)
  /-- The request fails, or is aborted. -/
  | fail {s : Live} : LiveStep s () { s with flight := .idle }

/-- The console is opened on events with distinct ids. -/
def liveSystem : System Live Unit :=
  ⟨fun s => Keyed (·.id) s.events ∧ s.buffer = [] ∧ s.cursor = .null ∧ s.flight = .idle ∧
    s.followed = [] ∧ s.late = [], LiveStep U max⟩

end Steps

/-! ## What a console has followed -/

/-- The id followed last comes before another. -/
def Follows (followed : List EventRow) (e : EventRow) : Prop :=
  ∀ f ∈ followed, f.id < e.id

/-- The events that come after those followed, in the order of their ids. -/
def Live.pending (s : Live) : List EventRow :=
  (s.events.insertionSort (·.id ≤ ·.id)).filter fun e =>
    (s.followed.getLast?.map EventRow.id).all (· < e.id)

/-- The cursor of what is followed. -/
def cursorOf (U : UuidTexts) (followed : List EventRow) : JsValue :=
  (followed.getLast?.map fun e => JsValue.str (e.cursor U)).getD .null

/-- What a console has, in terms of what it has followed. -/
structure Followed (U : UuidTexts) (max : ℕ) (s : Live) : Prop where
  keyed : Keyed (·.id) s.events
  ascends : s.followed.Pairwise (·.id < ·.id)
  committed : s.followed ⊆ s.events
  cursor : s.cursor = cursorOf U s.followed
  buffer : s.buffer = (s.followed.reverse.take (Nat.max 1 max)).map (EventRow.event U)
  complete : ∀ e ∈ s.events, e ∈ s.followed ∨ e.id ∈ s.late ∨ Follows s.followed e

/-- A page that goes on from what is followed. -/
structure EventPage.GoesOn (U : UuidTexts) (s : Live) (page : EventPage) : Prop where
  ascends : page.items.Pairwise (·.id < ·.id)
  committed : page.items ⊆ s.events
  follows : ∀ e ∈ page.items, Follows s.followed e
  cursor : page.cursor U = cursorOf U page.items
  complete : ∀ e ∈ s.events, Follows s.followed e →
    e ∈ page.items ∨ e.id ∈ s.late ∨ Follows page.items e

/-- What a request has read. -/
def Flight.Sound (U : UuidTexts) (s : Live) : Flight → Prop
  | .idle => True
  | .requested cursor => cursor = queryText (cursorOf U s.followed)
  | .answered page body => body = streamBody U page ∧ page.GoesOn U s

/-- The invariant. -/
structure Live.Sound (U : UuidTexts) (max : ℕ) (s : Live) : Prop extends Followed U max s where
  flight : s.flight.Sound U s

variable {U : UuidTexts} {max : ℕ} {s t : Live}

/-! ## Pages -/

theorem queryText_cursor (e : EventRow) : queryText (.str (e.cursor U)) = some (e.cursor U) := by
  cases hc : e.cursor U with
  | nil => exact absurd hc (encodeInspectionCursor_ne_nil _)
  | cons c rest => rfl

/-- The cursor of what is followed is read back as its last id. -/
theorem afterId_cursorOf (followed : List EventRow) :
    afterId U (queryText (cursorOf U followed)) = .ok (followed.getLast?.map EventRow.id) := by
  cases hlast : followed.getLast? with
  | none => simp [cursorOf, hlast, queryText, afterId]
  | some e =>
    have hcursor : cursorOf U followed = .str (e.cursor U) := by simp [cursorOf, hlast]
    have hdecode : decodeInspectionCursor (e.cursor U) = .ok (U.text e.id) :=
      decodeInspectionCursor_encode _
    rw [hcursor, queryText_cursor]
    cases hc : e.cursor U with
    | nil => exact absurd hc (encodeInspectionCursor_ne_nil _)
    | cons c rest =>
      rw [hc] at hdecode
      simp [afterId, hdecode, U.text_ne_nil, U.read_text, bind, Except.bind, pure, Except.pure]

/-- The cursor of a page is the one of its last event. -/
theorem cursor_of_listEvents {cursor : Option Utf16} {limit : ℤ} {events : List EventRow}
    {page : EventPage} (h : listEvents U cursor limit events = .ok page) :
    page.cursor U = cursorOf U page.items := by
  simp only [listEvents, Except.bind_eq_ok] at h
  obtain ⟨n, -, after, -, h⟩ := h
  cases h
  simp only [EventPage.cursor, cursorOf]
  split
  · cases hlast : ((((events.insertionSort (·.id ≤ ·.id)).filter fun e =>
      after.all (· < e.id)).take (n + 1)).take n).getLast? with
    | none => rfl
    | some e => rfl
  · rfl

/-- A page is read by the console as it was written, whatever its texts are, and the cursor that is
read leads the service to what comes after its last event. -/
theorem stream_read_back {cursor : Option Utf16} {limit : ℤ} {events : List EventRow}
    {page : EventPage} (h : listEvents U cursor limit events = .ok page) :
    ∃ batch, parseSseBatch (streamBody U page) = some batch ∧
      batch.events = page.items.map (EventRow.event U) ∧
      afterId U (queryText batch.cursor) = .ok (page.items.getLast?.map EventRow.id) :=
  ⟨_, parseSseBatch_streamBody U page, rfl, by
    rw [cursor_of_listEvents h, afterId_cursorOf]⟩

theorem listEvents_followed (s : Live) :
    ∃ page, listEvents U (queryText (cursorOf U s.followed)) 25 s.events = .ok page ∧
      page.items = s.pending.take 25 := by
  have hlimit : normalizeLimit 25 = .ok 25 := rfl
  simp only [listEvents, hlimit, afterId_cursorOf, bind, Except.bind, pure, Except.pure,
    Except.ok.injEq, exists_eq_left']
  rw [List.take_take]
  rfl

theorem mem_pending (h : s.followed.Pairwise (·.id < ·.id)) {e : EventRow} :
    e ∈ s.pending ↔ e ∈ s.events ∧ Follows s.followed e := by
  have hlast : (s.followed.getLast?.map EventRow.id).all (· < e.id) = true ↔
      Follows s.followed e := by
    rcases List.eq_nil_or_concat s.followed with hnil | ⟨rest, last, hconcat⟩
    · simp [hnil, Follows]
    · rw [List.concat_eq_append] at hconcat
      rw [hconcat] at h ⊢
      obtain ⟨-, -, hrest⟩ := List.pairwise_append.1 h
      have hbelow : ∀ f ∈ rest, f.id < last.id := fun f hf => hrest f hf last (by simp)
      simp only [List.getLast?_concat, Option.map_some, Option.all_some, decide_eq_true_eq, Follows,
        List.mem_append, List.mem_singleton]
      constructor
      · rintro hlt f (hf | rfl)
        · exact (hbelow f hf).trans hlt
        · exact hlt
      · exact fun hall => hall last (Or.inr rfl)
  rw [Live.pending, List.mem_filter, hlast, List.mem_insertionSort]

theorem pending_ascends (h : Keyed (·.id) s.events) : s.pending.Pairwise (·.id < ·.id) :=
  (keys_insertionSort h).filter _

/-- The first pending events go on from what is followed. -/
theorem goesOn_pending (h : Followed U max s) {page : EventPage}
    (hitems : page.items = s.pending.take 25) (hcursor : page.cursor U = cursorOf U page.items) :
    page.GoesOn U s where
  ascends := by
    rw [hitems]
    exact (pending_ascends h.keyed).sublist (List.take_sublist _ _)
  committed e he := by
    rw [hitems] at he
    exact ((mem_pending h.ascends).1 (List.mem_of_mem_take he)).1
  follows e he := by
    rw [hitems] at he
    exact ((mem_pending h.ascends).1 (List.mem_of_mem_take he)).2
  cursor := hcursor
  complete e he hfollows := by
    have hmem := (mem_pending h.ascends).2 ⟨he, hfollows⟩
    have hsorted := pending_ascends h.keyed
    rw [← List.take_append_drop 25 s.pending] at hmem hsorted
    rw [hitems]
    rcases List.mem_append.1 hmem with htake | hdrop
    · exact Or.inl htake
    · exact Or.inr (Or.inr fun f hf => (List.pairwise_append.1 hsorted).2.2 f hf e hdrop)

/-! ## The buffer -/

theorem eventId_event (e : EventRow) : eventId (e.event U) = U.text e.id :=
  rfl

theorem text_injective : Function.Injective U.text := fun a b h =>
  Option.some.inj ((U.read_text a).symm.trans ((congrArg U.read h).trans (U.read_text b)))

/-- Events with new ids are all taken. -/
theorem mergeEvents_new (items : List EventRow) (seen : List Utf16) (merged : List RuntimeEvent)
    (hseen : ∀ e ∈ items, U.text e.id ∉ seen) (hids : (items.map EventRow.id).Nodup) :
    mergeEvents (items.map (EventRow.event U)) seen merged =
      (items.map (EventRow.event U)).reverse ++ merged := by
  induction items generalizing seen merged with
  | nil => rfl
  | cons e items ih =>
    rw [List.map_cons, List.nodup_cons] at hids
    have hnew : ¬(eventId (e.event U) ≠ [] ∧ eventId (e.event U) ∈ seen) := fun h =>
      hseen e List.mem_cons_self h.2
    rw [List.map_cons, mergeEvents, if_neg hnew, ih]
    · simp
    · intro f hf hmem
      rcases List.mem_cons.1 hmem with hsame | hmem
      · rw [eventId_event] at hsame
        exact hids.1 (List.mem_map.2 ⟨f, hf, text_injective hsame⟩)
      · exact hseen f (List.mem_cons_of_mem e hf) hmem
    · exact hids.2

theorem take_append_take {α : Type} (n : ℕ) (xs ys : List α) :
    (xs ++ ys.take n).take n = (xs ++ ys).take n := by
  rw [List.take_append, List.take_append, List.take_take, Nat.min_eq_left (Nat.sub_le _ _)]

/-- The buffer is the newest events of those followed, and stays so. -/
theorem appendDeduped_followed {followed items : List EventRow}
    (h : (followed ++ items).Pairwise (·.id < ·.id)) :
    appendDeduped ((followed.reverse.take (Nat.max 1 max)).map (EventRow.event U))
        (items.map (EventRow.event U)) max =
      ((followed ++ items).reverse.take (Nat.max 1 max)).map (EventRow.event U) := by
  obtain ⟨-, hitems, hacross⟩ := List.pairwise_append.1 h
  have hids : (items.map EventRow.id).Nodup :=
    List.pairwise_map.2 (hitems.imp fun hlt => hlt.ne)
  have hseen : ∀ e ∈ items, U.text e.id ∉
      ((followed.reverse.take (Nat.max 1 max)).map (EventRow.event U)).map eventId := by
    intro e he hmem
    rw [List.map_map] at hmem
    obtain ⟨f, hf, hsame⟩ := List.mem_map.1 hmem
    have hfollowed : f ∈ followed := List.mem_reverse.1 (List.mem_of_mem_take hf)
    exact absurd (text_injective hsame) (hacross f hfollowed e he).ne
  rw [appendDeduped, mergeEvents_new items _ _ hseen hids, List.map_take, take_append_take,
    List.map_take, List.reverse_append, List.map_append]
  simp only [List.map_reverse]

/-! ## Steps -/

theorem follows_append {followed items : List EventRow} {e : EventRow} :
    Follows (followed ++ items) e ↔ Follows followed e ∧ Follows items e := by
  simp only [Follows, List.mem_append, or_imp, forall_and]

theorem cursorOf_append (followed items : List EventRow) :
    cursorOf U (followed ++ items) = if (queryText (cursorOf U items)).isSome then cursorOf U items
      else cursorOf U followed := by
  rcases List.eq_nil_or_concat items with rfl | ⟨rest, last, rfl⟩
  · simp [cursorOf, queryText]
  · rw [List.concat_eq_append]
    have hlast : cursorOf U (rest ++ [last]) = .str (last.cursor U) := by simp [cursorOf]
    have happend : cursorOf U (followed ++ (rest ++ [last])) = .str (last.cursor U) := by
      rw [← List.append_assoc]
      simp [cursorOf]
    rw [hlast, happend, queryText_cursor]
    simp

/-- What is read of an answer is what was asked. -/
theorem Live.Sound.receive (h : s.Sound U max) {page : EventPage} {body : Utf16}
    (hflight : s.flight = .answered page body) :
    s.receive max =
      { s with
        buffer := appendDeduped s.buffer (page.items.map (EventRow.event U)) max
        cursor := cursorOf U (s.followed ++ page.items)
        flight := .idle
        followed := s.followed ++ page.items } := by
  have hsound := h.flight
  rw [hflight] at hsound
  obtain ⟨hbody, hpage⟩ := hsound
  have hparse := parseSseBatch_streamBody U page
  rw [← hbody] at hparse
  rw [Live.receive, hflight]
  simp only [hparse, hpage.cursor, h.cursor, ← cursorOf_append]

theorem Live.Sound.received (h : s.Sound U max) {page : EventPage} {body : Utf16}
    (hflight : s.flight = .answered page body) : (s.receive max).Sound U max := by
  have hsound := h.flight
  rw [hflight] at hsound
  obtain ⟨-, hpage⟩ := hsound
  have hascends : (s.followed ++ page.items).Pairwise (·.id < ·.id) :=
    List.pairwise_append.2 ⟨h.ascends, hpage.ascends, fun f hf e he => hpage.follows e he f hf⟩
  rw [h.receive hflight]
  refine { keyed := h.keyed, ascends := hascends, committed := ?_, cursor := rfl, buffer := ?_,
           complete := ?_, flight := trivial }
  · exact List.append_subset.2 ⟨h.committed, hpage.committed⟩
  · rw [h.buffer]
    exact appendDeduped_followed hascends
  · intro e he
    rcases h.complete e he with hmem | hlate | hfollows
    · exact Or.inl (List.mem_append_left _ hmem)
    · exact Or.inr (Or.inl hlate)
    · rcases hpage.complete e he hfollows with hmem | hlate | hpast
      · exact Or.inl (List.mem_append_right _ hmem)
      · exact Or.inr (Or.inl hlate)
      · exact Or.inr (Or.inr (follows_append.2 ⟨hfollows, hpast⟩))

theorem Live.Sound.serve (h : s.Sound U max) {cursor : Option Utf16}
    (hflight : s.flight = .requested cursor) :
    ∃ page, s.serve U = { s with flight := .answered page (streamBody U page) } ∧
      page.items = s.pending.take 25 ∧ page.GoesOn U s := by
  have hsound := h.flight
  rw [hflight] at hsound
  obtain ⟨page, hlist, hitems⟩ := listEvents_followed (U := U) s
  refine ⟨page, ?_, hitems, goesOn_pending h.toFollowed hitems (cursor_of_listEvents hlist)⟩
  have hsame : cursor = queryText (cursorOf U s.followed) := hsound
  rw [Live.serve, hflight, hsame]
  simp only [hlist]

theorem Live.Sound.withFlight (h : s.Sound U max) {flight : Flight} (hflight : flight.Sound U s) :
    Live.Sound U max { s with flight } where
  keyed := h.keyed
  ascends := h.ascends
  committed := h.committed
  cursor := h.cursor
  buffer := h.buffer
  complete := h.complete
  flight := by
    cases flight with
    | idle => trivial
    | requested cursor => exact hflight
    | answered page body =>
      obtain ⟨hbody, hpage⟩ := hflight
      exact ⟨hbody, ⟨hpage.ascends, hpage.committed, hpage.follows, hpage.cursor, hpage.complete⟩⟩

theorem follows_of_not_passed {items events : List EventRow} {e : EventRow} (hsub : items ⊆ events)
    (hid : ∀ e' ∈ events, e'.id ≠ e.id) (h : items.any (e.id < ·.id) = false) :
    Follows items e := by
  intro f hf
  have hle : ¬e.id < f.id := by
    simpa using List.any_eq_false.1 h f hf
  exact lt_of_le_of_ne (Nat.not_lt.1 hle) (hid f (hsub hf))

/-- A new event is late, or comes after what is followed and after a page that has been read. -/
theorem Live.Sound.commit (h : s.Sound U max) {e : EventRow} (hid : ∀ e' ∈ s.events, e'.id ≠ e.id) :
    (s.commit e).Sound U max := by
  have hlate : ∀ id ∈ s.late, id ∈ (s.commit e).late := by
    intro id hmem
    simp only [Live.commit]
    split
    · exact List.mem_append_left _ hmem
    · exact hmem
  have hnew : e.id ∈ (s.commit e).late ∨ s.passed e.id = false := by
    cases hpassed : s.passed e.id with
    | true => exact Or.inl (by simp [Live.commit, hpassed])
    | false => exact Or.inr rfl
  refine { keyed := ?_, ascends := h.ascends, committed := ?_, cursor := h.cursor,
           buffer := h.buffer, complete := ?_, flight := ?_ }
  · exact h.keyed.append hid
  · exact fun f hf => List.mem_append_left _ (h.committed hf)
  · intro d hd
    rcases List.mem_append.1 hd with hold | hsame
    · rcases h.complete d hold with hmem | hmem | hfollows
      · exact Or.inl hmem
      · exact Or.inr (Or.inl (hlate d.id hmem))
      · exact Or.inr (Or.inr hfollows)
    · rw [List.mem_singleton.1 hsame]
      rcases hnew with hmem | hpassed
      · exact Or.inr (Or.inl hmem)
      · simp only [Live.passed, Bool.or_eq_false_iff] at hpassed
        exact Or.inr (Or.inr (follows_of_not_passed h.committed hid hpassed.1))
  · have hsound := h.flight
    change s.flight.Sound U (s.commit e)
    cases hflight : s.flight with
    | idle => trivial
    | requested cursor =>
      rw [hflight] at hsound
      exact hsound
    | answered page body =>
      rw [hflight] at hsound
      obtain ⟨hbody, hpage⟩ := hsound
      refine ⟨hbody, hpage.ascends, fun f hf => List.mem_append_left _ (hpage.committed hf),
        hpage.follows, hpage.cursor, fun d hd hfollows => ?_⟩
      rcases List.mem_append.1 hd with hold | hsame
      · rcases hpage.complete d hold hfollows with hmem | hmem | hpast
        · exact Or.inl hmem
        · exact Or.inr (Or.inl (hlate d.id hmem))
        · exact Or.inr (Or.inr hpast)
      · rw [List.mem_singleton.1 hsame]
        rcases hnew with hmem | hpassed
        · exact Or.inr (Or.inl hmem)
        · simp only [Live.passed, hflight, Bool.or_eq_false_iff] at hpassed
          exact Or.inr (Or.inr (follows_of_not_passed hpage.committed hid hpassed.2))

theorem Live.Sound.step (h : s.Sound U max) (hs : LiveStep U max s () t) : t.Sound U max := by
  cases hs with
  | commit e hid => exact h.commit hid
  | request =>
    refine h.withFlight ?_
    rw [h.cursor]
    rfl
  | serve =>
    cases hflight : s.flight with
    | idle => simpa [Live.serve, hflight] using h
    | answered page body => simpa [Live.serve, hflight] using h
    | requested cursor =>
      obtain ⟨page, hserve, -, hpage⟩ := h.serve hflight
      rw [hserve]
      exact h.withFlight ⟨rfl, hpage⟩
  | receive =>
    cases hflight : s.flight with
    | idle => simpa [Live.receive, hflight] using h
    | requested cursor => simpa [Live.receive, hflight] using h
    | answered page body => exact h.received hflight
  | fail => exact h.withFlight trivial

theorem live_sound (h : (liveSystem U max).Reachable s) : s.Sound U max := by
  refine h.invariant (fun s hs => ?_) fun s l t ih hstep => ih.step hstep
  obtain ⟨hkeyed, hbuffer, hcursor, hflight, hfollowed, hlate⟩ := hs
  refine { keyed := hkeyed, ascends := ?_, committed := ?_, cursor := ?_, buffer := ?_,
           complete := ?_, flight := ?_ }
  · simp [hfollowed]
  · simp [hfollowed]
  · simp [hfollowed, hcursor, cursorOf]
  · simp [hfollowed, hbuffer]
  · exact fun e _ => Or.inr (Or.inr fun f hf => by simp [hfollowed] at hf)
  · rw [hflight]
    trivial

/-! ## Catching up -/

/-- A request that succeeds follows the first 25 pending events. -/
theorem Live.Sound.poll (h : s.Sound U max) :
    (s.poll U max).Sound U max ∧ (s.poll U max).events = s.events ∧
      (s.poll U max).followed = s.followed ++ s.pending.take 25 := by
  have hrequest : s.request.Sound U max := h.step .request
  obtain ⟨page, hserve, hitems, -⟩ := hrequest.serve rfl
  have hserved : (s.request.serve U).Sound U max := hrequest.step .serve
  have hflight : (s.request.serve U).flight = .answered page (streamBody U page) := by rw [hserve]
  refine ⟨hserved.step .receive, ?_, ?_⟩
  · rw [Live.poll, hserved.receive hflight, hserve]
    rfl
  · rw [Live.poll, hserved.receive hflight, hserve]
    change s.followed ++ page.items = _
    rw [hitems]
    rfl

/-- What is pending once some of it is followed. -/
theorem pending_poll (h : s.Sound U max) : (s.poll U max).pending = s.pending.drop 25 := by
  obtain ⟨hsound, hevents, hfollowed⟩ := h.poll
  have hsorted := pending_ascends h.keyed
  have hsorted' := pending_ascends hsound.keyed
  have hkeyed : ∀ {xs : List EventRow}, xs.Pairwise (·.id < ·.id) → Keyed (·.id) xs := fun hxs =>
    List.pairwise_map.2 (hxs.imp fun hlt => hlt.ne)
  have hdrop : (s.pending.drop 25).Pairwise (·.id < ·.id) := hsorted.sublist (List.drop_sublist _ _)
  have hmem : ∀ e, e ∈ (s.poll U max).pending ↔ e ∈ s.pending.drop 25 := by
    intro e
    rw [mem_pending hsound.ascends, hevents, hfollowed, follows_append]
    have hsplit : e ∈ s.pending ↔ e ∈ s.pending.take 25 ∨ e ∈ s.pending.drop 25 := by
      rw [← List.mem_append, List.take_append_drop]
    have hboth := hsorted
    rw [← List.take_append_drop 25 s.pending] at hboth
    obtain ⟨-, -, hacross⟩ := List.pairwise_append.1 hboth
    constructor
    · rintro ⟨he, hfollows, hpast⟩
      rcases hsplit.1 ((mem_pending h.ascends).2 ⟨he, hfollows⟩) with htake | hdrop
      · exact absurd (hpast e htake) (lt_irrefl _)
      · exact hdrop
    · intro he
      obtain ⟨hevent, hfollows⟩ := (mem_pending h.ascends).1 (hsplit.2 (Or.inr he))
      exact ⟨hevent, hfollows, fun f hf => hacross f hf e he⟩
  have hperm : (s.poll U max).pending.Perm (s.pending.drop 25) :=
    (List.perm_ext_iff_of_nodup (List.Nodup.of_map _ (hkeyed hsorted'))
      (List.Nodup.of_map _ (hkeyed hdrop))).2 hmem
  exact @eq_of_perm_of_keys _ EventRow.id _ _ hperm hsorted' hdrop

theorem iterate_poll (h : s.Sound U max) (k : ℕ) :
    ((Live.poll U max)^[k] s).followed = s.followed ++ s.pending.take (25 * k) := by
  induction k generalizing s with
  | zero => simp
  | succ k ih =>
    obtain ⟨hsound, -, hfollowed⟩ := h.poll
    rw [Function.iterate_succ_apply, ih hsound, hfollowed, pending_poll h, List.append_assoc,
      Nat.mul_succ, Nat.add_comm, List.take_add]

/-- The console has the newest of the events it has followed, each once and in the order of their
ids, and has missed none but those that were committed behind a page that had been read. Requests
that succeed follow what is pending, 25 events each. -/
theorem live_events (h : (liveSystem U max).Reachable s) : Followed U max s ∧
    ∀ k, ((Live.poll U max)^[k] s).followed = s.followed ++ s.pending.take (25 * k) :=
  ⟨(live_sound h).toFollowed, iterate_poll (live_sound h)⟩

/-! ## A console -/

/-- The hexadecimal digits of a uuid. -/
def uuidDigits (id : Uuid) : List ℕ :=
  (Nat.digits 16 id ++ List.replicate (32 - (Nat.digits 16 id).length) 0).reverse

/-- The canonical text of a uuid. -/
def uuidText (id : Uuid) : Utf16 :=
  let hex := (uuidDigits id).map hexDigit
  hex.take 8 ++ 45 :: ((hex.drop 8).take 4 ++ 45 :: ((hex.drop 12).take 4 ++ 45 ::
    ((hex.drop 16).take 4 ++ 45 :: hex.drop 20)))

theorem uuidDigits_lt {id : Uuid} {d : ℕ} (h : d ∈ uuidDigits id) : d < 16 := by
  rw [uuidDigits, List.mem_reverse, List.mem_append] at h
  rcases h with h | h
  · exact Nat.digits_lt_base (by decide) h
  · rw [(List.mem_replicate.1 h).2]
    decide

theorem ofDigits_uuidDigits (id : Uuid) : Nat.ofDigits 16 (uuidDigits id).reverse = id := by
  rw [uuidDigits, List.reverse_reverse, Nat.ofDigits_append, Nat.ofDigits_digits,
    Nat.ofDigits_replicate_zero, Nat.mul_zero, Nat.add_zero]

theorem filterMap_uuidText (id : Uuid) : (uuidText id).filterMap hexValue = uuidDigits id := by
  have hdash : hexValue 45 = none := by decide
  have hdigits : ∀ {ds : List ℕ}, (∀ d ∈ ds, d < 16) →
      (ds.map hexDigit).filterMap hexValue = ds := by
    intro ds hds
    induction ds with
    | nil => rfl
    | cons d ds ih =>
      rw [List.map_cons, List.filterMap_cons_some (hexValue_hexDigit d (hds d List.mem_cons_self)),
        ih fun e he => hds e (List.mem_cons_of_mem d he)]
  have hwhole : ((uuidDigits id).map hexDigit).filterMap hexValue = uuidDigits id :=
    hdigits fun d hd => uuidDigits_lt hd
  have hgroup : ∀ (hex : Utf16) (n : ℕ), (hex.drop n).take 4 ++ hex.drop (n + 4) = hex.drop n := by
    intro hex n
    rw [← List.drop_drop, List.take_append_drop]
  rw [← hwhole]
  simp only [uuidText, List.filterMap_append, List.filterMap_cons_none hdash]
  simp only [← List.filterMap_append]
  rw [hgroup _ 16, hgroup _ 12, hgroup _ 8, List.take_append_drop]

/-- The texts of uuids. -/
def uuidTexts : UuidTexts where
  text := uuidText
  read text := some (Nat.ofDigits 16 (text.filterMap hexValue).reverse)
  read_text id := by rw [filterMap_uuidText, ofDigits_uuidDigits]
  text_ne_nil id := by simp [uuidText]

/-- An event of a region, with another one for its cause. -/
def sampleEvent (id : Uuid) (cause : Option Uuid) : EventRow where
  id
  regionId := 7
  eventType := ascii "output.published"
  streamKey := ascii "region:7"
  sequenceNumber := ascii "1"
  correlationId := ascii "c"
  sourceKind := ascii "event"
  sourceCommandId := none
  sourceEventId := cause
  sourceExecutionId := none
  sourceAttemptId := none
  sourceComponentInstanceId := none
  sourcePortName := some (ascii "out")
  createdAt := ascii "2026-01-01T00:00:00.000Z"

/-- An event whose stream has an empty line in its name. -/
def linesEvent : EventRow :=
  { sampleEvent 5 none with streamKey := ascii "a\n\nb" }

theorem stream_read_back_lines :
    listEvents uuidTexts none 25 [linesEvent] = .ok ⟨[linesEvent], none⟩ ∧
    ∃ batch, parseSseBatch (streamBody uuidTexts ⟨[linesEvent], none⟩) = some batch ∧
      batch.events = [linesEvent.event uuidTexts] ∧
      afterId uuidTexts (queryText batch.cursor) = .ok (some 5) := by
  have hlist : listEvents uuidTexts none 25 [linesEvent] = .ok ⟨[linesEvent], none⟩ := rfl
  exact ⟨hlist, stream_read_back hlist⟩

/-- A console that is opened on one event. -/
def openedConsole : Live :=
  { events := [sampleEvent 5 none], buffer := [], cursor := .null, flight := .idle, followed := [],
    late := [] }

/-- An event commits behind the page the console is about to read, and one after it. -/
def lateConsole : Live :=
  (((openedConsole.request.serve uuidTexts).commit (sampleEvent 3 none)).commit
    (sampleEvent 8 (some 5))).receive 50

theorem live_events_late : Followed uuidTexts 50 lateConsole ∧
    ∀ k, ((Live.poll uuidTexts 50)^[k] lateConsole).followed =
      lateConsole.followed ++ lateConsole.pending.take (25 * k) := by
  have hopened : (liveSystem uuidTexts 50).Reachable openedConsole :=
    .start ⟨List.nodup_singleton _, rfl, rfl, rfl, rfl, rfl⟩
  have hserved : (liveSystem uuidTexts 50).Reachable (openedConsole.request.serve uuidTexts) :=
    (hopened.next .request).next .serve
  have hevents : (openedConsole.request.serve uuidTexts).events = [sampleEvent 5 none] := rfl
  refine live_events (((hserved.next (.commit _ ?_)).next (.commit _ ?_)).next .receive)
  · rw [hevents]
    decide
  · change ∀ e ∈ [sampleEvent 5 none] ++ [sampleEvent 3 none], _
    decide

end LiveEvents

end FactoryFloor
