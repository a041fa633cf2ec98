import FactoryFloor.Base64
import FactoryFloor.TextFrames
import FactoryFloor.Values

/-!
# Batches of events

The inspection stream answers with one batch of server-sent events and ends. `streamBody` is what
the route writes, `parseSseBatch` what the console reads. What is read is the page that was written,
and the cursor to go on from (`parseSseBatch_streamBody`). A cursor is opaque to the console. The
service reads it back as the id it was made from (`decodeInspectionCursor_encode`).

Text is a list of UTF-16 code units. A batch is read as it was written, since what is encoded as
UTF-8 is decoded to the same text.
-/

namespace FactoryFloor

namespace LiveEvents

open JsonText

/-! ## Cursors -/

theorem one_normal : 2 ^ 52 ≤ 2 ^ 52 ∨ (-52 : ℤ) = -1074 :=
  Or.inl le_rfl

/-- The number `1`. -/
def one : Doubles.FiniteDouble :=
  { negative := false, magnitude := ⟨2 ^ 52, -52, by decide, by decide, by decide, one_normal⟩ }

/-- `value === 1`. -/
def isOne : JsValue → Bool
  | .num (.finite x) => x = one
  | _ => false

/-- `encodeInspectionCursor`. -/
def encodeInspectionCursor (id : Utf16) : Utf16 :=
  toBase64url (encodeText (stringify (.obj
    [(ascii "v", .num (.finite one)), (ascii "afterId", .str id)])))

/-- Why an inspection fails. -/
inductive InspectionError where
  | invalidCursor
  | invalidLimit
  /-- The database refuses a text as a uuid. -/
  | invalidUuid
deriving DecidableEq, Repr

/-- `decodeInspectionCursor`, of a cursor that is there. -/
def decodeInspectionCursor (cursor : Utf16) : Except InspectionError Utf16 :=
  match jsonParse (decodeText (fromBase64 cursor)) with
  | some (.obj members) =>
    match members.lookup (ascii "v"), members.lookup (ascii "afterId") with
    | some v, some (.str afterId) => if isOne v then .ok afterId else .error .invalidCursor
    | _, _ => .error .invalidCursor
  | _ => .error .invalidCursor

/-! ## Events -/

/-- The text of uuids, and the uuid the database reads in a text. -/
structure UuidTexts where
  text : Uuid → Utf16
  read : Utf16 → Option Uuid
  read_text : ∀ id, read (text id) = some id
  text_ne_nil : ∀ id, text id ≠ []

/-- The columns of `events` that `listEvents` selects. A `bigint` and a time are their texts. -/
structure EventRow where
  id : Uuid
  regionId : Uuid
  eventType : Utf16
  streamKey : Utf16
  sequenceNumber : Utf16
  correlationId : Utf16
  sourceKind : Utf16
  sourceCommandId : Option Uuid
  sourceEventId : Option Uuid
  sourceExecutionId : Option Uuid
  sourceAttemptId : Option Uuid
  sourceComponentInstanceId : Option Uuid
  sourcePortName : Option Utf16
  createdAt : Utf16
deriving DecidableEq

/-- A column that may be null. -/
def nullable (text : Option Utf16) : JsValue :=
  (text.map JsValue.str).getD .null

section Server

variable (U : UuidTexts)

/-- The members of a row. -/
def EventRow.members (e : EventRow) : List (Utf16 × JsValue) :=
  [(ascii "id", .str (U.text e.id)), (ascii "region_id", .str (U.text e.regionId)),
    (ascii "event_type", .str e.eventType), (ascii "stream_key", .str e.streamKey),
    (ascii "sequence_number", .str e.sequenceNumber),
    (ascii "correlation_id", .str e.correlationId), (ascii "source_kind", .str e.sourceKind),
    (ascii "source_command_id", nullable (e.sourceCommandId.map U.text)),
    (ascii "source_event_id", nullable (e.sourceEventId.map U.text)),
    (ascii "source_execution_id", nullable (e.sourceExecutionId.map U.text)),
    (ascii "source_attempt_id", nullable (e.sourceAttemptId.map U.text)),
    (ascii "source_component_instance_id", nullable (e.sourceComponentInstanceId.map U.text)),
    (ascii "source_port_name", nullable e.sourcePortName),
    (ascii "created_at", .str e.createdAt)]

/-- `Page`. -/
structure EventPage where
  items : List EventRow
  nextCursor : Option Utf16

/-- `normalizeLimit`. -/
def normalizeLimit (limit : ℤ) : Except InspectionError ℕ :=
  if 1 ≤ limit ∧ limit ≤ 100 then .ok limit.toNat else .error .invalidLimit

/-- The id to go on from. Neither an empty cursor nor an empty id is one. -/
def afterId (cursor : Option Utf16) : Except InspectionError (Option Uuid) :=
  match cursor with
  | none | some [] => .ok none
  | some cursor => do
    let id ← decodeInspectionCursor cursor
    if id = [] then return none
    else match U.read id with
      | some id => return some id
      | none => .error .invalidUuid

/-- `listEvents`, by `page`. -/
def listEvents (cursor : Option Utf16) (limit : ℤ) (events : List EventRow) :
    Except InspectionError EventPage := do
  let limit ← normalizeLimit limit
  let after ← afterId U cursor
  let rows := ((events.insertionSort (·.id ≤ ·.id)).filter fun e => after.all (· < e.id)).take
    (limit + 1)
  let items := rows.take limit
  return {
    items
    nextCursor := if limit < rows.length then
        items.getLast?.map fun e => encodeInspectionCursor (U.text e.id)
      else none }

/-- The lines that are written for an event, and the empty line after them. -/
def eventFrame (e : EventRow) : Utf16 :=
  ascii "id: " ++ encodeInspectionCursor (U.text e.id) ++
    (10 :: ascii "event: runtime-summary") ++
    (10 :: (ascii "data: " ++ stringify (.obj (e.members U)))) ++ [10, 10]

/-- The body of `/api/v1/inspect/stream`. -/
def streamBody (page : EventPage) : Utf16 :=
  ascii ": inspection batch" ++ [10, 10] ++ page.items.flatMap (eventFrame U) ++
    (ascii "event: checkpoint" ++
      10 :: (ascii "data: " ++ stringify (.obj [(ascii "nextCursor", nullable page.nextCursor)])) ++
      [10, 10])

end Server

/-! ## Reading a batch -/

/-- `RuntimeEvent`. Its `id` is beside the members. -/
structure RuntimeEvent where
  id : Option JsValue
  members : List (Utf16 × JsValue)

/-- The white space of `trim`. -/
def isBlankUnit (c : CodeUnit) : Bool :=
  isTrimmed (Char.ofNat c.val)

/-- `trimStart`. -/
def trimStart (text : Utf16) : Utf16 :=
  text.dropWhile isBlankUnit

/-- `trim`. -/
def trim (text : Utf16) : Utf16 :=
  (trimStart text).rdropWhile isBlankUnit

/-- `lines.find((line) => line.startsWith(name))?.slice(name.length).trim()`. -/
def field (name : Utf16) (lines : List Utf16) : Option Utf16 :=
  (lines.find? fun line => name <+: line).map fun line => trim (line.drop name.length)

/-- The data of a frame. -/
def frameData (lines : List Utf16) : Utf16 :=
  [(10 : CodeUnit)].intercalate <|
    (lines.filter fun line => ascii "data:" <+: line).map fun line => trimStart (line.drop 5)

/-- What is read so far. -/
structure Batch where
  events : List RuntimeEvent
  cursor : JsValue

/-- `left ?? right`. -/
def orElse (left : Option JsValue) (right : JsValue) : JsValue :=
  match left with
  | none | some .null => right
  | some value => value

/-- `'nextCursor' in parsed`, which fails for what is not an object. -/
def hasNextCursor : JsValue → Option Bool
  | .obj members => some (members.any (·.1 = ascii "nextCursor"))
  | .arr _ => some false
  | _ => none

/-- `parsed.key`, which fails for `null`. -/
def readMember (key : Utf16) : JsValue → Option (Option JsValue)
  | .null => none
  | .obj members => some (members.lookup key)
  | _ => some none

/-- The members of `{ ...parsed }`. -/
def spread : JsValue → List (Utf16 × JsValue)
  | .obj members => members
  | .arr items => items.zipIdx.map fun (item, i) => (digitText (digitsOf i), item)
  | _ => []

/-- Whether a frame is a checkpoint. -/
def isCheckpoint (eventType : Option Utf16) (parsed : JsValue) : Option Bool :=
  if eventType = some (ascii "checkpoint") then some true else hasNextCursor parsed

/-- `if (id) cursor = id`. -/
def withId (id : Option Utf16) (cursor : JsValue) : JsValue :=
  match id with
  | none | some [] => cursor
  | some id => .str id

/-- `parsed.id ?? id`. -/
def ownId (own : Option JsValue) (id : Option Utf16) : Option JsValue :=
  match own with
  | none | some .null => id.map JsValue.str
  | some value => some value

/-- `!frame.trim() || frame.startsWith(':')`. -/
def isSkipped (frame : Utf16) : Bool :=
  trim frame = [] || frame.head? = some 58

/-- The lines of a frame. It fails where the loop throws. -/
def parseLines (batch : Batch) (lines : List Utf16) : Option Batch :=
  if frameData lines = [] then
    some { batch with cursor := withId (field (ascii "id:") lines) batch.cursor }
  else do
    let parsed ← jsonParse (frameData lines)
    if ← isCheckpoint (field (ascii "event:") lines) parsed then
      let next ← readMember (ascii "nextCursor") parsed
      return { batch with
        cursor := orElse next (withId (field (ascii "id:") lines) batch.cursor) }
    else
      let own ← readMember (ascii "id") parsed
      return {
        events := batch.events ++
          [{ id := ownId own (field (ascii "id:") lines), members := spread parsed }]
        cursor := withId (field (ascii "id:") lines) batch.cursor }

/-- One frame of a batch. -/
def parseFrame (batch : Batch) (frame : Utf16) : Option Batch :=
  if isSkipped frame then some batch else parseLines batch (Separators.splitEvery 10 frame)

/-- `parseSseBatch`. -/
def parseSseBatch (text : Utf16) : Option Batch :=
  (splitFrames (replaceLineEnds text)).foldlM parseFrame { events := [], cursor := .null }

/-! ## The buffer -/

/-- `String(event.id ?? '')`. -/
def eventId (e : RuntimeEvent) : Utf16 :=
  match e.id with
  | none | some .null => []
  | some (.str s) => s
  | some value => stringify value

/-- The loop of `appendDeduped`, with the ids that have been seen. -/
def mergeEvents : List RuntimeEvent → List Utf16 → List RuntimeEvent → List RuntimeEvent
  | [], _, merged => merged
  | e :: incoming, seen, merged =>
    if eventId e ≠ [] ∧ eventId e ∈ seen then mergeEvents incoming seen merged
    else mergeEvents incoming (eventId e :: seen) (e :: merged)

/-- `appendDeduped`. -/
def appendDeduped (buffer incoming : List RuntimeEvent) (max : ℕ) : List RuntimeEvent :=
  (mergeEvents incoming (buffer.map eventId) buffer).take (Nat.max 1 max)

/-! ## Values that are read as they were written -/

/-- Keys that are no array indices stay in their order. -/
theorem defineMembers_self {members : List (Utf16 × JsValue)} (h : (members.map Prod.fst).Nodup)
    (hindex : ∀ m ∈ members, arrayIndex m.1 = none) : defineMembers members = members := by
  have hinsert : ∀ (m : Utf16 × JsValue) (done : List (Utf16 × JsValue)), arrayIndex m.1 = none →
      insertMember m.1 m.2 done = done ++ [m] := by
    intro m done hm
    induction done with
    | nil => rfl
    | cons d done ih => simp [insertMember, enumeratedBefore, hm, ih]
  suffices hgo : ∀ rest done : List (Utf16 × JsValue), ((done ++ rest).map Prod.fst).Nodup →
      (∀ m ∈ rest, arrayIndex m.1 = none) → rest.foldl setMember done = done ++ rest from
    hgo members [] h hindex
  intro rest
  induction rest with
  | nil => simp
  | cons m rest ih =>
    intro done hnodup hrest
    have hnew : m.1 ∉ done.map Prod.fst := by
      rw [List.map_append, List.nodup_append] at hnodup
      exact fun hmem => hnodup.2.2 _ hmem _ (by simp) rfl
    rw [List.foldl_cons, setMember, if_neg hnew, hinsert m done (hrest m List.mem_cons_self),
      ih _ (by simpa using hnodup) fun n hn => hrest n (List.mem_cons_of_mem m hn)]
    simp

/-- An object of strings and nulls, with names for keys. -/
structure Flat (members : List (Utf16 × JsValue)) : Prop where
  keys : (members.map Prod.fst).Nodup
  names : ∀ m ∈ members, arrayIndex m.1 = none
  values : ∀ m ∈ members, m.2 = .null ∨ ∃ s, m.2 = .str s

theorem jsonParse_stringify {members : List (Utf16 × JsValue)} (h : Flat members) :
    jsonParse (stringify (.obj members)) = some (.obj members) := by
  have hvalues : ofMembers (toMembers members) = members := by
    rw [toMembers_eq, ofMembers_eq, List.map_map]
    refine (List.map_congr_left fun m hm => ?_).trans (List.map_id members)
    obtain ⟨key, value⟩ := m
    rcases h.values _ hm with hvalue | ⟨s, hvalue⟩ <;>
      · subst hvalue
        rfl
  rw [jsonParse, stringify, parse_render (toTree_valid _), Option.map_some, toTree, ofTree, hvalues,
    defineMembers_self h.keys h.names]

theorem nullable_flat (text : Option Utf16) :
    nullable text = .null ∨ ∃ s, nullable text = .str s := by
  cases text with
  | none => exact Or.inl rfl
  | some s => exact Or.inr ⟨s, rfl⟩

theorem EventRow.flat (U : UuidTexts) (e : EventRow) : Flat (e.members U) where
  keys := by
    have hkeys : (e.members U).map Prod.fst =
        ["id", "region_id", "event_type", "stream_key", "sequence_number", "correlation_id",
          "source_kind", "source_command_id", "source_event_id", "source_execution_id",
          "source_attempt_id", "source_component_instance_id", "source_port_name",
          "created_at"].map ascii := rfl
    rw [hkeys]
    decide
  names := by
    have hnames : ∀ key ∈ (e.members U).map Prod.fst, arrayIndex key = none := by
      simp only [members, List.map_cons, List.map_nil, List.forall_mem_cons, List.not_mem_nil,
        false_implies, implies_true, and_true]
      decide
    exact fun m hm => hnames m.1 (List.mem_map_of_mem hm)
  values := by
    simp only [members, List.forall_mem_cons, List.not_mem_nil, false_implies, implies_true,
      JsValue.str.injEq, exists_eq', or_true, nullable_flat, and_self]

theorem checkpoint_flat (next : Option Utf16) : Flat [(ascii "nextCursor", nullable next)] where
  keys := List.nodup_singleton _
  names := by
    simp only [List.forall_mem_cons, List.not_mem_nil, false_implies, implies_true, and_true]
    decide
  values := by simp [nullable_flat]

/-! ## Cursors are read back -/

theorem isOne_numberOf : isOne (.num (numberOf (numberToString one))) = true := by
  obtain ⟨y, hy, hsame⟩ := numberOf_numberToString one
  rw [hy]
  rcases hsame with rfl | ⟨-, hzero⟩
  · simp [isOne]
  · exact absurd hzero (by decide)

/-- A cursor is read as the id it was made from. -/
theorem decodeInspectionCursor_encode (id : Utf16) :
    decodeInspectionCursor (encodeInspectionCursor id) = .ok id := by
  set value : JsValue :=
    .obj [(ascii "v", .num (.finite one)), (ascii "afterId", .str id)] with hvalue
  have htext : decodeText (fromBase64 (encodeInspectionCursor id)) = stringify value := by
    rw [encodeInspectionCursor, fromBase64_toBase64url]
    exact decodeText_encodeText (wellFormed_render (toTree_valid _))
  have hkeys : defineMembers [(ascii "v", JsValue.num (numberOf (numberToString one))),
      (ascii "afterId", .str id)] =
        [(ascii "v", .num (numberOf (numberToString one))), (ascii "afterId", .str id)] := by
    refine defineMembers_self ?_ ?_
    · simp only [List.map_cons, List.map_nil]
      decide
    · simp only [List.forall_mem_cons, List.not_mem_nil, false_implies, implies_true, and_true]
      decide
  have hparse : jsonParse (stringify value) = some (.obj
      [(ascii "v", .num (numberOf (numberToString one))), (ascii "afterId", .str id)]) := by
    rw [jsonParse, stringify, parse_render (toTree_valid _), Option.map_some, ← hkeys]
    rfl
  have hv : List.lookup (ascii "v") [(ascii "v", JsValue.num (numberOf (numberToString one))),
      (ascii "afterId", .str id)] = some (.num (numberOf (numberToString one))) := rfl
  have hid : List.lookup (ascii "afterId")
      [(ascii "v", JsValue.num (numberOf (numberToString one))), (ascii "afterId", .str id)] =
        some (.str id) := rfl
  rw [decodeInspectionCursor, htext, hparse]
  simp only [hv, hid, isOne_numberOf, if_true]

theorem encodeInspectionCursor_ne_nil (id : Utf16) : encodeInspectionCursor id ≠ [] := by
  intro hnil
  have hround := decodeInspectionCursor_encode id
  rw [hnil] at hround
  have hempty : decodeInspectionCursor [] = .error .invalidCursor := by rfl
  rw [hempty] at hround
  cases hround

/-! ## Batches are read as they were written -/

theorem trimStart_cons {c : CodeUnit} {text : Utf16} (h : isBlankUnit c = false) :
    trimStart (c :: text) = c :: text := by
  simp [trimStart, h]

theorem trim_cons_ne_nil {c : CodeUnit} {text : Utf16} (h : isBlankUnit c = false) :
    trim (c :: text) ≠ [] := by
  rw [trim, trimStart_cons h, Ne, List.rdropWhile_eq_nil_iff]
  intro hall
  rw [hall c List.mem_cons_self] at h
  cases h

/-- The blank after the name of a field is trimmed. -/
theorem trim_space {text : Utf16} (h : ∀ c ∈ text, isBlankUnit c = false) :
    trim (32 :: text) = text := by
  have hstart : trimStart (32 :: text) = text := by
    have hspace : isBlankUnit 32 = true := by decide
    cases text with
    | nil => simp [trimStart, hspace]
    | cons c text => simp [trimStart, hspace, h c List.mem_cons_self]
  rw [trim, hstart, List.rdropWhile_eq_self_iff]
  intro hne hblank
  rw [h _ (List.getLast_mem hne)] at hblank
  cases hblank

theorem isBlankUnit_base64 {c : CodeUnit} (h : (base64Value c).isSome) : isBlankUnit c = false := by
  obtain ⟨d, hd⟩ := Option.isSome_iff_exists.1 h
  have hrange : 43 ≤ c.val ∧ c.val ≤ 122 := by
    unfold base64Value at hd
    split_ifs at hd <;> omega
  have hvalid : c.val.isValidChar := Or.inl (by omega)
  have hchar := toNat_scalar hvalid
  rw [scalar, if_pos hvalid] at hchar
  simp only [isBlankUnit, isTrimmed, hchar, List.mem_cons, List.not_mem_nil, or_false,
    decide_eq_false_iff_not]
  omega

section Read

variable (U : UuidTexts)

/-- The cursor of an event. -/
def EventRow.cursor (e : EventRow) : Utf16 :=
  encodeInspectionCursor (U.text e.id)

/-- An event, as the console has it. -/
def EventRow.event (e : EventRow) : RuntimeEvent :=
  { id := some (.str (U.text e.id)), members := e.members U }

/-- The lines of an event. -/
def eventLines (e : EventRow) : List Utf16 :=
  [ascii "id: " ++ e.cursor U, ascii "event: runtime-summary",
    ascii "data: " ++ stringify (.obj (e.members U))]

/-- The lines of a checkpoint. -/
def checkpointLines (next : Option Utf16) : List Utf16 :=
  [ascii "event: checkpoint",
    ascii "data: " ++ stringify (.obj [(ascii "nextCursor", nullable next)])]

theorem line_append {name : Utf16} {text : Utf16}
    (hname : name.all (fun c => decide (32 ≤ c.val)) = true) (hne : name ≠ [])
    (h : Printable text) : Line (name ++ text) :=
  ⟨(printable_of_all hname).append h, by simp [hne]⟩

theorem eventLines_line (e : EventRow) : ∀ line ∈ eventLines U e, Line line := by
  simp only [eventLines, List.forall_mem_cons, List.not_mem_nil, false_implies, implies_true,
    and_true]
  refine ⟨line_append rfl (by decide) (printable_toBase64url _),
    ⟨printable_of_all rfl, by decide⟩, line_append rfl (by decide) (printable_stringify _)⟩

theorem checkpointLines_line (next : Option Utf16) : ∀ line ∈ checkpointLines next, Line line := by
  simp only [checkpointLines, List.forall_mem_cons, List.not_mem_nil, false_implies, implies_true,
    and_true]
  exact ⟨⟨printable_of_all rfl, by decide⟩, line_append rfl (by decide) (printable_stringify _)⟩

theorem eventFrame_eq (e : EventRow) : eventFrame U e = joinLines (eventLines U e) ++ [10, 10] := by
  simp [eventFrame, eventLines, joinLines, List.intercalate, EventRow.cursor]

theorem streamBody_eq (page : EventPage) :
    streamBody U page = joinLines [ascii ": inspection batch"] ++ 10 :: 10 ::
      (page.items.flatMap (eventFrame U) ++ (joinLines (checkpointLines page.nextCursor) ++
        10 :: 10 :: [])) := by
  simp [streamBody, checkpointLines, joinLines, List.intercalate]

theorem splitFrames_events (items : List EventRow) (rest : Utf16) :
    splitFrames (items.flatMap (eventFrame U) ++ rest) =
      items.map (fun e => joinLines (eventLines U e)) ++ splitFrames rest := by
  induction items with
  | nil => rfl
  | cons e items ih =>
    rw [List.flatMap_cons, eventFrame_eq, List.map_cons, List.cons_append, ← ih, List.append_assoc,
      List.append_assoc]
    exact splitFrames_frame (List.cons_ne_nil _ _) (eventLines_line U e) _

theorem field_id (e : EventRow) : field (ascii "id:") (eventLines U e) = some (e.cursor U) := by
  have hfield : field (ascii "id:") (eventLines U e) = some (trim (32 :: e.cursor U)) := rfl
  have htrim : trim (32 :: e.cursor U) = e.cursor U :=
    trim_space fun c hc => isBlankUnit_base64 (base64Value_of_mem hc)
  rw [hfield, htrim]

theorem field_event (e : EventRow) :
    field (ascii "event:") (eventLines U e) = some (ascii "runtime-summary") := by
  rfl

theorem stringify_obj (members : List (Utf16 × JsValue)) :
    ∃ text, stringify (.obj members) = 123 :: text := by
  cases members with
  | nil => exact ⟨[125], rfl⟩
  | cons m members => exact ⟨_, rfl⟩

theorem frameData_json {lines : List Utf16} {members : List (Utf16 × JsValue)}
    (h : lines.filter (fun line => ascii "data:" <+: line) =
      [ascii "data: " ++ stringify (.obj members)]) :
    frameData lines = stringify (.obj members) := by
  obtain ⟨text, htext⟩ := stringify_obj members
  have hdrop : (ascii "data: " ++ stringify (.obj members)).drop 5 =
      32 :: stringify (.obj members) := rfl
  have htrim : trimStart (32 :: 123 :: text) = 123 :: text := by
    have hspace : isBlankUnit 32 = true := by decide
    have hbrace : isBlankUnit 123 = false := by decide
    simp [trimStart, hspace, hbrace]
  rw [frameData, h, List.map_singleton, hdrop, htext, htrim, ← joinLines, joinLines_singleton]

theorem isSkipped_cons {c : CodeUnit} {text : Utf16} (hblank : isBlankUnit c = false)
    (hcolon : c ≠ 58) : isSkipped (c :: text) = false := by
  simp [isSkipped, trim_cons_ne_nil hblank, hcolon]

theorem stringify_obj_ne_nil (members : List (Utf16 × JsValue)) :
    stringify (.obj members) ≠ [] := by
  obtain ⟨text, htext⟩ := stringify_obj members
  rw [htext]
  exact List.cons_ne_nil _ _

theorem withId_cursor (e : EventRow) (cursor : JsValue) :
    withId (some (e.cursor U)) cursor = .str (e.cursor U) := by
  cases hc : e.cursor U with
  | nil => exact absurd hc (encodeInspectionCursor_ne_nil _)
  | cons c rest => rfl

theorem parseFrame_event (batch : Batch) (e : EventRow) :
    parseFrame batch (joinLines (eventLines U e)) =
      some { events := batch.events ++ [e.event U], cursor := .str (e.cursor U) } := by
  obtain ⟨text, htext⟩ : ∃ text, joinLines (eventLines U e) = 105 :: text := ⟨_, rfl⟩
  have hskip : isSkipped (joinLines (eventLines U e)) = false := by
    rw [htext]
    exact isSkipped_cons (by decide) (by decide)
  have hlines : Separators.splitEvery 10 (joinLines (eventLines U e)) = eventLines U e :=
    splitEvery_joinLines (List.cons_ne_nil _ _) (eventLines_line U e)
  have hdata : frameData (eventLines U e) = stringify (.obj (e.members U)) := frameData_json rfl
  rw [parseFrame, hskip, hlines, if_neg Bool.false_ne_true, parseLines, hdata,
    if_neg (stringify_obj_ne_nil _), jsonParse_stringify (e.flat U), field_id, field_event,
    withId_cursor]
  rfl

theorem parseFrame_checkpoint (batch : Batch) (next : Option Utf16) :
    parseFrame batch (joinLines (checkpointLines next)) =
      some { batch with cursor := orElse (some (nullable next)) batch.cursor } := by
  obtain ⟨text, htext⟩ : ∃ text, joinLines (checkpointLines next) = 101 :: text := ⟨_, rfl⟩
  have hskip : isSkipped (joinLines (checkpointLines next)) = false := by
    rw [htext]
    exact isSkipped_cons (by decide) (by decide)
  have hlines :
      Separators.splitEvery 10 (joinLines (checkpointLines next)) = checkpointLines next :=
    splitEvery_joinLines (List.cons_ne_nil _ _) (checkpointLines_line next)
  have hdata : frameData (checkpointLines next) =
      stringify (.obj [(ascii "nextCursor", nullable next)]) := frameData_json rfl
  have hid : field (ascii "id:") (checkpointLines next) = none := rfl
  have hevent : field (ascii "event:") (checkpointLines next) = some (ascii "checkpoint") := rfl
  rw [parseFrame, hskip, hlines, if_neg Bool.false_ne_true, parseLines, hdata,
    if_neg (stringify_obj_ne_nil _), jsonParse_stringify (checkpoint_flat next), hid, hevent]
  rfl

/-- The only control characters of a batch are its ends of lines. -/
theorem streamBody_notMem_cr (page : EventPage) : (13 : CodeUnit) ∉ streamBody U page := by
  have hprintable : ∀ {text : Utf16}, Printable text → (13 : CodeUnit) ∉ text := fun h hmem =>
    absurd (h 13 hmem) (by decide)
  have hframe : ∀ e, (13 : CodeUnit) ∉ eventFrame U e := by
    intro e
    have hcursor : (13 : CodeUnit) ∉ encodeInspectionCursor (U.text e.id) :=
      hprintable (printable_toBase64url _)
    have hjson := hprintable (printable_stringify (.obj (e.members U)))
    simp only [eventFrame, List.mem_append, List.mem_cons, not_or]
    exact ⟨⟨⟨⟨by decide, hcursor⟩, by decide, by decide⟩, by decide, by decide, hjson⟩, by decide⟩
  have hjson := hprintable
    (printable_stringify (.obj [(ascii "nextCursor", nullable page.nextCursor)]))
  simp only [streamBody, List.mem_append, List.mem_flatMap, List.mem_cons, not_or, not_exists,
    not_and]
  exact ⟨⟨⟨by decide, by decide, by decide, by decide⟩, fun e _ => hframe e⟩,
    ⟨by decide, by decide, by decide, hjson⟩, by decide, by decide, by decide⟩

/-- The cursor that a page leaves. -/
def EventPage.cursor (page : EventPage) : JsValue :=
  orElse (some (nullable page.nextCursor))
    ((page.items.getLast?.map fun e => JsValue.str (e.cursor U)).getD .null)

theorem foldlM_events (items : List EventRow) (batch : Batch) :
    (items.map fun e => joinLines (eventLines U e)).foldlM parseFrame batch =
      some { events := batch.events ++ items.map (EventRow.event U)
             cursor :=
              (items.getLast?.map fun e => JsValue.str (e.cursor U)).getD batch.cursor } := by
  induction items generalizing batch with
  | nil => simp
  | cons e items ih =>
    rw [List.map_cons, List.foldlM_cons, parseFrame_event, Option.bind_eq_bind, Option.bind_some,
      ih]
    cases items with
    | nil => simp
    | cons e' items =>
      have hlast := List.getLast?_eq_some_getLast (List.cons_ne_nil e' items)
      simp [List.getLast?_cons_cons, hlast]

/-- The console reads the page that was written, and the cursor to go on from. -/
theorem parseSseBatch_streamBody (page : EventPage) :
    parseSseBatch (streamBody U page) =
      some { events := page.items.map (EventRow.event U), cursor := page.cursor U } := by
  have hcomment : ∀ line ∈ [ascii ": inspection batch"], Line line := by
    simp only [List.forall_mem_cons, List.not_mem_nil, false_implies, implies_true, and_true]
    exact ⟨printable_of_all rfl, by decide⟩
  have hframes : splitFrames (streamBody U page) = joinLines [ascii ": inspection batch"] ::
      (page.items.map (fun e => joinLines (eventLines U e)) ++
        [joinLines (checkpointLines page.nextCursor), []]) := by
    have hlast : splitFrames (joinLines (checkpointLines page.nextCursor) ++ 10 :: 10 :: []) =
        [joinLines (checkpointLines page.nextCursor), []] :=
      splitFrames_frame (List.cons_ne_nil _ _) (checkpointLines_line _) []
    rw [streamBody_eq, splitFrames_frame (List.cons_ne_nil _ _) hcomment, splitFrames_events, hlast]
  have hskip : ∀ batch, parseFrame batch (joinLines [ascii ": inspection batch"]) = some batch :=
    fun _ => rfl
  have hempty : ∀ batch, parseFrame batch [] = some batch := fun _ => rfl
  rw [parseSseBatch, replaceLineEnds_eq (streamBody_notMem_cr U page), hframes, List.foldlM_cons,
    hskip, Option.bind_eq_bind, Option.bind_some, List.foldlM_append, foldlM_events,
    Option.bind_eq_bind, Option.bind_some, List.foldlM_cons, parseFrame_checkpoint,
    Option.bind_eq_bind, Option.bind_some, List.foldlM_cons, hempty]
  rfl

end Read

end LiveEvents

end FactoryFloor
