import FactoryFloor.Declarations
import FactoryFloor.Transition
import Mathlib.Data.List.Infix

/-!
# Registering definitions

`RegistrationService` and the `DefinitionRepository` it writes with, for any number of calls at
once. A call awaits the database between two of its steps, so that other calls run between looking
up the schemas of its ports, looking for an earlier registration, inserting, and looking again after
a unique violation. Any of these may fail, and an insert that is made may still be answered by an
error (`Step.lost`, `Step.lostAfter`).

`atOnce` is a registration made without interruption. `registers_once` says that every run answers
as some order of those would (`atomicRegistry`), and what follows for the tables and the answers :
one row for each name and version, with the ports its document declares, that never changes, and one
answer for each document.

Rows are without timestamps, and port rows without ids. Rows are not retired here.
-/

namespace FactoryFloor

open Relational Transition

namespace Declarations

/-! ## Tables -/

/-- A row of `artifact_schemas`, `component_definitions`, `templates` or `policies`. `content` is
its `jsonb` column. -/
structure DefinitionRow where
  id : Uuid
  name : String
  version : String
  contentDigest : Digest
  content : Json

instance : Row DefinitionRow where
  violation _ := none
  uniques := [("pkey", fun r s => r.id = s.id),
    ("name_version_key", fun r s => r.name = s.name && r.version = s.version),
    ("name_content_digest_key", fun r s => r.name = s.name && r.contentDigest = s.contentDigest)]

instance : Row PortDefinition where
  violation _ := none
  uniques := [("component_definition_id_name_direction_key", fun p q =>
    p.componentDefinitionId = q.componentDefinitionId && p.name = q.name &&
      p.direction = q.direction)]

/-- The tables of definitions, by kind, and `port_definitions`. -/
structure Tables where
  rows : RegKind → List DefinitionRow
  ports : List PortDefinition

/-- The four `find…` of `DefinitionRepository`, by name and version. -/
def Tables.find? (t : Tables) (kind : RegKind) (name version : String) : Option DefinitionRow :=
  (t.rows kind).find? fun r => r.name = name && r.version = version

/-- A port with the schema it refers to. -/
structure PortInput where
  name : String
  direction : PortDirection
  schemaId : Uuid
  required : Bool
deriving DecidableEq, Repr

def PortInput.row (componentDefinitionId : Uuid) (p : PortInput) : PortDefinition :=
  { componentDefinitionId, name := p.name, direction := p.direction, schemaId := p.schemaId,
    required := p.required }

/-- The inserts into `port_definitions` of `createComponentDefinition`. -/
def createPorts (schemas : List DefinitionRow) (componentDefinitionId : Uuid) :
    List PortInput → List PortDefinition → Except SqlError (List PortDefinition)
  | [], ports => .ok ports
  | p :: rest, ports => do
    if schemas.any (·.id = p.schemaId) then
      let ports ← insert (p.row componentDefinitionId) ports
      createPorts schemas componentDefinitionId rest ports
    else .error (.check "port_definitions_schema_id_fkey")

/-- The four `create…` of `DefinitionRepository`. The ports and their definition are written in one
transaction. -/
def create (P : Platform) (kind : RegKind) (d : Declared) (digest : Digest)
    (inputs : List PortInput) (id : Uuid) (t : Tables) : Outcome (DefinitionRow × Tables) := do
  let content ← bound P "jsonb" d.content
  let row : DefinitionRow :=
    { id, name := d.name, version := d.version, contentDigest := digest, content }
  let rows ← sql (insert row (t.rows kind))
  let ports ← sql (createPorts (t.rows .artifactSchema) id inputs t.ports)
  return (row, { rows := Function.update t.rows kind rows, ports })

/-- `isUniqueViolation`. -/
def isUniqueViolation : RuntimeError → Bool
  | .sql (.unique _) => true
  | _ => false

/-! ## Answers -/

inductive Disposition where
  | created | existing
deriving DecidableEq, Repr

/-- What a call answers : a `RegistrationResult`, a `DomainError`, or another error. -/
inductive Answer where
  | registered (entity : DefinitionRow) (disposition : Disposition) (digest : Digest)
  | refused (error : DomainError)
  | failed (error : RuntimeError)

/-- The status codes of the routes. -/
def Answer.statusCode : Answer → ℕ
  | .registered _ .created _ => 201
  | .registered _ .existing _ => 200
  | .refused e => if "conflict".toList <:+: e.code.toList then 409 else 422
  | .failed _ => 500

/-- The conflict of a registration. -/
def conflict : DomainError :=
  ⟨"registration_conflict", "Registration exists with different content"⟩

/-- What `idempotent` answers where a row is found. -/
def existing (digest : Digest) (row : DefinitionRow) : Answer :=
  if row.contentDigest = digest then .registered row .existing digest else .refused conflict

/-- A port whose schema is looked up. -/
def resolvePort (t : Tables) (p : DeclaredPort) : Checked PortInput :=
  match t.find? .artifactSchema p.schemaName p.schemaVersion with
  | some schema =>
    .ok { name := p.name, direction := p.direction, schemaId := schema.id, required := p.required }
  | none => .error ⟨"referenced_schema_not_found",
      "Artifact schema " ++ p.schemaName ++ "@" ++ p.schemaVersion ++ " was not found"⟩

/-! ## Calls -/

/-- Where a call is. -/
inductive Phase where
  /-- It looks up the schemas of the remaining ports, and an earlier registration after that. -/
  | looking (declared : Declared) (resolved : List PortInput) (remaining : List DeclaredPort)
  | creating (declared : Declared) (inputs : List PortInput)
  /-- It looks again, after a unique violation. -/
  | rechecking (declared : Declared)
  | answered (answer : Answer)

/-- A call of one of the four `register…`. -/
structure Call where
  kind : RegKind
  document : Json
  phase : Phase

section Service

variable (P : Platform) (L : Libraries)

/-- `canonicalJsonDigest(doc)`. -/
def Declared.digest (d : Declared) : Digest :=
  P.canonicalJsonDigest (.payload d.document)

/-- What a call does before its first query. -/
def register (kind : RegKind) (document : Json) : Call :=
  { kind, document,
    phase := match declare L kind document with
      | .ok d => .looking d [] d.ports
      | .error e => .answered (.refused e) }

/-- The next query of a call, with the uuid that is drawn for it. -/
def advance (kind : RegKind) (id : Uuid) (t : Tables) : Phase → Phase × Tables
  | .looking d resolved (p :: rest) =>
    match resolvePort t p with
    | .ok input => (.looking d (resolved ++ [input]) rest, t)
    | .error e => (.answered (.refused e), t)
  | .looking d resolved [] =>
    match t.find? kind d.name d.version with
    | some row => (.answered (existing (d.digest P) row), t)
    | none => (.creating d resolved, t)
  | .creating d inputs =>
    match create P kind d (d.digest P) inputs id t with
    | .ok (row, t') => (.answered (.registered row .created (d.digest P)), t')
    | .error e =>
      if isUniqueViolation e then (.rechecking d, t) else (.answered (.failed e), t)
  | .rechecking d =>
    match t.find? kind d.name d.version with
    | some row => (.answered (existing (d.digest P) row), t)
    | none => (.answered (.refused conflict), t)
  | .answered a => (.answered a, t)

/-- A phase that awaits the database. -/
def Phase.underWay : Phase → Bool
  | .answered _ => false
  | _ => true

/-- The tables, the calls made so far, and how many uuids are drawn. -/
structure State where
  tables : Tables
  calls : ℕ → Option Call
  drawn : ℕ

/-- One step of one of the calls. -/
inductive Step : State → Unit → State → Prop
  | start {s : State} (m : ℕ) (kind : RegKind) (document : Json) (hm : s.calls m = none) :
    Step s () { s with calls := Function.update s.calls m (some (register L kind document)) }
  | next {s : State} (m : ℕ) (c : Call) (hm : s.calls m = some c) (hc : c.phase.underWay = true) :
    Step s () { tables := (advance P c.kind (P.uuid s.drawn) s.tables c.phase).2
                calls := Function.update s.calls m (some
                  { c with phase := (advance P c.kind (P.uuid s.drawn) s.tables c.phase).1 })
                drawn := s.drawn + 1 }
  /-- The database fails. -/
  | lost {s : State} (m : ℕ) (c : Call) (hm : s.calls m = some c) (hc : c.phase.underWay = true) :
    Step s () { s with
      calls := Function.update s.calls m (some { c with phase := .answered (.failed .transient) }) }
  /-- The connection fails after the query. -/
  | lostAfter {s : State} (m : ℕ) (c : Call) (hm : s.calls m = some c)
      (hc : c.phase.underWay = true) :
    Step s () { tables := (advance P c.kind (P.uuid s.drawn) s.tables c.phase).2
                calls := Function.update s.calls m (some
                  { c with phase := .answered (.failed .transient) })
                drawn := s.drawn + 1 }

/-- The service, from empty tables. -/
def registry : System State Unit :=
  ⟨fun s => s.tables = ⟨fun _ => [], []⟩ ∧ s.calls = fun _ => none, Step P L⟩

/-! ## Registrations made at once -/

/-- The tables with one more definition. -/
def Tables.record (t : Tables) (kind : RegKind) (row : DefinitionRow) (inputs : List PortInput) :
    Tables :=
  { rows := Function.update t.rows kind (t.rows kind ++ [row])
    ports := t.ports ++ inputs.map (PortInput.row row.id) }

/-- A registration without interruption, given the uuid of the row it may add. -/
def atOnce (id : Uuid) (kind : RegKind) (document : Json) (t : Tables) : Answer × Tables :=
  match declare L kind document with
  | .error e => (.refused e, t)
  | .ok d =>
    match d.ports.mapM (resolvePort t) with
    | .error e => (.refused e, t)
    | .ok inputs =>
      match t.find? kind d.name d.version with
      | some row => (existing (d.digest P) row, t)
      | none =>
        if (t.rows kind).any fun r => r.name = d.name && r.contentDigest = d.digest P then
          (.refused conflict, t)
        else
          match P.bindJsonb d.content with
          | none => (.failed (.sql (.invalidText "jsonb")), t)
          | some content =>
            let row : DefinitionRow :=
              { id, name := d.name, version := d.version, contentDigest := d.digest P, content }
            (.registered row .created (d.digest P), t.record kind row inputs)

/-- The answer a document of a kind was given. -/
structure Answered where
  kind : RegKind
  document : Json
  answer : Answer

/-- The tables and the answers given. -/
structure Ledger where
  tables : Tables
  answers : ℕ → Option Answered

/-- A uuid no row has. -/
structure Tables.Fresh (t : Tables) (id : Uuid) : Prop where
  rows : ∀ kind, ∀ r ∈ t.rows kind, r.id ≠ id
  ports : ∀ p ∈ t.ports, p.componentDefinitionId ≠ id

/-- A registration is made at once, with a new uuid, or it fails with or without its effect. -/
inductive AtomicStep : Ledger → Unit → Ledger → Prop
  | register {a : Ledger} (m : ℕ) (id : Uuid) (kind : RegKind) (document : Json)
      (hm : a.answers m = none) (hid : a.tables.Fresh id) :
    AtomicStep a () { tables := (atOnce P L id kind document a.tables).2
                      answers := Function.update a.answers m (some
                        ⟨kind, document, (atOnce P L id kind document a.tables).1⟩) }
  | failed {a : Ledger} (m : ℕ) (kind : RegKind) (document : Json) (e : RuntimeError)
      (hm : a.answers m = none) (he : isUniqueViolation e = false) :
    AtomicStep a () { a with
      answers := Function.update a.answers m (some ⟨kind, document, .failed e⟩) }
  | failedAfter {a : Ledger} (m : ℕ) (id : Uuid) (kind : RegKind) (document : Json)
      (e : RuntimeError) (hm : a.answers m = none) (hid : a.tables.Fresh id)
      (he : isUniqueViolation e = false) :
    AtomicStep a () { tables := (atOnce P L id kind document a.tables).2
                      answers := Function.update a.answers m (some ⟨kind, document, .failed e⟩) }

/-- Registrations one after the other. -/
def atomicRegistry : System Ledger Unit :=
  ⟨fun a => a.tables = ⟨fun _ => [], []⟩ ∧ a.answers = fun _ => none, AtomicStep P L⟩

end Service

/-- The answer of a call that has one. -/
def Call.answered? (c : Call) : Option Answered :=
  match c.phase with
  | .answered answer => some ⟨c.kind, c.document, answer⟩
  | _ => none

/-- What is seen of a state from outside. -/
def State.ledger (s : State) : Ledger :=
  { tables := s.tables, answers := fun m => (s.calls m).bind Call.answered? }

variable {P : Platform} {L : Libraries} {t t' : Tables}

/-! ## Tables that grow -/

theorem Tables.find?_eq_some {kind : RegKind} {name version : String} {r : DefinitionRow}
    (h : t.find? kind name version = some r) :
    r ∈ t.rows kind ∧ r.name = name ∧ r.version = version := by
  refine ⟨List.mem_of_find?_eq_some h, ?_⟩
  simpa using List.find?_some h

theorem Tables.find?_eq_none {kind : RegKind} {name version : String}
    (h : t.find? kind name version = none) {r : DefinitionRow} (hr : r ∈ t.rows kind)
    (hname : r.name = name) : r.version ≠ version := by
  intro hversion
  have hr := List.find?_eq_none.1 h r hr
  simp [hname, hversion] at hr

/-- Rows are only appended. -/
structure Tables.Grows (t t' : Tables) : Prop where
  rows : ∀ kind, t.rows kind <+: t'.rows kind
  ports : t.ports <+: t'.ports

theorem Tables.Grows.refl (t : Tables) : t.Grows t :=
  ⟨fun _ => List.prefix_rfl, List.prefix_rfl⟩

theorem Tables.Grows.trans {t'' : Tables} (h : t.Grows t') (h' : t'.Grows t'') : t.Grows t'' :=
  ⟨fun kind => (h.rows kind).trans (h'.rows kind), h.ports.trans h'.ports⟩

theorem Tables.Grows.find? (h : t.Grows t') {kind : RegKind} {name version : String}
    {r : DefinitionRow} (hr : t.find? kind name version = some r) :
    t'.find? kind name version = some r := by
  obtain ⟨added, hadded⟩ := h.rows kind
  simp only [Tables.find?] at hr ⊢
  rw [← hadded, List.find?_append, hr]
  rfl

theorem Tables.grows_record (t : Tables) (kind : RegKind) (row : DefinitionRow)
    (inputs : List PortInput) : t.Grows (t.record kind row inputs) := by
  refine ⟨fun kind' => ?_, List.prefix_append _ _⟩
  by_cases hk : kind' = kind
  · subst hk
    simp [record]
  · simp [record, hk]

theorem Tables.mem_record {kind kind' : RegKind} {row r : DefinitionRow} {inputs : List PortInput} :
    r ∈ (t.record kind row inputs).rows kind' ↔ r ∈ t.rows kind' ∨ kind' = kind ∧ r = row := by
  by_cases hk : kind' = kind
  · subst hk
    simp [record]
  · simp [record, hk]

/-! ## Ports -/

theorem resolvePort_spec {p : DeclaredPort} {input : PortInput} (h : resolvePort t p = .ok input) :
    input.name = p.name ∧ input.direction = p.direction ∧ input.required = p.required ∧
      ∃ schema, t.find? .artifactSchema p.schemaName p.schemaVersion = some schema ∧
        input.schemaId = schema.id := by
  unfold resolvePort at h
  split at h
  next schema hschema =>
    cases h
    exact ⟨rfl, rfl, rfl, schema, hschema, rfl⟩
  next => cases h

theorem resolvePort_grows (h : t.Grows t') {p : DeclaredPort} {input : PortInput}
    (hp : resolvePort t p = .ok input) : resolvePort t' p = .ok input := by
  unfold resolvePort at hp ⊢
  split at hp
  next schema hschema =>
    rw [h.find? hschema]
    exact hp
  next => cases hp

/-- The resolved ports, one for each declared port. -/
theorem mapM_resolvePort {ports : List DeclaredPort} {inputs : List PortInput} :
    ports.mapM (resolvePort t) = .ok inputs ↔
      List.Forall₂ (fun p input => resolvePort t p = .ok input) ports inputs := by
  induction ports generalizing inputs with
  | nil =>
    constructor
    · intro h
      cases h
      exact .nil
    · rintro ⟨⟩
      rfl
  | cons p rest ih =>
    simp only [List.mapM_cons, Except.bind_eq_ok]
    constructor
    · rintro ⟨input, hp, inputs', hrest, h⟩
      cases h
      exact .cons hp (ih.1 hrest)
    · rintro (_ | ⟨hp, hrest⟩)
      exact ⟨_, hp, _, ih.2 hrest, rfl⟩

theorem mapM_resolvePort_grows (h : t.Grows t') {ports : List DeclaredPort}
    {inputs : List PortInput} (hp : ports.mapM (resolvePort t) = .ok inputs) :
    ports.mapM (resolvePort t') = .ok inputs :=
  mapM_resolvePort.2 ((mapM_resolvePort.1 hp).imp fun _ _ => resolvePort_grows h)

theorem nodup_inputs {ports : List DeclaredPort} {inputs : List PortInput}
    (h : List.Forall₂ (fun p input => resolvePort t p = .ok input) ports inputs)
    (hports : (ports.map fun p => (p.name, p.direction)).Nodup) :
    (inputs.map fun p => (p.name, p.direction)).Nodup := by
  have hsame : (inputs.map fun p => (p.name, p.direction)) =
      ports.map fun p => (p.name, p.direction) := by
    clear hports
    induction h with
    | nil => rfl
    | cons hp _ ih =>
      obtain ⟨hname, hdirection, -⟩ := resolvePort_spec hp
      simp [hname, hdirection, ih]
  rw [hsame]
  exact hports

theorem known_schemas {ports : List DeclaredPort} {inputs : List PortInput}
    (h : List.Forall₂ (fun p input => resolvePort t p = .ok input) ports inputs) :
    ∀ input ∈ inputs, ∃ r ∈ t.rows .artifactSchema, r.id = input.schemaId := by
  induction h with
  | nil => simp
  | cons hp _ ih =>
    intro input hmem
    rcases List.mem_cons.1 hmem with rfl | hmem
    · obtain ⟨-, -, -, schema, hschema, hid⟩ := resolvePort_spec hp
      exact ⟨schema, (Tables.find?_eq_some hschema).1, hid.symm⟩
    · exact ih input hmem

/-- Ports of a new definition break no constraint. -/
theorem createPorts_ok {schemas : List DefinitionRow} {id : Uuid} {inputs : List PortInput}
    (hschemas : ∀ input ∈ inputs, ∃ r ∈ schemas, r.id = input.schemaId)
    (hnodup : (inputs.map fun p => (p.name, p.direction)).Nodup) :
    ∀ ports : List PortDefinition, (∀ p ∈ ports, p.componentDefinitionId = id →
      (p.name, p.direction) ∉ inputs.map fun p => (p.name, p.direction)) →
    createPorts schemas id inputs ports = .ok (ports ++ inputs.map (PortInput.row id)) := by
  induction inputs with
  | nil =>
    intro ports _
    simp [createPorts]
  | cons p rest ih =>
    intro ports hports
    obtain ⟨r, hr, hid⟩ := hschemas p List.mem_cons_self
    have hany : schemas.any (·.id = p.schemaId) = true :=
      List.any_eq_true.2 ⟨r, hr, by simpa using hid⟩
    have hinsert : Relational.insert (p.row id) ports = .ok (ports ++ [p.row id]) := by
      refine insert_ok rfl fun u hu q hq hagree => ?_
      rw [List.mem_singleton.1 hu] at hagree
      simp only [Bool.and_eq_true] at hagree
      obtain ⟨⟨hcid, hname⟩, hdirection⟩ := hagree
      have hsame : (q.name, q.direction) = (p.name, p.direction) :=
        Prod.ext (of_decide_eq_true hname).symm (of_decide_eq_true hdirection).symm
      exact hports q hq (of_decide_eq_true hcid).symm (List.mem_cons.2 (Or.inl hsame))
    rw [List.map_cons, List.nodup_cons] at hnodup
    simp only [createPorts, hany, if_true, hinsert, bind, Except.bind]
    rw [ih (fun input hmem => hschemas input (List.mem_cons_of_mem p hmem)) hnodup.2]
    · simp
    · intro q hq hcid hmem
      rcases List.mem_append.1 hq with hq | hq
      · exact hports q hq hcid (List.mem_cons_of_mem _ hmem)
      · rw [List.mem_singleton.1 hq] at hmem
        exact hnodup.1 hmem

/-! ## Creating -/

/-- Another definition has the name and the version, or the name and the digest. -/
def Tables.Taken (t : Tables) (kind : RegKind) (name version : String) (digest : Digest) : Prop :=
  ∃ r ∈ t.rows kind, r.name = name ∧ (r.version = version ∨ r.contentDigest = digest)

theorem create_unbound {kind : RegKind} {d : Declared} {digest : Digest} {inputs : List PortInput}
    {id : Uuid} (h : P.bindJsonb d.content = none) :
    create P kind d digest inputs id t = .error (.sql (.invalidText "jsonb")) := by
  simp [create, bound, h, bind, Except.bind]

theorem create_taken {kind : RegKind} {d : Declared} {digest : Digest} {inputs : List PortInput}
    {id : Uuid} {content : Json} (hbind : P.bindJsonb d.content = some content)
    (h : t.Taken kind d.name d.version digest) :
    ∃ c, create P kind d digest inputs id t = .error (.sql (.unique c)) := by
  set row : DefinitionRow :=
    { id, name := d.name, version := d.version, contentDigest := digest, content } with hrow
  have hviolation : uniqueViolation row (t.rows kind) ≠ none := by
    obtain ⟨r, hr, hname, hkey⟩ := h
    rw [Ne, uniqueViolation_eq_none]
    intro hnone
    simp only [Row.uniques, List.forall_mem_cons] at hnone
    obtain ⟨-, hversions, hdigests, -⟩ := hnone
    rcases hkey with hversion | hdigest
    · exact hversions r hr (by simp [hrow, hname, hversion])
    · exact hdigests r hr (by simp [hrow, hname, hdigest])
  obtain ⟨c, hc⟩ := Option.ne_none_iff_exists'.1 hviolation
  refine ⟨c, ?_⟩
  have hinsert : Relational.insert row (t.rows kind) = .error (.unique c) := by
    simp only [Relational.insert, hc]
    rfl
  simp [create, bound, hbind, bind, Except.bind, ← hrow, hinsert, sql, Except.mapError]

theorem create_free {kind : RegKind} {d : Declared} {digest : Digest} {inputs : List PortInput}
    {id : Uuid} {content : Json} (hbind : P.bindJsonb d.content = some content)
    (hfree : ¬t.Taken kind d.name d.version digest) (hid : t.Fresh id)
    (hschemas : ∀ input ∈ inputs, ∃ r ∈ t.rows .artifactSchema, r.id = input.schemaId)
    (hnodup : (inputs.map fun p => (p.name, p.direction)).Nodup) :
    create P kind d digest inputs id t =
      .ok (⟨id, d.name, d.version, digest, content⟩,
        t.record kind ⟨id, d.name, d.version, digest, content⟩ inputs) := by
  have hinsert : Relational.insert
      (⟨id, d.name, d.version, digest, content⟩ : DefinitionRow) (t.rows kind) =
      .ok (t.rows kind ++ [⟨id, d.name, d.version, digest, content⟩]) := by
    refine insert_ok rfl fun u hu r hr hagree => ?_
    simp only [Row.uniques, List.mem_cons, List.not_mem_nil, or_false] at hu
    rcases hu with rfl | rfl | rfl
    · exact hid.rows kind r hr (of_decide_eq_true hagree).symm
    · simp only [Bool.and_eq_true, decide_eq_true_eq] at hagree
      exact hfree ⟨r, hr, hagree.1.symm, Or.inl hagree.2.symm⟩
    · simp only [Bool.and_eq_true, decide_eq_true_eq] at hagree
      exact hfree ⟨r, hr, hagree.1.symm, Or.inr hagree.2.symm⟩
  have hports : createPorts (t.rows .artifactSchema) id inputs t.ports =
      .ok (t.ports ++ inputs.map (PortInput.row id)) :=
    createPorts_ok hschemas hnodup _ fun p hp hcid => absurd hcid (hid.ports p hp)
  simp [create, bound, hbind, bind, Except.bind, hinsert, hports, sql, Except.mapError, pure,
    Except.pure, Tables.record]

end Declarations

end FactoryFloor
