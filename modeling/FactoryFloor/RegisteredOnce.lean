import FactoryFloor.Execution
import FactoryFloor.Registrations

/-!
# Every definition is registered once

`registers_once` is about every run of `Registrations`. A call that is under way has read of the
tables what no later step takes back (`Phase.Sound`), so that its next query either shows nothing or
answers as `atOnce` does there and then (`advance_spec`). The run is then a run of `atomicRegistry`,
and what holds of the tables and the answers is shown of that one (`Registered`).
-/

namespace FactoryFloor

open Relational Transition

namespace Declarations

variable {P : Platform} {L : Libraries} {t t' : Tables}

/-! ## Calls under way -/

/-- What a call under way has read. -/
def Phase.Sound (P : Platform) (L : Libraries) (t : Tables) (kind : RegKind) (document : Json) :
    Phase → Prop
  | .looking d resolved remaining =>
    declare L kind document = .ok d ∧ ∃ done, d.ports = done ++ remaining ∧
      done.mapM (resolvePort t) = .ok resolved
  | .creating d inputs =>
    declare L kind document = .ok d ∧ d.ports.mapM (resolvePort t) = .ok inputs
  | .rechecking d =>
    declare L kind document = .ok d ∧ (∃ inputs, d.ports.mapM (resolvePort t) = .ok inputs) ∧
      t.Taken kind d.name d.version (d.digest P)
  | .answered _ => True

theorem Tables.Grows.taken (h : t.Grows t') {kind : RegKind} {name version : String}
    {digest : Digest} (ht : t.Taken kind name version digest) :
    t'.Taken kind name version digest := by
  obtain ⟨r, hr, hkey⟩ := ht
  exact ⟨r, (h.rows kind).subset hr, hkey⟩

theorem Phase.Sound.grows (h : t.Grows t') {kind : RegKind} {document : Json} {phase : Phase}
    (hp : phase.Sound P L t kind document) : phase.Sound P L t' kind document := by
  cases phase with
  | looking d resolved remaining =>
    obtain ⟨hd, done, hports, hdone⟩ := hp
    exact ⟨hd, done, hports, mapM_resolvePort_grows h hdone⟩
  | creating d inputs => exact ⟨hp.1, mapM_resolvePort_grows h hp.2⟩
  | rechecking d =>
    obtain ⟨hd, ⟨inputs, hinputs⟩, htaken⟩ := hp
    exact ⟨hd, ⟨inputs, mapM_resolvePort_grows h hinputs⟩, h.taken htaken⟩
  | answered a => trivial

/-! ## At once -/

section AtOnce

variable {kind : RegKind} {document : Json} {d : Declared} {id : Uuid} {inputs : List PortInput}
  (hd : declare L kind document = .ok d)

include hd

/-- The first schema that is missing refuses the registration. -/
theorem atOnce_missing {e : DomainError} (h : d.ports.mapM (resolvePort t) = .error e) :
    atOnce P L id kind document t = (.refused e, t) := by
  simp [atOnce, hd, h]

variable (hports : d.ports.mapM (resolvePort t) = .ok inputs)

include hports

theorem atOnce_existing {row : DefinitionRow} (h : t.find? kind d.name d.version = some row) :
    atOnce P L id kind document t = (existing (d.digest P) row, t) := by
  simp [atOnce, hd, hports, h]

theorem atOnce_taken (h : t.find? kind d.name d.version = none)
    (htaken : t.Taken kind d.name d.version (d.digest P)) :
    atOnce P L id kind document t = (.refused conflict, t) := by
  obtain ⟨r, hr, hname, hkey⟩ := htaken
  have hdigest : r.contentDigest = d.digest P :=
    hkey.resolve_left (Tables.find?_eq_none h hr hname)
  have hany : (t.rows kind).any (fun r => r.name = d.name && r.contentDigest = d.digest P) :=
    List.any_eq_true.2 ⟨r, hr, by simp [hname, hdigest]⟩
  simp [atOnce, hd, hports, h, hany]

theorem atOnce_free {content : Json} (hfree : ¬t.Taken kind d.name d.version (d.digest P))
    (hbind : P.bindJsonb d.content = some content) :
    atOnce P L id kind document t =
      (.registered ⟨id, d.name, d.version, d.digest P, content⟩ .created (d.digest P),
        t.record kind ⟨id, d.name, d.version, d.digest P, content⟩ inputs) := by
  have hfind : t.find? kind d.name d.version = none := by
    cases hr : t.find? kind d.name d.version with
    | none => rfl
    | some r =>
      obtain ⟨hmem, hname, hversion⟩ := Tables.find?_eq_some hr
      exact absurd ⟨r, hmem, hname, Or.inl hversion⟩ hfree
  have hany : ¬(t.rows kind).any (fun r => r.name = d.name && r.contentDigest = d.digest P) := by
    intro hany
    obtain ⟨r, hr, hkey⟩ := List.any_eq_true.1 hany
    simp only [Bool.and_eq_true, decide_eq_true_eq] at hkey
    exact hfree ⟨r, hr, hkey.1, Or.inr hkey.2⟩
  simp [atOnce, hd, hports, hfind, hany, hbind]

end AtOnce

/-! ## One query -/

/-- What a query of a call comes to : nothing yet, the answer of a registration at once, or a
failure. -/
inductive Settles (P : Platform) (L : Libraries) (t : Tables) (kind : RegKind) (document : Json)
    (id : Uuid) : Phase × Tables → Prop
  | silent (phase : Phase) (hway : phase.underWay = true) (hs : phase.Sound P L t kind document) :
    Settles P L t kind document id (phase, t)
  | atOnce (answer : Answer) (tables : Tables)
      (h : atOnce P L id kind document t = (answer, tables)) :
    Settles P L t kind document id (.answered answer, tables)
  | failed (e : RuntimeError) (he : isUniqueViolation e = false) :
    Settles P L t kind document id (.answered (.failed e), t)

theorem mapM_append_error {done remaining : List DeclaredPort} {p : DeclaredPort}
    {resolved : List PortInput} {e : DomainError}
    (hdone : done.mapM (resolvePort t) = .ok resolved) (hp : resolvePort t p = .error e) :
    (done ++ p :: remaining).mapM (resolvePort t) = .error e := by
  simp [List.mapM_append, List.mapM_cons, hdone, hp, bind, Except.bind]

theorem mapM_append_ok {done : List DeclaredPort} {p : DeclaredPort} {resolved : List PortInput}
    {input : PortInput} (hdone : done.mapM (resolvePort t) = .ok resolved)
    (hp : resolvePort t p = .ok input) :
    (done ++ [p]).mapM (resolvePort t) = .ok (resolved ++ [input]) := by
  simp [List.mapM_append, hdone, hp, bind, Except.bind, pure, Except.pure]

theorem advance_spec {kind : RegKind} {document : Json} {phase : Phase} {id : Uuid}
    (hway : phase.underWay = true) (hs : phase.Sound P L t kind document) (hid : t.Fresh id) :
    Settles P L t kind document id (advance P kind id t phase) := by
  cases phase with
  | looking d resolved remaining =>
    obtain ⟨hd, done, hports, hdone⟩ := hs
    cases remaining with
    | nil =>
      rw [List.append_nil] at hports
      subst hports
      cases hfind : t.find? kind d.name d.version with
      | some row =>
        simp only [advance, hfind]
        exact .atOnce _ _ (atOnce_existing hd hdone hfind)
      | none =>
        simp only [advance, hfind]
        exact .silent _ rfl ⟨hd, hdone⟩
    | cons p rest =>
      cases hp : resolvePort t p with
      | ok input =>
        simp only [advance, hp]
        exact .silent _ rfl ⟨hd, done ++ [p], by simp [hports], mapM_append_ok hdone hp⟩
      | error e =>
        simp only [advance, hp]
        exact .atOnce _ _ (atOnce_missing hd (hports ▸ mapM_append_error hdone hp))
  | creating d inputs =>
    obtain ⟨hd, hports⟩ := hs
    cases hbind : P.bindJsonb d.content with
    | none =>
      simp only [advance, create_unbound hbind]
      exact .failed _ rfl
    | some content =>
      by_cases htaken : t.Taken kind d.name d.version (d.digest P)
      · obtain ⟨c, hc⟩ : ∃ c,
            create P kind d (d.digest P) inputs id t = .error (.sql (.unique c)) :=
          create_taken hbind htaken
        simp only [advance, hc]
        exact .silent _ rfl ⟨hd, ⟨inputs, hports⟩, htaken⟩
      · have hresolved := mapM_resolvePort.1 hports
        simp only [advance, create_free hbind htaken hid (known_schemas hresolved)
          (nodup_inputs hresolved (declare_spec hd).ports)]
        exact .atOnce _ _ (atOnce_free hd hports htaken hbind)
  | rechecking d =>
    obtain ⟨hd, ⟨inputs, hports⟩, htaken⟩ := hs
    cases hfind : t.find? kind d.name d.version with
    | some row =>
      simp only [advance, hfind]
      exact .atOnce _ _ (atOnce_existing hd hports hfind)
    | none =>
      simp only [advance, hfind]
      exact .atOnce _ _ (atOnce_taken hd hports hfind htaken)
  | answered a => cases hway

/-! ## The registry, at once -/

theorem atOnce_grows {kind : RegKind} {document : Json} {id : Uuid} :
    t.Grows (atOnce P L id kind document t).2 := by
  unfold atOnce
  split
  · exact .refl t
  · split
    · exact .refl t
    · split
      · exact .refl t
      · split
        · exact .refl t
        · split
          · exact .refl t
          · exact t.grows_record _ _ _

/-- What a registration at once does to the tables. -/
theorem atOnce_tables (kind : RegKind) (document : Json) (id : Uuid) :
    (atOnce P L id kind document t).2 = t ∨ ∃ d inputs content,
      declare L kind document = .ok d ∧ d.ports.mapM (resolvePort t) = .ok inputs ∧
      P.bindJsonb d.content = some content ∧ ¬t.Taken kind d.name d.version (d.digest P) ∧
      atOnce P L id kind document t =
        (.registered ⟨id, d.name, d.version, d.digest P, content⟩ .created (d.digest P),
          t.record kind ⟨id, d.name, d.version, d.digest P, content⟩ inputs) := by
  cases hd : declare L kind document with
  | error e => exact Or.inl (by simp [atOnce, hd])
  | ok d =>
    cases hports : d.ports.mapM (resolvePort t) with
    | error e => exact Or.inl (by simp [atOnce, hd, hports])
    | ok inputs =>
      by_cases htaken : t.Taken kind d.name d.version (d.digest P)
      · refine Or.inl ?_
        cases hfind : t.find? kind d.name d.version with
        | some row => simp [atOnce_existing hd hports hfind]
        | none => simp [atOnce_taken hd hports hfind htaken]
      · cases hbind : P.bindJsonb d.content with
        | some content =>
          exact Or.inr ⟨d, inputs, content, rfl, hports, hbind, htaken,
            atOnce_free hd hports htaken hbind⟩
        | none =>
          refine Or.inl ?_
          simp only [atOnce, hd, hports, hbind]
          split <;> [rfl; split <;> rfl]

/-! ## What holds of the ledger -/

/-- A port row as its document declares it. -/
def Tables.Declares (t : Tables) (id : Uuid) (p : DeclaredPort) (row : PortDefinition) : Prop :=
  ∃ schema, t.find? .artifactSchema p.schemaName p.schemaVersion = some schema ∧
    row = ⟨id, p.name, p.direction, schema.id, p.required⟩

/-- A row of a definition, with its ports, as a document declares it. -/
def Tables.Holds (P : Platform) (L : Libraries) (t : Tables) (kind : RegKind) (r : DefinitionRow) :
    Prop :=
  ∃ document d, declare L kind document = .ok d ∧ r.name = d.name ∧ r.version = d.version ∧
    r.contentDigest = d.digest P ∧ P.bindJsonb d.content = some r.content ∧
    List.Forall₂ (t.Declares r.id) d.ports (t.ports.filter (·.componentDefinitionId = r.id))

/-- What an answer says of the tables. -/
def Answered.True (P : Platform) (L : Libraries) (t : Tables) (x : Answered) : Prop :=
  match x.answer with
  | .registered entity _ digest => ∃ d, declare L x.kind x.document = .ok d ∧
      entity ∈ t.rows x.kind ∧ entity.name = d.name ∧ entity.version = d.version ∧
      digest = d.digest P ∧ entity.contentDigest = digest
  | .refused e => declare L x.kind x.document = .error e ∨
      ∃ d, declare L x.kind x.document = .ok d ∧
        ((∃ p ∈ d.ports, e = ⟨"referenced_schema_not_found",
            "Artifact schema " ++ p.schemaName ++ "@" ++ p.schemaVersion ++ " was not found"⟩) ∨
          e = conflict ∧ ∃ r ∈ t.rows x.kind, r.name = d.name ∧
            (r.version = d.version ∧ r.contentDigest ≠ d.digest P ∨
              r.version ≠ d.version ∧ r.contentDigest = d.digest P))
  | .failed e => isUniqueViolation e = false

/-- What every run keeps of the tables. -/
structure Tables.Sound (P : Platform) (L : Libraries) (t : Tables) : Prop where
  ids : ∀ kind, ∀ r ∈ t.rows kind, ∀ kind', ∀ r' ∈ t.rows kind', r.id = r'.id →
    kind = kind' ∧ r = r'
  versions : ∀ kind, Keyed (fun r => (r.name, r.version)) (t.rows kind)
  digests : ∀ kind, Keyed (fun r => (r.name, r.contentDigest)) (t.rows kind)
  held : ∀ kind, ∀ r ∈ t.rows kind, t.Holds P L kind r
  owned : ∀ p ∈ t.ports, ∃ kind, ∃ r ∈ t.rows kind, r.id = p.componentDefinitionId

/-- What every run keeps of the tables and the answers. -/
structure Registered (P : Platform) (L : Libraries) (a : Ledger) : Prop where
  tables : a.tables.Sound P L
  answers : ∀ m x, a.answers m = some x → x.True P L a.tables
  once : ∀ m x m' x' r digest r' digest', a.answers m = some x → a.answers m' = some x' →
    x.answer = .registered r .created digest → x'.answer = .registered r' .created digest' →
    r.id = r'.id → m = m'

theorem Tables.Declares.grows (h : t.Grows t') {id : Uuid} {p : DeclaredPort} {row : PortDefinition}
    (hp : t.Declares id p row) : t'.Declares id p row := by
  obtain ⟨schema, hschema, hrow⟩ := hp
  exact ⟨schema, h.find? hschema, hrow⟩

theorem declares_of_resolved {ports : List DeclaredPort} {inputs : List PortInput} {id : Uuid}
    (h : List.Forall₂ (fun p input => resolvePort t p = .ok input) ports inputs) :
    List.Forall₂ (t.Declares id) ports (inputs.map (PortInput.row id)) := by
  rw [List.forall₂_map_right_iff]
  refine h.imp fun p input hp => ?_
  obtain ⟨hname, hdirection, hrequired, schema, hschema, hid⟩ := resolvePort_spec hp
  exact ⟨schema, hschema, by simp [PortInput.row, hname, hdirection, hrequired, hid]⟩

section Record

variable {kind : RegKind} {row : DefinitionRow} {inputs : List PortInput}

theorem Tables.Holds.record {kind' : RegKind} {r : DefinitionRow} (h : t.Holds P L kind' r)
    (hid : row.id ≠ r.id) : (t.record kind row inputs).Holds P L kind' r := by
  obtain ⟨document, d, hd, hname, hversion, hdigest, hcontent, hports⟩ := h
  refine ⟨document, d, hd, hname, hversion, hdigest, hcontent, ?_⟩
  have hnew : (inputs.map (PortInput.row row.id)).filter (·.componentDefinitionId = r.id) = [] := by
    simp [List.filter_eq_nil_iff, PortInput.row, hid]
  rw [show (t.record kind row inputs).ports = t.ports ++ inputs.map (PortInput.row row.id) from rfl,
    List.filter_append, hnew, List.append_nil]
  exact hports.imp fun _ _ => Tables.Declares.grows (t.grows_record kind row inputs)

theorem Tables.holds_record {document : Json} {d : Declared} (hfresh : t.Fresh row.id)
    (hd : declare L kind document = .ok d) (hname : row.name = d.name)
    (hversion : row.version = d.version) (hdigest : row.contentDigest = d.digest P)
    (hcontent : P.bindJsonb d.content = some row.content)
    (hports : d.ports.mapM (resolvePort t) = .ok inputs) :
    (t.record kind row inputs).Holds P L kind row := by
  refine ⟨document, d, hd, hname, hversion, hdigest, hcontent, ?_⟩
  have hold : t.ports.filter (·.componentDefinitionId = row.id) = [] := by
    simpa [List.filter_eq_nil_iff] using hfresh.ports
  have hnew : (inputs.map (PortInput.row row.id)).filter (·.componentDefinitionId = row.id) =
      inputs.map (PortInput.row row.id) := by
    simp [List.filter_eq_self, PortInput.row]
  rw [show (t.record kind row inputs).ports = t.ports ++ inputs.map (PortInput.row row.id) from rfl,
    List.filter_append, hold, hnew, List.nil_append]
  exact (declares_of_resolved (mapM_resolvePort.1 hports)).imp fun _ _ =>
    Tables.Declares.grows (t.grows_record kind row inputs)

/-- A key of the definitions that the new row does not repeat. -/
theorem Tables.keyed_record {β : Type} {key : DefinitionRow → β} (kind' : RegKind)
    (h : Keyed key (t.rows kind')) (hnew : kind' = kind → ∀ r ∈ t.rows kind, key r ≠ key row) :
    Keyed key ((t.record kind row inputs).rows kind') := by
  by_cases hk : kind' = kind
  · subst hk
    simpa [record] using h.append (hnew rfl)
  · simpa [record, hk] using h

theorem Tables.Sound.record {document : Json} {d : Declared} (h : t.Sound P L)
    (hfresh : t.Fresh row.id) (hd : declare L kind document = .ok d) (hname : row.name = d.name)
    (hversion : row.version = d.version) (hdigest : row.contentDigest = d.digest P)
    (hcontent : P.bindJsonb d.content = some row.content)
    (hports : d.ports.mapM (resolvePort t) = .ok inputs)
    (hfree : ¬t.Taken kind d.name d.version (d.digest P)) :
    (t.record kind row inputs).Sound P L where
  ids kind' r hr kind'' r' hr' hid := by
    rcases Tables.mem_record.1 hr with hold | ⟨rfl, rfl⟩ <;>
      rcases Tables.mem_record.1 hr' with hold' | ⟨rfl, rfl⟩
    · exact h.ids kind' r hold kind'' r' hold' hid
    · exact absurd hid (hfresh.rows kind' r hold)
    · exact absurd hid.symm (hfresh.rows kind'' r' hold')
    · exact ⟨rfl, rfl⟩
  versions kind' := Tables.keyed_record kind' (h.versions kind') fun _ r hr hkey =>
    hfree ⟨r, hr, by simp_all, Or.inl (by simp_all)⟩
  digests kind' := Tables.keyed_record kind' (h.digests kind') fun _ r hr hkey =>
    hfree ⟨r, hr, by simp_all, Or.inr (by simp_all)⟩
  held kind' r hr := by
    rcases Tables.mem_record.1 hr with hr | ⟨rfl, rfl⟩
    · exact (h.held kind' r hr).record (hfresh.rows kind' r hr).symm
    · exact Tables.holds_record hfresh hd hname hversion hdigest hcontent hports
  owned p hp := by
    rcases List.mem_append.1 hp with hp | hp
    · obtain ⟨kind', r, hr, hid⟩ := h.owned p hp
      exact ⟨kind', r, Tables.mem_record.2 (Or.inl hr), hid⟩
    · obtain ⟨input, -, rfl⟩ := List.mem_map.1 hp
      exact ⟨kind, row, Tables.mem_record.2 (Or.inr ⟨rfl, rfl⟩), rfl⟩

end Record

/-- A registration at once keeps the tables sound. -/
theorem Tables.Sound.atOnce {kind : RegKind} {document : Json} {id : Uuid} (h : t.Sound P L)
    (hfresh : t.Fresh id) : (atOnce P L id kind document t).2.Sound P L := by
  rcases atOnce_tables (P := P) (L := L) (t := t) kind document id
    with hsame | ⟨d, inputs, content, hd, hports, hbind, hfree, hnew⟩
  · rw [hsame]
    exact h
  · rw [hnew]
    exact h.record hfresh hd rfl rfl rfl hbind hports hfree

/-! ## What answers say -/

theorem Answered.True.grows (h : t.Grows t') {x : Answered} (hx : x.True P L t) :
    x.True P L t' := by
  unfold Answered.True at hx ⊢
  split at hx
  next entity _ digest _ =>
    obtain ⟨d, hd, hmem, hrest⟩ := hx
    exact ⟨d, hd, (h.rows _).subset hmem, hrest⟩
  next e _ =>
    rcases hx with hx | ⟨d, hd, hx | ⟨he, r, hr, hkey⟩⟩
    · exact Or.inl hx
    · exact Or.inr ⟨d, hd, Or.inl hx⟩
    · exact Or.inr ⟨d, hd, Or.inr ⟨he, r, (h.rows _).subset hr, hkey⟩⟩
  next => exact hx

theorem mapM_resolvePort_error {ports : List DeclaredPort} {e : DomainError}
    (h : ports.mapM (resolvePort t) = .error e) : ∃ p ∈ ports, resolvePort t p = .error e := by
  induction ports with
  | nil => cases h
  | cons p rest ih =>
    rw [List.mapM_cons] at h
    cases hp : resolvePort t p with
    | error e' =>
      rw [hp] at h
      cases h
      exact ⟨p, List.mem_cons_self, hp⟩
    | ok input =>
      cases hrest : rest.mapM (resolvePort t) with
      | error e' =>
        rw [hp, hrest] at h
        cases h
        obtain ⟨q, hq, hqe⟩ := ih hrest
        exact ⟨q, List.mem_cons_of_mem p hq, hqe⟩
      | ok inputs =>
        rw [hp, hrest] at h
        cases h

theorem existing_true {x : Answered} {d : Declared} {row : DefinitionRow}
    (hd : declare L x.kind x.document = .ok d)
    (hrow : t.find? x.kind d.name d.version = some row)
    (hx : x.answer = existing (d.digest P) row) : x.True P L t := by
  obtain ⟨hmem, hname, hversion⟩ := Tables.find?_eq_some hrow
  unfold Answered.True
  by_cases hdigest : row.contentDigest = d.digest P
  · rw [hx, existing, if_pos hdigest]
    exact ⟨d, hd, hmem, hname, hversion, rfl, hdigest⟩
  · rw [hx, existing, if_neg hdigest]
    exact Or.inr ⟨d, hd, Or.inr ⟨rfl, row, hmem, hname, Or.inl ⟨hversion, hdigest⟩⟩⟩

theorem resolvePort_error {p : DeclaredPort} {e : DomainError} (h : resolvePort t p = .error e) :
    e = ⟨"referenced_schema_not_found",
      "Artifact schema " ++ p.schemaName ++ "@" ++ p.schemaVersion ++ " was not found"⟩ := by
  unfold resolvePort at h
  split at h
  · cases h
  · cases h
    rfl

/-- A registration at once answers truly. -/
theorem atOnce_true {kind : RegKind} {document : Json} {id : Uuid} :
    Answered.True P L (atOnce P L id kind document t).2
      ⟨kind, document, (atOnce P L id kind document t).1⟩ := by
  cases hd : declare L kind document with
  | error e =>
    simp only [atOnce, hd]
    exact Or.inl hd
  | ok d =>
    cases hports : d.ports.mapM (resolvePort t) with
    | error e =>
      rw [atOnce_missing hd hports]
      obtain ⟨p, hp, he⟩ := mapM_resolvePort_error hports
      exact Or.inr ⟨d, hd, Or.inl ⟨p, hp, resolvePort_error he⟩⟩
    | ok inputs =>
      cases hfind : t.find? kind d.name d.version with
      | some row =>
        rw [atOnce_existing hd hports hfind]
        exact existing_true hd hfind rfl
      | none =>
        by_cases htaken : t.Taken kind d.name d.version (d.digest P)
        · rw [atOnce_taken hd hports hfind htaken]
          obtain ⟨r, hr, hname, hkey⟩ := htaken
          have hversion := Tables.find?_eq_none hfind hr hname
          exact Or.inr ⟨d, hd, Or.inr ⟨rfl, r, hr, hname,
            Or.inr ⟨hversion, hkey.resolve_left hversion⟩⟩⟩
        · cases hbind : P.bindJsonb d.content with
          | some content =>
            rw [atOnce_free hd hports htaken hbind]
            exact ⟨d, hd, Tables.mem_record.2 (Or.inr ⟨rfl, rfl⟩), rfl, rfl, rfl, rfl⟩
          | none =>
            simp only [atOnce, hd, hports, hfind, hbind]
            split
            next hany =>
              obtain ⟨r, hr, hkey⟩ := List.any_eq_true.1 hany
              simp only [Bool.and_eq_true, decide_eq_true_eq] at hkey
              exact absurd ⟨r, hr, hkey.1, Or.inr hkey.2⟩ htaken
            next => rfl

/-- A row answered as created at once has the new uuid. -/
theorem created_id {kind : RegKind} {document : Json} {id : Uuid} {r : DefinitionRow}
    {digest : Digest} (h : (atOnce P L id kind document t).1 = .registered r .created digest) :
    r.id = id := by
  unfold atOnce existing at h
  repeat' split at h
  all_goals first
    | cases h
      done
    | cases h
      rfl

/-! ## The run of the ledger -/

section Ledger

variable {a b : Ledger} {m : ℕ} {x : Answered}

/-- The answers after one more. -/
theorem answers_update {n : ℕ} {y : Answered}
    (h : (⟨t, Function.update a.answers m (some x)⟩ : Ledger).answers n = some y) :
    n = m ∧ y = x ∨ n ≠ m ∧ a.answers n = some y := by
  have hupdate : Function.update a.answers m (some x) n = some y := h
  rcases update_eq_some hupdate with ⟨hn, hx⟩ | hold
  · exact Or.inl ⟨hn, (Option.some.inj hx).symm⟩
  · exact Or.inr hold

/-- An answer to a call that had none, of tables that have grown. -/
theorem Registered.answer (h : Registered P L a) {tables : Tables}
    (hgrows : a.tables.Grows tables) (htables : tables.Sound P L) (hx : x.True P L tables)
    (hnew : ∀ r digest, x.answer = .registered r .created digest →
      ∀ kind, ∀ r' ∈ a.tables.rows kind, r'.id ≠ r.id) :
    Registered P L ⟨tables, Function.update a.answers m (some x)⟩ where
  tables := htables
  answers n y hy := by
    rcases answers_update hy with ⟨-, rfl⟩ | ⟨-, hy⟩
    · exact hx
    · exact (h.answers n y hy).grows hgrows
  once n y n' y' r digest r' digest' hy hy' hr hr' hid := by
    have hold : ∀ k z rz dz, a.answers k = some z → z.answer = .registered rz .created dz →
        rz ∈ a.tables.rows z.kind := by
      intro k z rz dz hz hrz
      have htrue := h.answers k z hz
      unfold Answered.True at htrue
      rw [hrz] at htrue
      obtain ⟨_, -, hmem, -⟩ := htrue
      exact hmem
    rcases answers_update hy with ⟨hn, rfl⟩ | ⟨-, hyold⟩ <;>
      rcases answers_update hy' with ⟨hn', rfl⟩ | ⟨-, hyold'⟩
    · rw [hn, hn']
    · exact absurd hid.symm (hnew r digest hr _ r' (hold n' y' r' digest' hyold' hr'))
    · exact absurd hid (hnew r' digest' hr' _ r (hold n y r digest hyold hr))
    · exact h.once n y n' y' r digest r' digest' hyold hyold' hr hr' hid

theorem Registered.step (h : Registered P L a) (hs : AtomicStep P L a () b) : Registered P L b := by
  cases hs with
  | register m id kind document hm hid =>
    refine h.answer atOnce_grows (h.tables.atOnce hid) atOnce_true ?_
    intro r digest hr kind' r' hr'
    rw [created_id hr]
    exact hid.rows kind' r' hr'
  | failed m kind document e hm he =>
    exact h.answer (.refl _) h.tables he fun r digest hr => nomatch hr
  | failedAfter m id kind document e hm hid he =>
    exact h.answer atOnce_grows (h.tables.atOnce hid) he fun r digest hr => nomatch hr

theorem AtomicStep.grows (hs : AtomicStep P L a () b) : a.tables.Grows b.tables := by
  cases hs with
  | register | failedAfter => exact atOnce_grows
  | failed => exact .refl _

theorem AtomicStep.answers (hs : AtomicStep P L a () b) (hx : a.answers m = some x) :
    b.answers m = some x := by
  have hne : ∀ n, a.answers n = none → m ≠ n := by
    rintro n hn rfl
    rw [hn] at hx
    cases hx
  cases hs with
  | register n id kind document hm => exact (Function.update_of_ne (hne n hm) _ _).trans hx
  | failed n kind document e hm => exact (Function.update_of_ne (hne n hm) _ _).trans hx
  | failedAfter n id kind document e hm => exact (Function.update_of_ne (hne n hm) _ _).trans hx

theorem registered_of_reachable (h : (atomicRegistry P L).Reachable a) : Registered P L a := by
  refine h.invariant (fun a ha => ?_) fun a l b ih hs => ih.step hs
  obtain ⟨htables, hanswers⟩ := ha
  refine ⟨?_, fun m x hx => ?_, fun m x m' x' r digest r' digest' hx => ?_⟩
  · rw [htables]
    exact ⟨fun _ _ hr => (List.not_mem_nil hr).elim, fun _ => List.nodup_nil,
      fun _ => List.nodup_nil, fun _ _ hr => (List.not_mem_nil hr).elim,
      fun _ hp => (List.not_mem_nil hp).elim⟩
  all_goals
    rw [hanswers] at hx
    cases hx

/-- Answers for one kind, name and version agree : two that succeed have the same row, and one that
conflicts with a row is for another digest. -/
def Ledger.Agrees (P : Platform) (L : Libraries) (a : Ledger) : Prop :=
  ∀ m x m' x' d d' r disposition digest, a.answers m = some x → a.answers m' = some x' →
    x'.kind = x.kind → declare L x.kind x.document = .ok d →
    declare L x'.kind x'.document = .ok d' → d'.name = d.name → d'.version = d.version →
    x.answer = .registered r disposition digest →
    (∀ r' disposition' digest', x'.answer = .registered r' disposition' digest' →
      r' = r ∧ digest' = digest) ∧
    (x'.answer = .refused conflict → d'.digest P ≠ digest)

theorem Registered.agrees (h : Registered P L a) : a.Agrees P L := by
  intro m x m' x' d d' r disposition digest hx hx' hkind hd hd' hname hversion hr
  have htrue := h.answers m x hx
  unfold Answered.True at htrue
  rw [hr] at htrue
  obtain ⟨_, hdx, hmem, hrname, hrversion, hdigest, hrdigest⟩ := htrue
  rw [hd] at hdx
  cases hdx
  have htrue' := h.answers m' x' hx'
  unfold Answered.True at htrue'
  rw [hkind] at htrue' hd'
  refine ⟨fun r' disposition' digest' hr' => ?_, fun hconflict hsame => ?_⟩
  · rw [hr'] at htrue'
    obtain ⟨_, hdx', hmem', hrname', hrversion', hdigest', hrdigest'⟩ := htrue'
    rw [hd'] at hdx'
    cases hdx'
    have hrow : r' = r := (h.tables.versions x.kind).eq hmem' hmem (by
      simp [hrname', hrname, hrversion', hrversion, hname, hversion])
    exact ⟨hrow, by rw [← hrdigest', hrow, hrdigest]⟩
  · rw [hconflict] at htrue'
    rcases htrue' with herror | ⟨_, hdx', ⟨_, _, hcode⟩ | ⟨-, q, hq, hqname, hkey⟩⟩
    · rw [hd'] at herror
      cases herror
    · simp [conflict] at hcode
    · rw [hd'] at hdx'
      cases hdx'
      rcases hkey with ⟨hqversion, hqdigest⟩ | ⟨hqversion, hqdigest⟩
      · have hrow : q = r := (h.tables.versions x.kind).eq hq hmem (by
          simp [hqname, hrname, hqversion, hrversion, hname, hversion])
        exact hqdigest (by rw [hrow, hrdigest, hsame])
      · have hrow : q = r := (h.tables.digests x.kind).eq hq hmem (by
          simp [hqname, hrname, hqdigest, hrdigest, hname, hsame])
        exact hqversion (by rw [hrow, hrversion, hversion])

end Ledger

/-! ## The run of the service -/

/-- What every run keeps of the uuids and the calls. -/
structure State.Sound (P : Platform) (L : Libraries) (s : State) : Prop where
  rows : ∀ kind, ∀ r ∈ s.tables.rows kind, ∃ n < s.drawn, r.id = P.uuid n
  ports : ∀ p ∈ s.tables.ports, ∃ n < s.drawn, p.componentDefinitionId = P.uuid n
  calls : ∀ m c, s.calls m = some c → c.phase.Sound P L s.tables c.kind c.document

section Run

variable {s u : State} {m : ℕ} {c : Call}

theorem State.Sound.fresh (h : s.Sound P L) : s.tables.Fresh (P.uuid s.drawn) where
  rows kind r hr hid := by
    obtain ⟨n, hn, hrn⟩ := h.rows kind r hr
    have hsame := P.uuid_injective (hrn.symm.trans hid)
    omega
  ports p hp hid := by
    obtain ⟨n, hn, hpn⟩ := h.ports p hp
    have hsame := P.uuid_injective (hpn.symm.trans hid)
    omega

/-- What a query adds to the tables has the uuid that is drawn for it. -/
theorem Settles.tables {kind : RegKind} {document : Json} {id : Uuid} {result : Phase × Tables}
    (h : Settles P L t kind document id result) :
    t.Grows result.2 ∧
      (∀ kind', ∀ r ∈ result.2.rows kind', r ∈ t.rows kind' ∨ r.id = id) ∧
      ∀ p ∈ result.2.ports, p ∈ t.ports ∨ p.componentDefinitionId = id := by
  have hsame : t.Grows t ∧ (∀ kind', ∀ r ∈ t.rows kind', r ∈ t.rows kind' ∨ r.id = id) ∧
      ∀ p ∈ t.ports, p ∈ t.ports ∨ p.componentDefinitionId = id :=
    ⟨.refl t, fun _ _ hr => Or.inl hr, fun _ hp => Or.inl hp⟩
  cases h with
  | silent | failed => exact hsame
  | atOnce answer tables h =>
    have htables : (FactoryFloor.Declarations.atOnce P L id kind document t).2 = tables := by rw [h]
    rcases atOnce_tables (P := P) (L := L) (t := t) kind document id
      with hnone | ⟨d, inputs, content, -, -, -, -, hnew⟩
    · rw [htables] at hnone
      subst hnone
      exact hsame
    · rw [hnew] at htables
      subst htables
      refine ⟨t.grows_record _ _ _, fun kind' r hr => ?_, fun p hp => ?_⟩
      · rcases Tables.mem_record.1 hr with hr | ⟨-, rfl⟩
        · exact Or.inl hr
        · exact Or.inr rfl
      · rcases List.mem_append.1 hp with hp | hp
        · exact Or.inl hp
        · obtain ⟨input, -, rfl⟩ := List.mem_map.1 hp
          exact Or.inr rfl

/-- One call moves on, and the tables grow by rows with the next uuid. -/
theorem State.Sound.moved (h : s.Sound P L) {tables : Tables} {drawn : ℕ} {c' : Call}
    (hgrows : s.tables.Grows tables) (hdrawn : s.drawn ≤ drawn)
    (hrows : ∀ kind, ∀ r ∈ tables.rows kind, r ∈ s.tables.rows kind ∨
      r.id = P.uuid s.drawn ∧ s.drawn < drawn)
    (hports : ∀ p ∈ tables.ports, p ∈ s.tables.ports ∨
      p.componentDefinitionId = P.uuid s.drawn ∧ s.drawn < drawn)
    (hc' : c'.phase.Sound P L tables c'.kind c'.document) :
    State.Sound P L ⟨tables, Function.update s.calls m (some c'), drawn⟩ where
  rows kind r hr := by
    rcases hrows kind r hr with hr | ⟨hid, hlt⟩
    · obtain ⟨n, hn, hid⟩ := h.rows kind r hr
      exact ⟨n, hn.trans_le hdrawn, hid⟩
    · exact ⟨s.drawn, hlt, hid⟩
  ports p hp := by
    rcases hports p hp with hp | ⟨hid, hlt⟩
    · obtain ⟨n, hn, hid⟩ := h.ports p hp
      exact ⟨n, hn.trans_le hdrawn, hid⟩
    · exact ⟨s.drawn, hlt, hid⟩
  calls n x hx := by
    have hupdate : Function.update s.calls m (some c') n = some x := hx
    rcases update_eq_some hupdate with ⟨-, hsame⟩ | ⟨-, hold⟩
    · cases hsame
      exact hc'
    · exact (h.calls n x hold).grows hgrows

/-- A call that goes on shows nothing, and one that answers shows its answer. -/
theorem ledger_update (tables : Tables) (drawn : ℕ) (c' : Call) :
    State.ledger ⟨tables, Function.update s.calls m (some c'), drawn⟩ =
      ⟨tables, Function.update s.ledger.answers m c'.answered?⟩ := by
  have hanswers : (fun n => (Function.update s.calls m (some c') n).bind Call.answered?) =
      Function.update s.ledger.answers m c'.answered? := by
    funext n
    by_cases hn : n = m
    · subst hn
      simp
    · simp [hn, State.ledger]
  simp only [State.ledger] at hanswers ⊢
  rw [hanswers]

theorem ledger_silent (tables : Tables) (drawn : ℕ) {c' : Call} (hm : s.ledger.answers m = none)
    (hc' : c'.answered? = none) :
    State.ledger ⟨tables, Function.update s.calls m (some c'), drawn⟩ =
      ⟨tables, s.ledger.answers⟩ := by
  rw [ledger_update, hc', ← hm, Function.update_eq_self]

theorem answered?_underWay (h : c.phase.underWay = true) : c.answered? = none := by
  unfold Call.answered?
  cases hc : c.phase with
  | answered a => simp [hc, Phase.underWay] at h
  | looking | creating | rechecking => rfl

theorem ledger_underWay (hm : s.calls m = some c) (h : c.phase.underWay = true) :
    s.ledger.answers m = none := by
  simp [State.ledger, hm, answered?_underWay h]

/-- A step keeps what a call has read, and shows nothing or an atomic step. -/
theorem State.Sound.step (h : s.Sound P L) (hs : Step P L s () u) :
    u.Sound P L ∧ (u.ledger = s.ledger ∨ AtomicStep P L s.ledger () u.ledger) := by
  cases hs with
  | start m kind document hm =>
    have hnone : s.ledger.answers m = none := by simp [State.ledger, hm]
    have hmoved : ∀ c' : Call, c'.phase.Sound P L s.tables c'.kind c'.document →
        State.Sound P L { s with calls := Function.update s.calls m (some c') } := fun c' hc' =>
      h.moved (.refl _) le_rfl (fun _ _ hr => Or.inl hr) (fun _ hp => Or.inl hp) hc'
    cases hd : declare L kind document with
    | ok d =>
      refine ⟨hmoved _ ?_, Or.inl ?_⟩
      · simp only [register, hd]
        exact ⟨hd, [], rfl, rfl⟩
      · exact ledger_silent _ _ hnone (by simp [register, hd, Call.answered?])
    | error e =>
      refine ⟨hmoved _ (by simp [register, hd, Phase.Sound]), Or.inr ?_⟩
      have hstep := AtomicStep.register (P := P) (L := L) m (P.uuid s.drawn) kind document hnone
        h.fresh
      have hrefused :
          atOnce P L (P.uuid s.drawn) kind document s.tables = (.refused e, s.tables) := by
        simp [atOnce, hd]
      rw [ledger_update]
      rw [show s.ledger.tables = s.tables from rfl, hrefused] at hstep
      simpa [register, hd, Call.answered?] using hstep
  | next m c hm hc =>
    have hspec := advance_spec hc (h.calls m c hm) h.fresh
    obtain ⟨hgrows, hrows, hports⟩ := hspec.tables
    have hnone := ledger_underWay hm hc
    generalize advance P c.kind (P.uuid s.drawn) s.tables c.phase = result
      at hspec hgrows hrows hports ⊢
    refine ⟨h.moved hgrows (Nat.le_succ _)
      (fun kind r hr => (hrows kind r hr).imp id fun hid => ⟨hid, Nat.lt_succ_self _⟩)
      (fun p hp => (hports p hp).imp id fun hid => ⟨hid, Nat.lt_succ_self _⟩) ?_, ?_⟩
    · cases hspec with
      | silent phase hway hsound => exact hsound
      | atOnce | failed => trivial
    · cases hspec with
      | silent phase hway hsound =>
        exact Or.inl (ledger_silent _ _ hnone (answered?_underWay (c := { c with phase }) hway))
      | atOnce answer tables hatOnce =>
        refine Or.inr ?_
        have hstep := AtomicStep.register (P := P) (L := L) m (P.uuid s.drawn) c.kind c.document
          hnone h.fresh
        rw [ledger_update]
        rwa [show s.ledger.tables = s.tables from rfl, hatOnce] at hstep
      | failed e he =>
        refine Or.inr ?_
        have hstep := AtomicStep.failed (P := P) (L := L) m c.kind c.document e hnone he
        rw [ledger_update]
        exact hstep
  | lost m c hm hc =>
    have hnone := ledger_underWay hm hc
    refine ⟨h.moved (.refl _) le_rfl (fun _ _ hr => Or.inl hr) (fun _ hp => Or.inl hp) trivial,
      Or.inr ?_⟩
    have hstep := AtomicStep.failed (P := P) (L := L) m c.kind c.document .transient hnone rfl
    rw [ledger_update]
    exact hstep
  | lostAfter m c hm hc =>
    have hspec := advance_spec hc (h.calls m c hm) h.fresh
    obtain ⟨hgrows, hrows, hports⟩ := hspec.tables
    have hnone := ledger_underWay hm hc
    generalize advance P c.kind (P.uuid s.drawn) s.tables c.phase = result
      at hspec hgrows hrows hports ⊢
    refine ⟨h.moved hgrows (Nat.le_succ _)
      (fun kind r hr => (hrows kind r hr).imp id fun hid => ⟨hid, Nat.lt_succ_self _⟩)
      (fun p hp => (hports p hp).imp id fun hid => ⟨hid, Nat.lt_succ_self _⟩) trivial, Or.inr ?_⟩
    rw [ledger_update]
    cases hspec with
    | silent | failed =>
      exact AtomicStep.failed (P := P) (L := L) m c.kind c.document .transient hnone rfl
    | atOnce answer tables hatOnce =>
      have hstep := AtomicStep.failedAfter (P := P) (L := L) m (P.uuid s.drawn) c.kind c.document
        .transient hnone h.fresh rfl
      rwa [show s.ledger.tables = s.tables from rfl, hatOnce] at hstep

theorem sound_of_reachable (h : (registry P L).Reachable s) : s.Sound P L := by
  refine h.invariant (fun s hs => ?_) fun s l u ih hstep => (ih.step hstep).1
  obtain ⟨htables, hcalls⟩ := hs
  refine ⟨?_, ?_, fun m c hm => ?_⟩
  · simp [htables]
  · simp [htables]
  · rw [hcalls] at hm
    cases hm

theorem ledger_later (h : (registry P L).Reachable s) (hsu : (registry P L).Later s u) :
    (atomicRegistry P L).Later s.ledger u.ledger := by
  induction hsu with
  | refl => exact .refl
  | next hlater hstep ih =>
    rcases ((sound_of_reachable (h.later hlater)).step hstep).2 with hsame | hatomic
    · rw [hsame]
      exact ih
    · exact ih.next hatomic

theorem ledger_reachable (h : (registry P L).Reachable s) :
    (atomicRegistry P L).Reachable s.ledger := by
  induction h with
  | start h0 =>
    obtain ⟨htables, hcalls⟩ := h0
    exact .start ⟨htables, by simp [State.ledger, hcalls]⟩
  | next hr hstep ih =>
    rcases ((sound_of_reachable hr).step hstep).2 with hsame | hatomic
    · rw [hsame]
      exact ih
    · exact ih.next hatomic

end Run

/-- What later states keep of a ledger. -/
structure Ledger.Keeps (a b : Ledger) : Prop where
  tables : a.tables.Grows b.tables
  answers : ∀ m x, a.answers m = some x → b.answers m = some x

theorem keeps_of_later {a b : Ledger} (h : (atomicRegistry P L).Later a b) : a.Keeps b := by
  induction h with
  | refl => exact ⟨.refl _, fun _ _ hx => hx⟩
  | next _ hs ih =>
    exact ⟨ih.tables.trans (AtomicStep.grows hs), fun m x hx =>
      AtomicStep.answers hs (ih.answers m x hx)⟩

/-- Calls that run at once answer as registrations one after the other do. Each name and version
gets one row, with the ports its document declares, for ever ; each row is answered as created to
one call at most ; every answer says the truth of the tables, from then on ; and answers for one
name and version agree. -/
theorem registers_once {s u : State} (h : (registry P L).Reachable s)
    (hsu : (registry P L).Later s u) :
    (atomicRegistry P L).Reachable s.ledger ∧ (atomicRegistry P L).Later s.ledger u.ledger ∧
      Registered P L s.ledger ∧ s.ledger.Agrees P L ∧ s.ledger.Keeps u.ledger := by
  have hatomic := ledger_reachable h
  have hlater := ledger_later h hsu
  have hregistered := registered_of_reachable hatomic
  exact ⟨hatomic, hlater, hregistered, hregistered.agrees, keeps_of_later hlater⟩

/-! ## Runs -/

/-- A choice of a step. -/
inductive Action where
  | start (m : ℕ) (kind : RegKind) (document : Json)
  | next (m : ℕ)
  | lost (m : ℕ)
  | lostAfter (m : ℕ)

/-- The call, while it is under way. -/
def State.underWay? (s : State) (m : ℕ) : Option Call :=
  (s.calls m).filter fun c => c.phase.underWay

/-- The step of an action, if it can be made. -/
def act (P : Platform) (L : Libraries) (s : State) : Action → Option State
  | .start m kind document =>
    if (s.calls m).isNone then
      some { s with calls := Function.update s.calls m (some (register L kind document)) }
    else none
  | .next m => (s.underWay? m).map fun c =>
    { tables := (advance P c.kind (P.uuid s.drawn) s.tables c.phase).2
      calls := Function.update s.calls m (some
        { c with phase := (advance P c.kind (P.uuid s.drawn) s.tables c.phase).1 })
      drawn := s.drawn + 1 }
  | .lost m => (s.underWay? m).map fun c =>
    { s with
      calls := Function.update s.calls m (some { c with phase := .answered (.failed .transient) }) }
  | .lostAfter m => (s.underWay? m).map fun c =>
    { tables := (advance P c.kind (P.uuid s.drawn) s.tables c.phase).2
      calls := Function.update s.calls m (some
        { c with phase := .answered (.failed .transient) })
      drawn := s.drawn + 1 }

theorem State.underWay?_eq_some {s : State} {m : ℕ} {c : Call} (h : s.underWay? m = some c) :
    s.calls m = some c ∧ c.phase.underWay = true := by
  simpa [underWay?, Option.filter_eq_some_iff] using h

theorem act_step {s u : State} {a : Action} (h : act P L s a = some u) : Step P L s () u := by
  cases a with
  | start m kind document =>
    simp only [act] at h
    split at h
    next hm =>
      cases h
      exact .start m kind document (by simpa using hm)
    next => cases h
  | next m =>
    obtain ⟨c, hc, rfl⟩ := Option.map_eq_some_iff.1 h
    exact .next m c (State.underWay?_eq_some hc).1 (State.underWay?_eq_some hc).2
  | lost m =>
    obtain ⟨c, hc, rfl⟩ := Option.map_eq_some_iff.1 h
    exact .lost m c (State.underWay?_eq_some hc).1 (State.underWay?_eq_some hc).2
  | lostAfter m =>
    obtain ⟨c, hc, rfl⟩ := Option.map_eq_some_iff.1 h
    exact .lostAfter m c (State.underWay?_eq_some hc).1 (State.underWay?_eq_some hc).2

/-- The state some actions lead to. -/
def runActions (P : Platform) (L : Libraries) (s : State) (actions : List Action) : Option State :=
  actions.foldlM (act P L) s

theorem runActions_reachable {s u : State} {actions : List Action} (hs : (registry P L).Reachable s)
    (h : runActions P L s actions = some u) : (registry P L).Reachable u := by
  induction actions generalizing s with
  | nil =>
    cases h
    exact hs
  | cons a rest ih =>
    obtain ⟨v, hv, hrest⟩ := Option.bind_eq_some_iff.1 h
    exact ih (hs.next (act_step hv)) hrest

/-- A policy for spending, with a limit or without. -/
def spendPolicy (spec : List (String × Json)) : Json :=
  .obj [("apiVersion", .str "factory-floor.dev/v1alpha1"), ("kind", .str "Policy"),
    ("metadata", .obj [("name", .str "spend"), ("version", .str "1")]), ("spec", .obj spec)]

/-- A platform with two digests. -/
def deskPlatform : Platform :=
  { samplePlatform with
    canonicalJsonDigest
      | .payload value => if (member "limit" (value.get? "spec")).isSome then 8 else 7
      | _ => 0 }

def deskLibraries : Libraries :=
  { localeCompare _ _ := 0, compileError _ := none }

def emptyDesk : State :=
  { tables := ⟨fun _ => [], []⟩, calls := fun _ => none, drawn := 0 }

/-- Two calls register the same policy at once, and a third one another policy of its name. -/
def racingCalls : List Action :=
  [.start 0 .policy (spendPolicy []), .start 1 .policy (spendPolicy []), .next 0, .next 1, .next 0,
    .next 1, .start 2 .policy (spendPolicy [("limit", .num 5)]), .next 1, .next 2]

theorem registers_once_racing : ∃ s,
    runActions deskPlatform deskLibraries emptyDesk racingCalls = some s ∧
    ([0, 1, 2].map fun m => (s.ledger.answers m).map fun x => x.answer.statusCode) =
      [some 201, some 200, some 409] ∧
    (atomicRegistry deskPlatform deskLibraries).Reachable s.ledger ∧
      (atomicRegistry deskPlatform deskLibraries).Later s.ledger s.ledger ∧
      Registered deskPlatform deskLibraries s.ledger ∧
      s.ledger.Agrees deskPlatform deskLibraries ∧ s.ledger.Keeps s.ledger := by
  have hsome : (runActions deskPlatform deskLibraries emptyDesk racingCalls).map (fun s =>
      [0, 1, 2].map fun m => (s.ledger.answers m).map fun x => x.answer.statusCode) =
        some [some 201, some 200, some 409] := by rfl
  obtain ⟨s, hs, hcodes⟩ := Option.map_eq_some_iff.1 hsome
  have hempty : (registry deskPlatform deskLibraries).Reachable emptyDesk := .start ⟨rfl, rfl⟩
  exact ⟨s, hs, hcodes, registers_once (runActions_reachable hempty hs) .refl⟩

end Declarations

end FactoryFloor
