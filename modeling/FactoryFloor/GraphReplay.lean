import FactoryFloor.CanonicalJson
import FactoryFloor.Confinement

/-!
# Generation graphs as documents

`serializeRepositoryTaskGenerationGraph` writes a graph as canonical JSON, and
`replayRepositoryTaskGenerationGraph` reads a document back : it recomputes the digest of the members
other than `graphDigest`, and compares it to that member. `Sha256` stands for the hash of a text.

A compiled graph is always replayed as itself. A document that keeps the digest of a graph and is not
that graph is rejected, unless it differs only in members `__proto__`, which `canonicalizeJson` leaves
out (`graph_law_iff`). The hash is assumed to tell the two canonical texts that are compared apart.
-/

namespace FactoryFloor

open JsonText Doubles

/-! ## Members -/

section Members

variable {α : Type*}

/-- `{ key, ...rest }`. -/
def omitMember (key : Utf16) (members : List (Utf16 × α)) : List (Utf16 × α) :=
  members.filter fun m => m.1 ≠ key

theorem nodup_omitMember {key : Utf16} {members : List (Utf16 × α)}
    (h : (members.map Prod.fst).Nodup) : ((omitMember key members).map Prod.fst).Nodup :=
  h.sublist (List.filter_sublist.map Prod.fst)

/-- A member and the others, in some order. -/
theorem perm_omitMember {key : Utf16} {value : α} {members : List (Utf16 × α)}
    (hkeys : (members.map Prod.fst).Nodup) (h : members.lookup key = some value) :
    members.Perm ((key, value) :: omitMember key members) := by
  obtain ⟨before, after, rfl, -⟩ := List.lookup_eq_some_iff.1 h
  rw [List.map_append, List.map_cons] at hkeys
  obtain ⟨hnot, -⟩ := List.nodup_cons.1 (List.nodup_middle.1 hkeys)
  have hother : ∀ m ∈ before ++ after, m.1 ≠ key := by
    rintro m hm rfl
    exact hnot (List.map_append ▸ List.mem_map.2 ⟨m, hm, rfl⟩)
  have hrest : omitMember key (before ++ (key, value) :: after) = before ++ after := by
    rw [omitMember, List.filter_append, List.filter_cons_of_neg (by simp), ← List.filter_append]
    exact List.filter_eq_self.2 fun m hm => decide_eq_true (hother m hm)
  rw [hrest]
  exact List.perm_middle

theorem lookup_of_mem {key : Utf16} {value : α} {members : List (Utf16 × α)}
    (hkeys : (members.map Prod.fst).Nodup) (h : (key, value) ∈ members) :
    members.lookup key = some value := by
  obtain ⟨before, after, rfl⟩ := List.append_of_mem h
  rw [List.map_append, List.map_cons] at hkeys
  obtain ⟨hnot, -⟩ := List.nodup_cons.1 (List.nodup_middle.1 hkeys)
  refine List.lookup_eq_some_iff.2 ⟨before, after, rfl, fun m hm => ?_⟩
  rw [bne_iff_ne]
  rintro rfl
  exact hnot (List.mem_append_left _ (List.mem_map.2 ⟨m, hm, rfl⟩))

theorem omitMember_comm (key key' : Utf16) (members : List (Utf16 × α)) :
    omitMember key (omitMember key' members) = omitMember key' (omitMember key members) := by
  rw [omitMember, omitMember, List.filter_comm]
  rfl

theorem exists_mem_of_forall₂ {β : Type*} {R : α → β → Prop} {xs : List α} {ys : List β}
    (h : List.Forall₂ R xs ys) {x : α} (hx : x ∈ xs) : ∃ y ∈ ys, R x y := by
  induction h with
  | nil => cases hx
  | cons hxy _ ih =>
    rcases List.mem_cons.1 hx with rfl | hx
    · exact ⟨_, List.mem_cons_self, hxy⟩
    · obtain ⟨y, hy, hR⟩ := ih hx
      exact ⟨y, List.mem_cons_of_mem _ hy, hR⟩

end Members

/-- Objects that are the same have the same members other than one. -/
theorem same_omitMember {xs ys : List (Utf16 × JsValue)} (key : Utf16)
    (h : Same (.obj xs) (.obj ys)) :
    Same (.obj (omitMember key xs)) (.obj (omitMember key ys)) := by
  obtain ⟨zs, hperm, hzs⟩ := same_obj.1 h
  refine same_obj.2 ⟨omitMember key zs, hperm.filter _, ?_⟩
  exact List.rel_filter (fun m n hmn => by simp [hmn.1]) hzs

theorem same_cons {xs ys : List (Utf16 × JsValue)} (m : Utf16 × JsValue)
    (h : Same (.obj xs) (.obj ys)) : Same (.obj (m :: xs)) (.obj (m :: ys)) := by
  obtain ⟨zs, hperm, hzs⟩ := same_obj.1 h
  exact same_obj.2 ⟨m :: zs, hperm.cons m, .cons ⟨rfl, Same.refl _⟩ hzs⟩

theorem same_of_perm {xs ys : List (Utf16 × JsValue)} (h : xs.Perm ys) :
    Same (.obj xs) (.obj ys) :=
  same_obj.2 ⟨xs, h.symm, List.forall₂_same.2 fun _ _ => ⟨rfl, Same.refl _⟩⟩

/-- A string member of an object is one of each object that is the same. -/
theorem lookup_str {xs ys : List (Utf16 × JsValue)} {key s : Utf16}
    (hkeys : (ys.map Prod.fst).Nodup) (h : Same (.obj xs) (.obj ys))
    (hlookup : xs.lookup key = some (.str s)) : ys.lookup key = some (.str s) := by
  obtain ⟨zs, hperm, hzs⟩ := same_obj.1 h
  have hmem : (key, .str s) ∈ xs := by
    obtain ⟨before, after, rfl, -⟩ := List.lookup_eq_some_iff.1 hlookup
    exact List.mem_append_right _ List.mem_cons_self
  obtain ⟨⟨key', value⟩, hn, hkey, hvalue⟩ := exists_mem_of_forall₂ hzs hmem
  obtain rfl : key = key' := hkey
  cases hvalue
  exact lookup_of_mem hkeys (hperm.mem_iff.2 hn)

/-! ## Values that are read -/

/-- A value that is read is a JSON value when its numbers are finite. -/
theorem isJson_ofTree {t : Tree} (h : allFinite (ofTree t)) : IsJson (ofTree t) := by
  induction t with
  | null => exact .null
  | bool b => exact .bool b
  | num token =>
    rw [ofTree] at h ⊢
    cases hnumber : numberOf token with
    | finite x => exact .num x
    | infinite negative =>
      rw [hnumber] at h
      cases h
  | str s => exact .str s
  | arr items ih =>
    rw [ofTree, ofItems_eq] at h ⊢
    rw [allFinite, allFiniteItems_iff, List.forall_mem_map] at h
    exact .arr (List.forall_mem_map.2 fun item hitem => ih item hitem (h item hitem))
  | obj members ih =>
    rw [ofTree, ofMembers_eq] at h ⊢
    rw [allFinite, allFiniteMembers_iff] at h
    obtain ⟨hkeys, hvalues⟩ := defineMembers_spec (members.map (mapValue ofTree))
    refine .obj hkeys fun m hm => ?_
    obtain ⟨n, hn, heq⟩ := hvalues m hm
    obtain ⟨o, ho, rfl⟩ := List.mem_map.1 hn
    have hfinite := h m hm
    rw [← heq] at hfinite ⊢
    exact ih o ho hfinite

/-- An object that is read has each key once. -/
theorem nodup_jsonParse {text : Utf16} {members : List (Utf16 × JsValue)}
    (h : jsonParse text = some (.obj members)) : (members.map Prod.fst).Nodup := by
  obtain ⟨t, -, ht⟩ := Option.map_eq_some_iff.1 h
  cases t with
  | obj members' =>
    rw [ofTree, JsValue.obj.injEq] at ht
    rw [← ht]
    exact (defineMembers_spec _).1
  | _ => cases ht

theorem isJson_jsonParse {text : Utf16} {value : JsValue} (h : jsonParse text = some value)
    (hfinite : allFinite value) : IsJson value := by
  obtain ⟨t, -, rfl⟩ := Option.map_eq_some_iff.1 h
  exact isJson_ofTree hfinite

/-! ## Digests -/

/-- SHA-256 of the UTF-8 bytes of a text. -/
structure Sha256 where
  digest : Utf16 → Digest
  lt : ∀ text, digest text < 2 ^ 256

/-- `canonicalJsonDigest`, and nothing when it throws. -/
def Sha256.canonicalJsonDigest (H : Sha256) (value : JsValue) : Option Digest :=
  (canonicalizeJson value).map H.digest

/-- Hexadecimal digits, the last one first taken. -/
def hexDigits : ℕ → ℕ → Utf16
  | 0, _ => []
  | n + 1, d => hexDigits n (d / 16) ++ [hexDigit (d % 16)]

/-- A digest as text. -/
def digestText (d : Digest) : Utf16 :=
  hexDigits 64 d

/-- `/^[a-f0-9]{64}$/`. -/
def isDigestText (s : Utf16) : Bool :=
  s.length = 64 && s.all fun c => 97 ≤ c.val && c.val ≤ 102 || isDigit c

theorem length_hexDigits : ∀ n d, (hexDigits n d).length = n
  | 0, _ => rfl
  | n + 1, d => by rw [hexDigits, List.length_append, length_hexDigits, List.length_singleton]

theorem hexDigits_inj : ∀ {n d e : ℕ}, d < 16 ^ n → e < 16 ^ n → hexDigits n d = hexDigits n e → d = e
  | 0, d, e, hd, he, _ => by
    rw [pow_zero, Nat.lt_one_iff] at hd he
    rw [hd, he]
  | n + 1, d, e, hd, he, h => by
    have hinj : ∀ a < 16, ∀ b < 16, hexDigit a = hexDigit b → a = b := by decide
    rw [pow_succ] at hd he
    obtain ⟨hrest, hlast⟩ := List.append_inj' h rfl
    have hdiv : d / 16 = e / 16 :=
      hexDigits_inj (Nat.div_lt_of_lt_mul (by omega)) (Nat.div_lt_of_lt_mul (by omega)) hrest
    have hmod : d % 16 = e % 16 :=
      hinj _ (Nat.mod_lt _ (by norm_num)) _ (Nat.mod_lt _ (by norm_num)) (List.cons.inj hlast).1
    omega

theorem digestText_inj {d e : Digest} (hd : d < 2 ^ 256) (he : e < 2 ^ 256)
    (h : digestText d = digestText e) : d = e := by
  have hpow : (2 : ℕ) ^ 256 = 16 ^ 64 := by norm_num
  exact hexDigits_inj (hpow ▸ hd) (hpow ▸ he) h

theorem isDigestText_digestText (d : Digest) : isDigestText (digestText d) := by
  have hdigit : ∀ a < 16, (fun c : CodeUnit => 97 ≤ c.val && c.val ≤ 102 || isDigit c)
      (hexDigit a) := by decide
  have hall : ∀ n d, (hexDigits n d).all
      fun c => 97 ≤ c.val && c.val ≤ 102 || isDigit c := by
    intro n
    induction n with
    | zero => exact fun d => rfl
    | succ n ih =>
      intro d
      rw [hexDigits, List.all_append, ih, Bool.true_and, List.all_cons, List.all_nil, Bool.and_true]
      exact hdigit _ (Nat.mod_lt _ (by norm_num))
  rw [isDigestText, digestText, length_hexDigits, hall]
  rfl

/-! ## Graphs as values -/

/-- The code units of a string. -/
def utf16 (s : JsString) : Utf16 :=
  (s.flatMap codeUnits).map (Fin.ofNat 65536)

/-- A string as a value. -/
def textValue (s : JsString) : JsValue :=
  .str (utf16 s)

/-- An object literal. -/
def record (fields : List (String × JsValue)) : JsValue :=
  .obj (fields.map fun f => (ascii f.1, f.2))

mutual

/-- A value of the resolver. -/
def jsonValue : Json → JsValue
  | .null => .null
  | .bool b => .bool b
  | .num q =>
    .num (match nearest |q| with
      | some magnitude => .finite ⟨q < 0, magnitude⟩
      | none => .infinite (q < 0))
  | .str s => textValue s.toList
  | .arr items => .arr (jsonItems items)
  | .obj members => .obj (defineMembers (jsonMembers members))

def jsonItems : List Json → List JsValue
  | [] => []
  | item :: items => jsonValue item :: jsonItems items

def jsonMembers : List (String × Json) → List (Utf16 × JsValue)
  | [] => []
  | (key, value) :: members => (utf16 key.toList, jsonValue value) :: jsonMembers members

end

/-- The text of a file operation. -/
def FileOperation.text : FileOperation → String
  | .create => "create"
  | .update => "update"
  | .delete => "delete"

/-- `1`. -/
def oneValue : JsValue :=
  .num (.finite ⟨false, 2 ^ 52, -52, by norm_num, by norm_num, by norm_num, Or.inl le_rfl⟩)

def attributionValue (a : Attribution) : JsValue :=
  record [("kind", textValue a.kind.text), ("reference", textValue a.reference)]

def digestValue (d : Digest) : JsValue :=
  .str (digestText d)

def operationValue (o : Operation) : JsValue :=
  record [("id", textValue o.id), ("kind", .str (ascii "file-operation")),
    ("operation", .str (ascii o.operation.text)), ("path", textValue o.path),
    ("outputName", textValue o.outputName), ("mediaType", textValue o.mediaType),
    ("dependsOn", .arr (o.dependsOn.map textValue)),
    ("attribution", .arr (o.attribution.map attributionValue))]

def inputValue (id : JsString) (inputKind : String) (digest : Digest) : JsValue :=
  record [("id", textValue id), ("kind", .str (ascii "input")),
    ("inputKind", .str (ascii inputKind)), ("digest", digestValue digest), ("dependsOn", .arr [])]

def nodeValue : GraphNode → JsValue
  | .normalizedPlan digest => inputValue planNodeId "normalized-plan" digest
  | .repositoryProfile digest => inputValue profileNodeId "repository-profile" digest
  | .operation o => operationValue o

def outputValue (o : GraphOutput) : JsValue :=
  record [("name", textValue o.name), ("kind", textValue o.kind.text), ("path", textValue o.path),
    ("nodeId", textValue o.nodeId)]

/-- The fields of `graphWithoutDigest`. -/
def contentFields (content : GraphContent) : List (String × JsValue) :=
  [("schemaVersion", oneValue), ("planDigest", digestValue content.planDigest),
    ("profileDigest", digestValue content.profileDigest),
    ("repository", record [("owner", textValue content.repository.owner),
      ("name", textValue content.repository.name),
      ("baseRevision", textValue content.repository.baseRevision)]),
    ("recipe", record [("name", textValue content.recipeName),
      ("version", textValue content.recipeVersion)]),
    ("verificationProfile", textValue content.verificationProfile),
    ("nodes", .arr (content.nodes.map nodeValue)),
    ("outputs", .arr (content.outputs.map outputValue)),
    ("conflicts", .arr (content.conflicts.map jsonValue))]

/-- `graphWithoutDigest`. -/
def contentValue (content : GraphContent) : JsValue :=
  record (contentFields content)

/-- A generation graph. -/
def graphValue (graph : GenerationGraph) : JsValue :=
  record (contentFields graph.toGraphContent ++ [("graphDigest", digestValue graph.graphDigest)])

/-- The compiler with `canonicalJsonDigest` for its graphs. The canonical text of a graph exists when
it has no conflicts. -/
def Tools.hashed (T : Tools) (H : Sha256) : Tools :=
  { T with graphDigest := fun content => (H.canonicalJsonDigest (contentValue content)).getD 0 }

/-! ## Writing and replaying -/

/-- `serializeRepositoryTaskGenerationGraph`, and nothing when it throws. -/
def serializeRepositoryTaskGenerationGraph (graph : GenerationGraph) : Option Utf16 :=
  canonicalizeJson (graphValue graph)

/-- How a replay ends. -/
inductive Replay where
  | graph (value : JsValue)
  | diagnostics (values : List Diagnostic)
  | thrown

/-- `failure`. -/
def replayFailure (code path message : String) : Replay :=
  .diagnostics [diagnostic code path message.toList]

/-- `graphDigest`. -/
def graphDigestKey : Utf16 := ascii "graphDigest"

/-- The digest and the other members of a value of the right shape. -/
def splitDigest : JsValue → Option (Utf16 × List (Utf16 × JsValue))
  | .obj members =>
    match members.lookup graphDigestKey with
    | some (.str s) => if isDigestText s then some (s, omitMember graphDigestKey members) else none
    | _ => none
  | _ => none

/-- `replayRepositoryTaskGenerationGraph`. -/
def replayRepositoryTaskGenerationGraph (H : Sha256) (serializedGraph : Utf16) : Replay :=
  match jsonParse serializedGraph with
  | none => replayFailure "graph.invalid-json" "" "Retained generation graph is not valid JSON."
  | some parsed =>
    match splitDigest parsed with
    | none => replayFailure "graph.invalid" "" "Retained generation graph has an invalid shape."
    | some (graphDigest, graphWithoutDigest) =>
      match H.canonicalJsonDigest (.obj graphWithoutDigest) with
      | none => .thrown
      | some digest =>
        if digestText digest ≠ graphDigest then
          replayFailure "graph.digest-mismatch" "/graphDigest"
            "Retained generation graph digest does not match its contents."
        else
          match (canonicalizeJson parsed).bind jsonParse with
          | none => .thrown
          | some value => .graph value

/-! ## Graphs have no member `__proto__` -/

/-- A JSON value without members `__proto__`. -/
structure Plain (v : JsValue) : Prop where
  json : IsJson v
  proto : withoutProto v = v

theorem plain_str (s : Utf16) : Plain (.str s) :=
  ⟨.str s, rfl⟩

theorem plain_text (s : JsString) : Plain (textValue s) :=
  plain_str _

theorem plain_digest (d : Digest) : Plain (digestValue d) :=
  plain_str _

theorem plain_arr {items : List JsValue} (h : ∀ item ∈ items, Plain item) : Plain (.arr items) := by
  refine ⟨.arr fun item hitem => (h item hitem).json, ?_⟩
  rw [withoutProto, withoutProtoItems_eq]
  refine congrArg JsValue.arr ?_
  conv_rhs => rw [← List.map_id items]
  exact List.map_congr_left fun item hitem => (h item hitem).proto

theorem plain_obj {members : List (Utf16 × JsValue)} (hkeys : (members.map Prod.fst).Nodup)
    (hproto : protoKey ∉ members.map Prod.fst) (h : ∀ m ∈ members, Plain m.2) :
    Plain (.obj members) := by
  refine ⟨.obj hkeys fun m hm => (h m hm).json, ?_⟩
  have hother : otherMembers members = members :=
    List.filter_eq_self.2 fun m hm => decide_eq_true fun hkey =>
      hproto (List.mem_map.2 ⟨m, hm, hkey⟩)
  rw [withoutProto, withoutProtoMembers_eq, hother]
  refine congrArg JsValue.obj ?_
  conv_rhs => rw [← List.map_id members]
  exact List.map_congr_left fun m hm => Prod.ext rfl (h m hm).proto

theorem record_keys (fields : List (String × JsValue)) :
    (fields.map fun f => (ascii f.1, f.2)).map Prod.fst = (fields.map Prod.fst).map ascii := by
  rw [List.map_map, List.map_map]
  rfl

/-- An object literal with other keys than `__proto__`. -/
theorem plain_record {fields : List (String × JsValue)} (keys : List String)
    (hfields : fields.map Prod.fst = keys)
    (hkeys : (keys.map ascii).Nodup ∧ protoKey ∉ keys.map ascii) (h : ∀ f ∈ fields, Plain f.2) :
    Plain (record fields) := by
  have hmap := hfields ▸ record_keys fields
  exact plain_obj (hmap ▸ hkeys.1) (hmap ▸ hkeys.2) (List.forall_mem_map.2 h)

theorem plain_attribution (a : Attribution) : Plain (attributionValue a) :=
  plain_record ["kind", "reference"] rfl (by decide) (by simp [plain_text])

theorem plain_node (n : GraphNode) : Plain (nodeValue n) := by
  cases n with
  | normalizedPlan digest =>
    refine plain_record ["id", "kind", "inputKind", "digest", "dependsOn"] rfl (by decide) ?_
    simp [plain_text, plain_digest, plain_str, plain_arr]
  | repositoryProfile digest =>
    refine plain_record ["id", "kind", "inputKind", "digest", "dependsOn"] rfl (by decide) ?_
    simp [plain_text, plain_digest, plain_str, plain_arr]
  | operation o =>
    refine plain_record ["id", "kind", "operation", "path", "outputName", "mediaType", "dependsOn",
      "attribution"] rfl (by decide) ?_
    have hdeps : Plain (.arr (o.dependsOn.map textValue)) :=
      plain_arr (List.forall_mem_map.2 fun _ _ => plain_str _)
    have hattribution : Plain (.arr (o.attribution.map attributionValue)) :=
      plain_arr (List.forall_mem_map.2 fun a _ => plain_attribution a)
    simp [plain_text, plain_str, hdeps, hattribution]

/-- The keys of `graphWithoutDigest`. -/
def contentKeys : List String :=
  ["schemaVersion", "planDigest", "profileDigest", "repository", "recipe", "verificationProfile",
    "nodes", "outputs", "conflicts"]

theorem plain_fields {content : GraphContent} (h : content.conflicts = []) :
    ∀ f ∈ contentFields content, Plain f.2 := by
  have hrepository : Plain (record [("owner", textValue content.repository.owner),
      ("name", textValue content.repository.name),
      ("baseRevision", textValue content.repository.baseRevision)]) :=
    plain_record ["owner", "name", "baseRevision"] rfl (by decide) (by simp [plain_text])
  have hrecipe : Plain (record [("name", textValue content.recipeName),
      ("version", textValue content.recipeVersion)]) :=
    plain_record ["name", "version"] rfl (by decide) (by simp [plain_text])
  have hnodes : Plain (.arr (content.nodes.map nodeValue)) :=
    plain_arr (List.forall_mem_map.2 fun n _ => plain_node n)
  have houtputs : Plain (.arr (content.outputs.map outputValue)) :=
    plain_arr (List.forall_mem_map.2 fun o _ =>
      plain_record ["name", "kind", "path", "nodeId"] rfl (by decide) (by simp [plain_text]))
  have hone : Plain oneValue := ⟨.num _, rfl⟩
  simp [contentFields, h, plain_digest, plain_text, plain_arr, hrepository, hrecipe, hnodes,
    houtputs, hone]

theorem plain_content {content : GraphContent} (h : content.conflicts = []) :
    Plain (contentValue content) :=
  plain_record contentKeys rfl (by decide) (plain_fields h)

theorem plain_graph {graph : GenerationGraph} (h : graph.conflicts = []) :
    Plain (graphValue graph) := by
  refine plain_record (contentKeys ++ ["graphDigest"]) rfl (by decide) fun f hf => ?_
  rcases List.mem_append.1 hf with hf | hf
  · exact plain_fields h f hf
  · obtain rfl := List.mem_singleton.1 hf
    exact plain_str _

/-- The members of a graph. -/
theorem graphValue_eq (graph : GenerationGraph) : ∃ members,
    contentValue graph.toGraphContent = .obj members ∧
    graphValue graph =
      .obj (members ++ [(graphDigestKey, .str (digestText graph.graphDigest))]) ∧
    graphDigestKey ∉ members.map Prod.fst := by
  refine ⟨_, rfl, ?_, ?_⟩
  · rw [graphValue, record, List.map_append]
    rfl
  · have hkeys : (contentFields graph.toGraphContent).map Prod.fst = contentKeys := rfl
    rw [record_keys, hkeys]
    decide

/-! ## Replays -/

section Replay

variable {H : Sha256} {document : Utf16} {members : List (Utf16 × JsValue)} {d : Digest}

/-- An object is finite when its other members are, and the digest is a string. -/
theorem allFinite_iff_omitMember (hkeys : (members.map Prod.fst).Nodup) {s : Utf16}
    (hdigest : members.lookup graphDigestKey = some (.str s)) :
    allFinite (.obj members) ↔ allFinite (.obj (omitMember graphDigestKey members)) := by
  rw [allFinite, allFinite, allFiniteMembers_iff, allFiniteMembers_iff]
  have hperm := perm_omitMember hkeys hdigest
  constructor
  · exact fun h m hm => h m (hperm.mem_iff.2 (List.mem_cons_of_mem _ hm))
  · intro h m hm
    rcases List.mem_cons.1 (hperm.mem_iff.1 hm) with rfl | hm
    · rfl
    · exact h m hm

/-- A document that keeps a digest is replayed exactly when it is the digest of the other members. -/
theorem replay_iff (hd : d < 2 ^ 256) (hparse : jsonParse document = some (.obj members))
    (hkeys : (members.map Prod.fst).Nodup)
    (hdigest : members.lookup graphDigestKey = some (.str (digestText d))) (value : JsValue) :
    replayRepositoryTaskGenerationGraph H document = .graph value ↔
      H.canonicalJsonDigest (.obj (omitMember graphDigestKey members)) = some d ∧
        (canonicalizeJson (.obj members)).bind jsonParse = some value := by
  have hsplit : splitDigest (.obj members) =
      some (digestText d, omitMember graphDigestKey members) := by
    simp only [splitDigest, hdigest, isDigestText_digestText, if_true]
  simp only [replayRepositoryTaskGenerationGraph, hparse, hsplit]
  cases hcanonical : H.canonicalJsonDigest (.obj (omitMember graphDigestKey members)) with
  | none => simp
  | some e =>
    have he : e < 2 ^ 256 := by
      obtain ⟨text, -, rfl⟩ := Option.map_eq_some_iff.1 hcanonical
      exact H.lt text
    by_cases hed : e = d
    · subst hed
      cases hclone : (canonicalizeJson (.obj members)).bind jsonParse with
      | none => simp
      | some copy => simp
    · have hne : digestText e ≠ digestText d := fun h => hed (digestText_inj he hd h)
      simp [hne, hed, replayFailure]

end Replay

/-! ## Documents of a graph -/

/-- Leaving out the members `__proto__`, and another one. -/
theorem withoutProto_omitMember (key : Utf16) (members : List (Utf16 × JsValue)) :
    withoutProtoMembers (omitMember key members) = omitMember key (withoutProtoMembers members) := by
  have hmap : ∀ ms : List (Utf16 × JsValue), (omitMember key ms).map (mapValue withoutProto) =
      omitMember key (ms.map (mapValue withoutProto)) := by
    intro ms
    rw [omitMember, omitMember, List.filter_map]
    rfl
  rw [withoutProtoMembers_eq, withoutProtoMembers_eq, ← hmap]
  exact congrArg _ (omitMember_comm protoKey key members)

theorem lookup_withoutProto {members : List (Utf16 × JsValue)} {key s : Utf16}
    (hkeys : (members.map Prod.fst).Nodup)
    (h : (withoutProtoMembers members).lookup key = some (.str s)) :
    members.lookup key = some (.str s) := by
  have hmem : (key, .str s) ∈ withoutProtoMembers members := by
    obtain ⟨before, after, heq, -⟩ := List.lookup_eq_some_iff.1 h
    rw [heq]
    exact List.mem_append_right _ List.mem_cons_self
  rw [withoutProtoMembers_eq] at hmem
  obtain ⟨⟨key', value⟩, hm, heq⟩ := List.mem_map.1 hmem
  obtain ⟨rfl, hvalue⟩ := Prod.mk.inj heq
  have hstr : value = .str s := by
    cases value <;> simp_all [withoutProto]
  exact lookup_of_mem hkeys (hstr ▸ (List.mem_filter.1 hm).1)

/-- SHA-256 tells the canonical texts of the other members of a document and of a graph apart. -/
def CollisionFree (H : Sha256) (graph : GenerationGraph) (document : Utf16) : Prop :=
  ∀ members text text', jsonParse document = some (.obj members) →
    canonicalizeJson (.obj (omitMember graphDigestKey members)) = some text →
    canonicalizeJson (contentValue graph.toGraphContent) = some text' →
    H.digest text = H.digest text' → text = text'

section Document

variable {H : Sha256} {graph : GenerationGraph} {document : Utf16}
  {members : List (Utf16 × JsValue)}

/-- An object is a graph when its other members are the content, and it has the digest. -/
theorem same_graph_iff (hjson : IsJson (.obj members))
    (hdigest : members.lookup graphDigestKey = some (.str (digestText graph.graphDigest))) :
    Same (withoutProto (.obj members)) (graphValue graph) ↔
      Same (withoutProto (.obj (omitMember graphDigestKey members)))
        (contentValue graph.toGraphContent) := by
  obtain ⟨fields, hcontent, hvalue, hfresh⟩ := graphValue_eq graph
  rw [hcontent, hvalue, withoutProto, withoutProto, withoutProto_omitMember]
  constructor
  · intro h
    have hfields : omitMember graphDigestKey
        (fields ++ [(graphDigestKey, .str (digestText graph.graphDigest))]) = fields := by
      rw [omitMember, List.filter_append, List.filter_cons_of_neg (by simp), List.filter_nil,
        List.append_nil]
      exact List.filter_eq_self.2 fun m hm => decide_eq_true fun hkey =>
        hfresh (List.mem_map.2 ⟨m, hm, hkey⟩)
    have hother := same_omitMember graphDigestKey h
    rwa [hfields] at hother
  · intro h
    cases hjson with
    | obj hkeys hmembers =>
      have hperm := perm_omitMember hkeys hdigest
      -- without `__proto__`, the digest is still one of the members
      have hproto : (withoutProtoMembers members).Perm
          ((graphDigestKey, .str (digestText graph.graphDigest)) ::
            omitMember graphDigestKey (withoutProtoMembers members)) := by
        rw [← withoutProto_omitMember, withoutProtoMembers_eq, withoutProtoMembers_eq]
        exact (hperm.filter _).map _
      exact (same_of_perm hproto).trans
        ((same_cons _ h).trans (same_of_perm (List.perm_append_singleton _ _).symm))

/-- An object that is a graph up to members `__proto__` has its digest. -/
theorem digest_of_same (hkeys : (members.map Prod.fst).Nodup)
    (h : Same (withoutProto (.obj members)) (graphValue graph)) :
    members.lookup graphDigestKey = some (.str (digestText graph.graphDigest)) := by
  obtain ⟨fields, -, hvalue, hfresh⟩ := graphValue_eq graph
  refine lookup_withoutProto hkeys (lookup_str ?_ (hvalue ▸ h).symm ?_)
  · rw [withoutProtoMembers_eq, map_fst_mapValue]
    exact nodup_otherMembers hkeys
  · have hnone : fields.lookup graphDigestKey = none := by
      rw [List.lookup_eq_none_iff]
      intro m hm
      rw [bne_iff_ne]
      intro heq
      exact hfresh (List.mem_map.2 ⟨m, hm, heq.symm⟩)
    rw [List.lookup_append, hnone]
    rfl

/-- The canonical texts of the other members of a document and of a graph. -/
theorem canonicalizeJson_content_iff (hconflicts : graph.conflicts = [])
    (hparse : jsonParse document = some (.obj members)) (hfinite : allFinite (.obj members))
    (hdigest : members.lookup graphDigestKey = some (.str (digestText graph.graphDigest))) :
    canonicalizeJson (.obj (omitMember graphDigestKey members)) =
        canonicalizeJson (contentValue graph.toGraphContent) ↔
      Same (withoutProto (.obj members)) (graphValue graph) := by
  have hplain := plain_content hconflicts
  have hjson := isJson_jsonParse hparse hfinite
  have hother : IsJson (.obj (omitMember graphDigestKey members)) := by
    cases hjson with
    | obj hkeys hmembers =>
      exact .obj (nodup_omitMember hkeys) fun m hm => hmembers m (List.mem_filter.1 hm).1
  rw [canonicalizeJson_eq_iff hother hplain.json, hplain.proto]
  exact (same_graph_iff hjson hdigest).symm

/-- A value with a canonical text has finite numbers. -/
theorem allFinite_of_canonicalizeJson {value : JsValue} {text : Utf16}
    (h : canonicalizeJson value = some text) : allFinite value := by
  by_contra hnot
  rw [canonicalizeJson, if_neg hnot] at h
  cases h

/-- Documents of a graph with members `__proto__` have its canonical text. -/
theorem collisionFree_of_same (hconflicts : graph.conflicts = [])
    (h : ∀ members, jsonParse document = some (.obj members) →
      Same (withoutProto (.obj members)) (graphValue graph)) : CollisionFree H graph document := by
  intro members text text' hparse htext htext' _
  have hkeys := nodup_jsonParse hparse
  have hdigest := digest_of_same hkeys (h members hparse)
  have hfinite := (allFinite_iff_omitMember hkeys hdigest).2 (allFinite_of_canonicalizeJson htext)
  have heq := (canonicalizeJson_content_iff hconflicts hparse hfinite hdigest).2 (h members hparse)
  exact Option.some.inj (htext.symm.trans (heq.trans htext'))

/-- A document that keeps the digest of a graph is accepted exactly when it is the graph up to members
`__proto__`, and its numbers are finite. -/
theorem accepted_iff_same (hconflicts : graph.conflicts = [])
    (hgraph : H.canonicalJsonDigest (contentValue graph.toGraphContent) = some graph.graphDigest)
    (hcollision : CollisionFree H graph document) (hparse : jsonParse document = some (.obj members))
    (hdigest : members.lookup graphDigestKey = some (.str (digestText graph.graphDigest))) :
    (∃ value, replayRepositoryTaskGenerationGraph H document = .graph value) ↔
      allFinite (.obj members) ∧ Same (withoutProto (.obj members)) (graphValue graph) := by
  obtain ⟨text, htext, hd⟩ := Option.map_eq_some_iff.1 hgraph
  have hkeys := nodup_jsonParse hparse
  have hlt : graph.graphDigest < 2 ^ 256 := hd ▸ H.lt text
  constructor
  · rintro ⟨value, hreplay⟩
    obtain ⟨hcanonical, -⟩ := (replay_iff hlt hparse hkeys hdigest value).1 hreplay
    obtain ⟨text', htext', hd'⟩ := Option.map_eq_some_iff.1 hcanonical
    have hfinite := (allFinite_iff_omitMember hkeys hdigest).2 (allFinite_of_canonicalizeJson htext')
    refine ⟨hfinite, (canonicalizeJson_content_iff hconflicts hparse hfinite hdigest).1 ?_⟩
    rw [htext', htext, hcollision members text' text hparse htext' htext (hd'.trans hd.symm)]
  · rintro ⟨hfinite, hsame⟩
    have heq := (canonicalizeJson_content_iff hconflicts hparse hfinite hdigest).2 hsame
    obtain ⟨clone, value, hclone, hvalue, -⟩ :=
      canonicalizeJson_jsonParse (isJson_jsonParse hparse hfinite)
    refine ⟨value, (replay_iff hlt hparse hkeys hdigest value).2 ⟨?_, ?_⟩⟩
    · rw [Sha256.canonicalJsonDigest, heq, htext, Option.map_some, hd]
    · rw [hclone, Option.bind_some, hvalue]

/-- A graph that is written is replayed. -/
theorem serialized_replayed (hconflicts : graph.conflicts = [])
    (hgraph : H.canonicalJsonDigest (contentValue graph.toGraphContent) = some graph.graphDigest) :
    ∃ text value, serializeRepositoryTaskGenerationGraph graph = some text ∧
      replayRepositoryTaskGenerationGraph H text = .graph value ∧ Same value (graphValue graph) := by
  have hplain := plain_graph hconflicts
  obtain ⟨text, value, htext, hparse, hvalue, hjson, hsame⟩ := canonicalizeJson_jsonParse hplain.json
  rw [hplain.proto] at hsame
  obtain ⟨fields, -, hgraphValue, -⟩ := graphValue_eq graph
  obtain ⟨members, rfl⟩ : ∃ members, value = .obj members := by
    rw [hgraphValue] at hsame
    cases hsame
    exact ⟨_, rfl⟩
  have hkeys := nodup_jsonParse hparse
  have hproto : Same (withoutProto (.obj members)) (graphValue graph) := by
    have h := same_withoutProto hjson hplain.json hsame
    rwa [hplain.proto] at h
  have hdigest := digest_of_same hkeys hproto
  obtain ⟨text', htext', hd⟩ := Option.map_eq_some_iff.1 hgraph
  have heq := (canonicalizeJson_content_iff hconflicts hparse (allFinite_of_isJson hjson)
    hdigest).2 hproto
  refine ⟨text, .obj members, htext, ?_, hsame⟩
  refine (replay_iff (hd ▸ H.lt text') hparse hkeys hdigest _).2 ⟨?_, ?_⟩
  · rw [Sha256.canonicalJsonDigest, heq]
    exact hgraph
  · rw [hvalue, Option.bind_some, hparse]

end Document

/-! ## The law of graphs -/

/-- What replaying is for : a graph is replayed as itself, and a document that keeps its digest and is
another value is rejected. -/
structure GraphLaw (H : Sha256) (graph : GenerationGraph) (document : Utf16) : Prop where
  replayed : ∃ text value, serializeRepositoryTaskGenerationGraph graph = some text ∧
    replayRepositoryTaskGenerationGraph H text = .graph value ∧ Same value (graphValue graph)
  rejected : ∀ members, jsonParse document = some (.obj members) →
    members.lookup graphDigestKey = some (.str (digestText graph.graphDigest)) →
    ¬Same (.obj members) (graphValue graph) →
    ∀ value, replayRepositoryTaskGenerationGraph H document ≠ .graph value

/-- A compiled graph has no conflicts, and the digest of its content. -/
theorem compiled_graph {T : Tools} {H : Sha256} {resolvers : JsString → Option Resolver}
    {authoredPlan : AuthoredPlan} {profileInput : Json} {graph : GenerationGraph}
    (h : compileRepositoryTaskPlan (T.hashed H) resolvers authoredPlan profileInput = .ok graph) :
    graph.conflicts = [] ∧
      H.canonicalJsonDigest (contentValue graph.toGraphContent) = some graph.graphDigest := by
  obtain ⟨resolved, -, hcompile⟩ := Except.bind_eq_ok.1 h
  obtain ⟨operations, hpasses⟩ := compileResolution_passes hcompile
  obtain ⟨-, hgraph⟩ := hpasses.compile_iff.1 hcompile
  have hconflicts : graph.conflicts = [] := by
    rw [hgraph]
    rfl
  refine ⟨hconflicts, ?_⟩
  have hdigest : graph.graphDigest =
      (H.canonicalJsonDigest (contentValue graph.toGraphContent)).getD 0 := by
    rw [hgraph]
    rfl
  rw [hdigest, Sha256.canonicalJsonDigest, canonicalizeJson_eq (plain_content hconflicts).json]
  rfl

/-- A compiled graph obeys the law for a document exactly when the document does not differ from it in
members `__proto__` only. -/
theorem graph_law_iff {T : Tools} {H : Sha256} {resolvers : JsString → Option Resolver}
    {authoredPlan : AuthoredPlan} {profileInput : Json} {graph : GenerationGraph}
    {document : Utf16}
    (hgraph : compileRepositoryTaskPlan (T.hashed H) resolvers authoredPlan profileInput = .ok graph)
    (hcollision : CollisionFree H graph document) :
    GraphLaw H graph document ↔ ∀ value, jsonParse document = some value → allFinite value →
      Same (withoutProto value) (graphValue graph) → Same value (graphValue graph) := by
  obtain ⟨hconflicts, hdigest⟩ := compiled_graph hgraph
  constructor
  · intro h value hparse hfinite hsame
    obtain ⟨members, rfl⟩ : ∃ members, value = .obj members := by
      obtain ⟨fields, -, hgraphValue, -⟩ := graphValue_eq graph
      rw [hgraphValue] at hsame
      cases value <;> first | exact ⟨_, rfl⟩ | cases hsame
    have hkept := digest_of_same (nodup_jsonParse hparse) hsame
    obtain ⟨value, hreplay⟩ :=
      (accepted_iff_same hconflicts hdigest hcollision hparse hkept).2 ⟨hfinite, hsame⟩
    by_contra hdiffers
    exact h.rejected members hparse hkept hdiffers value hreplay
  · intro h
    refine ⟨serialized_replayed hconflicts hdigest, fun members hparse hkept hdiffers value hreplay => ?_⟩
    obtain ⟨hfinite, hsame⟩ :=
      (accepted_iff_same hconflicts hdigest hcollision hparse hkept).1 ⟨value, hreplay⟩
    exact hdiffers (h _ hparse hfinite hsame)

/-! ## The graph of two modules -/

/-- The tools of the scripts, with the digests of the plan and of the profile. -/
def moduleTools : Tools :=
  { scriptTools with
    planDigest := fun _ =>
      0x10d2809d7889221f636089634b97c5908cf50b0e3b37fe491dae6adbd32766ae,
    profileDigest := fun _ =>
      0x151362262101311f297198c320b458f6a28b50c5ca9a4adf788f1dfcd7848b8c }

/-- SHA-256 of the text of the graph, which is the only one that is hashed. -/
def moduleSha256 : Sha256 where
  digest := fun _ => 0x39c9b424e1a8d1e4cee70674e90e413c82e2d636647fbf5e660101ccb6954023
  lt := fun _ => by norm_num

set_option maxRecDepth 10000 in
/-- The plan of two modules is compiled. -/
theorem moduleGraph_compiled : ∃ graph, compileRepositoryTaskPlan (moduleTools.hashed moduleSha256)
    (moduleResolvers (moduleAnswer "module")) (modulePlan ["core/**"])
    (moduleProfile [.str "core/**"]) = .ok graph :=
  ⟨_, rfl⟩

/-- Its own text is replayed. -/
theorem module_graph_law : ∃ graph text, compileRepositoryTaskPlan (moduleTools.hashed moduleSha256)
      (moduleResolvers (moduleAnswer "module")) (modulePlan ["core/**"])
      (moduleProfile [.str "core/**"]) = .ok graph ∧
    serializeRepositoryTaskGenerationGraph graph = some text ∧ GraphLaw moduleSha256 graph text := by
  obtain ⟨graph, hgraph⟩ := moduleGraph_compiled
  obtain ⟨hconflicts, -⟩ := compiled_graph hgraph
  have hplain := plain_graph hconflicts
  obtain ⟨text, value, htext, hparse, -, hjson, hsame⟩ := canonicalizeJson_jsonParse hplain.json
  rw [hplain.proto] at hsame
  have hcollision : CollisionFree moduleSha256 graph text := by
    refine collisionFree_of_same hconflicts fun members hmembers => ?_
    obtain rfl := Option.some.inj (hparse.symm.trans hmembers)
    have h := same_withoutProto hjson hplain.json hsame
    rwa [hplain.proto] at h
  refine ⟨graph, text, hgraph, htext, (graph_law_iff hgraph hcollision).2 fun value' hvalue' _ _ => ?_⟩
  obtain rfl := Option.some.inj (hparse.symm.trans hvalue')
  exact hsame

/-- The keys of a graph. -/
theorem graphValue_keys (graph : GenerationGraph) : ∃ members, graphValue graph = .obj members ∧
    members.map Prod.fst = (contentKeys ++ ["graphDigest"]).map ascii := by
  refine ⟨_, rfl, ?_⟩
  rw [record_keys]
  rfl

/-- Objects that are the same have as many members. -/
theorem length_eq_of_same {xs ys : List (Utf16 × JsValue)} (h : Same (.obj xs) (.obj ys)) :
    xs.length = ys.length := by
  obtain ⟨zs, hperm, hzs⟩ := same_obj.1 h
  exact hzs.length_eq.trans hperm.length_eq.symm

/-- A graph with another member `"__proto__": true` is replayed. -/
theorem proto_member_replayed : ¬∀ (T : Tools) (H : Sha256) (resolvers : JsString → Option Resolver)
    (authoredPlan : AuthoredPlan) (profileInput : Json) (graph : GenerationGraph)
    (document : Utf16),
    compileRepositoryTaskPlan (T.hashed H) resolvers authoredPlan profileInput = .ok graph →
    CollisionFree H graph document → GraphLaw H graph document := by
  intro hlaw
  obtain ⟨graph, hgraph⟩ := moduleGraph_compiled
  obtain ⟨hconflicts, hdigest⟩ := compiled_graph hgraph
  have hplain := plain_graph hconflicts
  obtain ⟨fields, hvalue, hfields⟩ := graphValue_keys graph
  -- the document is the graph with one more member
  have hjson : IsJson (.obj ((protoKey, .bool true) :: fields)) := by
    have hplainJson := hplain.json
    rw [hvalue] at hplainJson
    cases hplainJson with
    | obj hkeys hmembers =>
      refine .obj (List.nodup_cons.2 ⟨?_, hkeys⟩) (List.forall_mem_cons.2 ⟨.bool true, hmembers⟩)
      rw [hfields]
      decide
  have hproto : withoutProto (.obj ((protoKey, .bool true) :: fields)) = graphValue graph := by
    have h := hplain.proto
    rw [hvalue, withoutProto] at h
    rw [hvalue, withoutProto, withoutProtoMembers, if_pos rfl, h]
  obtain ⟨hread, hreadJson⟩ := same_ofTree_toTree hjson
  have hparse : jsonParse (stringify (.obj ((protoKey, .bool true) :: fields))) =
      some (ofTree (toTree (.obj ((protoKey, .bool true) :: fields)))) := by
    rw [jsonParse, stringify, parse_render (toTree_valid _), Option.map_some]
  obtain ⟨members, hmembers⟩ : ∃ members,
      ofTree (toTree (.obj ((protoKey, .bool true) :: fields))) = .obj members := ⟨_, rfl⟩
  rw [hmembers] at hread hreadJson hparse
  have hsame : Same (withoutProto (.obj members)) (graphValue graph) :=
    hproto ▸ same_withoutProto hreadJson hjson hread
  have hcollision : CollisionFree moduleSha256 graph
      (stringify (.obj ((protoKey, .bool true) :: fields))) := by
    refine collisionFree_of_same hconflicts fun members' hmembers' => ?_
    obtain heq := JsValue.obj.inj (Option.some.inj (hparse.symm.trans hmembers'))
    exact heq ▸ hsame
  have hkept := digest_of_same (nodup_jsonParse hparse) hsame
  obtain ⟨value, hreplay⟩ := (accepted_iff_same hconflicts hdigest hcollision hparse hkept).2
    ⟨allFinite_of_isJson hreadJson, hsame⟩
  refine (hlaw _ _ _ _ _ _ _ hgraph hcollision).rejected members hparse hkept ?_ value hreplay
  intro hequal
  have hlength := length_eq_of_same (hvalue ▸ hread.symm.trans hequal)
  simp at hlength

end FactoryFloor
