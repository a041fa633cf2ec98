import FactoryFloor.TemplateRequests

/-!
# Parameters of a template

A body of a template refers to parameters by paths. `parameterValue` follows a path with `in`, which
sees what an object inherits, so a path can end on a method of `Object.prototype`, which cannot be
cloned, or on `Object.prototype` itself. `mergeObjects` assigns to the keys of the configuration of a
template, and an assignment to `__proto__` changes what the result inherits from.

A body is bound exactly when every reference is to own properties, or the first reference that fails
is not to a method. Objects are merged exactly when no override has a key `__proto__` that the base
has not (`parameter_binding_iff`).

A path is read as the source splits it : a path with a first `/` is a pointer, any other is dotted,
and empty segments count for nothing.
-/

namespace FactoryFloor

open JsonText

/-! ## Properties -/

/-- The methods of `Object.prototype`, and its constructor. -/
def objectMethods : List Utf16 :=
  ["constructor", "__defineGetter__", "__defineSetter__", "hasOwnProperty", "__lookupGetter__",
    "__lookupSetter__", "isPrototypeOf", "propertyIsEnumerable", "toString", "valueOf",
    "toLocaleString"].map ascii

/-- What a property is read as. -/
inductive Found where
  | value (v : JsValue)
  /-- A function of `Object.prototype`. -/
  | method
  /-- `Object.prototype`, as `__proto__` of a plain object. -/
  | prototype

/-- `value[part]`, when the value is an object with `part in value`. -/
def readProperty : Found → Utf16 → Option Found
  | .value (.obj members), part =>
    match members.lookup part with
    | some v => some (.value v)
    | none =>
      if part = protoKey then some .prototype
      else if part ∈ objectMethods then some .method
      else none
  | .prototype, part =>
    if part = protoKey then some (.value .null)
    else if part ∈ objectMethods then some .method
    else none
  | _, _ => none

/-- `structuredClone`. -/
def structuredClone : Found → Except Thrown JsValue
  | .value v => .ok v
  | .method => .error (.other "DataCloneError")
  | .prototype => .ok (.obj [])

/-! ## References -/

/-- `text.split(separator).filter(Boolean)`. -/
def segments (separator : CodeUnit) (text : Utf16) : List Utf16 :=
  (Separators.splitEvery separator text).filter (· ≠ [])

/-- `text.replaceAll(pattern, replacement)` of a pattern of two code units. -/
def replacePair (a b replacement : CodeUnit) : Utf16 → Utf16
  | c :: d :: text =>
    if c = a ∧ d = b then replacement :: replacePair a b replacement text
    else c :: replacePair a b replacement (d :: text)
  | text => text

/-- The parts of a path. -/
def pathParts (path : Utf16) : List Utf16 :=
  if path.head? = some 47 then
    (segments 47 path.tail).map fun part => replacePair 126 48 126 (replacePair 126 49 47 part)
  else segments 46 path

/-- `DomainError` with the code `invalid_template_parameters`. -/
def notSupplied (path : Utf16) : Thrown :=
  .domain "invalid_template_parameters"
    (ascii "Template parameter " ++ path ++ ascii " was not supplied")

/-- One turn of the loop of `parameterValue`. -/
def followPart (path : Utf16) (value : Found) (part : Utf16) : Except Thrown Found :=
  match readProperty value part with
  | some found => .ok found
  | none => .error (notSupplied path)

/-- `parameterValue`. -/
def parameterValue (parameters : List (Utf16 × JsValue)) (path : Utf16) : Except Thrown Found :=
  (pathParts path).foldlM (followPart path) (.value (.obj parameters))

/-- The path of an object that refers to a parameter. -/
def referencedPath : List (Utf16 × JsValue) → Option Utf16
  | [(key, .str path)] => if key = ascii "$parameter" then some path else none
  | _ => none

mutual

/-- A body with the references that it has replaced. -/
def bindWith (parameter : Utf16 → Except Thrown JsValue) : JsValue → Except Thrown JsValue
  | .arr items => return .arr (← bindItems parameter items)
  | .obj members =>
    match referencedPath members with
    | some path => parameter path
    | none => return .obj (defineMembers (← bindMembers parameter members))
  | value => return value

def bindItems (parameter : Utf16 → Except Thrown JsValue) :
    List JsValue → Except Thrown (List JsValue)
  | [] => return []
  | item :: items => return (← bindWith parameter item) :: (← bindItems parameter items)

def bindMembers (parameter : Utf16 → Except Thrown JsValue) :
    List (Utf16 × JsValue) → Except Thrown (List (Utf16 × JsValue))
  | [] => return []
  | (key, item) :: members =>
    return (key, ← bindWith parameter item) :: (← bindMembers parameter members)

end

/-- `bindParameters` of the instantiation service. -/
def TemplateInstantiationService.bindParameters (value : JsValue)
    (parameters : List (Utf16 × JsValue)) : Except Thrown JsValue :=
  bindWith (fun path => do structuredClone (← parameterValue parameters path)) value

/-- `bindParameters` of the initial-state resolver, the same text. -/
def TemplateInitialStateResolver.bindParameters (value : JsValue)
    (parameters : List (Utf16 × JsValue)) : Except Thrown JsValue :=
  bindWith (fun path => do structuredClone (← parameterValue parameters path)) value

/-! ## What a path names -/

/-- The own property that a path names. -/
def ownValue : JsValue → List Utf16 → Option JsValue
  | value, [] => some value
  | .obj members, part :: parts => (members.lookup part).bind fun value => ownValue value parts
  | _, _ :: _ => none

/-- The own property of the parameters that a path names, or the error that it is not supplied. -/
def ownParameter (parameters : List (Utf16 × JsValue)) (path : Utf16) : Except Thrown JsValue :=
  match ownValue (.obj parameters) (pathParts path) with
  | some value => .ok value
  | none => .error (notSupplied path)

/-- Where a path ends. -/
inductive Ending where
  | own
  /-- On `Object.prototype`, or on what it inherits from. -/
  | prototype
  | method
  | absent
deriving DecidableEq

/-- Where a path ends that has come to `Object.prototype`, which inherits from `null`. -/
def prototypeEnding : List Utf16 → Ending
  | [] => .prototype
  | name :: parts =>
    if name = protoKey ∧ parts = [] then .prototype
    else if name ∈ objectMethods ∧ parts = [] then .method
    else .absent

/-- Where a path ends that has left the own properties of an object at a part. -/
def inheritedEnding (part : Utf16) (parts : List Utf16) : Ending :=
  if part = protoKey then prototypeEnding parts
  else if part ∈ objectMethods ∧ parts = [] then .method
  else .absent

/-- Where a path ends. -/
def ending : JsValue → List Utf16 → Ending
  | _, [] => .own
  | .obj members, part :: parts =>
    match members.lookup part with
    | some value => ending value parts
    | none => inheritedEnding part parts
  | _, _ :: _ => .absent

/-- What an ending says of the own property and of what the code returns. -/
def Ending.Describes (path : Utf16) (own : Option JsValue) (outcome : Except Thrown JsValue) :
    Ending → Prop
  | .own => ∃ value, own = some value ∧ outcome = .ok value
  | .prototype => own = none ∧ ∃ value, outcome = .ok value
  | .method => own = none ∧ outcome = .error (.other "DataCloneError")
  | .absent => own = none ∧ outcome = .error (notSupplied path)

theorem prototypeEnding_describes (path : Utf16) (parts : List Utf16) :
    (prototypeEnding parts).Describes path none
      (do structuredClone (← parts.foldlM (followPart path) Found.prototype)) := by
  rcases parts with - | ⟨name, parts⟩
  · exact ⟨rfl, _, rfl⟩
  rw [prototypeEnding, List.foldlM_cons, followPart, readProperty]
  by_cases hproto : name = protoKey
  · rw [if_pos hproto]
    rcases parts with - | ⟨next, parts⟩
    · rw [if_pos ⟨hproto, rfl⟩]
      exact ⟨rfl, _, rfl⟩
    · rw [if_neg (by simp), if_neg (by simp)]
      exact ⟨rfl, rfl⟩
  · have hnot : ¬(name = protoKey ∧ parts = []) := fun hand => hproto hand.1
    rw [if_neg hproto, if_neg hnot]
    by_cases hname : name ∈ objectMethods
    · rw [if_pos hname]
      rcases parts with - | ⟨next, parts⟩
      · rw [if_pos ⟨hname, rfl⟩]
        exact ⟨rfl, rfl⟩
      · rw [if_neg (by simp)]
        exact ⟨rfl, rfl⟩
    · have hnone : ¬(name ∈ objectMethods ∧ parts = []) := fun hand => hname hand.1
      rw [if_neg hname, if_neg hnone]
      exact ⟨rfl, rfl⟩

/-- Where a part is not an own property, the rest of the path ends on what is inherited. -/
theorem inheritedEnding_describes {path part : Utf16} {parts : List Utf16}
    {members : List (Utf16 × JsValue)} (h : members.lookup part = none) :
    (inheritedEnding part parts).Describes path none
      (do structuredClone (← (part :: parts).foldlM (followPart path) (.value (.obj members)))) := by
  rw [inheritedEnding, List.foldlM_cons, followPart, readProperty, h]
  by_cases hproto : part = protoKey
  · rw [if_pos hproto, if_pos hproto]
    exact prototypeEnding_describes path parts
  · rw [if_neg hproto, if_neg hproto]
    by_cases hname : part ∈ objectMethods
    · rw [if_pos hname]
      rcases parts with - | ⟨next, parts⟩
      · rw [if_pos ⟨hname, rfl⟩]
        exact ⟨rfl, rfl⟩
      · rw [if_neg (by simp)]
        exact ⟨rfl, rfl⟩
    · have hnone : ¬(part ∈ objectMethods ∧ parts = []) := fun hand => hname hand.1
      rw [if_neg hname, if_neg hnone]
      exact ⟨rfl, rfl⟩

/-- A path that is followed from a value ends as its parts say. -/
theorem ending_describes (path : Utf16) (parts : List Utf16) (value : JsValue) :
    (ending value parts).Describes path (ownValue value parts)
      (do structuredClone (← parts.foldlM (followPart path) (.value value))) := by
  induction parts generalizing value with
  | nil =>
    rw [ending, ownValue]
    exact ⟨value, rfl, rfl⟩
  | cons part parts ih =>
    cases value with
    | obj members =>
      rw [ending, ownValue]
      cases h : members.lookup part with
      | none => exact inheritedEnding_describes h
      | some next =>
        have hread : (part :: parts).foldlM (followPart path) (.value (.obj members)) =
            parts.foldlM (followPart path) (.value next) := by
          rw [List.foldlM_cons, followPart, readProperty, h]
          rfl
        rw [hread]
        exact ih next
    | _ => exact ⟨rfl, rfl⟩

/-! ## Bodies -/

mutual

/-- The paths that a body refers to, in the order they are looked up. -/
def references : JsValue → List Utf16
  | .arr items => itemReferences items
  | .obj members =>
    match referencedPath members with
    | some path => [path]
    | none => memberReferences members
  | _ => []

def itemReferences : List JsValue → List Utf16
  | [] => []
  | item :: items => references item ++ itemReferences items

def memberReferences : List (Utf16 × JsValue) → List Utf16
  | [] => []
  | (_, item) :: members => references item ++ memberReferences members

end

/-- The error that a computation ends with. -/
def errorOf {ε α : Type*} : Except ε α → Option ε
  | .ok _ => none
  | .error e => some e

theorem errorOf_bind {ε α β : Type} (x : Except ε α) (f : α → Except ε β)
    (hf : ∀ a, errorOf (f a) = none) : errorOf (x >>= f) = errorOf x := by
  cases x with
  | ok a => exact hf a
  | error e => rfl

theorem errorOf_bind_bind {ε α β γ : Type} (x : Except ε α) (y : Except ε β)
    (f : α → β → Except ε γ) (hf : ∀ a b, errorOf (f a b) = none) :
    errorOf (do f (← x) (← y)) = (errorOf x).or (errorOf y) := by
  cases x with
  | ok a => exact errorOf_bind y (f a) (hf a)
  | error e => rfl

variable {f g : Utf16 → Except Thrown JsValue} {body : JsValue}

/-- A body is bound up to the first reference that fails. -/
theorem errorOf_bindWith (f : Utf16 → Except Thrown JsValue) (body : JsValue) :
    errorOf (bindWith f body) = (references body).findSome? fun path => errorOf (f path) := by
  induction body with
  | null | bool | num | str => rfl
  | arr items ih =>
    have hitems : errorOf (bindItems f items) =
        (itemReferences items).findSome? fun path => errorOf (f path) := by
      induction items with
      | nil => rfl
      | cons item items ihItems =>
        rw [bindItems, itemReferences, List.findSome?_append, ← ih item List.mem_cons_self,
          ← ihItems fun item' h => ih item' (List.mem_cons_of_mem _ h)]
        exact errorOf_bind_bind _ _ _ fun _ _ => rfl
    rw [bindWith, references, ← hitems]
    exact errorOf_bind _ _ fun _ => rfl
  | obj members ih =>
    rw [bindWith, references]
    cases hpath : referencedPath members with
    | some path =>
      dsimp only
      rw [List.findSome?_singleton]
    | none =>
      have hmembers : errorOf (bindMembers f members) =
          (memberReferences members).findSome? fun path => errorOf (f path) := by
        clear hpath
        induction members with
        | nil => rfl
        | cons m members ihMembers =>
          obtain ⟨key, item⟩ := m
          rw [bindMembers, memberReferences, List.findSome?_append,
            ← ih (key, item) List.mem_cons_self,
            ← ihMembers fun m h => ih m (List.mem_cons_of_mem _ h)]
          exact errorOf_bind_bind _ _ _ fun _ _ => rfl
      dsimp only
      rw [← hmembers]
      exact errorOf_bind _ _ fun _ => rfl

/-- What a body is bound to depends on the references only. -/
theorem bindWith_congr (h : ∀ path ∈ references body, f path = g path) :
    bindWith f body = bindWith g body := by
  induction body with
  | null | bool | num | str => rfl
  | arr items ih =>
    have hitems : bindItems f items = bindItems g items := by
      rw [references] at h
      induction items with
      | nil => rfl
      | cons item items ihItems =>
        rw [itemReferences] at h
        rw [bindItems, bindItems, ih item List.mem_cons_self fun path hp =>
            h path (List.mem_append_left _ hp),
          ihItems (fun item' hitem => ih item' (List.mem_cons_of_mem _ hitem)) fun path hp =>
            h path (List.mem_append_right _ hp)]
    rw [bindWith, bindWith, hitems]
  | obj members ih =>
    rw [references] at h
    rw [bindWith, bindWith]
    cases hpath : referencedPath members with
    | some path =>
      rw [hpath] at h
      exact h path List.mem_cons_self
    | none =>
      rw [hpath] at h
      dsimp only at h ⊢
      have hmembers : bindMembers f members = bindMembers g members := by
        clear hpath
        induction members with
        | nil => rfl
        | cons m members ihMembers =>
          obtain ⟨key, item⟩ := m
          rw [memberReferences] at h
          rw [bindMembers, bindMembers, ih (key, item) List.mem_cons_self fun path hp =>
              h path (List.mem_append_left _ hp),
            ihMembers (fun m hm => ih m (List.mem_cons_of_mem _ hm)) fun path hp =>
              h path (List.mem_append_right _ hp)]
      rw [hmembers]

/-! ## Exact binding -/

/-- A body is bound to the own properties that its references name, or the instantiation fails for
its parameters. -/
structure BindsExactly (parameters : List (Utf16 × JsValue)) (body : JsValue) : Prop where
  bound : ∀ value, TemplateInstantiationService.bindParameters body parameters = .ok value →
    bindWith (ownParameter parameters) body = .ok value
  failed : ∀ e, TemplateInstantiationService.bindParameters body parameters = .error e →
    ∃ message, e = .domain "invalid_template_parameters" message

/-- Where the references of a body end. -/
def endings (parameters : List (Utf16 × JsValue)) (body : JsValue) : List Ending :=
  (references body).map fun path => ending (.obj parameters) (pathParts path)

/-- Every reference is to an own property, or the first one that fails names nothing, not even a
method. -/
def BindsSafely (parameters : List (Utf16 × JsValue)) (body : JsValue) : Prop :=
  (∀ e ∈ endings parameters body, e = .own) ∨
    (endings parameters body).find? (fun e => e = .method ∨ e = .absent) = some .absent

instance (parameters : List (Utf16 × JsValue)) (body : JsValue) :
    Decidable (BindsSafely parameters body) :=
  inferInstanceAs (Decidable (_ ∨ _))

/-- The error of a reference. -/
def Ending.error? (path : Utf16) : Ending → Option Thrown
  | .own | .prototype => none
  | .method => some (.other "DataCloneError")
  | .absent => some (notSupplied path)

section Exact

variable {parameters : List (Utf16 × JsValue)}

/-- The value that a reference is replaced by. -/
def boundReference (parameters : List (Utf16 × JsValue)) (path : Utf16) : Except Thrown JsValue := do
  structuredClone (← parameterValue parameters path)

theorem boundReference_describes (parameters : List (Utf16 × JsValue)) (path : Utf16) :
    (ending (.obj parameters) (pathParts path)).Describes path
      (ownValue (.obj parameters) (pathParts path)) (boundReference parameters path) :=
  ending_describes path (pathParts path) (.obj parameters)

theorem errorOf_boundReference (path : Utf16) :
    errorOf (boundReference parameters path) =
      (ending (.obj parameters) (pathParts path)).error? path := by
  have h := boundReference_describes parameters path
  cases hending : ending (.obj parameters) (pathParts path) with
  | own =>
    rw [hending] at h
    obtain ⟨value, -, houtcome⟩ := h
    rw [houtcome]
    rfl
  | prototype =>
    rw [hending] at h
    obtain ⟨-, value, houtcome⟩ := h
    rw [houtcome]
    rfl
  | method =>
    rw [hending] at h
    rw [h.2]
    rfl
  | absent =>
    rw [hending] at h
    rw [h.2]
    rfl

theorem errorOf_ownParameter (path : Utf16) :
    errorOf (ownParameter parameters path) = none ↔
      ending (.obj parameters) (pathParts path) = .own := by
  have h := boundReference_describes parameters path
  rw [ownParameter]
  cases hending : ending (.obj parameters) (pathParts path) with
  | own =>
    rw [hending] at h
    obtain ⟨value, hown, -⟩ := h
    simp [hown, errorOf]
  | _ =>
    rw [hending] at h
    simp [h.1, errorOf]

theorem ownParameter_of_own {path : Utf16}
    (hown : ending (.obj parameters) (pathParts path) = .own) :
    boundReference parameters path = ownParameter parameters path := by
  have h := boundReference_describes parameters path
  rw [hown] at h
  obtain ⟨value, hvalue, houtcome⟩ := h
  rw [houtcome, ownParameter, hvalue]

/-- A body is bound exactly when its references are safe. -/
theorem bindsExactly_iff : BindsExactly parameters body ↔ BindsSafely parameters body := by
  have hcode : TemplateInstantiationService.bindParameters body parameters =
      bindWith (boundReference parameters) body := rfl
  have herror := errorOf_bindWith (boundReference parameters) body
  simp only [errorOf_boundReference] at herror
  constructor
  · intro h
    cases hbound : bindWith (boundReference parameters) body with
    | ok value =>
      left
      have hown := errorOf_bindWith (ownParameter parameters) body
      rw [h.bound value hbound, errorOf, eq_comm, List.findSome?_eq_none_iff] at hown
      exact List.forall_mem_map.2 fun path hpath => errorOf_ownParameter path |>.1 (hown path hpath)
    | error e =>
      right
      obtain ⟨message, rfl⟩ := h.failed e hbound
      rw [hbound, errorOf, eq_comm, List.findSome?_eq_some_iff] at herror
      obtain ⟨before, path, after, hrefs, hpath, hbefore⟩ := herror
      have habsent : ending (.obj parameters) (pathParts path) = .absent := by
        cases hending : ending (.obj parameters) (pathParts path) <;>
          simp [hending, Ending.error?] at hpath ⊢
      rw [endings, hrefs, List.find?_eq_some_iff_append]
      refine ⟨by simp, before.map _, after.map _, by rw [List.map_append, List.map_cons, habsent], ?_⟩
      refine List.forall_mem_map.2 fun q hq => ?_
      have hnone := hbefore q hq
      cases hending : ending (.obj parameters) (pathParts q) <;>
        simp [hending, Ending.error?] at hnone ⊢
  · rintro (hown | habsent)
    · have hall : ∀ path ∈ references body, ending (.obj parameters) (pathParts path) = .own :=
        List.forall_mem_map.1 hown
      have hsame : bindWith (boundReference parameters) body =
          bindWith (ownParameter parameters) body :=
        bindWith_congr fun path hpath => ownParameter_of_own (hall path hpath)
      have hnone : errorOf (bindWith (boundReference parameters) body) = none := by
        rw [herror, List.findSome?_eq_none_iff]
        intro path hpath
        rw [hall path hpath]
        rfl
      refine ⟨fun value hvalue => ?_, fun e he => ?_⟩
      · rw [← hsame, ← hcode, hvalue]
      · rw [← hcode, he] at hnone
        cases hnone
    · rw [endings, List.find?_map, Option.map_eq_some_iff] at habsent
      obtain ⟨path, hfind, habsent⟩ := habsent
      obtain ⟨-, before, after, hrefs, hbefore⟩ := List.find?_eq_some_iff_append.1 hfind
      have hfails : errorOf (bindWith (boundReference parameters) body) =
          some (notSupplied path) := by
        rw [herror, hrefs, List.findSome?_append, List.findSome?_cons, habsent]
        have hnone : before.findSome? (fun q =>
            (ending (.obj parameters) (pathParts q)).error? q) = none := by
          refine List.findSome?_eq_none_iff.2 fun q hq => ?_
          have hq' := hbefore q hq
          cases hending : ending (.obj parameters) (pathParts q) <;>
            simp [hending, Ending.error?] at hq' ⊢
        rw [hnone]
        rfl
      refine ⟨fun value hvalue => ?_, fun e he => ?_⟩
      · rw [← hcode, hvalue] at hfails
        cases hfails
      · rw [← hcode, he] at hfails
        exact ⟨_, Option.some.inj hfails⟩

end Exact

/-! ## Merging -/

/-- What an object inherits from. -/
inductive Chain where
  | object
  | null
  | array (items : List JsValue)
  | over (members : List (Utf16 × JsValue)) (chain : Chain)

/-- An object that is being assigned to. -/
structure Merged where
  members : List (Utf16 × JsValue)
  chain : Chain

/-- The members of a value, when it is an object and not an array. -/
def objectMembers : Option JsValue → Option (List (Utf16 × JsValue))
  | some (.obj members) => some members
  | _ => none

/-- The members of what is inherited for a key, when it is an object and not an array or a function.
`__proto__` is read before it is assigned, since the keys of an override are distinct. -/
def Chain.current (key : Utf16) : Chain → Option (List (Utf16 × JsValue))
  | .object => if key = protoKey then some [] else none
  | .null => none
  | .array items => (arrayIndex key).bind fun i => objectMembers items[i]?
  | .over members chain =>
    match members.lookup key with
    | some value => objectMembers (some value)
    | none => chain.current key

/-- `result[key]`, when it is an object and not an array. -/
def Merged.current (result : Merged) (key : Utf16) : Option (List (Utf16 × JsValue)) :=
  match result.members.lookup key with
  | some value => objectMembers (some value)
  | none => result.chain.current key

/-- `result[key] = value`, with what the value inherits from : where `__proto__` is no own property,
it sets what the result inherits from, unless the value is a primitive. -/
def Merged.put (result : Merged) (key : Utf16) (value : JsValue × Chain) : Merged :=
  if key = protoKey ∧ key ∉ result.members.map Prod.fst then
    match value.1 with
    | .obj members => { result with chain := .over members value.2 }
    | .arr items => { result with chain := .array items }
    | .null => { result with chain := .null }
    | _ => result
  else { result with members := setMember result.members (key, value.1) }

mutual

/-- What is assigned to a key : the value, merged into the current one when both are objects. -/
def mergeValue (current : Option (List (Utf16 × JsValue))) : JsValue → JsValue × Chain
  | .obj override =>
    match current with
    | some base =>
      let merged := mergeMembers ⟨base, .object⟩ override
      (.obj merged.members, merged.chain)
    | none => (.obj override, .object)
  | value => (value, .object)

/-- The loop of `mergeObjects`. -/
def mergeMembers (result : Merged) : List (Utf16 × JsValue) → Merged
  | [] => result
  | (key, value) :: override =>
    mergeMembers (result.put key (mergeValue (result.current key) value)) override

end

/-- `mergeObjects`. -/
def mergeObjects (base override : List (Utf16 × JsValue)) : Merged :=
  mergeMembers ⟨base, .object⟩ override

mutual

/-- At every depth, a result has the value of the override for its keys, and the value of the base for
the others. -/
def MergesTo (base : Option JsValue) : JsValue → Option JsValue → Prop
  | .obj override, result =>
    match objectMembers base with
    | some members => ∃ merged, result = some (.obj merged) ∧
        (∀ key ∉ override.map Prod.fst, merged.lookup key = members.lookup key) ∧
        MembersMergeTo members override merged
    | none => result = some (.obj override)
  | value, result => result = some value

def MembersMergeTo (base : List (Utf16 × JsValue)) :
    List (Utf16 × JsValue) → List (Utf16 × JsValue) → Prop
  | [], _ => True
  | (key, value) :: override, merged =>
    MergesTo (base.lookup key) value (merged.lookup key) ∧ MembersMergeTo base override merged

end

mutual

/-- Where an override that is merged has a key `__proto__`, the base has it. -/
def MergesSafely (base : Option JsValue) : JsValue → Prop
  | .obj override =>
    match objectMembers base with
    | some members => (protoKey ∈ override.map Prod.fst → protoKey ∈ members.map Prod.fst) ∧
        MembersMergeSafely members override
    | none => True
  | _ => True

def MembersMergeSafely (base : List (Utf16 × JsValue)) : List (Utf16 × JsValue) → Prop
  | [] => True
  | (key, value) :: override =>
    MergesSafely (base.lookup key) value ∧ MembersMergeSafely base override

end

section Merge

variable {base override merged : List (Utf16 × JsValue)}

theorem membersMergeTo_iff : MembersMergeTo base override merged ↔
    ∀ m ∈ override, MergesTo (base.lookup m.1) m.2 (merged.lookup m.1) := by
  induction override with
  | nil => simp [MembersMergeTo]
  | cons m override ih =>
    obtain ⟨key, value⟩ := m
    rw [MembersMergeTo, ih, List.forall_mem_cons]

theorem membersMergeSafely_iff : MembersMergeSafely base override ↔
    ∀ m ∈ override, MergesSafely (base.lookup m.1) m.2 := by
  induction override with
  | nil => simp [MembersMergeSafely]
  | cons m override ih =>
    obtain ⟨key, value⟩ := m
    rw [MembersMergeSafely, ih, List.forall_mem_cons]

theorem not_mergesTo_none {base : Option JsValue} {value : JsValue} : ¬MergesTo base value none := by
  cases value with
  | obj override =>
    rw [MergesTo]
    cases objectMembers base with
    | none => simp
    | some members => simp
  | _ => simp [MergesTo]

/-- Where `__proto__` is no own property, it is none of the result either. -/
theorem protoKey_not_merged (result : Merged) (h : protoKey ∉ result.members.map Prod.fst) :
    protoKey ∉ (mergeMembers result override).members.map Prod.fst := by
  induction override generalizing result with
  | nil => exact h
  | cons m override ih =>
    obtain ⟨key, value⟩ := m
    rw [mergeMembers]
    refine ih _ ?_
    rw [Merged.put]
    split_ifs with hproto
    · split <;> exact h
    · have hne : key ≠ protoKey := fun heq => hproto ⟨heq, heq ▸ h⟩
      rw [← lookup_eq_none_iff, lookup_setMember, if_neg (Ne.symm hne), lookup_eq_none_iff]
      exact h

/-- Where `__proto__` is assigned as an own property only, every key is merged with the value that the
base has for it. -/
theorem mergeMembers_spec (result : Merged) (hchain : result.chain = .object)
    (hkeys : (override.map Prod.fst).Nodup)
    (hproto : protoKey ∈ override.map Prod.fst → protoKey ∈ result.members.map Prod.fst) :
    (∀ key ∉ override.map Prod.fst,
      (mergeMembers result override).members.lookup key = result.members.lookup key) ∧
    ∀ m ∈ override, (mergeMembers result override).members.lookup m.1 =
      some (mergeValue (objectMembers (result.members.lookup m.1)) m.2).1 := by
  induction override generalizing result with
  | nil => simp [mergeMembers]
  | cons m override ih =>
    obtain ⟨key, value⟩ := m
    obtain ⟨hkey, hrest⟩ := List.nodup_cons.1 hkeys
    have hown : ¬(key = protoKey ∧ key ∉ result.members.map Prod.fst) := by
      rintro ⟨rfl, hnot⟩
      exact hnot (hproto List.mem_cons_self)
    have hcurrent : result.current key = objectMembers (result.members.lookup key) := by
      rw [Merged.current]
      cases hlookup : result.members.lookup key with
      | some v => rfl
      | none =>
        have hne : key ≠ protoKey := fun heq => hown ⟨heq, lookup_eq_none_iff.1 hlookup⟩
        rw [hchain, Chain.current, if_neg hne]
        rfl
    have hput : result.put key (mergeValue (result.current key) value) =
        ⟨setMember result.members
          (key, (mergeValue (objectMembers (result.members.lookup key)) value).1), .object⟩ := by
      rw [Merged.put, if_neg hown, hcurrent, ← hchain]
    have hown' : protoKey ∈ override.map Prod.fst → protoKey ∈ (setMember result.members
        (key, (mergeValue (objectMembers (result.members.lookup key)) value).1)).map Prod.fst := by
      intro hmem
      have hresult := hproto (List.mem_cons_of_mem _ hmem)
      have hne : protoKey ≠ key := fun heq => hkey (heq ▸ hmem)
      by_contra hnot
      rw [← lookup_eq_none_iff, lookup_setMember, if_neg hne, lookup_eq_none_iff] at hnot
      exact hnot hresult
    rw [mergeMembers, hput]
    obtain ⟨hother, hmembers⟩ := ih ⟨setMember result.members
      (key, (mergeValue (objectMembers (result.members.lookup key)) value).1), .object⟩ rfl hrest hown'
    constructor
    · intro k hk
      obtain ⟨hne, hnot⟩ := not_or.1 (List.mem_cons.not.1 hk)
      rw [hother k hnot, lookup_setMember, if_neg hne]
    · refine List.forall_mem_cons.2 ⟨?_, fun n hn => ?_⟩
      · rw [hother key hkey, lookup_setMember, if_pos rfl]
      · have hne : n.1 ≠ key := fun heq => hkey (List.mem_map.2 ⟨n, hn, heq⟩)
        rw [hmembers n hn, lookup_setMember, if_neg hne]

/-- A value is merged as its keys say exactly when it is safe. -/
theorem mergesTo_iff {value : JsValue} (hvalue : IsJson value) (base : Option JsValue) :
    MergesTo base value (some (mergeValue (objectMembers base) value).1) ↔
      MergesSafely base value := by
  induction hvalue generalizing base with
  | null | bool | num | str | arr => simp [MergesTo, mergeValue, MergesSafely]
  | @obj override hkeys hmembers ih =>
    rw [MergesTo, MergesSafely]
    cases objectMembers base with
    | none => simp [mergeValue]
    | some members =>
      rw [mergeValue]
      dsimp only
      rw [membersMergeSafely_iff]
      by_cases hproto : protoKey ∈ override.map Prod.fst → protoKey ∈ members.map Prod.fst
      · obtain ⟨hother, hspec⟩ := mergeMembers_spec ⟨members, .object⟩ rfl hkeys hproto
        constructor
        · rintro ⟨merged, hmerged, -, hto⟩
          obtain rfl := JsValue.obj.inj (Option.some.inj hmerged)
          refine ⟨hproto, fun m hm => ?_⟩
          have hm' := membersMergeTo_iff.1 hto m hm
          rw [hspec m hm] at hm'
          exact (ih m hm _).1 hm'
        · rintro ⟨-, hsafe⟩
          refine ⟨_, rfl, hother, membersMergeTo_iff.2 fun m hm => ?_⟩
          rw [hspec m hm]
          exact (ih m hm _).2 (hsafe m hm)
      · refine iff_of_false ?_ fun hsafe => hproto hsafe.1
        rintro ⟨merged, hmerged, -, hto⟩
        obtain rfl := JsValue.obj.inj (Option.some.inj hmerged)
        obtain ⟨hmem, hnot⟩ := Classical.not_imp.1 hproto
        obtain ⟨m, hm, hkey⟩ := List.mem_map.1 hmem
        have hm' := membersMergeTo_iff.1 hto m hm
        rw [hkey, lookup_eq_none_iff.2 (protoKey_not_merged ⟨members, .object⟩ hnot)] at hm'
        exact not_mergesTo_none hm'

end Merge

/-! ## Parameter binding -/

/-- An object of JSON. -/
abbrev JsonObject := {members : List (Utf16 × JsValue) // IsJson (.obj members)}

/-- Bodies are bound and objects are merged as they should be. -/
structure ParameterBinding (parameters : List (Utf16 × JsValue)) (body : JsValue)
    (base override : JsonObject) : Prop where
  binds : BindsExactly parameters body
  merges : MergesTo (some (.obj base.1)) (.obj override.1)
    (some (.obj (mergeObjects base.1 override.1).members))
  /-- The service and the resolver bind a body alike. -/
  alike : TemplateInitialStateResolver.bindParameters body parameters =
    TemplateInstantiationService.bindParameters body parameters

/-- Parameters are bound exactly when no reference is to what is inherited before one that is not
supplied, and no override has a key `__proto__` of its own. -/
theorem parameter_binding_iff (parameters : List (Utf16 × JsValue)) (body : JsValue)
    (base override : JsonObject) : ParameterBinding parameters body base override ↔
      BindsSafely parameters body ∧ MergesSafely (some (.obj base.1)) (.obj override.1) := by
  have hmerge : MergesTo (some (.obj base.1)) (.obj override.1)
      (some (.obj (mergeObjects base.1 override.1).members)) ↔
        MergesSafely (some (.obj base.1)) (.obj override.1) := by
    have h := mergesTo_iff override.2 (some (.obj base.1))
    rwa [objectMembers, mergeValue] at h
  constructor
  · exact fun h => ⟨bindsExactly_iff.1 h.binds, hmerge.1 h.merges⟩
  · exact fun h => ⟨bindsExactly_iff.2 h.1, hmerge.2 h.2, rfl⟩

/-- No object is bound for `constructor`, and the error is none of the domain. -/
theorem constructor_not_bound : ¬ ∀ (parameters : List (Utf16 × JsValue)) (body : JsValue)
    (base override : JsonObject), ParameterBinding parameters body base override := by
  intro h
  have hempty : IsJson (.obj []) := .obj (by simp) (by simp)
  have hbinds := (h [] (record [("$parameter", .str (ascii "constructor"))]) ⟨[], hempty⟩
    ⟨[], hempty⟩).binds
  exact absurd (bindsExactly_iff.1 hbinds) (by decide)

end FactoryFloor
