import Mathlib.Data.List.Forall2
import Mathlib.Data.List.Nodup
import Mathlib.Data.List.Sort

/-!
# Tables as lists of rows

A table is the list of its rows in insertion order. A row type carries its table's
CHECK and unique constraints (`Row`), and a statement that would break one of them
fails with the constraint's name, as the database does.

* `update` is `UPDATE … WHERE`, `insert` is `INSERT`, and `insertOrIgnore` is
  `INSERT … ON CONFLICT DO NOTHING` on one conflict target.
* `updateWhere` is the table after an update that succeeds. Its lemmas say which rows
  change, and that columns the update does not set are kept.

`Keyed key rows` says that `key` is a primary key of `rows`.
-/

namespace Relational

variable {α β : Type*}

/-- Why a statement fails. -/
inductive SqlError where
  /-- A row breaks the named CHECK constraint. -/
  | check (constraint : String)
  /-- A row repeats the named unique key. -/
  | unique (constraint : String)
  /-- A NOT NULL column gets no value. -/
  | notNull (column : String)
  /-- A parameter has no value of the named type. -/
  | invalidText (type : String)
  /-- A number is out of the range of the named type. -/
  | outOfRange (type : String)
  /-- An index entry of the named index would be too long. -/
  | indexRowTooLarge (index : String)
deriving DecidableEq, Repr

/-- The constraints of a table, on the type of its rows. -/
class Row (α : Type*) where
  /-- The first CHECK constraint a row breaks. -/
  violation : α → Option String
  /-- The unique keys : a name, and whether two rows agree on the key. -/
  uniques : List (String × (α → α → Bool))

/-! ## Updates -/

/-- The rows after `UPDATE … SET f WHERE p`. -/
def updateWhere (p : α → Bool) (f : α → α) (rows : List α) : List α :=
  rows.map fun r => if p r then f r else r

/-- The first CHECK constraint a row of the update breaks. -/
def updateViolation [Row α] (p : α → Bool) (f : α → α) (rows : List α) : Option String :=
  rows.findSome? fun r => if p r then Row.violation (f r) else none

/-- `UPDATE … SET f WHERE p`. -/
def update [Row α] (p : α → Bool) (f : α → α) (rows : List α) : Except SqlError (List α) :=
  match updateViolation p f rows with
  | some c => .error (.check c)
  | none => .ok (updateWhere p f rows)

theorem updateViolation_eq_none [Row α] {p : α → Bool} {f : α → α} {rows : List α} :
    updateViolation p f rows = none ↔ ∀ r ∈ rows, p r → Row.violation (f r) = none := by
  unfold updateViolation
  rw [List.findSome?_eq_none_iff]
  refine forall₂_congr fun r _ => ?_
  by_cases hp : p r <;> simp [hp]

/-- An update succeeds exactly when no updated row breaks a constraint. -/
theorem update_eq_ok [Row α] {p : α → Bool} {f : α → α} {rows rows' : List α} :
    update p f rows = .ok rows' ↔
      rows' = updateWhere p f rows ∧ ∀ r ∈ rows, p r → Row.violation (f r) = none := by
  rw [← updateViolation_eq_none, update]
  cases updateViolation p f rows <;> simp [eq_comm]

theorem update_ok [Row α] {p : α → Bool} {f : α → α} {rows : List α}
    (h : ∀ r ∈ rows, p r → Row.violation (f r) = none) :
    update p f rows = .ok (updateWhere p f rows) :=
  update_eq_ok.2 ⟨rfl, h⟩

/-- Rows that satisfy the constraints still do after an update that succeeds. -/
theorem valid_updateWhere [Row α] {p : α → Bool} {f : α → α} {rows : List α}
    (h : ∀ r ∈ rows, Row.violation r = none)
    (hf : ∀ r ∈ rows, p r → Row.violation (f r) = none) :
    ∀ r ∈ updateWhere p f rows, Row.violation r = none := by
  intro r hr
  obtain ⟨s, hs, rfl⟩ := List.mem_map.1 hr
  by_cases hp : p s
  · simpa [hp] using hf s hs hp
  · simpa [hp] using h s hs

theorem mem_updateWhere {p : α → Bool} {f : α → α} {rows : List α} {r : α} :
    r ∈ updateWhere p f rows ↔ ∃ s ∈ rows, (if p s then f s else s) = r := by
  simp [updateWhere]

@[simp] theorem updateWhere_nil (p : α → Bool) (f : α → α) : updateWhere p f [] = [] := rfl

@[simp] theorem updateWhere_append (p : α → Bool) (f : α → α) (xs ys : List α) :
    updateWhere p f (xs ++ ys) = updateWhere p f xs ++ updateWhere p f ys := by
  simp [updateWhere]

@[simp] theorem length_updateWhere (p : α → Bool) (f : α → α) (rows : List α) :
    (updateWhere p f rows).length = rows.length := by
  simp [updateWhere]

/-- A row the update leaves out is kept. -/
theorem mem_updateWhere_of_not {p : α → Bool} {f : α → α} {rows : List α} {r : α}
    (hr : r ∈ rows) (hp : ¬p r) : r ∈ updateWhere p f rows :=
  mem_updateWhere.2 ⟨r, hr, by simp [hp]⟩

theorem mem_updateWhere_of {p : α → Bool} {f : α → α} {rows : List α} {r : α}
    (hr : r ∈ rows) (hp : p r) : f r ∈ updateWhere p f rows :=
  mem_updateWhere.2 ⟨r, hr, by simp [hp]⟩

/-- An update that matches no row changes nothing. -/
theorem updateWhere_eq_self {p : α → Bool} {f : α → α} {rows : List α}
    (h : ∀ r ∈ rows, ¬p r) : updateWhere p f rows = rows := by
  conv_rhs => rw [← List.map_id rows]
  exact List.map_congr_left fun r hr => by simp [h r hr]

@[simp] theorem updateWhere_false (f : α → α) (rows : List α) :
    updateWhere (fun _ => false) f rows = rows :=
  updateWhere_eq_self fun _ _ => by simp

/-- A column the update does not set is kept. -/
theorem map_updateWhere {p : α → Bool} {f : α → α} (k : α → β) (hk : ∀ r, k (f r) = k r)
    (rows : List α) : (updateWhere p f rows).map k = rows.map k := by
  rw [updateWhere, List.map_map]
  refine List.map_congr_left fun r _ => ?_
  by_cases hp : p r <;> simp [hp, hk]

/-- A selection on columns the update does not set commutes with the update. -/
theorem filter_updateWhere {p q : α → Bool} {f : α → α} (hq : ∀ r, q (f r) = q r)
    (rows : List α) :
    (updateWhere p f rows).filter q = updateWhere p f (rows.filter q) := by
  induction rows with
  | nil => rfl
  | cons r rows ih =>
    have hqr : q (if p r then f r else r) = q r := by by_cases hp : p r <;> simp [hp, hq]
    simp only [updateWhere, List.map_cons, List.filter_cons, hqr] at ih ⊢
    by_cases h : q r <;> simp [h, ih]

/-- A selection that leaves out the updated rows, before and after the update. -/
theorem filter_updateWhere_of_not {p q : α → Bool} {f : α → α} {rows : List α}
    (hq : ∀ r ∈ rows, p r → ¬q r ∧ ¬q (f r)) : (updateWhere p f rows).filter q = rows.filter q := by
  induction rows with
  | nil => rfl
  | cons r rows ih =>
    have hrest := ih fun s hs => hq s (List.mem_cons_of_mem r hs)
    simp only [updateWhere, List.map_cons, List.filter_cons] at hrest ⊢
    rw [hrest]
    by_cases hp : p r
    · obtain ⟨h, h'⟩ := hq r (by simp) hp
      simp [hp, h, h']
    · simp [hp]

/-- A column of a row that is looked up, when the update sets neither it nor what is looked up. -/
theorem map_find?_updateWhere {p q : α → Bool} {f : α → α} (k : α → β)
    (hq : ∀ r, q (f r) = q r) (hk : ∀ r, k (f r) = k r) (rows : List α) :
    ((updateWhere p f rows).find? q).map k = (rows.find? q).map k := by
  induction rows with
  | nil => rfl
  | cons r rows ih =>
    have hqr : q (if p r then f r else r) = q r := by by_cases hp : p r <;> simp [hp, hq]
    have hkr : k (if p r then f r else r) = k r := by by_cases hp : p r <;> simp [hp, hk]
    simp only [updateWhere, List.map_cons, List.find?_cons, hqr] at ih ⊢
    cases q r with
    | true => simp [hkr]
    | false => exact ih

/-! ## Inserts -/

/-- The first unique key of `rows` that `r` repeats. -/
def uniqueViolation [Row α] (r : α) (rows : List α) : Option String :=
  (Row.uniques (α := α)).findSome? fun u => if rows.any (u.2 r) then some u.1 else none

/-- `INSERT` of one row. -/
def insert [Row α] (r : α) (rows : List α) : Except SqlError (List α) :=
  match Row.violation r, uniqueViolation r rows with
  | some c, _ => .error (.check c)
  | none, some u => .error (.unique u)
  | none, none => .ok (rows ++ [r])

/-- `INSERT … ON CONFLICT (…) DO NOTHING`, where `conflict` compares the conflict target. -/
def insertOrIgnore [Row α] (conflict : α → α → Bool) (r : α) (rows : List α) :
    Except SqlError (List α) :=
  match Row.violation r with
  | some c => .error (.check c)
  | none => if rows.any (conflict r) then .ok rows else insert r rows

theorem uniqueViolation_eq_none [Row α] {r : α} {rows : List α} :
    uniqueViolation r rows = none ↔ ∀ u ∈ Row.uniques (α := α), ∀ s ∈ rows, ¬u.2 r s := by
  unfold uniqueViolation
  rw [List.findSome?_eq_none_iff]
  refine forall₂_congr fun u _ => ?_
  simp

theorem insert_eq_ok [Row α] {r : α} {rows rows' : List α} :
    insert r rows = .ok rows' ↔ rows' = rows ++ [r] ∧ Row.violation r = none ∧
      ∀ u ∈ Row.uniques (α := α), ∀ s ∈ rows, ¬u.2 r s := by
  rw [← uniqueViolation_eq_none, insert]
  cases Row.violation r <;> cases uniqueViolation r rows <;> simp [eq_comm]

theorem insert_ok [Row α] {r : α} {rows : List α} (hv : Row.violation r = none)
    (hu : ∀ u ∈ Row.uniques (α := α), ∀ s ∈ rows, ¬u.2 r s) :
    insert r rows = .ok (rows ++ [r]) :=
  insert_eq_ok.2 ⟨rfl, hv, hu⟩

/-- An insert that ignores conflicts keeps the table or appends the row. -/
theorem insertOrIgnore_eq_ok [Row α] {conflict : α → α → Bool} {r : α} {rows rows' : List α}
    (h : insertOrIgnore conflict r rows = .ok rows') :
    (rows' = rows ∧ ∃ s ∈ rows, conflict r s) ∨
      (rows' = rows ++ [r] ∧ Row.violation r = none ∧ ∀ s ∈ rows, ¬conflict r s) := by
  unfold insertOrIgnore at h
  cases hv : Row.violation r with
  | some c => simp [hv] at h
  | none =>
    by_cases hc : rows.any (conflict r)
    · simp only [hv, hc, if_true, Except.ok.injEq] at h
      exact Or.inl ⟨h.symm, List.any_eq_true.1 hc⟩
    · simp only [hv, hc, Bool.false_eq_true, if_false] at h
      obtain ⟨rfl, -, -⟩ := insert_eq_ok.1 h
      exact Or.inr ⟨rfl, rfl, by simpa using hc⟩

/-! ## Keys -/

/-- `key` is a primary key of `rows`. -/
def Keyed (key : α → β) (rows : List α) : Prop :=
  (rows.map key).Nodup

theorem Keyed.eq {key : α → β} {rows : List α} (h : Keyed key rows) {r s : α} (hr : r ∈ rows)
    (hs : s ∈ rows) (hk : key r = key s) : r = s :=
  List.inj_on_of_nodup_map h hr hs hk

theorem Keyed.updateWhere {key : α → β} {rows : List α} (h : Keyed key rows) {p : α → Bool}
    {f : α → α} (hk : ∀ r, key (f r) = key r) : Keyed key (updateWhere p f rows) := by
  unfold Keyed
  rwa [map_updateWhere key hk]

/-- An update of one row, to a new value of the key. -/
theorem Keyed.updateWhere_fresh {key : α → β} {rows : List α} (h : Keyed key rows) {p : α → Bool}
    {f : α → α} {k : β} (hk : ∀ r, key (f r) = k)
    (hone : ∀ r ∈ rows, ∀ r' ∈ rows, p r → p r' → r = r') (hfresh : ∀ r ∈ rows, key r ≠ k) :
    Keyed key (Relational.updateWhere p f rows) := by
  unfold Keyed Relational.updateWhere
  rw [List.map_map]
  refine (List.Nodup.of_map key h).map_on fun r hr r' hr' heq => ?_
  simp only [Function.comp_apply] at heq
  by_cases hp : p r <;> by_cases hp' : p r' <;> simp only [hp, hp', if_true, if_false] at heq
  · exact hone r hr r' hr' hp hp'
  · exact absurd (heq.symm.trans (hk r)) (hfresh r' hr')
  · exact absurd (heq.trans (hk r')) (hfresh r hr)
  · exact h.eq hr hr' heq

theorem Keyed.append {key : α → β} {rows : List α} (h : Keyed key rows) {r : α}
    (hr : ∀ s ∈ rows, key s ≠ key r) : Keyed key (rows ++ [r]) := by
  unfold Keyed
  rw [List.map_append, List.map_singleton, List.nodup_append]
  refine ⟨h, List.nodup_singleton _, ?_⟩
  rintro a ha b hb rfl
  obtain ⟨s, hs, rfl⟩ := List.mem_map.1 ha
  exact hr s hs (List.mem_singleton.1 hb)

/-- The rows after an update of the one row under a key. -/
theorem Keyed.mem_updateWhere {key : α → β} [DecidableEq β] {rows : List α} (h : Keyed key rows)
    {r : α} (hr : r ∈ rows) {f : α → α} {s : α} :
    s ∈ Relational.updateWhere (fun t => key t = key r) f rows ↔
      s = f r ∨ s ∈ rows ∧ key s ≠ key r := by
  rw [Relational.mem_updateWhere]
  constructor
  · rintro ⟨t, ht, rfl⟩
    by_cases hk : key t = key r
    · simp [h.eq ht hr hk]
    · simp [hk, ht]
  · rintro (rfl | ⟨hs, hk⟩)
    · exact ⟨r, hr, by simp⟩
    · exact ⟨s, hs, by simp [hk]⟩

/-- With a primary key, the row found under a key is the row that has it. -/
theorem Keyed.find?_eq_some {key : α → β} [DecidableEq β] {rows : List α} (h : Keyed key rows)
    {r : α} (hr : r ∈ rows) : rows.find? (fun s => key s = key r) = some r := by
  cases hf : rows.find? (fun s => key s = key r) with
  | none => simpa using List.find?_eq_none.1 hf r hr
  | some s =>
    have hs : key s = key r := by simpa using List.find?_some hf
    rw [h.eq (List.mem_of_find?_eq_some hf) hr hs]

/-- A row on the right comes from one on the left. -/
theorem exists_of_forall₂ {R : α → β → Prop} {xs : List α} {ys : List β} (h : List.Forall₂ R xs ys)
    {y : β} (hy : y ∈ ys) : ∃ x ∈ xs, R x y := by
  induction h with
  | nil => simp at hy
  | cons hxy _ ih =>
    rcases List.mem_cons.1 hy with rfl | hy
    · exact ⟨_, by simp, hxy⟩
    · obtain ⟨x, hx, h⟩ := ih hy
      exact ⟨x, List.mem_cons_of_mem _ hx, h⟩

/-- The row found under a key is in the table, under the key. -/
theorem mem_of_find?_key {key : α → β} [DecidableEq β] {rows : List α} {k : β} {r : α}
    (h : rows.find? (fun s => key s = k) = some r) : r ∈ rows ∧ key r = k :=
  ⟨List.mem_of_find?_eq_some h, by simpa using List.find?_some h⟩

/-- With a primary key, a condition that holds of one row only selects that row. -/
theorem Keyed.filter_eq_singleton {key : α → β} {rows : List α} (h : Keyed key rows) {r : α}
    (hr : r ∈ rows) {p : α → Bool} (hp : ∀ s ∈ rows, p s ↔ key s = key r) :
    rows.filter p = [r] := by
  have hmem : ∀ s, s ∈ rows.filter p ↔ s = r := by
    intro s
    rw [List.mem_filter]
    constructor
    · exact fun hs => h.eq hs.1 hr ((hp s hs.1).1 hs.2)
    · rintro rfl
      exact ⟨hr, (hp s hr).2 rfl⟩
  have hnodup : (rows.filter p).Nodup := (List.Nodup.of_map key h).filter _
  exact List.perm_singleton.1 ((List.perm_ext_iff_of_nodup hnodup (List.nodup_singleton r)).2
    fun s => by rw [hmem, List.mem_singleton])

/-- Lists of rows that carry a key of the row they belong to : the selection of a key no row has. -/
theorem filter_flatMap_of_forall_ne {γ : Type*} [DecidableEq β] {key : α → β} {k : γ → β}
    {g : α → List γ} {rows : List α} {b : β} (hg : ∀ r ∈ rows, ∀ c ∈ g r, k c = key r)
    (hb : ∀ r ∈ rows, key r ≠ b) : (rows.flatMap g).filter (k · = b) = [] := by
  rw [List.filter_eq_nil_iff]
  intro c hc
  obtain ⟨r, hr, hc⟩ := List.mem_flatMap.1 hc
  simpa [hg r hr c hc] using hb r hr

/-- The selection of a row's key is the list of the row. -/
theorem Keyed.filter_flatMap {γ : Type*} [DecidableEq β] {key : α → β} {k : γ → β} {g : α → List γ}
    {rows : List α} (h : Keyed key rows) (hg : ∀ r ∈ rows, ∀ c ∈ g r, k c = key r) {r : α}
    (hr : r ∈ rows) : (rows.flatMap g).filter (k · = key r) = g r := by
  induction rows with
  | nil => simp at hr
  | cons s rows ih =>
    obtain ⟨hs, hrows⟩ := List.nodup_cons.1 h
    obtain ⟨hgs, hgrows⟩ := List.forall_mem_cons.1 hg
    rw [List.flatMap_cons, List.filter_append]
    rcases List.mem_cons.1 hr with rfl | hr
    · have hself : (g r).filter (k · = key r) = g r :=
        List.filter_eq_self.2 fun c hc => by simpa using hgs c hc
      have hother : ∀ t ∈ rows, key t ≠ key r := fun t ht heq =>
        hs (List.mem_map.2 ⟨t, ht, heq⟩)
      rw [hself, filter_flatMap_of_forall_ne hgrows hother, List.append_nil]
    · have hne : key s ≠ key r := fun heq => hs (heq ▸ List.mem_map_of_mem hr)
      have hnone : (g s).filter (k · = key r) = [] :=
        List.filter_eq_nil_iff.2 fun c hc => by simpa [hgs c hc] using hne
      rw [hnone, List.nil_append, ih hrows hgrows hr]

end Relational

namespace Except

universe u

variable {ε ε' : Type*} {α β : Type u}

/-- A test that throws, before the rest. -/
theorem guard_eq_ok {ε : Type*} {α β : Type u} {p : Prop} [Decidable p] {e : ε}
    {x : β → Except ε α} {y : Except ε α} {a : α} :
    (if p then throw e >>= x else y) = .ok a ↔ ¬p ∧ y = .ok a := by
  by_cases hp : p
  · simp only [hp, if_true, not_true_eq_false, false_and, iff_false]
    exact nofun
  · simp [hp]

theorem bind_eq_ok {x : Except ε α} {f : α → Except ε β} {b : β} :
    (x >>= f) = .ok b ↔ ∃ a, x = .ok a ∧ f a = .ok b := by
  cases x <;> simp [bind, Except.bind]

/-- Two computations that go on alike from what they start with. -/
theorem bind_congr_ok {x : Except ε α} {f g : α → Except ε β} (h : ∀ a, x = .ok a → f a = g a) :
    x >>= f = x >>= g := by
  cases x with
  | error e => rfl
  | ok a => exact h a rfl

/-- The results of a loop are those of its steps. -/
theorem mapM_eq_ok {ε : Type*} {α : Type*} {β : Type u} {f : α → Except ε β} {l : List α}
    {results : List β} (h : l.mapM f = .ok results) :
    List.Forall₂ (fun a b => f a = .ok b) l results := by
  induction l generalizing results with
  | nil =>
    obtain rfl : results = [] := by simpa [pure, Except.pure, eq_comm] using h
    exact .nil
  | cons a l ih =>
    rw [List.mapM_cons] at h
    obtain ⟨b, hb, h⟩ := bind_eq_ok.1 h
    obtain ⟨bs, hbs, h⟩ := bind_eq_ok.1 h
    obtain rfl : b :: bs = results := Except.ok.inj h
    exact .cons hb (ih hbs)

/-- A loop of checks has made each of them. -/
theorem forM_eq_ok {ε : Type*} {α : Type*} {f : α → Except ε PUnit.{u + 1}} {l : List α}
    (h : l.forM f = .ok ⟨⟩) {a : α} (ha : a ∈ l) : f a = .ok ⟨⟩ := by
  induction l with
  | nil => simp at ha
  | cons b l ih =>
    obtain ⟨⟨⟩, hb, h⟩ := bind_eq_ok.1 (show (f b >>= fun _ => l.forM f) = .ok ⟨⟩ from h)
    rcases List.mem_cons.1 ha with rfl | ha
    · exact hb
    · exact ih h ha

/-- What holds before a loop and is kept by each of its steps holds after it. -/
theorem foldlM_invariant {ε : Type*} {α : Type*} {β : Type u} {I : β → Prop}
    {f : β → α → Except ε β} {l : List α} (hstep : ∀ b a b', a ∈ l → I b → f b a = .ok b' → I b')
    {b b' : β} (hb : I b) (h : l.foldlM f b = .ok b') : I b' := by
  induction l generalizing b with
  | nil =>
    obtain rfl : b = b' := by simpa [pure, Except.pure] using h
    exact hb
  | cons a l ih =>
    rw [List.foldlM_cons] at h
    obtain ⟨b₁, hb₁, h⟩ := bind_eq_ok.1 h
    exact ih (fun b a b' ha => hstep b a b' (List.mem_cons_of_mem _ ha))
      (hstep _ _ _ List.mem_cons_self hb hb₁) h

/-- Two loops whose steps are alike where an invariant holds. -/
theorem foldlM_congr_ok {ε : Type*} {α : Type*} {β : Type u} {I : β → Prop}
    {f g : β → α → Except ε β} {l : List α} (hfg : ∀ b a, a ∈ l → I b → f b a = g b a)
    (hstep : ∀ b a b', a ∈ l → I b → g b a = .ok b' → I b') {b : β} (hb : I b) :
    l.foldlM f b = l.foldlM g b := by
  induction l generalizing b with
  | nil => rfl
  | cons a l ih =>
    rw [List.foldlM_cons, List.foldlM_cons, hfg b a List.mem_cons_self hb]
    refine bind_congr_ok fun b₁ hb₁ => ?_
    exact ih (fun b a ha => hfg b a (List.mem_cons_of_mem _ ha))
      (fun b a b' ha => hstep b a b' (List.mem_cons_of_mem _ ha))
      (hstep _ _ _ List.mem_cons_self hb hb₁)

/-- An invariant of a loop that speaks of the elements it has gone through. -/
theorem foldlM_done {ε : Type*} {α : Type*} {β : Type u} {I : List α → β → Prop}
    {f : β → α → Except ε β} {l : List α}
    (hstep : ∀ done a rest b b', l = done ++ a :: rest → I done b → f b a = .ok b' →
      I (done ++ [a]) b')
    {b b' : β} (hb : I [] b) (h : l.foldlM f b = .ok b') : I l b' := by
  suffices hrest : ∀ (rest done : List α) (b : β), l = done ++ rest → I done b →
      rest.foldlM f b = .ok b' → I l b' from hrest l [] b rfl hb h
  intro rest
  induction rest with
  | nil =>
    intro done b hl hb h
    obtain rfl : b = b' := by simpa [pure, Except.pure] using h
    rwa [hl, List.append_nil]
  | cons a rest ih =>
    intro done b hl hb h
    rw [List.foldlM_cons] at h
    obtain ⟨b₁, hb₁, h⟩ := bind_eq_ok.1 h
    exact ih (done ++ [a]) b₁ (by simp [hl]) (hstep done a rest b b₁ hl hb hb₁) h

/-- A loop each of whose steps has an outcome that its element alone decides : it ends when all
outcomes are good, and otherwise throws the error of one that is not. -/
theorem foldlM_outcomes {ε : Type*} {α γ : Type*} {β : Type u} {I : List α → β → Prop}
    {f : β → α → Except ε β} {o : α → Except ε γ} {l : List α}
    (hstep : ∀ done a rest b, l = done ++ a :: rest → I done b →
      (∃ e, o a = .error e ∧ f b a = .error e) ∨
        ∃ c b', o a = .ok c ∧ f b a = .ok b' ∧ I (done ++ [a]) b')
    {b : β} (hb : I [] b) :
    (∃ b', l.foldlM f b = .ok b' ∧ I l b' ∧ ∀ a ∈ l, ∃ c, o a = .ok c) ∨
      ∃ a ∈ l, ∃ e, o a = .error e ∧ l.foldlM f b = .error e := by
  suffices hrest : ∀ (rest done : List α) (b : β), l = done ++ rest → I done b →
      (∃ b', rest.foldlM f b = .ok b' ∧ I l b' ∧ ∀ a ∈ rest, ∃ c, o a = .ok c) ∨
        ∃ a ∈ rest, ∃ e, o a = .error e ∧ rest.foldlM f b = .error e from
    hrest l [] b rfl hb
  intro rest
  induction rest with
  | nil =>
    intro done b hl hb
    exact Or.inl ⟨b, rfl, by simpa [hl] using hb, by simp⟩
  | cons a rest ih =>
    intro done b hl hb
    rcases hstep done a rest b hl hb with ⟨e, he, hf⟩ | ⟨c, b₁, hc, hf, hb₁⟩
    · exact Or.inr ⟨a, by simp, e, he, by rw [List.foldlM_cons, hf]; rfl⟩
    · rcases ih (done ++ [a]) b₁ (by simp [hl]) hb₁ with ⟨b', hrun, hI, hall⟩ | ⟨x, hx, e, he, hrun⟩
      · refine Or.inl ⟨b', by rw [List.foldlM_cons, hf]; exact hrun, hI, ?_⟩
        exact List.forall_mem_cons.2 ⟨⟨c, hc⟩, hall⟩
      · exact Or.inr ⟨x, List.mem_cons_of_mem a hx, e, he, by rw [List.foldlM_cons, hf]; exact hrun⟩

/-- Renaming the error of a statement does not change when it succeeds. -/
theorem mapError_eq_ok {x : Except ε α} {rename : ε → ε'} {a : α} :
    x.mapError rename = .ok a ↔ x = .ok a := by
  cases x with
  | error e => simp [Except.mapError]
  | ok a => simp [Except.mapError]

end Except
