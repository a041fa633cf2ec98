import Mathlib.Data.List.Sort
import Mathlib.Order.Defs.LinearOrder

/-!
# Pages of a sorted list

A listing by pages gives the first `limit` names that follow a cursor, and the last of them as the
next cursor when another name follows it. The list is read anew for each page, so names that are
gone by then are missed, and names up to the cursor are not seen again.

A `Listing` is what a client has that follows the cursors. While the list changes between the pages,
its names ascend (`listing_ascends`), those that stay in the list are all listed once it has ended
(`listing_complete`), and it ends when no names are added that follow the cursor (`listing_ends`).
-/

namespace Paging

variable {α : Type*} [LinearOrder α] {xs : List α} {limit : ℕ} {cursor : Option α}

/-- The names that follow the cursor. -/
def after (cursor : Option α) (xs : List α) : List α :=
  match cursor with
  | none => xs
  | some c => xs.dropWhile fun x => !decide (c < x)

/-- The first `limit` of them. -/
def page (limit : ℕ) (cursor : Option α) (xs : List α) : List α :=
  (after cursor xs).take limit

/-- The last name of the page, if another follows it. -/
def next (limit : ℕ) (cursor : Option α) (xs : List α) : Option α :=
  (page limit cursor xs).getLast?.filter fun last => xs.any (last < ·)

theorem after_sublist (cursor : Option α) (xs : List α) : (after cursor xs).Sublist xs := by
  cases cursor with
  | none => exact List.Sublist.refl _
  | some c => exact List.dropWhile_sublist _

theorem page_sublist (limit : ℕ) (cursor : Option α) (xs : List α) :
    (page limit cursor xs).Sublist xs :=
  (List.take_sublist _ _).trans (after_sublist cursor xs)

/-- In a sorted list, what follows the cursor is what is greater. -/
theorem after_eq_filter {c : α} (hs : xs.Pairwise (· < ·)) :
    after (some c) xs = xs.filter (c < ·) := by
  induction xs with
  | nil => rfl
  | cons x xs ih =>
    obtain ⟨hx, hs⟩ := List.pairwise_cons.1 hs
    by_cases hc : c < x
    · have hall : (x :: xs).filter (c < ·) = x :: xs := List.filter_eq_self.2 fun y hy => by
        rcases List.mem_cons.1 hy with rfl | hy
        · simpa using hc
        · simpa using hc.trans (hx y hy)
      rw [hall]
      simp [after, hc]
    · rw [List.filter_cons, if_neg (by simpa using hc), ← ih hs]
      simp [after, hc]

/-- Following the cursor commutes with a selection. -/
theorem after_filter (p : α → Bool) (hs : xs.Pairwise (· < ·)) :
    after cursor (xs.filter p) = (after cursor xs).filter p := by
  cases cursor with
  | none => rfl
  | some c =>
    rw [after_eq_filter hs, after_eq_filter (hs.filter p), List.filter_filter, List.filter_filter]
    simp only [Bool.and_comm]

/-- A page all of whose names are selected is a page of the selection. -/
theorem page_filter {p : α → Bool} (hs : xs.Pairwise (· < ·)) (hp : ∀ x ∈ page limit cursor xs, p x) :
    page limit cursor (xs.filter p) = page limit cursor xs := by
  unfold page at hp ⊢
  rw [after_filter p hs]
  have hall : ((after cursor xs).take limit).filter p = (after cursor xs).take limit :=
    List.filter_eq_self.2 hp
  conv_lhs => rw [← List.take_append_drop limit (after cursor xs), List.filter_append, hall]
  by_cases hlen : limit ≤ (after cursor xs).length
  · rw [List.take_append_of_le_length (by simp [hlen]), List.take_take, min_self]
  · have hdrop : (after cursor xs).drop limit = [] := List.drop_eq_nil_of_le (by omega)
    rw [hdrop, List.filter_nil, List.append_nil, List.take_take, min_self]

/-! ## One page -/

section Map

variable {β : Type*} [LinearOrder β] {f : α → β}

theorem after_map (hf : StrictMono f) (cursor : Option α) (xs : List α) :
    after (cursor.map f) (xs.map f) = (after cursor xs).map f := by
  cases cursor with
  | none => rfl
  | some c =>
    simp only [after, Option.map_some]
    rw [List.dropWhile_map]
    congr 2
    funext x
    simp [hf.lt_iff_lt]

/-- Pages of renamed names, where the order is kept. -/
theorem page_map (hf : StrictMono f) (limit : ℕ) (cursor : Option α) (xs : List α) :
    page limit (cursor.map f) (xs.map f) = (page limit cursor xs).map f := by
  rw [page, page, after_map hf, List.map_take]

theorem next_map (hf : StrictMono f) (limit : ℕ) (cursor : Option α) (xs : List α) :
    next limit (cursor.map f) (xs.map f) = (next limit cursor xs).map f := by
  rw [next, next, page_map hf, List.getLast?_map]
  cases (page limit cursor xs).getLast? with
  | none => rfl
  | some last =>
    have hany : (xs.map f).any (f last < ·) = xs.any (last < ·) := by
      simp [List.any_map, Function.comp_def, hf.lt_iff_lt]
    simp only [Option.map_some, Option.filter_some, hany]
    split <;> rfl

end Map

section Page

variable {x : α}

/-- Whether a name follows the cursor. -/
def Follows (cursor : Option α) (x : α) : Prop :=
  ∀ c, cursor = some c → c < x

theorem mem_after (hs : xs.Pairwise (· < ·)) :
    x ∈ after cursor xs ↔ x ∈ xs ∧ Follows cursor x := by
  cases cursor with
  | none => simp [after, Follows]
  | some c => simp [after_eq_filter hs, Follows]

/-- A name that follows the cursor is on the page, or its successors begin after the next cursor. -/
theorem mem_page_or (hs : xs.Pairwise (· < ·)) (hlimit : 1 ≤ limit) (hx : x ∈ xs)
    (hfollows : Follows cursor x) :
    x ∈ page limit cursor xs ∨ ∃ last, next limit cursor xs = some last ∧ last < x := by
  have hafter : x ∈ after cursor xs := (mem_after hs).2 ⟨hx, hfollows⟩
  have hsplit : x ∈ page limit cursor xs ++ (after cursor xs).drop limit := by
    rw [page, List.take_append_drop]
    exact hafter
  refine (List.mem_append.1 hsplit).imp_right fun hdrop => ?_
  have hne : page limit cursor xs ≠ [] := by
    obtain ⟨n, rfl⟩ : ∃ n, limit = n + 1 := ⟨limit - 1, by omega⟩
    rw [page]
    cases hcons : after cursor xs with
    | nil =>
      rw [hcons] at hafter
      cases hafter
    | cons a rest => simp
  have hsorted : (page limit cursor xs ++ (after cursor xs).drop limit).Pairwise (· < ·) := by
    rw [page, List.take_append_drop]
    exact hs.sublist (after_sublist cursor xs)
  have hlast : (page limit cursor xs).getLast hne < x :=
    (List.pairwise_append.1 hsorted).2.2 _ (List.getLast_mem hne) x hdrop
  refine ⟨(page limit cursor xs).getLast hne, ?_, hlast⟩
  rw [next, List.getLast?_eq_some_getLast hne, Option.filter_some,
    if_pos (List.any_eq_true.2 ⟨x, hx, decide_eq_true hlast⟩)]

theorem mem_page (hs : xs.Pairwise (· < ·)) (hx : x ∈ page limit cursor xs) :
    x ∈ xs ∧ Follows cursor x :=
  (mem_after hs).1 (List.mem_of_mem_take hx)

/-- The next cursor is the last name of the page. -/
theorem next_eq_some {last : α} (h : next limit cursor xs = some last) :
    ∃ names, page limit cursor xs = names ++ [last] := by
  rw [next, Option.filter_eq_some_iff] at h
  exact List.getLast?_eq_some_iff.1 h.1

end Page

/-! ## Listings -/

/-- What a client has that follows the cursors : the pages it was given, and the next cursor. -/
structure Listing (α : Type*) where
  pages : List (List α)
  cursor : Option α
  ended : Bool

/-- The names of a listing. -/
def Listing.names (l : Listing α) : List α :=
  l.pages.flatten

/-- The listing with one more page. -/
def Listing.read (limit : ℕ) (xs : List α) (l : Listing α) : Listing α :=
  if l.ended then l
  else ⟨l.pages ++ [page limit l.cursor xs], next limit l.cursor xs,
    (next limit l.cursor xs).isNone⟩

/-- The listing after some reads, where the list may be another one at each. -/
def listing (limits : ℕ → ℕ) (lists : ℕ → List α) : ℕ → Listing α
  | 0 => ⟨[], none, false⟩
  | n + 1 => (listing limits lists n).read (limits n) (lists n)

/-- What a listing has up to its cursor, or wholly when it has ended. -/
structure Listing.Sound (present : α → Prop) (l : Listing α) : Prop where
  ascends : l.names.Pairwise (· < ·)
  bounded : ∀ x ∈ l.names, l.ended = true ∨ ∃ c, l.cursor = some c ∧ x ≤ c
  complete : ∀ x, present x → (l.ended = true ∨ ∃ c, l.cursor = some c ∧ x ≤ c) → x ∈ l.names

section Listings

variable {limits : ℕ → ℕ} {lists : ℕ → List α}

theorem Listing.Sound.read {present : α → Prop} {l : Listing α} (h : l.Sound present)
    (hs : xs.Pairwise (· < ·)) (hlimit : 1 ≤ limit) :
    (l.read limit xs).Sound fun x => present x ∧ (l.ended = false → x ∈ xs) := by
  unfold Listing.read
  cases hended : l.ended with
  | true =>
    rw [if_pos rfl]
    exact ⟨h.ascends, h.bounded, fun x hx => h.complete x hx.1⟩
  | false =>
    rw [if_neg Bool.false_ne_true]
    have hbelow : ∀ x ∈ l.names, ∃ c, l.cursor = some c ∧ x ≤ c := fun x hx =>
      (h.bounded x hx).resolve_left (by rw [hended]; exact Bool.false_ne_true)
    have hnames : (l.pages ++ [page limit l.cursor xs]).flatten =
        l.names ++ page limit l.cursor xs := by
      rw [List.flatten_append, List.flatten_singleton]
      rfl
    have hpage : (page limit l.cursor xs).Pairwise (· < ·) := hs.sublist (page_sublist ..)
    -- What was listed before comes before the cursor, and the page after it.
    have hacross : ∀ x ∈ l.names, ∀ y ∈ page limit l.cursor xs, x < y := fun x hx y hy =>
      let ⟨c, hc, hle⟩ := hbelow x hx
      lt_of_le_of_lt hle ((mem_page hs hy).2 c hc)
    refine ⟨?_, fun x hx => ?_, fun x hx hreached => ?_⟩
    · rw [Listing.names, hnames]
      exact List.pairwise_append.2 ⟨h.ascends, hpage, hacross⟩
    · cases hnext : next limit l.cursor xs with
      | none => exact Or.inl rfl
      | some last =>
        obtain ⟨names, hlast⟩ := next_eq_some hnext
        refine Or.inr ⟨last, rfl, ?_⟩
        rw [Listing.names, hnames, hlast, ← List.append_assoc] at hx
        rcases List.mem_append.1 hx with hx | hx
        · have hsorted := List.pairwise_append.2 ⟨h.ascends, hpage, hacross⟩
          rw [hlast, ← List.append_assoc] at hsorted
          exact ((List.pairwise_append.1 hsorted).2.2 x hx last (List.mem_singleton_self _)).le
        · exact (List.mem_singleton.1 hx).le
    · rw [Listing.names, hnames]
      by_cases hfollows : Follows l.cursor x
      · refine List.mem_append_right _ ?_
        refine (mem_page_or hs hlimit (hx.2 rfl) hfollows).resolve_right ?_
        rintro ⟨last, hlast, hlt⟩
        rcases hreached with hreached | ⟨c, hc, hle⟩
        · simp [hlast] at hreached
        · obtain rfl := Option.some.inj (hlast.symm.trans hc)
          exact absurd hlt hle.not_gt
      · rw [Follows] at hfollows
        push Not at hfollows
        obtain ⟨c, hc, hle⟩ := hfollows
        exact List.mem_append_left _ (h.complete x hx.1 (Or.inr ⟨c, hc, hle⟩))

/-- A read adds a page, unless the listing has ended. -/
theorem Listing.read_length (l : Listing α) :
    (l.read limit xs).pages.length = if l.ended then l.pages.length else l.pages.length + 1 := by
  unfold Listing.read
  split_ifs <;> simp

/-- The listing has a page for each read, until it ends. -/
theorem listing_length (n : ℕ) : (listing limits lists n).pages.length ≤ n ∧
    ((listing limits lists n).ended = false → (listing limits lists n).pages.length = n) := by
  induction n with
  | zero => exact ⟨le_rfl, fun _ => rfl⟩
  | succ n ih =>
    rw [listing]
    cases hended : (listing limits lists n).ended with
    | true =>
      have hread : (listing limits lists n).read (limits n) (lists n) = listing limits lists n := by
        rw [Listing.read, hended, if_pos rfl]
      rw [hread, hended]
      exact ⟨by omega, fun h => by cases h⟩
    | false =>
      rw [Listing.read_length, hended, if_neg Bool.false_ne_true, ih.2 hended]
      exact ⟨le_rfl, fun _ => rfl⟩

/-- A listing has what is in the list at every read of it. -/
theorem listing_sound (hs : ∀ n, (lists n).Pairwise (· < ·)) (hlimits : ∀ n, 1 ≤ limits n) (n : ℕ) :
    (listing limits lists n).Sound
      fun x => ∀ k < (listing limits lists n).pages.length, x ∈ lists k := by
  induction n with
  | zero =>
    exact ⟨.nil, by simp [listing, Listing.names], fun x _ h => by simp [listing] at h⟩
  | succ n ih =>
    have hread := ih.read (hs n) (hlimits n)
    refine ⟨hread.ascends, hread.bounded, fun x hx => hread.complete x ⟨?_, fun hended => ?_⟩⟩
    · intro k hk
      refine hx k (lt_of_lt_of_le hk ?_)
      rw [listing, Listing.read_length]
      split_ifs <;> omega
    · refine hx n ?_
      rw [listing, Listing.read_length, hended, if_neg Bool.false_ne_true, (listing_length n).2 hended]
      exact Nat.lt_succ_self n

/-- The names of a listing ascend. -/
theorem listing_ascends (hs : ∀ n, (lists n).Pairwise (· < ·)) (hlimits : ∀ n, 1 ≤ limits n)
    (n : ℕ) : (listing limits lists n).names.Pairwise (· < ·) :=
  (listing_sound hs hlimits n).ascends

/-- A listing that has ended has the names that were in the list at each of its reads. -/
theorem listing_complete (hs : ∀ n, (lists n).Pairwise (· < ·)) (hlimits : ∀ n, 1 ≤ limits n) {n : ℕ}
    (hended : (listing limits lists n).ended = true) {x : α}
    (hx : ∀ k < (listing limits lists n).pages.length, x ∈ lists k) :
    x ∈ (listing limits lists n).names :=
  (listing_sound hs hlimits n).complete x hx (Or.inl hended)

/-- From a read on, names that follow the cursor are not added. -/
def QuietFrom (limits : ℕ → ℕ) (lists : ℕ → List α) (n : ℕ) : Prop :=
  ∀ k ≥ n, ∀ x ∈ lists (k + 1), Follows (listing limits lists (k + 1)).cursor x → x ∈ lists k

/-- What is left to list gets shorter at each read, when no names are added that follow the cursor. -/
theorem after_shorter {k : ℕ} (hs : ∀ n, (lists n).Pairwise (· < ·))
    (hquiet : ∀ x ∈ lists (k + 1), Follows (listing limits lists (k + 1)).cursor x → x ∈ lists k)
    (hended : (listing limits lists k).ended = false)
    (hmore : (listing limits lists (k + 1)).ended = false) :
    (after (listing limits lists (k + 1)).cursor (lists (k + 1))).length <
      (after (listing limits lists k).cursor (lists k)).length := by
  have hread : listing limits lists (k + 1) = ⟨(listing limits lists k).pages ++
      [page (limits k) (listing limits lists k).cursor (lists k)],
      next (limits k) (listing limits lists k).cursor (lists k),
      (next (limits k) (listing limits lists k).cursor (lists k)).isNone⟩ := by
    rw [listing, Listing.read, hended, if_neg Bool.false_ne_true]
  rw [hread] at hmore hquiet
  rw [hread]
  obtain ⟨last, hlast⟩ := Option.isSome_iff_exists.1
    (Option.isNone_eq_false_iff.1 (show Option.isNone _ = false from hmore))
  dsimp only at hquiet ⊢
  rw [hlast] at hquiet ⊢
  obtain ⟨names, hpage⟩ := next_eq_some hlast
  have hmem : last ∈ page (limits k) (listing limits lists k).cursor (lists k) := by simp [hpage]
  have hlastFollows := (mem_page (hs k) hmem).2
  -- The last name of the page was left to list, and is not any more.
  have hnodup : (last :: after (some last) (lists (k + 1))).Nodup := by
    refine List.nodup_cons.2 ⟨fun h => ?_, ?_⟩
    · exact lt_irrefl last (((mem_after (hs (k + 1))).1 h).2 last rfl)
    · exact ((hs (k + 1)).sublist (after_sublist _ _)).imp ne_of_lt
  have hsub : last :: after (some last) (lists (k + 1)) ⊆
      after (listing limits lists k).cursor (lists k) := by
    intro x hx
    rcases List.mem_cons.1 hx with rfl | hx
    · exact List.mem_of_mem_take hmem
    · obtain ⟨hx, hfollows⟩ := (mem_after (hs (k + 1))).1 hx
      exact (mem_after (hs k)).2 ⟨hquiet x hx hfollows, fun c hc =>
        (hlastFollows c hc).trans (hfollows last rfl)⟩
  exact (List.subperm_of_subset hnodup hsub).length_le

/-- A listing ends when no names are added that follow the cursor. -/
theorem listing_ends (hs : ∀ n, (lists n).Pairwise (· < ·)) {n : ℕ}
    (hquiet : QuietFrom limits lists n) : ∃ m, (listing limits lists m).ended = true := by
  have hleft : ∀ d k, n ≤ k → (after (listing limits lists k).cursor (lists k)).length ≤ d →
      ∃ m, (listing limits lists m).ended = true := by
    intro d
    induction d with
    | zero =>
      intro k hk hlength
      by_contra hnever
      push Not at hnever
      have hshorter := after_shorter hs (hquiet k hk) (Bool.eq_false_iff.2 (hnever k))
        (Bool.eq_false_iff.2 (hnever (k + 1)))
      omega
    | succ d ih =>
      intro k hk hlength
      by_cases hended : (listing limits lists k).ended = true
      · exact ⟨k, hended⟩
      by_cases hmore : (listing limits lists (k + 1)).ended = true
      · exact ⟨k + 1, hmore⟩
      have hshorter := after_shorter hs (hquiet k hk) (Bool.eq_false_iff.2 hended)
        (Bool.eq_false_iff.2 hmore)
      exact ih (k + 1) (by omega) (by omega)
  exact hleft _ n le_rfl le_rfl

end Listings

end Paging
