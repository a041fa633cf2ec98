import Mathlib.Data.List.Basic

/-!
# Bounded caches

A cache keeps the entries of a `Map` in the order of their insertion, the oldest first. A key that is
set again becomes the newest, and the oldest entries are deleted while there are more than a limit.

An entry of a cache was there before or is the one that was set (`mem_put`), so what is true of every
entry stays so, whatever is deleted. A cache that is only set stays within its limit.
-/

namespace Caches

variable {κ α : Type*}

/-- The oldest entries are deleted while there are more than the limit. -/
def evict (limit : ℕ) : List (κ × α) → List (κ × α)
  | [] => []
  | e :: cache => if limit < (e :: cache).length then evict limit cache else e :: cache

theorem evict_suffix (limit : ℕ) (cache : List (κ × α)) : evict limit cache <:+ cache := by
  induction cache with
  | nil => exact List.suffix_rfl
  | cons e cache ih =>
    rw [evict]
    split_ifs
    · exact ih.trans (List.suffix_cons e cache)
    · exact List.suffix_rfl

theorem length_evict_le (limit : ℕ) (cache : List (κ × α)) : (evict limit cache).length ≤ limit := by
  induction cache with
  | nil => exact Nat.zero_le limit
  | cons e cache ih =>
    rw [evict]
    split_ifs with h
    · exact ih
    · exact Nat.not_lt.1 h

variable [DecidableEq κ]

/-- The value under a key. -/
def get (key : κ) (cache : List (κ × α)) : Option α :=
  (cache.find? (·.1 = key)).map (·.2)

/-- The entry of a key as the newest one. -/
def touch (key : κ) (a : α) (cache : List (κ × α)) : List (κ × α) :=
  cache.filter (·.1 ≠ key) ++ [(key, a)]

/-- The cache with an entry, within its limit. -/
def put (limit : ℕ) (key : κ) (a : α) (cache : List (κ × α)) : List (κ × α) :=
  evict limit (touch key a cache)

variable {limit : ℕ} {key : κ} {a b : α} {cache : List (κ × α)} {e : κ × α}

@[simp] theorem get_nil : get key ([] : List (κ × α)) = none := rfl

theorem mem_of_get (h : get key cache = some a) : (key, a) ∈ cache := by
  obtain ⟨e, hfound, rfl⟩ := Option.map_eq_some_iff.1 h
  have hkey : e.1 = key := by simpa using List.find?_some hfound
  rw [← hkey]
  exact List.mem_of_find?_eq_some hfound

theorem mem_touch (h : e ∈ touch key a cache) : e = (key, a) ∨ e ∈ cache := by
  rcases List.mem_append.1 h with h | h
  · exact Or.inr (List.mem_of_mem_filter h)
  · exact Or.inl (List.mem_singleton.1 h)

/-- An entry was there before, or is the one that was set. -/
theorem mem_put (h : e ∈ put limit key a cache) : e = (key, a) ∨ e ∈ cache :=
  mem_touch ((evict_suffix limit _).subset h)

/-- A key that is there already takes no more room. -/
theorem length_touch_le (h : get key cache = some b) :
    (touch key a cache).length ≤ cache.length := by
  have hlt : (cache.filter (·.1 ≠ key)).length < cache.length :=
    List.length_filter_lt_length_iff_exists.2 ⟨(key, b), mem_of_get h, by simp⟩
  rw [touch, List.length_append, List.length_singleton]
  exact hlt

theorem length_put_le : (put limit key a cache).length ≤ limit :=
  length_evict_le limit _

end Caches
