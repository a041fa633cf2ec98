import Mathlib.Data.List.Basic
import Mathlib.Data.List.DropRight

/-!
# Words in two parts

Three readings of a word with a separator : `onePair` wants the separator once and something on both
sides of it, `lastPair` splits at the last one, and `splitEvery` at every one. Where `onePair` reads
two parts, the other two read the same parts (`lastPair_of_onePair`, `splitEvery_of_onePair`).
-/

namespace Separators

variable {α : Type*} [DecidableEq α] (sep : α)

/-- The two parts of a word with one separator and something on both sides. -/
def onePair (word : List α) : Option (List α × List α) :=
  match word.dropWhile (· ≠ sep) with
  | [] => none
  | _ :: right =>
    let left := word.takeWhile (· ≠ sep)
    if left ≠ [] ∧ right ≠ [] ∧ sep ∉ right then some (left, right) else none

/-- The parts of a word before and after its last separator, when both have something. -/
def lastPair (word : List α) : Option (List α × List α) :=
  match word.reverse.dropWhile (· ≠ sep) with
  | [] => none
  | _ :: left =>
    let right := word.reverse.takeWhile (· ≠ sep)
    if left ≠ [] ∧ right ≠ [] then some (left.reverse, right.reverse) else none

/-- The parts of a word between its separators. -/
def splitEvery : List α → List (List α)
  | [] => [[]]
  | a :: word =>
    if a = sep then [] :: splitEvery word
    else match splitEvery word with
      | part :: parts => (a :: part) :: parts
      | [] => [[a]]

variable {sep} {word left right : List α}

theorem takeWhile_append_cons (h : sep ∉ left) :
    (left ++ sep :: right).takeWhile (· ≠ sep) = left ∧
      (left ++ sep :: right).dropWhile (· ≠ sep) = sep :: right := by
  have hall : ∀ a ∈ left, decide (a ≠ sep) = true := fun a ha =>
    decide_eq_true fun heq => h (heq ▸ ha)
  rw [List.takeWhile_append_of_pos hall, List.dropWhile_append_of_pos hall]
  simp

/-- Two words agree on what is before their first separators, and after. -/
theorem append_cons_inj {left' right' : List α} (hleft : sep ∉ left) (hleft' : sep ∉ left')
    (h : left ++ sep :: right = left' ++ sep :: right') : left = left' ∧ right = right' := by
  have htake := congrArg (List.takeWhile (· ≠ sep)) h
  have hdrop := congrArg (List.dropWhile (· ≠ sep)) h
  rw [(takeWhile_append_cons hleft).1, (takeWhile_append_cons hleft').1] at htake
  rw [(takeWhile_append_cons hleft).2, (takeWhile_append_cons hleft').2] at hdrop
  exact ⟨htake, (List.cons.inj hdrop).2⟩

/-- Two words agree on what is before their last separators, and after. -/
theorem append_cons_inj_last {left' right' : List α} (hright : sep ∉ right) (hright' : sep ∉ right')
    (h : left ++ sep :: right = left' ++ sep :: right') : left = left' ∧ right = right' := by
  have hreverse := congrArg List.reverse h
  simp only [List.reverse_append, List.reverse_cons, List.append_assoc, List.singleton_append]
    at hreverse
  obtain ⟨h₁, h₂⟩ := append_cons_inj (by simpa using hright) (by simpa using hright') hreverse
  exact ⟨List.reverse_injective h₂, List.reverse_injective h₁⟩

/-- A word with a separator, before and after its first one. -/
theorem eq_append_of_dropWhile {a : α} (h : word.dropWhile (· ≠ sep) = a :: right) :
    word = word.takeWhile (· ≠ sep) ++ sep :: right ∧ sep ∉ word.takeWhile (· ≠ sep) := by
  have ha : a = sep := by
    have hne : word.dropWhile (fun x => decide (x ≠ sep)) ≠ [] := h ▸ List.cons_ne_nil a right
    have hhead := List.head_dropWhile_not (fun x => decide (x ≠ sep)) hne
    simp only [h, List.head_cons] at hhead
    simpa using hhead
  subst ha
  refine ⟨?_, fun hmem => ?_⟩
  · rw [← h, List.takeWhile_append_dropWhile]
  · simpa using List.mem_takeWhile_imp hmem

theorem onePair_eq_some : onePair sep word = some (left, right) ↔
    word = left ++ sep :: right ∧ left ≠ [] ∧ right ≠ [] ∧ sep ∉ left ∧ sep ∉ right := by
  constructor
  · intro h
    unfold onePair at h
    split at h
    · simp at h
    · rename_i a rest hdrop
      obtain ⟨hword, hleft⟩ := eq_append_of_dropWhile hdrop
      dsimp only at h
      split at h
      · rename_i hparts
        obtain ⟨rfl, rfl⟩ := Prod.mk.inj (Option.some.inj h)
        exact ⟨hword, hparts.1, hparts.2.1, hleft, hparts.2.2⟩
      · simp at h
  · rintro ⟨rfl, hleft, hright, hnone, hlast⟩
    obtain ⟨htake, hdrop⟩ := @takeWhile_append_cons _ _ sep left right hnone
    unfold onePair
    rw [hdrop]
    simp only [htake]
    rw [if_pos ⟨hleft, hright, hlast⟩]

theorem lastPair_eq_some : lastPair sep word = some (left, right) ↔
    word = left ++ sep :: right ∧ left ≠ [] ∧ right ≠ [] ∧ sep ∉ right := by
  constructor
  · intro h
    unfold lastPair at h
    split at h
    · simp at h
    · rename_i a rest hdrop
      obtain ⟨hword, hright⟩ := eq_append_of_dropWhile hdrop
      dsimp only at h
      split at h
      · rename_i hparts
        obtain ⟨rfl, rfl⟩ := Prod.mk.inj (Option.some.inj h)
        refine ⟨?_, by simpa using hparts.1, by simpa using hparts.2, by simpa using hright⟩
        simpa using congrArg List.reverse hword
      · simp at h
  · rintro ⟨rfl, hleft, hright, hnone⟩
    have hreverse : (left ++ sep :: right).reverse = right.reverse ++ sep :: left.reverse := by simp
    obtain ⟨htake, hdrop⟩ := @takeWhile_append_cons _ _ sep right.reverse left.reverse
      (by simpa using hnone)
    unfold lastPair
    rw [hreverse, hdrop]
    simp only [htake]
    rw [if_pos ⟨by simpa using hleft, by simpa using hright⟩]
    simp

theorem splitEvery_of_notMem (h : sep ∉ word) : splitEvery sep word = [word] := by
  induction word with
  | nil => rfl
  | cons a word ih =>
    obtain ⟨ha, hword⟩ := not_or.1 (List.mem_cons.not.1 h)
    rw [splitEvery, if_neg (Ne.symm ha), ih hword]

theorem splitEvery_ne_nil (word : List α) : splitEvery sep word ≠ [] := by
  rcases word with - | ⟨a, word⟩
  · simp [splitEvery]
  · rw [splitEvery]
    split_ifs
    · simp
    · rcases splitEvery sep word with - | ⟨part, parts⟩ <;> simp

/-- A separator splits a word into the parts of its two sides. -/
theorem splitEvery_append_cons (left right : List α) :
    splitEvery sep (left ++ sep :: right) = splitEvery sep left ++ splitEvery sep right := by
  induction left with
  | nil => simp [splitEvery]
  | cons a left ih =>
    rw [List.cons_append, splitEvery, splitEvery, ih]
    rcases hparts : splitEvery sep left with - | ⟨part, parts⟩
    · exact absurd hparts (splitEvery_ne_nil left)
    split_ifs <;> rfl

theorem splitEvery_append (h : sep ∉ left) :
    splitEvery sep (left ++ sep :: right) = left :: splitEvery sep right := by
  rw [splitEvery_append_cons, splitEvery_of_notMem h, List.singleton_append]

/-- A word is its parts with separators between them. -/
theorem intercalate_splitEvery (word : List α) : [sep].intercalate (splitEvery sep word) = word := by
  induction word with
  | nil => rfl
  | cons a word ih =>
    rw [splitEvery]
    rcases hparts : splitEvery sep word with - | ⟨part, parts⟩
    · exact absurd hparts (splitEvery_ne_nil word)
    rw [hparts] at ih
    split_ifs with ha
    · rw [ha, ← ih]
      simp [List.intercalate]
    · rw [← ih]
      rcases parts with - | ⟨next, parts⟩ <;> simp [List.intercalate]

/-- Words with the same parts are the same. -/
theorem splitEvery_injective : Function.Injective (splitEvery sep) := fun left right h => by
  rw [← @intercalate_splitEvery _ _ sep left, h, intercalate_splitEvery]

/-- What is appended to a word without a separator is appended to its last part. -/
theorem splitEvery_append_of_notMem (h : sep ∉ right) : splitEvery sep (left ++ right) =
    (splitEvery sep left).dropLast ++ [(splitEvery sep left).getLastD [] ++ right] := by
  induction left with
  | nil => simp [splitEvery, splitEvery_of_notMem h]
  | cons a left ih =>
    rw [List.cons_append, splitEvery, splitEvery, ih]
    rcases hparts : splitEvery sep left with - | ⟨part, parts⟩
    · exact absurd hparts (splitEvery_ne_nil left)
    split_ifs
    · simp
    · rcases parts with - | ⟨next, parts⟩ <;> simp

/-- Where there is one separator, the word has no other parts. -/
theorem onePair_append {parts : List α × List α}
    (h : onePair sep (left ++ sep :: right) = some parts) : parts = (left, right) := by
  obtain ⟨l, r⟩ := parts
  obtain ⟨hword, -, -, hl, hr⟩ := onePair_eq_some.1 h
  obtain ⟨rfl, -, rfl⟩ := (List.append_cons_inj_of_notMem hl hr).1 hword.symm
  rfl

/-- Where there is one separator, it is the last one. -/
theorem lastPair_of_onePair (h : onePair sep word = some (left, right)) :
    lastPair sep word = some (left, right) := by
  obtain ⟨rfl, hleft, hright, -, hlast⟩ := onePair_eq_some.1 h
  exact lastPair_eq_some.2 ⟨rfl, hleft, hright, hlast⟩

end Separators
