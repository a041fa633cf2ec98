import Mathlib.Algebra.Group.Nat.Defs
import Mathlib.Data.List.Basic
import Mathlib.Data.List.TakeWhile
import Mathlib.Tactic.Common

/-!
# Replacing what a pattern finds in a text

A `Pattern` finds a key, a gap and a secret, as a regular expression whose parts cannot be matched in
two ways. `replace` puts a literal text for every match, from left to right, and `secrets` are the
characters of the secrets it leaves out. Both are defined for texts whose elements carry more than a
character, so that what becomes of an occurrence of a character can be followed.

A text that goes on is replaced as before up to its last match, and only what follows the text is a new
secret (`replace_append`). For two patterns in a row, of which the first keeps nothing of what it finds,
an occurrence that is left out as a secret of a text does not show when only a beginning of the text is
replaced, whatever is put after the beginning (`not_shown_of_secret`).
-/

namespace Replacements

/-! ## Parts of a pattern -/

/-- How many characters a part of a pattern matches at the beginning of a text. -/
abbrev Matcher := List Char → Option ℕ

/-- A part that ends within a text is found whatever follows the text. -/
def Local (m : Matcher) : Prop :=
  ∀ ⦃n : ℕ⦄ ⦃x y : List Char⦄, n < x.length → (m (x ++ y) = some n ↔ m x = some n)

/-- Whether a text begins with a word, in letters of either case. -/
def beginsWith (word x : List Char) : Bool := word.isPrefixOf (x.map Char.toLower)

/-- One of some words. -/
def anyWord (words : List (List Char)) : Matcher := fun x =>
  (words.find? (beginsWith · x)).map List.length

/-- The characters at the beginning that meet a condition. -/
def run (f : Char → Bool) : Matcher := fun x => some (x.takeWhile f).length

/-- A part that is not empty. -/
def nonempty (m : Matcher) : Matcher := fun x => (m x).filter (· ≠ 0)

/-- One character that meets a condition. -/
def one (f : Char → Bool) : Matcher
  | [] => none
  | c :: _ => if f c then some 1 else none

/-- One part after another. -/
def andThen (m m' : Matcher) : Matcher := fun x =>
  (m x).bind fun a => (m' (x.drop a)).map (a + ·)

theorem andThen_eq_some {m m' : Matcher} {x : List Char} {n : ℕ} :
    andThen m m' x = some n ↔ ∃ a b, m x = some a ∧ m' (x.drop a) = some b ∧ a + b = n := by
  simp only [andThen, Option.bind_eq_some_iff, Option.map_eq_some_iff]
  constructor
  · rintro ⟨a, ha, b, hb, rfl⟩
    exact ⟨a, b, ha, hb, rfl⟩
  · rintro ⟨a, b, ha, hb, rfl⟩
    exact ⟨a, ha, b, hb, rfl⟩

theorem nonempty_eq_some {m : Matcher} {x : List Char} {n : ℕ} :
    nonempty m x = some n ↔ m x = some n ∧ n ≠ 0 := by
  simp [nonempty, Option.filter_eq_some_iff]

theorem one_eq_some {f : Char → Bool} {x : List Char} {n : ℕ} :
    one f x = some n ↔ ∃ c y, x = c :: y ∧ f c ∧ n = 1 := by
  cases x with
  | nil => simp [one]
  | cons c x =>
    rw [one]
    constructor
    · intro h
      split_ifs at h with hc
      exact ⟨c, x, rfl, hc, (Option.some.inj h).symm⟩
    · rintro ⟨_, _, hx, hc, rfl⟩
      obtain ⟨rfl, rfl⟩ := List.cons.inj hx
      exact if_pos hc

theorem local_run (f : Char → Bool) : Local (run f) := by
  intro n x y hn
  simp only [run, Option.some.injEq]
  induction x generalizing n with
  | nil => exact absurd hn (Nat.not_lt_zero n)
  | cons c x ih =>
    rw [List.cons_append, List.takeWhile_cons, List.takeWhile_cons]
    split_ifs
    · cases n with
      | zero => simp
      | succ n => simpa using ih (Nat.lt_of_succ_lt_succ hn)
    · rfl

theorem local_one (f : Char → Bool) : Local (one f) := by
  intro n x y hn
  cases x with
  | nil => exact absurd hn (Nat.not_lt_zero n)
  | cons c x => rfl

theorem Local.nonempty {m : Matcher} (h : Local m) : Local (nonempty m) := by
  intro n x y hn
  rw [nonempty_eq_some, nonempty_eq_some, h hn]

/-- Two parts that end within a text, one after the other. -/
theorem Local.both {m m' : Matcher} (h : Local m) (h' : Local m') {x y : List Char} {a b : ℕ}
    (hn : a + b < x.length) : m (x ++ y) = some a ∧ m' ((x ++ y).drop a) = some b ↔
      m x = some a ∧ m' (x.drop a) = some b := by
  have hle : a ≤ x.length := (Nat.le_add_right a b).trans hn.le
  have hrest : b < (x.drop a).length := by
    rw [List.length_drop]
    omega
  rw [List.drop_append_of_le_length hle, h' hrest, h (by omega)]

theorem Local.andThen {m m' : Matcher} (h : Local m) (h' : Local m') : Local (andThen m m') := by
  intro n x y hn
  rw [andThen_eq_some, andThen_eq_some]
  refine exists_congr fun a => exists_congr fun b => ?_
  rw [← and_assoc, ← and_assoc]
  refine and_congr_left fun hlength => ?_
  rw [← hlength] at hn
  exact h.both h' hn

theorem beginsWith_iff {word x : List Char} : beginsWith word x ↔ word <+: x.map Char.toLower :=
  List.isPrefixOf_iff_prefix

section Words

variable {words : List (List Char)} (hwords : ∀ w ∈ words, ∀ w' ∈ words, w <+: w' → w = w')
include hwords

/-- Where no word is the beginning of another, the one a text begins with is found. -/
theorem anyWord_eq_some {x : List Char} {n : ℕ} :
    anyWord words x = some n ↔ ∃ w ∈ words, w <+: x.map Char.toLower ∧ w.length = n := by
  rw [anyWord, Option.map_eq_some_iff]
  constructor
  · rintro ⟨w, hw, rfl⟩
    exact ⟨w, List.mem_of_find?_eq_some hw, beginsWith_iff.1 (List.find?_some (p := (beginsWith · x)) hw),
      rfl⟩
  · rintro ⟨w, hw, hbegins, rfl⟩
    cases hfound : words.find? (beginsWith · x) with
    | none => exact absurd (beginsWith_iff.2 hbegins) (List.find?_eq_none.1 hfound w hw)
    | some w' =>
      have hbegins' := beginsWith_iff.1 (List.find?_some (p := (beginsWith · x)) hfound)
      have hw' := List.mem_of_find?_eq_some hfound
      rcases List.prefix_or_prefix_of_prefix hbegins hbegins' with h | h
      · exact ⟨w', rfl, by rw [hwords w hw w' hw' h]⟩
      · exact ⟨w', rfl, by rw [hwords w' hw' w hw h]⟩

theorem local_anyWord : Local (anyWord words) := by
  intro n x y hn
  rw [anyWord_eq_some hwords, anyWord_eq_some hwords]
  refine exists_congr fun w => and_congr_right fun _ => and_congr_left fun hlength => ?_
  rw [List.map_append]
  constructor
  · intro h
    exact List.prefix_of_prefix_length_le h (List.prefix_append _ _)
      (by rw [List.length_map]; omega)
  · intro h
    exact h.trans (List.prefix_append _ _)

end Words

/-! ## Patterns -/

/-- A key, a gap and a secret that is not empty, the key at a place where `before` allows it. A match is
replaced by its key, where that is kept, and a literal text. Some character of a gap `ends` it : neither
a key nor what is before it in the gap has one, and what is after it in the gap is no secret. -/
structure Pattern where
  before : Option Char → Bool
  key : Matcher
  gap : Matcher
  isSecret : Char → Bool
  keeps : Bool
  literal : List Char
  ends : Char → Bool
  local_key : Local key
  local_gap : Local gap
  ended : ∀ {x a b}, key x = some a → gap (x.drop a) = some b →
    ∃ u c v, x.take (a + b) = u ++ c :: v ∧ ends c ∧ (∀ d ∈ u, ends d = false) ∧
      ∀ d ∈ v, isSecret d = false

variable {α β : Type*} (r : Pattern) (char : α → Char) (fixed : Char → α)

/-- A match at the beginning of a text : the lengths of its key, its gap and its secret. -/
def Pattern.matchAt (p : Option Char) (x : List Char) : Option (ℕ × ℕ × ℕ) :=
  if r.before p then
    (r.key x).bind fun a => (r.gap (x.drop a)).bind fun b =>
      match ((x.drop (a + b)).takeWhile r.isSecret).length with
      | 0 => none
      | n + 1 => some (a, b, n + 1)
  else none

/-- A part of a text : a character outside every match, or a match. -/
inductive Piece (α : Type*) where
  | plain (a : α)
  | found (key gap secret : List α)

/-- The pieces of a text after a character, from left to right. The number is that of the characters
still to be skipped, as they belong to the last match. -/
def Pattern.pieces : Option Char → ℕ → List α → List (Piece α)
  | _, _, [] => []
  | _, n + 1, a :: x => Pattern.pieces (some (char a)) n x
  | p, 0, a :: x =>
    match r.matchAt p ((a :: x).map char) with
    | none => .plain a :: Pattern.pieces (some (char a)) 0 x
    | some (k, g, n) =>
      .found ((a :: x).take k) (((a :: x).drop k).take g) (((a :: x).drop (k + g)).take n) ::
        Pattern.pieces (some (char a)) (k + g + n - 1) x

/-- A piece with other elements. -/
def Piece.map (g : α → β) : Piece α → Piece β
  | plain a => .plain (g a)
  | found key gap secret => .found (key.map g) (gap.map g) (secret.map g)

/-- What is put for a piece. -/
def Piece.shown : Piece α → List α
  | plain a => [a]
  | found key _ _ => (if r.keeps then key else []) ++ r.literal.map fixed

/-- The secret of a piece. -/
def Piece.secret : Piece α → List α
  | plain _ => []
  | found _ _ secret => secret

/-- The text with every match replaced, after a character. -/
def Pattern.replaceAfter (p : Option Char) (x : List α) : List α :=
  (r.pieces char p 0 x).flatMap (Piece.shown r fixed)

/-- The characters of the secrets that are left out, after a character. -/
def Pattern.secretsAfter (p : Option Char) (x : List α) : List α :=
  (r.pieces char p 0 x).flatMap Piece.secret

/-- The text with every match replaced. -/
def Pattern.replace (x : List α) : List α := r.replaceAfter char fixed none x

/-- The characters of the secrets that are left out. -/
def Pattern.secrets (x : List α) : List α := r.secretsAfter char none x

/-! ## Matches -/

variable {r char fixed} {p : Option Char}

theorem Pattern.matchAt_eq_some {x : List Char} {a b n : ℕ} :
    r.matchAt p x = some (a, b, n) ↔ r.before p ∧ (r.key x = some a ∧ r.gap (x.drop a) = some b) ∧
      ((x.drop (a + b)).takeWhile r.isSecret).length = n ∧ n ≠ 0 := by
  rw [Pattern.matchAt]
  constructor
  · intro h
    split_ifs at h with hbefore
    obtain ⟨a', hkey, h⟩ := Option.bind_eq_some_iff.1 h
    obtain ⟨b', hgap, h⟩ := Option.bind_eq_some_iff.1 h
    split at h
    next => exact absurd h nofun
    next m hm =>
      obtain ⟨rfl, rfl, rfl⟩ : a' = a ∧ b' = b ∧ m + 1 = n := by simpa using h
      exact ⟨hbefore, ⟨hkey, hgap⟩, hm, Nat.succ_ne_zero m⟩
  · rintro ⟨hbefore, ⟨hkey, hgap⟩, hn, hne⟩
    rw [if_pos hbefore, hkey, Option.bind_some, hgap, Option.bind_some, hn]
    cases n with
    | zero => exact absurd rfl hne
    | succ n => rfl

/-- A match ends after its key and its gap. -/
theorem Pattern.lt_of_matchAt {x : List Char} {a b n : ℕ} (h : r.matchAt p x = some (a, b, n)) :
    a + b < x.length := by
  obtain ⟨-, -, hn, hne⟩ := Pattern.matchAt_eq_some.1 h
  by_contra hle
  rw [List.drop_eq_nil_of_le (Nat.not_lt.1 hle)] at hn
  exact hne hn.symm

/-- A match in a text is one in the text that goes on, perhaps with a longer secret. -/
theorem Pattern.matchAt_append {x : List Char} {a b n : ℕ} (h : r.matchAt p x = some (a, b, n))
    (y : List Char) : r.matchAt p (x ++ y) =
      some (a, b, ((x.drop (a + b) ++ y).takeWhile r.isSecret).length) := by
  have hlt := Pattern.lt_of_matchAt h
  obtain ⟨hbefore, hhead, hn, hne⟩ := Pattern.matchAt_eq_some.1 h
  refine Pattern.matchAt_eq_some.2 ⟨hbefore, (r.local_key.both r.local_gap hlt).2 hhead, ?_, ?_⟩
  · rw [List.drop_append_of_le_length hlt.le]
  · have hlength : n ≤ ((x.drop (a + b) ++ y).takeWhile r.isSecret).length := by
      rw [← hn]
      refine List.IsPrefix.length_le ?_
      rw [List.takeWhile_append]
      split_ifs with hall
      · rw [(List.takeWhile_prefix _).eq_of_length hall]
        exact List.prefix_append _ _
      · exact List.prefix_refl _
    omega

/-- A match in a text that goes on is one in the text, when its secret begins there. -/
theorem Pattern.matchAt_of_append {x y : List Char} {a b n : ℕ}
    (h : r.matchAt p (x ++ y) = some (a, b, n)) (hlt : a + b < x.length) :
    ∃ m, r.matchAt p x = some (a, b, m) := by
  obtain ⟨hbefore, hhead, hn, hne⟩ := Pattern.matchAt_eq_some.1 h
  refine ⟨_, Pattern.matchAt_eq_some.2
    ⟨hbefore, (r.local_key.both r.local_gap hlt).1 hhead, rfl, ?_⟩⟩
  rw [List.drop_append_of_le_length hlt.le, List.drop_eq_getElem_cons hlt, List.cons_append,
    List.takeWhile_cons] at hn
  rw [List.drop_eq_getElem_cons hlt, List.takeWhile_cons]
  split_ifs at hn ⊢
  · exact Nat.succ_ne_zero _
  · exact absurd hn.symm hne

/-- No character after one that ends a gap is part of a secret. -/
def Pattern.Quiet (r : Pattern) (x : List Char) : Prop :=
  x.Pairwise fun c d => r.ends c → r.isSecret d = false

/-- The key and the gap of a match are quiet. -/
theorem Pattern.quiet_head {x : List Char} {a b : ℕ} (hkey : r.key x = some a)
    (hgap : r.gap (x.drop a) = some b) : r.Quiet (x.take (a + b)) := by
  obtain ⟨u, c, v, heq, -, hu, hv⟩ := r.ended hkey hgap
  have hbefore {d : Char} (hd : d ∈ u) (hends : r.ends d) : False := by
    rw [hu d hd] at hends
    exact Bool.false_ne_true hends
  rw [heq, Pattern.Quiet, List.pairwise_append, List.pairwise_cons]
  refine ⟨?_, ⟨fun d hd _ => hv d hd, ?_⟩, fun d hd _ _ hends => (hbefore hd hends).elim⟩
  · exact List.pairwise_of_forall_mem_list fun _ hd _ _ hends => (hbefore hd hends).elim
  · exact List.pairwise_of_forall_mem_list fun _ _ d hd _ => hv d hd

/-- There is no match at the beginning of a quiet text. -/
theorem Pattern.Quiet.matchAt {x : List Char} (h : r.Quiet x) (p : Option Char) :
    r.matchAt p x = none := by
  rw [Option.eq_none_iff_forall_ne_some]
  rintro ⟨a, b, n⟩ hmatch
  have hlt := Pattern.lt_of_matchAt hmatch
  obtain ⟨-, ⟨hkey, hgap⟩, hn, hne⟩ := Pattern.matchAt_eq_some.1 hmatch
  obtain ⟨u, c, v, heq, hends, -, -⟩ := r.ended hkey hgap
  rw [List.drop_eq_getElem_cons hlt, List.takeWhile_cons] at hn
  split_ifs at hn with hsecret
  · rw [← List.take_append_drop (a + b) x, heq, List.drop_eq_getElem_cons hlt] at h
    have hquiet := (List.pairwise_append.1 h).2.2 c (by simp) _ List.mem_cons_self hends
    rw [hquiet] at hsecret
    exact Bool.false_ne_true hsecret
  · exact hne hn.symm

/-! ## Pieces -/

/-- The character before the rest of a text. -/
def after (char : α → Char) (p : Option Char) (u : List α) : Option Char :=
  u.foldl (fun _ a => some (char a)) p

theorem Pattern.pieces_skip (p : Option Char) (u z : List α) :
    r.pieces char p u.length (u ++ z) = r.pieces char (after char p u) 0 z := by
  induction u generalizing p with
  | nil => rfl
  | cons a u ih =>
    rw [List.length_cons, List.cons_append, Pattern.pieces, ih]
    rfl

theorem Pattern.pieces_plain {a : α} {x : List α}
    (h : r.matchAt p ((a :: x).map char) = none) :
    r.pieces char p 0 (a :: x) = .plain a :: r.pieces char (some (char a)) 0 x := by
  rw [Pattern.pieces, h]

/-- A match at the beginning of a text, with the rest of the text after it. -/
structure Pattern.Match (r : Pattern) (char : α → Char) (p : Option Char)
    (key gap secret rest : List α) : Prop where
  matched : r.matchAt p ((key ++ gap ++ secret ++ rest).map char) =
    some (key.length, gap.length, secret.length)
  secret : ∀ a ∈ secret, r.isSecret (char a)
  rest : ∀ a ∈ rest.head?, r.isSecret (char a) = false

theorem takeWhile_append_head {f : α → Bool} {u v : List α} (hu : ∀ a ∈ u, f a)
    (hv : ∀ a ∈ v.head?, f a = false) : (u ++ v).takeWhile f = u := by
  rw [List.takeWhile_append_of_pos hu]
  cases v with
  | nil => exact List.append_nil u
  | cons a v => rw [List.takeWhile_cons_of_neg (by simp [hv a rfl]), List.append_nil]

/-- A match found at the beginning of a text has its parts there. -/
theorem Pattern.exists_match {x : List α} {a b n : ℕ}
    (h : r.matchAt p (x.map char) = some (a, b, n)) : ∃ key gap secret rest : List α,
      x = key ++ gap ++ secret ++ rest ∧ r.Match char p key gap secret rest ∧
        key.length = a ∧ gap.length = b := by
  have hlt := Pattern.lt_of_matchAt h
  rw [List.length_map] at hlt
  obtain ⟨-, -, hn, -⟩ := Pattern.matchAt_eq_some.1 h
  rw [← List.map_drop, List.takeWhile_map, List.length_map] at hn
  have hhead : x.take a ++ (x.drop a).take b = x.take (a + b) := (List.take_add).symm
  have hsplit : x = x.take a ++ (x.drop a).take b ++
      (x.drop (a + b)).takeWhile (r.isSecret ∘ char) ++
      (x.drop (a + b)).dropWhile (r.isSecret ∘ char) := by
    rw [hhead, List.append_assoc, List.takeWhile_append_dropWhile, List.take_append_drop]
  have hkey : (x.take a).length = a := List.length_take_of_le (by omega)
  have hgap : ((x.drop a).take b).length = b :=
    List.length_take_of_le (by rw [List.length_drop]; omega)
  refine ⟨_, _, _, _, hsplit, ⟨?_, fun c hc => ?_, fun c hc => ?_⟩, hkey,
    hgap⟩
  · rw [← hsplit, h, hkey, hgap, hn]
  · exact List.mem_takeWhile_imp (p := r.isSecret ∘ char) hc
  · have := List.head?_dropWhile_not (r.isSecret ∘ char) (x.drop (a + b))
    rw [Option.mem_def.1 hc] at this
    exact this

/-- When the text goes on, the key and the gap of a match stay. -/
theorem Pattern.Match.extend {key gap secret rest secret' rest' y : List α}
    (h : r.Match char p key gap secret rest) (heq : secret' ++ rest' = secret ++ rest ++ y)
    (hsecret : ∀ a ∈ secret', r.isSecret (char a))
    (hrest : ∀ a ∈ rest'.head?, r.isSecret (char a) = false) :
    r.Match char p key gap secret' rest' := by
  refine ⟨?_, hsecret, hrest⟩
  have hdrop : ((key ++ gap ++ secret ++ rest).map char).drop (key.length + gap.length) =
      (secret ++ rest).map char := by
    rw [← List.map_drop, ← List.length_append, List.append_assoc (key ++ gap), List.drop_left]
  have htake : ((secret ++ rest).map char ++ y.map char).takeWhile r.isSecret =
      secret'.map char := by
    rw [← List.map_append, ← heq, List.takeWhile_map, takeWhile_append_head (f := r.isSecret ∘ char) hsecret
      hrest]
  have hmatch := Pattern.matchAt_append h.matched (y.map char)
  rw [hdrop, htake, List.length_map, ← List.map_append] at hmatch
  rw [← hmatch, List.append_assoc (key ++ gap), heq]
  simp only [List.append_assoc]

theorem Pattern.Match.pieces {key gap secret rest : List α}
    (h : r.Match char p key gap secret rest) :
    r.pieces char p 0 (key ++ gap ++ secret ++ rest) = .found key gap secret ::
      r.pieces char (after char p (key ++ gap ++ secret)) 0 rest := by
  have hne : secret.length ≠ 0 := (Pattern.matchAt_eq_some.1 h.matched).2.2.2
  have hmatched := h.matched
  have hkey : (key ++ gap ++ secret ++ rest).take key.length = key := by
    rw [List.append_assoc, List.append_assoc, List.take_left]
  have hgap : ((key ++ gap ++ secret ++ rest).drop key.length).take gap.length = gap := by
    rw [List.append_assoc, List.append_assoc, List.drop_left, List.take_left]
  have hsecret : ((key ++ gap ++ secret ++ rest).drop (key.length + gap.length)).take
      secret.length = secret := by
    rw [← List.length_append, List.append_assoc (key ++ gap), List.drop_left, List.take_left]
  have hskip : key.length + gap.length + secret.length = (key ++ gap ++ secret).length := by
    rw [List.length_append, List.length_append]
  generalize hu : key ++ gap ++ secret = u at hmatched hkey hgap hsecret hskip ⊢
  cases u with
  | nil =>
    rw [List.length_nil] at hskip
    omega
  | cons a u =>
    rw [List.cons_append] at hmatched hkey hgap hsecret ⊢
    rw [Pattern.pieces, hmatched]
    dsimp only
    rw [hkey, hgap, hsecret, hskip, List.length_cons, Nat.add_sub_cancel, Pattern.pieces_skip]
    rfl

variable (r char) in
/-- A text is empty, begins with a character outside every match, or begins with a match. -/
theorem Pattern.text_induction {motive : Option Char → List α → Prop} (nil : ∀ p, motive p [])
    (plain : ∀ p a x, r.matchAt p ((a :: x).map char) = none → motive (some (char a)) x →
      motive p (a :: x))
    (found : ∀ p key gap secret rest, r.Match char p key gap secret rest →
      motive (after char p (key ++ gap ++ secret)) rest →
      motive p (key ++ gap ++ secret ++ rest)) (p : Option Char) (x : List α) : motive p x := by
  induction hlength : x.length using Nat.strong_induction_on generalizing p x with
  | h length ih =>
    subst hlength
    cases x with
    | nil => exact nil p
    | cons a x =>
      cases hmatch : r.matchAt p ((a :: x).map char) with
      | none => exact plain p a x hmatch (ih x.length (by simp) _ x rfl)
      | some m =>
        obtain ⟨a', b, n⟩ := m
        obtain ⟨key, gap, secret, rest, heq, h, -, -⟩ := Pattern.exists_match hmatch
        have hne : secret.length ≠ 0 := (Pattern.matchAt_eq_some.1 h.matched).2.2.2
        rw [heq]
        refine found p key gap secret rest h (ih rest.length ?_ _ rest rfl)
        rw [heq]
        simp only [List.length_append]
        omega

/-! ## Replacing -/

@[simp] theorem Pattern.replaceAfter_nil : r.replaceAfter char fixed p [] = [] := rfl

@[simp] theorem Pattern.secretsAfter_nil : r.secretsAfter char p [] = [] := rfl

theorem Pattern.replaceAfter_plain {a : α} {x : List α}
    (h : r.matchAt p ((a :: x).map char) = none) :
    r.replaceAfter char fixed p (a :: x) = a :: r.replaceAfter char fixed (some (char a)) x := by
  rw [Pattern.replaceAfter, Pattern.pieces_plain h, List.flatMap_cons]
  rfl

theorem Pattern.secretsAfter_plain {a : α} {x : List α}
    (h : r.matchAt p ((a :: x).map char) = none) :
    r.secretsAfter char p (a :: x) = r.secretsAfter char (some (char a)) x := by
  rw [Pattern.secretsAfter, Pattern.pieces_plain h, List.flatMap_cons]
  rfl

theorem Pattern.Match.replaceAfter {key gap secret rest : List α}
    (h : r.Match char p key gap secret rest) :
    r.replaceAfter char fixed p (key ++ gap ++ secret ++ rest) =
      Piece.shown r fixed (.found key gap secret) ++
        r.replaceAfter char fixed (after char p (key ++ gap ++ secret)) rest := by
  rw [Pattern.replaceAfter, h.pieces, List.flatMap_cons]
  rfl

theorem Pattern.Match.secretsAfter {key gap secret rest : List α}
    (h : r.Match char p key gap secret rest) :
    r.secretsAfter char p (key ++ gap ++ secret ++ rest) =
      secret ++ r.secretsAfter char (after char p (key ++ gap ++ secret)) rest := by
  rw [Pattern.secretsAfter, h.pieces, List.flatMap_cons]
  rfl

/-- A quiet text stays as it is. -/
theorem Pattern.Quiet.replaceAfter {x : List α} (h : r.Quiet (x.map char)) (p : Option Char) :
    r.replaceAfter char fixed p x = x := by
  induction x generalizing p with
  | nil => rfl
  | cons a x ih =>
    rw [Pattern.replaceAfter_plain (h.matchAt p), ih (List.Pairwise.of_cons h)]

theorem Pattern.Quiet.secretsAfter {x : List α} (h : r.Quiet (x.map char)) (p : Option Char) :
    r.secretsAfter char p x = [] := by
  induction x generalizing p with
  | nil => rfl
  | cons a x ih =>
    rw [Pattern.secretsAfter_plain (h.matchAt p), ih (List.Pairwise.of_cons h)]

variable (r char) in
/-- An occurrence is shown or left out, not both. The literal text has none. -/
theorem Pattern.countP_replaceAfter_add (f : α → Bool) (hfixed : ∀ c, f (fixed c) = false)
    (p : Option Char) (x : List α) :
    (r.replaceAfter char fixed p x).countP f + (r.secretsAfter char p x).countP f ≤
      x.countP f := by
  have hliteral : (r.literal.map fixed).countP f = 0 := by
    rw [List.countP_eq_zero]
    intro a ha
    obtain ⟨c, -, rfl⟩ := List.mem_map.1 ha
    rw [hfixed]
    exact Bool.false_ne_true
  induction p, x using Pattern.text_induction r char with
  | nil p => exact Nat.le_refl 0
  | plain p a x h ih =>
    rw [Pattern.replaceAfter_plain h, Pattern.secretsAfter_plain h, List.countP_cons,
      List.countP_cons]
    omega
  | found p key gap secret rest h ih =>
    have hkey : (if r.keeps then key else []).countP f ≤ key.countP f := by
      split_ifs
      · exact Nat.le_refl _
      · exact Nat.zero_le _
    rw [h.replaceAfter, h.secretsAfter, Piece.shown]
    simp only [List.countP_append]
    omega

theorem Pattern.mem_of_mem_secretsAfter {x : List α} {a : α} (h : a ∈ r.secretsAfter char p x) :
    a ∈ x := by
  induction p, x using Pattern.text_induction r char with
  | nil p => exact h
  | plain p b x hnone ih =>
    rw [Pattern.secretsAfter_plain hnone] at h
    exact List.mem_cons_of_mem b (ih h)
  | found p key gap secret rest hmatch ih =>
    rw [hmatch.secretsAfter] at h
    rcases List.mem_append.1 h with h | h
    · exact List.mem_append_left _ (List.mem_append_right _ h)
    · exact List.mem_append_right _ (ih h)

theorem Pattern.mem_of_mem_replaceAfter {x : List α} {a : α}
    (h : a ∈ r.replaceAfter char fixed p x) : a ∈ x ∨ a ∈ r.literal.map fixed := by
  induction p, x using Pattern.text_induction r char with
  | nil p => exact Or.inl h
  | plain p b x hnone ih =>
    rw [Pattern.replaceAfter_plain hnone] at h
    rcases List.mem_cons.1 h with rfl | h
    · exact Or.inl List.mem_cons_self
    · exact (ih h).imp_left (List.mem_cons_of_mem b)
  | found p key gap secret rest hmatch ih =>
    rw [hmatch.replaceAfter, Piece.shown, List.append_assoc] at h
    rcases List.mem_append.1 h with h | h
    · split_ifs at h
      · exact Or.inl (by simp [h])
      · exact absurd h List.not_mem_nil
    rcases List.mem_append.1 h with h | h
    · exact Or.inr h
    · exact (ih h).imp_left (List.mem_append_right _)

/-! ## Texts that go on -/

/-- What becomes of a text that goes on, next to what becomes of the text alone : the beginning of what
is shown is the same, and what is new among the secrets and, where the key of a match is not kept, in
the rest of what is shown comes from the continuation. -/
structure Pattern.Continues (r : Pattern) (char : α → Char) (fixed : Char → α) (p : Option Char)
    (x y o u v s : List α) : Prop where
  shown : r.replaceAfter char fixed p x = o ++ u
  shown_append : r.replaceAfter char fixed p (x ++ y) = o ++ v
  secrets : r.secretsAfter char p (x ++ y) = r.secretsAfter char p x ++ s
  new_secrets : ∀ a ∈ s, a ∈ y
  new_shown : r.keeps = false → ∀ a ∈ v, a ∈ y ∨ a ∈ r.literal.map fixed

/-- A text that ends within the key or the gap of a match stays as it is. -/
theorem Pattern.continues_head {a : α} {x y : List α} {m : ℕ × ℕ × ℕ}
    (hnone : r.matchAt p ((a :: x).map char) = none)
    (hsome : r.matchAt p ((a :: (x ++ y)).map char) = some m) :
    ∃ v s, r.Continues char fixed p (a :: x) y [] (a :: x) v s := by
  obtain ⟨k, g, n⟩ := m
  obtain ⟨key, gap, secret, rest, heq, hmatch, hkey, hgap⟩ := Pattern.exists_match hsome
  rw [← List.cons_append] at heq hsome
  have hle : (a :: x).length ≤ (key ++ gap).length := by
    by_contra hlt
    rw [List.length_append, hkey, hgap] at hlt
    rw [List.map_append] at hsome
    obtain ⟨m, hm⟩ := Pattern.matchAt_of_append hsome (by rw [List.length_map]; omega)
    rw [hnone] at hm
    exact nomatch hm
  have hinitial : a :: x <+: key ++ gap := by
    refine List.prefix_of_prefix_length_le (List.prefix_append _ y) ?_ hle
    rw [heq, List.append_assoc (key ++ gap)]
    exact List.prefix_append _ _
  have hquiet : r.Quiet ((a :: x).map char) := by
    obtain ⟨-, ⟨hk, hg⟩, -⟩ := Pattern.matchAt_eq_some.1 hsome
    refine List.Pairwise.sublist (List.IsPrefix.sublist ?_) (Pattern.quiet_head hk hg)
    rw [← hkey, ← hgap, ← List.length_append, ← List.map_take, heq, List.append_assoc (key ++ gap),
      List.take_left]
    exact hinitial.map char
  obtain ⟨w, hw⟩ := hinitial
  have hy : y = w ++ (secret ++ rest) := by
    rw [List.append_assoc (key ++ gap), ← hw, List.append_assoc (a :: x)] at heq
    exact List.append_cancel_left heq
  refine ⟨Piece.shown r fixed (.found key gap secret) ++
    r.replaceAfter char fixed (after char p (key ++ gap ++ secret)) rest,
    secret ++ r.secretsAfter char (after char p (key ++ gap ++ secret)) rest,
    hquiet.replaceAfter p, ?_, ?_, ?_, ?_⟩
  · rw [heq, hmatch.replaceAfter, List.nil_append]
  · rw [heq, hmatch.secretsAfter, hquiet.secretsAfter p, List.nil_append]
  · intro c hc
    rw [hy]
    rcases List.mem_append.1 hc with hc | hc
    · simp [hc]
    · simp [Pattern.mem_of_mem_secretsAfter hc]
  · intro hkeeps c hc
    rw [Piece.shown, if_neg (by rw [hkeeps]; exact Bool.false_ne_true), List.nil_append] at hc
    rcases List.mem_append.1 hc with hc | hc
    · exact Or.inr hc
    · refine (Pattern.mem_of_mem_replaceAfter hc).imp_left fun hc => ?_
      rw [hy]
      simp [hc]

/-- The secret that a text ends with goes on in the continuation. -/
theorem Pattern.Match.continues_secret {key gap secret y : List α}
    (h : r.Match char p key gap secret []) :
    ∃ o v s, r.Continues char fixed p (key ++ gap ++ secret ++ []) y o [] v s := by
  have hextend : r.Match char p key gap (secret ++ y.takeWhile (r.isSecret ∘ char))
      (y.dropWhile (r.isSecret ∘ char)) := by
    refine h.extend (y := y) ?_ ?_ ?_
    · rw [List.append_assoc, List.takeWhile_append_dropWhile, List.append_nil]
    · intro a ha
      rcases List.mem_append.1 ha with ha | ha
      · exact h.secret a ha
      · exact List.mem_takeWhile_imp (p := r.isSecret ∘ char) ha
    · intro a ha
      have := List.head?_dropWhile_not (r.isSecret ∘ char) y
      rw [Option.mem_def.1 ha] at this
      exact this
  have hsplit : key ++ gap ++ secret ++ [] ++ y =
      key ++ gap ++ (secret ++ y.takeWhile (r.isSecret ∘ char)) ++
        y.dropWhile (r.isSecret ∘ char) := by
    simp only [List.append_nil, List.append_assoc, List.takeWhile_append_dropWhile]
  let p' := after char p (key ++ gap ++ (secret ++ y.takeWhile (r.isSecret ∘ char)))
  refine ⟨Piece.shown r fixed (.found key gap secret),
    r.replaceAfter char fixed p' (y.dropWhile (r.isSecret ∘ char)),
    y.takeWhile (r.isSecret ∘ char) ++ r.secretsAfter char p' (y.dropWhile (r.isSecret ∘ char)),
    ?_, ?_, ?_, ?_, ?_⟩
  · rw [h.replaceAfter, Pattern.replaceAfter_nil]
  · rw [hsplit, hextend.replaceAfter]
    rfl
  · rw [hsplit, hextend.secretsAfter, h.secretsAfter, Pattern.secretsAfter_nil, List.append_nil,
      List.append_assoc]
  · intro a ha
    rcases List.mem_append.1 ha with ha | ha
    · exact (List.takeWhile_prefix _).subset ha
    · exact (List.dropWhile_suffix _).subset (Pattern.mem_of_mem_secretsAfter ha)
  · intro _ a ha
    exact (Pattern.mem_of_mem_replaceAfter ha).imp_left fun ha =>
      (List.dropWhile_suffix _).subset ha

variable (r char fixed) in
/-- A text that goes on is replaced as before up to its last match. -/
theorem Pattern.replace_append (p : Option Char) (x y : List α) :
    ∃ o u v s, r.Continues char fixed p x y o u v s := by
  induction p, x using Pattern.text_induction r char with
  | nil p =>
    exact ⟨[], [], _, _, rfl, rfl, rfl, fun a => Pattern.mem_of_mem_secretsAfter,
      fun _ a => Pattern.mem_of_mem_replaceAfter⟩
  | plain p a x hnone ih =>
    cases hmatch : r.matchAt p ((a :: (x ++ y)).map char) with
    | none =>
      obtain ⟨o, u, v, s, h⟩ := ih
      refine ⟨a :: o, u, v, s, ?_, ?_, ?_, h.new_secrets, h.new_shown⟩
      · rw [Pattern.replaceAfter_plain hnone, h.shown, List.cons_append]
      · rw [List.cons_append, Pattern.replaceAfter_plain hmatch, h.shown_append, List.cons_append]
      · rw [List.cons_append, Pattern.secretsAfter_plain hmatch, h.secrets,
          Pattern.secretsAfter_plain hnone]
    | some m =>
      obtain ⟨v, s, h⟩ := Pattern.continues_head hnone hmatch
      exact ⟨[], a :: x, v, s, h⟩
  | found p key gap secret rest hmatch ih =>
    cases rest with
    | nil =>
      obtain ⟨o, v, s, h⟩ := hmatch.continues_secret (y := y)
      exact ⟨o, [], v, s, h⟩
    | cons c rest =>
      obtain ⟨o, u, v, s, h⟩ := ih
      have hextend : r.Match char p key gap secret (c :: rest ++ y) :=
        hmatch.extend (List.append_assoc secret _ y).symm hmatch.secret hmatch.rest
      refine ⟨Piece.shown r fixed (.found key gap secret) ++ o, u, v, s, ?_, ?_, ?_, h.new_secrets,
        h.new_shown⟩
      · rw [hmatch.replaceAfter, h.shown, List.append_assoc]
      · rw [List.append_assoc (key ++ gap ++ secret), hextend.replaceAfter, h.shown_append,
          List.append_assoc]
      · rw [List.append_assoc (key ++ gap ++ secret), hextend.secretsAfter, h.secrets,
          hmatch.secretsAfter, List.append_assoc secret]

/-! ## Two patterns -/

theorem countP_eq_zero_of_subset {f : α → Bool} {u y : List α} (hy : y.countP f = 0)
    (hu : ∀ a ∈ u, a ∈ y) : u.countP f = 0 :=
  List.countP_eq_zero.2 fun a ha => List.countP_eq_zero.1 hy a (hu a ha)

/-- An occurrence in the literal text does not count. -/
theorem countP_eq_zero_of_mem {f : α → Bool} (hfixed : ∀ c, f (fixed c) = false) {u y : List α}
    {literal : List Char} (hy : y.countP f = 0) (hu : ∀ a ∈ u, a ∈ y ∨ a ∈ literal.map fixed) :
    u.countP f = 0 := by
  rw [List.countP_eq_zero] at hy ⊢
  intro a ha
  rcases hu a ha with ha | ha
  · exact hy a ha
  · obtain ⟨c, -, rfl⟩ := List.mem_map.1 ha
    rw [hfixed]
    exact Bool.false_ne_true

variable {r' : Pattern} {x y z : List α} {f : α → Bool}

/-- An occurrence that is left out as a secret of a text does not show when a beginning of the text is
replaced, with anything else after it. -/
theorem not_shown_of_secret (hkeeps : r.keeps = false) (hfixed : ∀ c, f (fixed c) = false)
    (hone : (x ++ y).countP f ≤ 1) (hz : z.countP f = 0)
    (hsecret : (r.secrets char (x ++ y)).countP f ≠ 0 ∨
      (r'.secrets char (r.replace char fixed (x ++ y))).countP f ≠ 0) :
    (r'.replace char fixed (r.replace char fixed (x ++ z))).countP f = 0 := by
  have hshown {w : List α} (h : w.countP f = 0) : (r'.replace char fixed w).countP f = 0 := by
    have := r'.countP_replaceAfter_add char f hfixed none w
    rw [Pattern.replace]
    omega
  rw [List.countP_append] at hone
  have hsource := r.countP_replaceAfter_add char f hfixed none (x ++ z)
  rw [List.countP_append, hz] at hsource
  by_cases hy : y.countP f = 0
  swap
  · -- The occurrence is in the continuation.
    refine hshown ?_
    rw [Pattern.replace]
    omega
  obtain ⟨o, u, v, s, h⟩ := r.replace_append char fixed none x y
  obtain ⟨o', u', v', s', h'⟩ := r.replace_append char fixed none x z
  have hv : v.countP f = 0 := countP_eq_zero_of_mem hfixed hy (h.new_shown hkeeps)
  have hv' : v'.countP f = 0 := countP_eq_zero_of_mem hfixed hz (h'.new_shown hkeeps)
  rcases hsecret with hsecret | hsecret
  · -- A secret of the first pattern is one in the beginning, and so with anything after it.
    have hs : s.countP f = 0 := countP_eq_zero_of_subset hy h.new_secrets
    rw [Pattern.secrets, h.secrets, List.countP_append, hs] at hsecret
    rw [h'.secrets, List.countP_append] at hsource
    refine hshown ?_
    rw [Pattern.replace]
    omega
  · -- A secret of the second pattern is in what both texts have in common.
    obtain ⟨_, _, _, t, k⟩ := r'.replace_append char fixed none o v
    have ht : t.countP f = 0 := countP_eq_zero_of_subset hv k.new_secrets
    rw [Pattern.secrets, Pattern.replace, h.shown_append, k.secrets, List.countP_append, ht]
      at hsecret
    have hboth : o ++ u = o' ++ u' := h.shown.symm.trans h'.shown
    have hx := r.countP_replaceAfter_add char f hfixed none x
    rw [h'.shown, List.countP_append] at hx
    obtain ⟨_, _, _, t₁, k₁⟩ := r'.replace_append char fixed none o u
    obtain ⟨_, _, _, t₂, k₂⟩ := r'.replace_append char fixed none o' u'
    obtain ⟨_, _, _, t₃, k₃⟩ := r'.replace_append char fixed none o' v'
    have hsecrets := congrArg (List.countP f) k₁.secrets
    rw [hboth, k₂.secrets, List.countP_append, List.countP_append] at hsecrets
    have hsame : r.replace char fixed (x ++ z) = o' ++ v' := h'.shown_append
    rw [hsame]
    by_cases ho : (r'.secretsAfter char none o').countP f = 0
    · -- It is in the key or the gap of a match of the first pattern, which keeps neither.
      have hu : u'.countP f ≠ 0 := fun hu => by
        have := countP_eq_zero_of_subset hu k₂.new_secrets
        omega
      refine hshown ?_
      rw [List.countP_append]
      omega
    · have hend := r'.countP_replaceAfter_add char f hfixed none (o' ++ v')
      rw [k₃.secrets, List.countP_append, List.countP_append] at hend
      rw [Pattern.replace]
      omega

/-! ## Texts whose elements carry more -/

section Map

variable {char' : β → Char} {fixed' : Char → β} {g : α → β} (hchar : ∀ a, char' (g a) = char a)
include hchar

theorem Pattern.pieces_map (p : Option Char) (n : ℕ) (x : List α) :
    r.pieces char' p n (x.map g) = (r.pieces char p n x).map (Piece.map g) := by
  induction x generalizing p n with
  | nil => cases n <;> rfl
  | cons a x ih =>
    cases n with
    | succ n => rw [List.map_cons, Pattern.pieces, Pattern.pieces, ih, hchar]
    | zero =>
      have htext : (g a :: x.map g).map char' = (a :: x).map char := by
        rw [← List.map_cons, List.map_map]
        exact List.map_congr_left fun b _ => hchar b
      rw [List.map_cons, Pattern.pieces, Pattern.pieces, htext]
      cases r.matchAt p ((a :: x).map char) with
      | none =>
        dsimp only
        rw [ih, hchar, List.map_cons, Piece.map]
      | some m =>
        dsimp only
        rw [ih, hchar, List.map_cons, Piece.map, ← List.map_cons]
        simp only [List.map_take, List.map_drop]

variable (hfixed : ∀ c, g (fixed c) = fixed' c)
include hfixed

/-- What is put for a match does not depend on what the elements carry. -/
theorem Pattern.replace_map (x : List α) :
    r.replace char' fixed' (x.map g) = (r.replace char fixed x).map g := by
  have hshown (piece : Piece α) :
      Piece.shown r fixed' (piece.map g) = (Piece.shown r fixed piece).map g := by
    cases piece with
    | plain a => rfl
    | found key gap secret =>
      have hliteral : r.literal.map fixed' = (r.literal.map fixed).map g := by
        rw [List.map_map]
        exact List.map_congr_left fun c _ => (hfixed c).symm
      rw [Piece.map, Piece.shown, Piece.shown, hliteral, List.map_append]
      split_ifs <;> rfl
  rw [Pattern.replace, Pattern.replaceAfter, Pattern.pieces_map hchar, List.flatMap_map,
    Pattern.replace, Pattern.replaceAfter, List.map_flatMap]
  exact List.flatMap_congr fun piece _ => hshown piece

end Map

end Replacements
