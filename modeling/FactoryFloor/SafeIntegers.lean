import FactoryFloor.JsonNumbers

/-!
# Integers as doubles

A positive integer below `2 ^ 53` is a magnitude, and no other integer rounds to it
(`eq_of_nearest_natCast`). So its shortest decimal is the integer itself (`shortest_natCast`).

`Number::toString` writes a magnitude with the digits of an integer exactly when that integer is its
shortest decimal, and has 21 digits at most (`magnitudeText_eq_iff`).
-/

namespace Doubles

/-- An integer that a double holds exactly. -/
theorem exists_magnitude {n : ℕ} (hn : n ≠ 0) (h : n < 2 ^ 53) :
    ∃ x : Magnitude, x.toRat = n := by
  have hlog : Nat.log 2 n ≤ 52 := Nat.lt_succ_iff.1 (Nat.log_lt_of_lt_pow hn h)
  have hle : 2 ^ 52 ≤ n * 2 ^ (52 - Nat.log 2 n) := by
    have hpow := Nat.mul_le_mul_right (2 ^ (52 - Nat.log 2 n)) (Nat.pow_log_le_self 2 hn)
    rwa [← pow_add, Nat.add_sub_cancel' hlog] at hpow
  have hlt : n * 2 ^ (52 - Nat.log 2 n) < 2 ^ 53 := by
    have hpow := Nat.mul_lt_mul_of_pos_right (Nat.lt_pow_succ_log_self (by norm_num : 1 < 2) n)
      (Nat.two_pow_pos (52 - Nat.log 2 n))
    rw [← pow_add] at hpow
    exact hpow.trans_eq (by congr 1; omega)
  refine ⟨⟨n * 2 ^ (52 - Nat.log 2 n), -((52 - Nat.log 2 n : ℕ) : ℤ), hlt, by omega, by omega,
    Or.inl hle⟩, ?_⟩
  rw [Magnitude.toRat, zpow_neg, zpow_natCast]
  push_cast
  field_simp

/-- An integer from `2 ^ 53` on does not round to less. -/
theorem le_of_nearest_natCast {m : ℕ} (hm : 2 ^ 53 ≤ m) {x : Magnitude} (h : nearest m = some x) :
    2 ^ 53 ≤ x.toRat := by
  have hpos : (0 : ℚ) < m := by exact_mod_cast (show 0 < 2 ^ 53 by norm_num).trans_le hm
  have hlog : 53 ≤ Int.log 2 (m : ℚ) := by
    rw [← Int.zpow_le_iff_le_log (by norm_num) hpos]
    exact_mod_cast hm
  have hexponent : exponentOf m = Int.log 2 (m : ℚ) - 52 := by
    rw [exponentOf]
    omega
  have hquotient : (2 : ℚ) ^ 52 ≤ m / 2 ^ exponentOf m := by
    rw [le_div_iff₀ (by positivity), ← zpow_natCast, ← zpow_add₀ (by norm_num), hexponent]
    have hle := Int.zpow_log_le_self (b := 2) (by norm_num) hpos
    rw [show ((52 : ℕ) : ℤ) + (Int.log 2 (m : ℚ) - 52) = Int.log 2 (m : ℚ) by push_cast; ring]
    exact_mod_cast hle
  have hmantissa : 2 ^ 52 ≤ roundHalfEven (m / 2 ^ exponentOf m) := by
    have hfloor : 2 ^ 52 ≤ ⌊(m : ℚ) / 2 ^ exponentOf m⌋₊ :=
      Nat.le_floor (by exact_mod_cast hquotient)
    unfold roundHalfEven
    dsimp only
    split <;> omega
  have htwo : (2 : ℚ) ≤ 2 ^ exponentOf m := by
    have hle : (2 : ℚ) ^ (1 : ℤ) ≤ 2 ^ exponentOf m :=
      zpow_le_zpow_right₀ (by norm_num) (by omega)
    simpa using hle
  have hscaled : ∀ (k : ℕ) (e : ℤ), Magnitude.mk? k e = some x → x.toRat = k * 2 ^ e := by
    intro k e hmk
    rw [Magnitude.mk?] at hmk
    split at hmk
    · rw [← Option.some.inj hmk, Magnitude.toRat]
    · cases hmk
  unfold nearest at h
  rw [if_neg (not_le.2 hpos)] at h
  dsimp only at h
  split at h
  · rw [hscaled _ _ h, zpow_add₀ (by norm_num), zpow_one]
    push_cast
    linarith
  · rw [hscaled _ _ h]
    have hcast : (2 : ℚ) ^ 52 ≤ roundHalfEven ((m : ℚ) / 2 ^ exponentOf m) := by
      exact_mod_cast hmantissa
    have hmul := mul_le_mul hcast htwo (by norm_num) (by positivity)
    linarith

/-- No other integer rounds to an integer below `2 ^ 53`. -/
theorem eq_of_nearest_natCast {m n : ℕ} (hn : n < 2 ^ 53) {x : Magnitude} (hx : x.toRat = n)
    (h : nearest m = some x) : m = n := by
  by_cases hzero : m = 0
  · subst hzero
    rw [nearest, if_pos (by simp), Option.some.injEq] at h
    rw [← h, Magnitude.toRat, Magnitude.zero, Nat.cast_zero, zero_mul] at hx
    exact_mod_cast hx
  by_cases hm : m < 2 ^ 53
  · obtain ⟨y, hy⟩ := exists_magnitude hzero hm
    rw [← hy, nearest_toRat, Option.some.injEq] at h
    rw [← h, hy] at hx
    exact_mod_cast hx
  · have hle := le_of_nearest_natCast (not_lt.1 hm) h
    rw [hx] at hle
    exact absurd (by exact_mod_cast hle) (not_le.2 hn)

/-- The shortest decimal of an integer below `2 ^ 53` is the integer. -/
theorem shortest_natCast {n : ℕ} (hn : n < 2 ^ 53) {x : Magnitude} (hx : x.toRat = n)
    (h : x.mantissa ≠ 0) : (shortest x h).1 * 10 ^ (shortest x h).2 = (n : ℚ) := by
  have hlog : Int.log 10 x.toRat = Nat.log 10 n := by
    rw [hx]
    exact Int.log_natCast 10 n
  have hfound : Nat.find (exists_decimalAt h) ≤ Nat.log 10 n := by
    refine Nat.find_min' _ (decimalAt_isSome (n := n) ?_)
    rw [hlog, sub_self, zpow_zero, mul_one, hx]
  have hsome : decimalAt x (Nat.find (exists_decimalAt h)) = some (shortest x h) :=
    (Option.some_get _).symm
  have hexponent : (shortest x h).2 = Nat.log 10 n - Nat.find (exists_decimalAt h) := by
    rw [← hlog]
    unfold decimalAt at hsome
    dsimp only at hsome
    split at hsome
    · exact (congrArg Prod.snd (Option.some.inj hsome)).symm
    · split at hsome
      · exact (congrArg Prod.snd (Option.some.inj hsome)).symm
      · cases hsome
  obtain ⟨e, he⟩ : ∃ e : ℕ, (shortest x h).2 = e :=
    ⟨Nat.log 10 n - Nat.find (exists_decimalAt h), by rw [hexponent]; omega⟩
  have hspec := shortest_spec h
  rw [he, zpow_natCast] at hspec ⊢
  have hcast : ((shortest x h).1 : ℚ) * 10 ^ e = ((shortest x h).1 * 10 ^ e : ℕ) := by
    push_cast
    rfl
  rw [hcast] at hspec ⊢
  rw [eq_of_nearest_natCast hn hx hspec]

end Doubles

namespace JsonText

open Doubles

theorem digitText_inj {ds es : List ℕ} (hds : ∀ d ∈ ds, d < 10) (hes : ∀ e ∈ es, e < 10)
    (h : digitText ds = digitText es) : ds = es := by
  have hspan := congrArg spanDigits h
  rw [spanDigits_digitText hds, spanDigits_digitText hes] at hspan
  exact congrArg Prod.fst hspan

theorem notMem_digitText {ds : List ℕ} (hds : ∀ d ∈ ds, d < 10) {c : CodeUnit}
    (hc : isDigit c = false) : c ∉ digitText ds := by
  intro h
  obtain ⟨d, hd, rfl⟩ := List.mem_map.1 h
  rw [isDigit_digitUnit (hds d hd)] at hc
  cases hc

/-- Digits that do not start with zero are those of their number. -/
theorem digitsOf_ofDigits {d : ℕ} {ds : List ℕ} (hds : ∀ e ∈ d :: ds, e < 10) (hd : d ≠ 0) :
    digitsOf (ofDigits (d :: ds)) = d :: ds := by
  rw [digitsOf, ofDigits, Nat.digits_ofDigits 10 (by norm_num), List.reverse_reverse]
  · exact fun e he => hds e (List.mem_reverse.1 he)
  · intro hne
    simpa using hd

theorem length_digitsOf_le_iff {n k : ℕ} : (digitsOf n).length ≤ k ↔ n < 10 ^ k := by
  rw [digitsOf, List.length_reverse, Nat.digits_length_le_iff (by norm_num)]

/-- The significant digits of a number do not end with zero. -/
theorem significant_mod {n : ℕ} (h : n ≠ 0) : ofDigits (significant n) % 10 ≠ 0 := by
  obtain ⟨d, ds, hcons, -⟩ := head?_significant h
  have hne : significant n ≠ [] := by simp [hcons]
  have hlast : (significant n).getLast hne ≠ 0 := fun hzero =>
    List.rdropWhile_last_not (fun d : ℕ => decide (d = 0)) (digitsOf n) hne (decide_eq_true hzero)
  have hlt : (significant n).getLast hne < 10 := significant_lt (List.getLast_mem hne)
  have hsplit := ofDigits_append (significant n).dropLast [(significant n).getLast hne]
  rw [List.dropLast_append_getLast hne] at hsplit
  rw [hsplit]
  simp [ofDigits, Nat.add_mod, Nat.mod_eq_of_lt hlt, hlast]

/-- The shortest decimal by its significant digits. -/
theorem shortest_significant (x : Magnitude) (h : x.mantissa ≠ 0) :
    ((shortest x h).1 : ℚ) * 10 ^ (shortest x h).2 =
      ofDigits (significant (shortest x h).1) *
        10 ^ ((digitsOf (shortest x h).1).length + (shortest x h).2 -
          (significant (shortest x h).1).length) := by
  obtain ⟨k, hk⟩ := significant_append (shortest x h).1
  have hdigits : (shortest x h).1 = ofDigits (significant (shortest x h).1) * 10 ^ k := by
    conv_lhs => rw [← ofDigits_digitsOf (shortest x h).1, hk]
    rw [ofDigits_append, ofDigits_replicate_zero, List.length_replicate, add_zero]
  have hexponent : ((digitsOf (shortest x h).1).length : ℤ) + (shortest x h).2 -
      (significant (shortest x h).1).length = k + (shortest x h).2 := by
    have hlength := congrArg List.length hk
    rw [List.length_append, List.length_replicate] at hlength
    omega
  rw [hexponent, zpow_add₀ (by norm_num), zpow_natCast]
  conv_lhs => rw [hdigits]
  push_cast
  ring

/-- What `Number::toString` writes with digits alone is an integer of 21 digits at most. -/
theorem formatDigits_eq_digitsOf_iff {ds : List ℕ} (hds : ∀ d ∈ ds, d < 10)
    (hhead : ∃ d ds', ds = d :: ds' ∧ d ≠ 0) (hmod : ofDigits ds % 10 ≠ 0) {m : ℕ} {n : ℤ} :
    formatDigits ds n = digitText (digitsOf m) ↔
      m < 10 ^ 21 ∧ (ofDigits ds : ℚ) * 10 ^ (n - ds.length) = m := by
  have hall : ∀ k, ∀ e ∈ ds ++ zeros k, e < 10 := fun k e he =>
    (List.mem_append.1 he).elim (hds e) zeros_lt
  have hnot : ∀ c ∈ formatDigits ds n, isDigit c = false →
      formatDigits ds n ≠ digitText (digitsOf m) := fun c hc hdigit heq =>
    notMem_digitText (fun _ => digitsOf_lt) hdigit (heq ▸ hc)
  have hzeros : ofDigits (ds ++ zeros (n - ds.length)) =
      ofDigits ds * 10 ^ (n - ds.length).toNat := by
    rw [ofDigits_append, zeros, ofDigits_replicate_zero, List.length_replicate, add_zero]
  constructor
  · intro h
    by_cases hinteger : ds.length ≤ n ∧ n ≤ 21
    · rw [formatDigits, if_pos hinteger] at h
      have hdigits := digitText_inj (hall _) (fun _ => digitsOf_lt) h
      have hm : m = ofDigits ds * 10 ^ (n - ds.length).toNat := by
        rw [← hzeros, hdigits, ofDigits_digitsOf]
      refine ⟨length_digitsOf_le_iff.1 ?_, ?_⟩
      · rw [← hdigits, List.length_append, zeros, List.length_replicate]
        omega
      · rw [hm, ← Int.toNat_of_nonneg (show 0 ≤ n - ds.length by omega), zpow_natCast,
          Int.toNat_natCast]
        push_cast
        rfl
    · -- every other notation has a point or an exponent
      by_cases hpoint : 0 < n ∧ n ≤ 21
      · refine absurd h (hnot 46 ?_ (by decide))
        rw [formatDigits, if_neg hinteger, if_pos hpoint]
        exact List.mem_append_right _ List.mem_cons_self
      by_cases hsmall : -6 < n ∧ n ≤ 0
      · refine absurd h (hnot 46 ?_ (by decide))
        rw [formatDigits, if_neg hinteger, if_neg hpoint, if_pos hsmall]
        exact List.mem_cons_of_mem _ List.mem_cons_self
      · refine absurd h (hnot 101 ?_ (by decide))
        rw [formatDigits, if_neg hinteger, if_neg hpoint, if_neg hsmall]
        exact List.mem_append_right _ List.mem_cons_self
  · rintro ⟨hlt, hvalue⟩
    have hle : ds.length ≤ n := by
      by_contra hgt
      -- the number would be divisible by ten
      obtain ⟨k, hk⟩ : ∃ k : ℕ, n - ds.length = -((k + 1 : ℕ) : ℤ) :=
        ⟨(ds.length - n - 1).toNat, by omega⟩
      rw [hk, zpow_neg, zpow_natCast, ← div_eq_mul_inv, div_eq_iff (by positivity)] at hvalue
      have hnat : ofDigits ds = m * 10 ^ (k + 1) := by exact_mod_cast hvalue
      exact hmod (by rw [hnat, pow_succ, ← mul_assoc, Nat.mul_mod_left])
    obtain ⟨k, hk⟩ : ∃ k : ℕ, n - ds.length = k := ⟨(n - ds.length).toNat, by omega⟩
    have hm : ofDigits (ds ++ zeros (n - ds.length)) = m := by
      rw [hzeros]
      rw [hk, zpow_natCast] at hvalue
      rw [hk, Int.toNat_natCast]
      exact_mod_cast hvalue
    have hdigits : digitsOf m = ds ++ zeros (n - ds.length) := by
      obtain ⟨d, ds', rfl, hd⟩ := hhead
      rw [← hm, List.cons_append, digitsOf_ofDigits (by simpa using hall _) hd]
    have hlength := length_digitsOf_le_iff.2 hlt
    rw [hdigits, List.length_append, zeros, List.length_replicate] at hlength
    rw [formatDigits, if_pos ⟨hle, by omega⟩, hdigits]

/-- A magnitude is written with the digits of an integer when that is its shortest decimal, of 21
digits at most. -/
theorem magnitudeText_eq_iff {x : Magnitude} (h : x.mantissa ≠ 0) {m : ℕ} :
    magnitudeText x h = digitText (digitsOf m) ↔
      m < 10 ^ 21 ∧ ((shortest x h).1 : ℚ) * 10 ^ (shortest x h).2 = m := by
  have hne := shortest_ne_zero h
  rw [magnitudeText, formatDigits_eq_digitsOf_iff (fun _ => significant_lt) (head?_significant hne)
    (significant_mod hne), shortest_significant]

end JsonText
