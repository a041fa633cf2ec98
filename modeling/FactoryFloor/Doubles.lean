import Mathlib.Data.Int.Log
import Mathlib.Data.Nat.Digits.Defs
import Mathlib.Data.List.DropRight
import Mathlib.Data.Rat.Floor
import Mathlib.Algebra.Order.Field.Power
import Mathlib.Tactic.FieldSimp
import Mathlib.Tactic.Linarith
import Mathlib.Tactic.Positivity
import Mathlib.Tactic.Ring

/-!
# Finite doubles, and their shortest decimals

A finite double is a sign and a `Magnitude`, the mantissa and exponent of its absolute value.
`nearest` rounds a rational to the nearest magnitude, ties to even, and gives nothing for what
rounds to infinity. A magnitude rounds to itself (`nearest_toRat`).

`shortest` is the decimal that `Number::toString` prints : of the decimals that round to the
magnitude, one with the fewest digits, and of these the closest. There is one, since the binary
expansion of a magnitude is a decimal one too (`exists_decimalAt`), and it rounds to the magnitude
(`shortest_spec`).
-/

namespace Doubles

/-! ## Magnitudes -/

/-- The absolute value of a finite double, `mantissa · 2 ^ exponent`. -/
structure Magnitude where
  mantissa : ℕ
  exponent : ℤ
  lt : mantissa < 2 ^ 53
  le_exponent : -1074 ≤ exponent
  exponent_le : exponent ≤ 971
  normal : 2 ^ 52 ≤ mantissa ∨ exponent = -1074
deriving DecidableEq

namespace Magnitude

/-- The magnitude of a mantissa and an exponent, unless it is out of range. -/
def mk? (mantissa : ℕ) (exponent : ℤ) : Option Magnitude :=
  if h : mantissa < 2 ^ 53 ∧ -1074 ≤ exponent ∧ exponent ≤ 971 ∧
      (2 ^ 52 ≤ mantissa ∨ exponent = -1074) then
    some ⟨mantissa, exponent, h.1, h.2.1, h.2.2.1, h.2.2.2⟩
  else none

def toRat (x : Magnitude) : ℚ :=
  x.mantissa * 2 ^ x.exponent

/-- Zero. -/
def zero : Magnitude :=
  ⟨0, -1074, by decide, by decide, by decide, Or.inr rfl⟩

theorem mk?_self (x : Magnitude) : mk? x.mantissa x.exponent = some x := by
  unfold mk?
  rw [dif_pos ⟨x.lt, x.le_exponent, x.exponent_le, x.normal⟩]

theorem eq_zero {x : Magnitude} (h : x.mantissa = 0) : x = zero := by
  obtain ⟨mantissa, exponent, lt, le_exponent, exponent_le, normal⟩ := x
  dsimp only at h
  subst h
  obtain rfl : exponent = -1074 := normal.resolve_left (by decide)
  rfl

theorem toRat_pos {x : Magnitude} (h : x.mantissa ≠ 0) : 0 < x.toRat :=
  mul_pos (by exact_mod_cast Nat.pos_of_ne_zero h) (by positivity)

end Magnitude

/-! ## Rounding -/

/-- The integer nearest to a nonnegative rational, ties to even. -/
def roundHalfEven (q : ℚ) : ℕ :=
  let below := ⌊q⌋₊
  if q - below < 1 / 2 ∨ q - below = 1 / 2 ∧ below % 2 = 0 then below else below + 1

/-- The exponent of the doubles next to a positive rational. -/
def exponentOf (q : ℚ) : ℤ :=
  max (-1074) (Int.log 2 q - 52)

/-- The magnitude nearest to a rational, ties to even. There is none for what rounds to infinity. -/
def nearest (q : ℚ) : Option Magnitude :=
  if q ≤ 0 then some Magnitude.zero
  else
    let mantissa := roundHalfEven (q / 2 ^ exponentOf q)
    if mantissa = 2 ^ 53 then Magnitude.mk? (2 ^ 52) (exponentOf q + 1)
    else Magnitude.mk? mantissa (exponentOf q)

theorem roundHalfEven_natCast (n : ℕ) : roundHalfEven n = n := by
  simp [roundHalfEven]

theorem exponentOf_toRat {x : Magnitude} (h : x.mantissa ≠ 0) : exponentOf x.toRat = x.exponent := by
  have hpos := Magnitude.toRat_pos h
  have hsplit : ∀ n : ℕ, (2 : ℚ) ^ ((n : ℤ) + x.exponent) = (2 ^ n : ℕ) * 2 ^ x.exponent := by
    intro n
    rw [zpow_add₀ (by norm_num)]
    norm_num
  have hlt : Int.log 2 x.toRat < 53 + x.exponent := by
    rw [← Int.lt_zpow_iff_log_lt (by norm_num) hpos]
    have := hsplit 53
    push_cast at this
    rw [Nat.cast_ofNat, this]
    exact mul_lt_mul_of_pos_right (by exact_mod_cast x.lt) (by positivity)
  rcases x.normal with hnormal | hexponent
  · have hle : 52 + x.exponent ≤ Int.log 2 x.toRat := by
      rw [← Int.zpow_le_iff_le_log (by norm_num) hpos]
      have := hsplit 52
      push_cast at this
      rw [Nat.cast_ofNat, this]
      exact mul_le_mul_of_nonneg_right (by exact_mod_cast hnormal) (by positivity)
    have := x.le_exponent
    unfold exponentOf
    omega
  · unfold exponentOf
    omega

/-- A magnitude rounds to itself. -/
theorem nearest_toRat (x : Magnitude) : nearest x.toRat = some x := by
  unfold nearest
  by_cases h : x.mantissa = 0
  · rw [Magnitude.eq_zero h, if_pos (by simp [Magnitude.toRat, Magnitude.zero])]
  · have hquotient : x.toRat / 2 ^ x.exponent = (x.mantissa : ℚ) := by
      rw [Magnitude.toRat]
      field_simp
    rw [if_neg (not_le.2 (Magnitude.toRat_pos h)), exponentOf_toRat h, hquotient,
      roundHalfEven_natCast, if_neg x.lt.ne]
    exact x.mk?_self

/-! ## Shortest decimals -/

/-- Whether `digits · 10 ^ exponent` rounds to a magnitude. -/
def roundsTo (x : Magnitude) (digits : ℕ) (exponent : ℤ) : Bool :=
  nearest (digits * 10 ^ exponent) = some x

/-- The decimal with `k + 1` digits that is closest to a magnitude, of those that round to it. -/
def decimalAt (x : Magnitude) (k : ℕ) : Option (ℕ × ℤ) :=
  let exponent := Int.log 10 x.toRat - k
  let scaled := x.toRat / 10 ^ exponent
  let below := ⌊scaled⌋₊
  let closer : Bool := scaled - below < 1 / 2 ∨ scaled - below = 1 / 2 ∧ below % 2 = 0
  if roundsTo x below exponent && (closer || !roundsTo x (below + 1) exponent) then
    some (below, exponent)
  else if roundsTo x (below + 1) exponent then some (below + 1, exponent)
  else none

theorem decimalAt_roundsTo {x : Magnitude} {k digits : ℕ} {exponent : ℤ}
    (h : decimalAt x k = some (digits, exponent)) : roundsTo x digits exponent := by
  unfold decimalAt at h
  dsimp only at h
  split at h
  · rename_i hbelow
    obtain ⟨rfl, rfl⟩ := Prod.mk.inj (Option.some.inj h)
    exact (Bool.and_eq_true_iff.1 hbelow).1
  · split at h
    · obtain ⟨rfl, rfl⟩ := Prod.mk.inj (Option.some.inj h)
      assumption
    · cases h

/-- An exact decimal is found. -/
theorem decimalAt_isSome {x : Magnitude} {k n : ℕ}
    (h : x.toRat = n * 10 ^ (Int.log 10 x.toRat - k)) : (decimalAt x k).isSome := by
  have hscaled : x.toRat / 10 ^ (Int.log 10 x.toRat - k) = (n : ℚ) := by
    rw [div_eq_iff (by positivity), ← h]
  have hrounds : roundsTo x n (Int.log 10 x.toRat - k) := by
    rw [roundsTo, ← h, decide_eq_true_eq]
    exact nearest_toRat x
  unfold decimalAt
  dsimp only
  rw [hscaled, Nat.floor_natCast, hrounds]
  simp

/-- The binary expansion of a magnitude is a decimal. -/
theorem exists_decimalAt {x : Magnitude} (h : x.mantissa ≠ 0) : ∃ k, (decimalAt x k).isSome := by
  have hpos := Magnitude.toRat_pos h
  have hone : (1 : ℚ) ≤ x.mantissa := by exact_mod_cast Nat.one_le_iff_ne_zero.2 h
  rcases le_total 0 x.exponent with hexponent | hexponent
  · -- an integer
    obtain ⟨e, he⟩ := Int.eq_ofNat_of_zero_le hexponent
    have hinteger : x.toRat = (x.mantissa * 2 ^ e : ℕ) := by
      rw [Magnitude.toRat, he]
      push_cast
      rw [zpow_natCast]
    have hlog : 0 ≤ Int.log 10 x.toRat := by
      rw [hinteger, Int.log_natCast]
      exact Int.natCast_nonneg _
    refine ⟨(Int.log 10 x.toRat).toNat, decimalAt_isSome (n := x.mantissa * 2 ^ e) ?_⟩
    rw [Int.toNat_of_nonneg hlog, sub_self, zpow_zero, mul_one, ← hinteger]
  · -- `2 ^ -e = 5 ^ e / 10 ^ e`
    obtain ⟨e, he⟩ := Int.eq_ofNat_of_zero_le (neg_nonneg.2 hexponent)
    have hexp : x.exponent = -(e : ℤ) := by omega
    have hlog : -(e : ℤ) ≤ Int.log 10 x.toRat := by
      rw [← Int.zpow_le_iff_le_log (by norm_num) hpos, Magnitude.toRat, hexp, zpow_neg, zpow_neg,
        zpow_natCast, zpow_natCast]
      have hle : ((10 : ℕ) : ℚ) ^ e ≥ 2 ^ e := pow_le_pow_left₀ (by norm_num) (by norm_num) e
      have hinv : (((10 : ℕ) : ℚ) ^ e)⁻¹ ≤ (2 ^ e)⁻¹ := inv_anti₀ (by positivity) hle
      have hscaled : ((2 : ℚ) ^ e)⁻¹ ≤ x.mantissa * (2 ^ e)⁻¹ :=
        le_mul_of_one_le_left (by positivity) hone
      exact hinv.trans hscaled
    refine ⟨(Int.log 10 x.toRat + e).toNat, decimalAt_isSome (n := x.mantissa * 5 ^ e) ?_⟩
    rw [Int.toNat_of_nonneg (by omega)]
    have hexponent' : Int.log 10 x.toRat - (Int.log 10 x.toRat + e) = -(e : ℤ) := by omega
    rw [hexponent', Magnitude.toRat, hexp, zpow_neg, zpow_neg, zpow_natCast, zpow_natCast]
    push_cast
    have hten : (10 : ℚ) ^ e = 2 ^ e * 5 ^ e := by rw [← mul_pow]; norm_num
    rw [hten]
    field_simp

/-- The shortest decimal that rounds to a magnitude, as `digits · 10 ^ exponent`. -/
def shortest (x : Magnitude) (h : x.mantissa ≠ 0) : ℕ × ℤ :=
  (decimalAt x (Nat.find (exists_decimalAt h))).get (Nat.find_spec (exists_decimalAt h))

theorem shortest_spec {x : Magnitude} (h : x.mantissa ≠ 0) :
    nearest ((shortest x h).1 * 10 ^ (shortest x h).2) = some x := by
  have hsome : decimalAt x (Nat.find (exists_decimalAt h)) = some (shortest x h) :=
    (Option.some_get _).symm
  have hrounds : roundsTo x (shortest x h).1 (shortest x h).2 := decimalAt_roundsTo hsome
  simpa [roundsTo] using hrounds

theorem shortest_ne_zero {x : Magnitude} (h : x.mantissa ≠ 0) : (shortest x h).1 ≠ 0 := by
  intro hzero
  have hspec := shortest_spec h
  rw [hzero, Nat.cast_zero, zero_mul, nearest, if_pos le_rfl] at hspec
  exact h (congrArg Magnitude.mantissa (Option.some.inj hspec)).symm

/-- A finite double. -/
structure FiniteDouble where
  negative : Bool
  magnitude : Magnitude
deriving DecidableEq

end Doubles
