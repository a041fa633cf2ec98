import FactoryFloor.Doubles
import Mathlib.Data.Nat.Digits.Lemmas

/-!
# The text of numbers

Text is a list of UTF-16 code units. `numberToString` is `Number::toString` of a finite double, and
`readNumber` reads a number of the JSON grammar : its sign, its digits as one integer, and the power
of ten they are scaled by. What is printed is read as a decimal that rounds to the double
(`readNumber_numberToString`), with the sign of the double unless that is zero.
-/

namespace JsonText

open Doubles

/-! ## Text -/

/-- A UTF-16 code unit. -/
abbrev CodeUnit := Fin 65536

instance neZero_codeUnits : NeZero 65536 := ⟨by decide⟩

/-- A string of JavaScript. -/
abbrev Utf16 := List CodeUnit

instance lawfulBEq_codeUnit : LawfulBEq CodeUnit := inferInstance

instance lawfulBEq_utf16 : LawfulBEq Utf16 := inferInstance

/-- The code units of an ASCII text. -/
def ascii (s : String) : Utf16 :=
  s.toList.map fun c => Fin.ofNat 65536 c.toNat

/-- The code unit of a decimal digit. -/
def digitUnit (d : ℕ) : CodeUnit :=
  Fin.ofNat 65536 (48 + d)

/-- `0` to `9`. -/
def isDigit (c : CodeUnit) : Bool :=
  48 ≤ c.val && c.val ≤ 57

/-- The digits of a natural number, the first one first. -/
def digitsOf (n : ℕ) : List ℕ :=
  (Nat.digits 10 n).reverse

/-- The number of some digits. -/
def ofDigits (ds : List ℕ) : ℕ :=
  Nat.ofDigits 10 ds.reverse

theorem ofDigits_digitsOf (n : ℕ) : ofDigits (digitsOf n) = n := by
  rw [ofDigits, digitsOf, List.reverse_reverse, Nat.ofDigits_digits]

theorem digitsOf_lt {n d : ℕ} (h : d ∈ digitsOf n) : d < 10 :=
  Nat.digits_lt_base (by norm_num) (List.mem_reverse.1 h)

theorem ofDigits_append (ds es : List ℕ) :
    ofDigits (ds ++ es) = ofDigits ds * 10 ^ es.length + ofDigits es := by
  rw [ofDigits, ofDigits, ofDigits, List.reverse_append, Nat.ofDigits_append, List.length_reverse]
  ring

theorem ofDigits_replicate_zero (k : ℕ) : ofDigits (List.replicate k 0) = 0 := by
  rw [ofDigits, List.reverse_replicate, Nat.ofDigits_replicate_zero]

/-! ## Printing -/

/-- Some digits as text. -/
def digitText (ds : List ℕ) : Utf16 :=
  ds.map digitUnit

/-- `n zeros`. -/
def zeros (n : ℤ) : List ℕ :=
  List.replicate n.toNat 0

/-- `Number::toString` of the digits of a positive decimal, `0.d₁d₂… · 10 ^ n`. -/
def formatDigits (ds : List ℕ) (n : ℤ) : Utf16 :=
  if ds.length ≤ n ∧ n ≤ 21 then digitText (ds ++ zeros (n - ds.length))
  else if 0 < n ∧ n ≤ 21 then
    digitText (ds.take n.toNat) ++ 46 :: digitText (ds.drop n.toNat)
  else if -6 < n ∧ n ≤ 0 then 48 :: 46 :: digitText (zeros (-n) ++ ds)
  else
    digitText (ds.take 1) ++ (if ds.length = 1 then [] else 46 :: digitText (ds.drop 1)) ++
      101 :: (if 0 < n then 43 else 45) :: digitText (digitsOf (n - 1).natAbs)

/-- The digits of a decimal without zeros at its end. -/
def significant (digits : ℕ) : List ℕ :=
  (digitsOf digits).rdropWhile (· = 0)

/-- `Number::toString` of a positive magnitude. -/
def magnitudeText (x : Magnitude) (h : x.mantissa ≠ 0) : Utf16 :=
  formatDigits (significant (shortest x h).1)
    ((digitsOf (shortest x h).1).length + (shortest x h).2)

/-- `Number::toString` of a finite double. -/
def numberToString (x : FiniteDouble) : Utf16 :=
  if h : x.magnitude.mantissa ≠ 0 then
    (if x.negative then [45] else []) ++ magnitudeText x.magnitude h
  else [48]

/-! ## Reading -/

/-- The digits a text starts with, and the rest. -/
def spanDigits : Utf16 → List ℕ × Utf16
  | [] => ([], [])
  | c :: text =>
    if isDigit c then ((c.val - 48) :: (spanDigits text).1, (spanDigits text).2) else ([], c :: text)

/-- The fraction of a number. -/
def readFraction : Utf16 → Option (List ℕ × Utf16)
  | c :: text =>
    if c = 46 then
      if (spanDigits text).1 = [] then none else some (spanDigits text)
    else some ([], c :: text)
  | [] => some ([], [])

/-- The exponent of a number, to the end of the text. -/
def readExponent : Utf16 → Option ℤ
  | [] => some 0
  | c :: text =>
    if c = 101 ∨ c = 69 then
      let negative := text.head? = some 45
      let digits := if text.head? = some 45 ∨ text.head? = some 43 then text.drop 1 else text
      if (spanDigits digits).1 = [] ∨ (spanDigits digits).2 ≠ [] then none
      else some (if negative then -ofDigits (spanDigits digits).1 else ofDigits (spanDigits digits).1)
    else none

/-- A number that was read : its sign, its digits, and the power of ten that scales them. -/
structure Decimal where
  negative : Bool
  digits : ℕ
  exponent : ℤ
deriving DecidableEq, Repr

/-- An integer part : one digit, or several that do not start with zero. -/
def validInteger (ds : List ℕ) : Bool :=
  ds.length = 1 || (!ds.isEmpty && ds.head? ≠ some 0)

/-- A number of the JSON grammar without its sign. -/
def readUnsigned (negative : Bool) (text : Utf16) : Option Decimal :=
  if validInteger (spanDigits text).1 then
    (readFraction (spanDigits text).2).bind fun (fraction, rest) =>
      (readExponent rest).map fun exponent =>
        { negative, digits := ofDigits ((spanDigits text).1 ++ fraction),
          exponent := exponent - fraction.length }
  else none

/-- A number of the JSON grammar. -/
def readNumber : Utf16 → Option Decimal
  | [] => none
  | c :: text => if c = 45 then readUnsigned true text else readUnsigned false (c :: text)

/-! ## Digits -/

theorem digitUnit_val {d : ℕ} (h : d < 10) : (digitUnit d).val = 48 + d :=
  Nat.mod_eq_of_lt (by omega)

theorem isDigit_digitUnit {d : ℕ} (h : d < 10) : isDigit (digitUnit d) := by
  rw [isDigit, digitUnit_val h]
  simp only [Bool.and_eq_true, decide_eq_true_eq]
  omega

/-- A text that does not go on with a digit. -/
def NoDigit (text : Utf16) : Prop :=
  ∀ c ∈ text.head?, isDigit c = false

theorem spanDigits_append {ds : List ℕ} {text : Utf16} (hds : ∀ d ∈ ds, d < 10)
    (htext : NoDigit text) : spanDigits (digitText ds ++ text) = (ds, text) := by
  induction ds with
  | nil =>
    cases text with
    | nil => rfl
    | cons c text =>
      have hc : isDigit c = false := htext c rfl
      simp [digitText, spanDigits, hc]
  | cons d ds ih =>
    obtain ⟨hd, hds⟩ := List.forall_mem_cons.1 hds
    have hrest := ih hds
    simp only [digitText] at hrest
    simp [digitText, spanDigits, isDigit_digitUnit hd, hrest, digitUnit_val hd]

theorem noDigit_nil : NoDigit [] := by simp [NoDigit]

theorem noDigit_cons {c : CodeUnit} {text : Utf16} (h : isDigit c = false) : NoDigit (c :: text) := by
  simpa [NoDigit] using h

theorem spanDigits_digitText {ds : List ℕ} (hds : ∀ d ∈ ds, d < 10) :
    spanDigits (digitText ds) = (ds, []) := by
  simpa using spanDigits_append hds noDigit_nil

/-- The digits of a positive number do not start with zero. -/
theorem head?_digitsOf {n : ℕ} (h : n ≠ 0) : ∃ d ds, digitsOf n = d :: ds ∧ d ≠ 0 := by
  have hne : Nat.digits 10 n ≠ [] := Nat.digits_ne_nil_iff_ne_zero.2 h
  refine ⟨(Nat.digits 10 n).getLast hne, (Nat.digits 10 n).dropLast.reverse, ?_,
    Nat.getLast_digit_ne_zero 10 h⟩
  conv_lhs => rw [digitsOf, ← List.dropLast_append_getLast hne]
  rw [List.reverse_append, List.reverse_singleton, List.singleton_append]

theorem zeros_lt {n : ℤ} {d : ℕ} (h : d ∈ zeros n) : d < 10 := by
  rw [(List.mem_replicate.1 h).2]
  norm_num

/-- What is dropped at the end of some digits are zeros. -/
theorem significant_append (digits : ℕ) :
    ∃ k, digitsOf digits = significant digits ++ List.replicate k 0 := by
  refine ⟨((digitsOf digits).rtakeWhile (· = 0)).length, ?_⟩
  have hzeros : (digitsOf digits).rtakeWhile (· = 0) =
      List.replicate ((digitsOf digits).rtakeWhile (· = 0)).length 0 :=
    List.eq_replicate_of_mem fun d hd => by simpa using List.mem_rtakeWhile_imp hd
  conv_lhs => rw [← List.rdropWhile_append_rtakeWhile (p := (· = 0)) (l := digitsOf digits)]
  rw [significant, ← hzeros]

theorem significant_lt {digits d : ℕ} (h : d ∈ significant digits) : d < 10 := by
  obtain ⟨k, hk⟩ := significant_append digits
  exact digitsOf_lt (n := digits) (hk ▸ List.mem_append_left _ h)

theorem head?_significant {digits : ℕ} (h : digits ≠ 0) :
    ∃ d ds, significant digits = d :: ds ∧ d ≠ 0 := by
  obtain ⟨d, ds, hcons, hd⟩ := head?_digitsOf h
  obtain ⟨k, hk⟩ := significant_append digits
  cases hs : significant digits with
  | nil =>
    rw [hs, List.nil_append, hcons] at hk
    exact absurd (List.eq_of_mem_replicate (hk ▸ List.mem_cons_self : d ∈ List.replicate k 0)) hd
  | cons e es =>
    rw [hs, hcons, List.cons_append] at hk
    obtain ⟨rfl, -⟩ := List.cons.inj hk
    exact ⟨d, es, rfl, hd⟩

/-! ## What is printed is read -/

/-- The number that a decimal stands for, without its sign. -/
def Decimal.toRat (x : Decimal) : ℚ :=
  x.digits * 10 ^ x.exponent

theorem readExponent_printed {n : ℤ} (h : n ≠ 1) :
    readExponent (101 :: (if 0 < n then 43 else 45) :: digitText (digitsOf (n - 1).natAbs)) =
      some (n - 1) := by
  have hne : digitsOf (n - 1).natAbs ≠ [] := by
    obtain ⟨d, ds, hcons, -⟩ := head?_digitsOf (n := (n - 1).natAbs) (by omega)
    simp [hcons]
  have hspan : spanDigits (digitText (digitsOf (n - 1).natAbs)) = (digitsOf (n - 1).natAbs, []) :=
    spanDigits_digitText fun d => digitsOf_lt
  by_cases hn : 0 < n
  · have hvalue : ((n - 1).natAbs : ℤ) = n - 1 := Int.natAbs_of_nonneg (by omega)
    simpa [readExponent, hn, hspan, hne, ofDigits_digitsOf] using hvalue
  · have hvalue : -((n - 1).natAbs : ℤ) = n - 1 := by omega
    simpa [readExponent, hn, hspan, hne, ofDigits_digitsOf] using hvalue

/-- The integer part, the fraction and the exponent of a printed number are read back. -/
theorem readUnsigned_append (negative : Bool) (integer : List ℕ) {fraction : List ℕ}
    {text rest : Utf16} {exponent : ℤ} (hinteger : ∀ d ∈ integer, d < 10) (hvalid : validInteger integer)
    (hnoDigit : NoDigit text) (hfraction : readFraction text = some (fraction, rest))
    (hexponent : readExponent rest = some exponent) :
    readUnsigned negative (digitText integer ++ text) =
      some ⟨negative, ofDigits (integer ++ fraction), exponent - fraction.length⟩ := by
  rw [readUnsigned, spanDigits_append hinteger hnoDigit, if_pos hvalid]
  simp [hfraction, hexponent]

theorem readFraction_point {fraction : List ℕ} {rest : Utf16} (hfraction : ∀ d ∈ fraction, d < 10)
    (hne : fraction ≠ []) (hrest : NoDigit rest) :
    readFraction (46 :: (digitText fraction ++ rest)) = some (fraction, rest) := by
  simp [readFraction, spanDigits_append hfraction hrest, hne]

theorem readFraction_exponent (rest : Utf16) :
    readFraction (101 :: rest) = some ([], 101 :: rest) := by
  simp [readFraction]

theorem validInteger_cons {d : ℕ} {ds : List ℕ} (hd : d ≠ 0) : validInteger (d :: ds) := by
  simp [validInteger, hd]

/-- The digits of a decimal are printed in a way that they are read back. -/
theorem readUnsigned_formatDigits (negative : Bool) {ds : List ℕ} (hds : ∀ d ∈ ds, d < 10)
    (hhead : ∃ d ds', ds = d :: ds' ∧ d ≠ 0) (n : ℤ) :
    ∃ x, readUnsigned negative (formatDigits ds n) = some x ∧ x.negative = negative ∧
      x.toRat = ofDigits ds * 10 ^ (n - ds.length) := by
  obtain ⟨d, ds', hcons, hd⟩ := hhead
  have hpos : 0 < ds.length := by simp [hcons]
  have htake : ∀ e ∈ ds.take n.toNat, e < 10 := fun e he => hds e (List.mem_of_mem_take he)
  have hdrop : ∀ e ∈ ds.drop n.toNat, e < 10 := fun e he => hds e (List.mem_of_mem_drop he)
  rw [formatDigits]
  by_cases h₁ : ds.length ≤ n ∧ n ≤ 21
  · -- an integer
    rw [if_pos h₁]
    have hall : ∀ e ∈ ds ++ zeros (n - ds.length), e < 10 := fun e he =>
      (List.mem_append.1 he).elim (hds e) zeros_lt
    have hvalid : validInteger (ds ++ zeros (n - ds.length)) := by
      rw [hcons, List.cons_append]
      exact validInteger_cons hd
    have hread := readUnsigned_append negative _ hall hvalid noDigit_nil
      (readFraction.eq_2) (readExponent.eq_1)
    rw [List.append_nil] at hread
    refine ⟨_, hread, rfl, ?_⟩
    have hlength : ((zeros (n - ds.length)).length : ℤ) = n - ds.length := by
      rw [zeros, List.length_replicate, Int.toNat_of_nonneg (by omega)]
    have hpow : (10 : ℚ) ^ (n - ds.length) = 10 ^ (zeros (n - ds.length)).length := by
      rw [← zpow_natCast, hlength]
    have hzeros : ofDigits (zeros (n - ds.length)) = 0 := ofDigits_replicate_zero _
    rw [Decimal.toRat, List.append_nil, ofDigits_append, hzeros, hpow]
    simp
  rw [if_neg h₁]
  by_cases h₂ : 0 < n ∧ n ≤ 21
  · -- a point between the digits
    rw [if_pos h₂]
    have hn : (n.toNat : ℤ) = n := Int.toNat_of_nonneg (by omega)
    have hlt : n.toNat < ds.length := by omega
    have hne : ds.drop n.toNat ≠ [] := by
      rw [Ne, List.drop_eq_nil_iff]
      omega
    have hvalid : validInteger (ds.take n.toNat) := by
      obtain ⟨m, hm⟩ : ∃ m, n.toNat = m + 1 := ⟨n.toNat - 1, by omega⟩
      rw [hcons, hm, List.take_succ_cons]
      exact validInteger_cons hd
    have hread := readUnsigned_append negative _ htake hvalid
      (noDigit_cons (by decide)) (readFraction_point hdrop hne noDigit_nil) (readExponent.eq_1)
    rw [List.append_nil] at hread
    refine ⟨_, hread, rfl, ?_⟩
    have hexponent : (0 : ℤ) - (ds.drop n.toNat).length = n - ds.length := by
      rw [List.length_drop]
      omega
    rw [Decimal.toRat, List.take_append_drop]
    dsimp only
    rw [hexponent]
  rw [if_neg h₂]
  by_cases h₃ : -6 < n ∧ n ≤ 0
  · -- zeros after the point
    rw [if_pos h₃]
    have hall : ∀ e ∈ zeros (-n) ++ ds, e < 10 := fun e he =>
      (List.mem_append.1 he).elim zeros_lt (hds e)
    have hread := readUnsigned_append negative [0] (by simp) (by decide)
      (noDigit_cons (by decide)) (readFraction_point hall (by simp [hcons]) noDigit_nil)
      (readExponent.eq_1)
    rw [List.append_nil] at hread
    refine ⟨_, hread, rfl, ?_⟩
    have hlength : ((zeros (-n)).length : ℤ) = -n := by
      rw [zeros, List.length_replicate, Int.toNat_of_nonneg (by omega)]
    have hdigits : ofDigits ([0] ++ (zeros (-n) ++ ds)) = ofDigits ds := by
      rw [ofDigits_append, ofDigits_append, zeros, ofDigits_replicate_zero]
      simp [ofDigits]
    have hexponent : (0 : ℤ) - (zeros (-n) ++ ds).length = n - ds.length := by
      rw [List.length_append, Nat.cast_add, hlength]
      ring
    rw [Decimal.toRat, hdigits]
    dsimp only
    rw [hexponent]
  · -- an exponent
    rw [if_neg h₃]
    have hn : n ≠ 1 := by omega
    have hexponent := readExponent_printed hn
    by_cases hone : ds.length = 1
    · have hsingle : ds.take 1 = ds := List.take_of_length_le hone.le
      have hread := readUnsigned_append negative ds hds
        (by simp [validInteger, hone]) (noDigit_cons (by decide)) (readFraction_exponent _) hexponent
      rw [hsingle, if_pos hone, List.append_nil]
      refine ⟨_, hread, rfl, ?_⟩
      rw [Decimal.toRat, List.append_nil, hone]
      simp
    · have htake : ds.take 1 = [d] := by simp [hcons]
      have hdrop : ∀ e ∈ ds.drop 1, e < 10 := fun e he => hds e (List.mem_of_mem_drop he)
      have hne : ds.drop 1 ≠ [] := by
        rw [Ne, List.drop_eq_nil_iff]
        omega
      have hread := readUnsigned_append negative [d]
        (by simpa using hds d (by simp [hcons])) (validInteger_cons hd) (noDigit_cons (by decide))
        (readFraction_point hdrop hne (noDigit_cons (by decide))) hexponent
      rw [htake, if_neg hone, List.append_assoc]
      refine ⟨_, hread, rfl, ?_⟩
      have hdigits : [d] ++ ds.drop 1 = ds := by simp [hcons]
      have hlength : n - 1 - (ds.drop 1).length = n - ds.length := by
        rw [List.length_drop]
        omega
      rw [Decimal.toRat, hdigits]
      dsimp only
      rw [hlength]

/-- The head of what is printed is a digit. -/
theorem head?_formatDigits {ds : List ℕ} (hds : ∀ d ∈ ds, d < 10)
    (hhead : ∃ d ds', ds = d :: ds' ∧ d ≠ 0) (n : ℤ) :
    ∃ c text, formatDigits ds n = c :: text ∧ isDigit c := by
  obtain ⟨d, ds', rfl, -⟩ := hhead
  have hd : isDigit (digitUnit d) := isDigit_digitUnit (hds d List.mem_cons_self)
  rw [formatDigits]
  split_ifs with h₁ h₂ h₃
  · exact ⟨_, _, rfl, hd⟩
  · obtain ⟨m, hm⟩ : ∃ m, n.toNat = m + 1 := ⟨n.toNat - 1, by omega⟩
    rw [hm]
    exact ⟨_, _, rfl, hd⟩
  · exact ⟨_, _, rfl, by decide⟩
  all_goals exact ⟨_, _, rfl, hd⟩

/-- The text of a positive magnitude is read as a decimal that rounds to it. -/
theorem readUnsigned_magnitudeText {x : Magnitude} (h : x.mantissa ≠ 0) (negative : Bool) :
    ∃ d, readUnsigned negative (magnitudeText x h) = some d ∧ d.negative = negative ∧
      nearest d.toRat = some x := by
  have hne := shortest_ne_zero h
  obtain ⟨d, hread, hnegative, hvalue⟩ := readUnsigned_formatDigits negative
    (fun d => significant_lt) (head?_significant hne)
    ((digitsOf (shortest x h).1).length + (shortest x h).2)
  refine ⟨d, hread, hnegative, ?_⟩
  obtain ⟨k, hk⟩ := significant_append (shortest x h).1
  have hdigits : (shortest x h).1 = ofDigits (significant (shortest x h).1) * 10 ^ k := by
    conv_lhs => rw [← ofDigits_digitsOf (shortest x h).1, hk]
    rw [ofDigits_append, ofDigits_replicate_zero, List.length_replicate, add_zero]
  have hexponent : ((digitsOf (shortest x h).1).length : ℤ) + (shortest x h).2 -
      (significant (shortest x h).1).length = k + (shortest x h).2 := by
    have hlength := congrArg List.length hk
    rw [List.length_append, List.length_replicate] at hlength
    omega
  have hscaled : d.toRat = ((shortest x h).1 : ℚ) * 10 ^ (shortest x h).2 := by
    rw [hvalue, hexponent, zpow_add₀ (by norm_num), zpow_natCast]
    conv_rhs => rw [hdigits]
    push_cast
    ring
  rw [hscaled]
  exact shortest_spec h

/-- What a finite double is printed as is read as a decimal that rounds to it. -/
theorem readNumber_numberToString (x : FiniteDouble) :
    ∃ d, readNumber (numberToString x) = some d ∧ nearest d.toRat = some x.magnitude ∧
      (x.magnitude.mantissa ≠ 0 → d.negative = x.negative) ∧
      (x.magnitude.mantissa = 0 → d.negative = false) := by
  rw [numberToString]
  by_cases h : x.magnitude.mantissa ≠ 0
  · obtain ⟨d, hread, hnegative, hvalue⟩ := readUnsigned_magnitudeText h x.negative
    obtain ⟨c, text, hcons, hc⟩ := head?_formatDigits (fun d => significant_lt)
      (head?_significant (shortest_ne_zero h))
      ((digitsOf (shortest x.magnitude h).1).length + (shortest x.magnitude h).2)
    refine ⟨d, ?_, hvalue, fun _ => hnegative, fun hzero => absurd hzero h⟩
    rw [dif_pos h]
    cases hsign : x.negative with
    | true => rw [if_pos rfl, List.singleton_append, readNumber, if_pos rfl, ← hsign, hread]
    | false =>
      have hminus : c ≠ 45 := by
        rintro rfl
        exact absurd hc (by decide)
      rw [if_neg (by simp), List.nil_append, magnitudeText, hcons, readNumber, if_neg hminus,
        ← hcons, ← magnitudeText, ← hsign, hread]
  · rw [dif_neg h]
    have hzero := not_not.1 h
    refine ⟨⟨false, 0, 0⟩, by decide, ?_, fun hne => absurd hzero hne, fun _ => rfl⟩
    rw [Magnitude.eq_zero hzero, nearest, if_pos (by simp [Decimal.toRat])]

/-! ## The code units of numbers -/

/-- A code unit that occurs in numbers. -/
def isNumberUnit (c : CodeUnit) : Bool :=
  isDigit c || c = 43 || c = 45 || c = 46 || c = 69 || c = 101

theorem isNumberUnit_of_mem_digitText {ds : List ℕ} (hds : ∀ d ∈ ds, d < 10) {c : CodeUnit}
    (hc : c ∈ digitText ds) : isNumberUnit c := by
  obtain ⟨d, hd, rfl⟩ := List.mem_map.1 hc
  simp [isNumberUnit, isDigit_digitUnit (hds d hd)]

theorem isNumberUnit_of_mem_formatDigits {ds : List ℕ} (hds : ∀ d ∈ ds, d < 10) {n : ℤ}
    {c : CodeUnit} (hc : c ∈ formatDigits ds n) : isNumberUnit c := by
  have htake : ∀ k, ∀ e ∈ ds.take k, e < 10 := fun k e he => hds e (List.mem_of_mem_take he)
  have hdrop : ∀ k, ∀ e ∈ ds.drop k, e < 10 := fun k e he => hds e (List.mem_of_mem_drop he)
  have hpoint : isNumberUnit 46 := by decide
  have hsign : isNumberUnit (if 0 < n then 43 else 45) := by split <;> decide
  rw [formatDigits] at hc
  split at hc
  · exact isNumberUnit_of_mem_digitText
      (fun e he => (List.mem_append.1 he).elim (hds e) zeros_lt) hc
  split at hc
  · rcases List.mem_append.1 hc with hc | hc
    · exact isNumberUnit_of_mem_digitText (htake _) hc
    · rcases List.mem_cons.1 hc with rfl | hc
      · exact hpoint
      · exact isNumberUnit_of_mem_digitText (hdrop _) hc
  split at hc
  · rcases List.mem_cons.1 hc with rfl | hc
    · decide
    · rcases List.mem_cons.1 hc with rfl | hc
      · exact hpoint
      · exact isNumberUnit_of_mem_digitText
          (fun e he => (List.mem_append.1 he).elim zeros_lt (hds e)) hc
  · rcases List.mem_append.1 hc with hc | hc
    · rcases List.mem_append.1 hc with hc | hc
      · exact isNumberUnit_of_mem_digitText (htake _) hc
      · split at hc
        · cases hc
        · rcases List.mem_cons.1 hc with rfl | hc
          · exact hpoint
          · exact isNumberUnit_of_mem_digitText (hdrop _) hc
    · rcases List.mem_cons.1 hc with rfl | hc
      · decide
      · rcases List.mem_cons.1 hc with rfl | hc
        · exact hsign
        · exact isNumberUnit_of_mem_digitText (fun d => digitsOf_lt) hc

theorem isNumberUnit_of_mem_numberToString {x : FiniteDouble} {c : CodeUnit}
    (hc : c ∈ numberToString x) : isNumberUnit c := by
  rw [numberToString] at hc
  split at hc
  · rcases List.mem_append.1 hc with hc | hc
    · split at hc
      · obtain rfl := List.mem_singleton.1 hc
        decide
      · cases hc
    · exact isNumberUnit_of_mem_formatDigits (fun d => significant_lt) hc
  · obtain rfl := List.mem_singleton.1 hc
    decide

end JsonText
