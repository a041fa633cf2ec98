import FactoryFloor.CodePoints
import FactoryFloor.SafeIntegers

/-!
# The `json` module of Python

The strings and numbers that `json.dumps` writes without `ensure_ascii` and `allow_nan`, and the
numbers that `json.loads` returns. A string of Python is given by its code units in UTF-16 :
`json.loads` joins surrogate pairs, so strings that are read are told apart by them. An integer is
not bounded, so the limit on its digits is left out.

Python writes an integer with its digits, and a float with a point or an exponent. The text of a
number is that of JavaScript for the numbers of `intRepr_eq_iff` and `floatRepr_eq_iff`, and that
settles which numbers of a JSON text both languages read and print alike (`pyNumberOf_eq_iff`).
-/

namespace JsonText

open Doubles

/-! ## Strings -/

/-- A character in `py_encode_basestring`. -/
def pyEscape (c : CodeUnit) : Utf16 :=
  if c = 8 then [92, 98]
  else if c = 9 then [92, 116]
  else if c = 10 then [92, 110]
  else if c = 12 then [92, 102]
  else if c = 13 then [92, 114]
  else if c = 34 then [92, 34]
  else if c = 92 then [92, 92]
  else if c.val < 32 then unicodeEscape c
  else [c]

/-- `py_encode_basestring`. -/
def pyQuote (s : Utf16) : Utf16 :=
  34 :: (s.flatMap pyEscape ++ [34])

theorem escapeUnit_eq {c : CodeUnit} (h : ¬isSurrogate c) : escapeUnit c = pyEscape c := by
  simp only [isSurrogate, Bool.or_eq_true, not_or, Bool.not_eq_true] at h
  simp only [escapeUnit, pyEscape, h.1, h.2, Bool.or_false, decide_eq_true_eq]

theorem pyEscape_surrogate {c : CodeUnit} (h : isSurrogate c) : pyEscape c = [c] := by
  rw [isSurrogate_iff] at h
  have hne : ∀ d : CodeUnit, d.val < 0xd800 → c ≠ d := by
    rintro d hd rfl
    omega
  rw [pyEscape, if_neg (hne 8 (by decide)), if_neg (hne 9 (by decide)), if_neg (hne 10 (by decide)),
    if_neg (hne 12 (by decide)), if_neg (hne 13 (by decide)), if_neg (hne 34 (by decide)),
    if_neg (hne 92 (by decide)), if_neg (by omega)]

/-- Well formed strings are written as `JSON.stringify` does. -/
theorem quote_eq {s : Utf16} (h : wellFormed s) : quote s = pyQuote s := by
  have hbody : quoteBody s = s.flatMap pyEscape ++ [34] := by
    induction s using quoteBody.induct with
    | case1 => rfl
    | case2 c =>
      have hc : ¬isSurrogate c := by simpa [wellFormed] using h
      rw [quoteBody, escapeUnit_eq hc, List.flatMap_cons, List.flatMap_nil, List.append_nil]
    | case3 c d s hpair ih =>
      obtain ⟨hc, hd⟩ := Bool.and_eq_true_iff.1 hpair
      rw [wellFormed, if_pos hpair] at h
      rw [quoteBody, if_pos hpair, ih h, List.flatMap_cons, List.flatMap_cons,
        pyEscape_surrogate (by simp [isSurrogate, hc]),
        pyEscape_surrogate (by simp [isSurrogate, hd])]
      rfl
    | case4 c d s hpair ih =>
      rw [wellFormed, if_neg hpair, Bool.and_eq_true] at h
      rw [quoteBody, if_neg hpair, ih h.2, escapeUnit_eq (by simpa using h.1)]
      simp only [List.flatMap_cons, List.append_assoc]
  rw [quote, pyQuote, hbody]

theorem isTrailing_eq_false {c : CodeUnit} (h : ¬isSurrogate c) : isTrailing c = false := by
  simp only [isSurrogate, Bool.or_eq_true, not_or, Bool.not_eq_true] at h
  exact h.2

/-- A code unit is trailing exactly when what is written for it starts so. -/
theorem head_pyEscape (c : CodeUnit) :
    ∃ d rest, pyEscape c = d :: rest ∧ isTrailing d = isTrailing c := by
  by_cases hc : isSurrogate c
  · exact ⟨c, [], pyEscape_surrogate hc, rfl⟩
  · have hall := all_escapeUnit c
    rw [escapeUnit_eq hc] at hall
    obtain ⟨d, rest, hcons⟩ : ∃ d rest, pyEscape c = d :: rest := by
      unfold pyEscape
      split_ifs <;> exact ⟨_, _, rfl⟩
    rw [hcons, List.all_cons, Bool.and_eq_true] at hall
    exact ⟨d, rest, hcons,
      (isTrailing_eq_false (by simpa using hall.1)).trans (isTrailing_eq_false hc).symm⟩

/-- A string of Python is written well when it is well formed. -/
theorem writesWell_pyQuote (s : Utf16) : WritesWell (pyQuote s) (wellFormed s) := by
  have hascii : ∀ c, ¬isSurrogate c →
      ∀ text, wellFormed (pyEscape c ++ text) = wellFormed text := by
    intro c hc text
    rw [← escapeUnit_eq hc]
    exact wellFormed_append (by simpa using all_escapeUnit c) text
  have hbody : ∀ text, wellFormed (s.flatMap pyEscape ++ 34 :: text) =
      (wellFormed s && wellFormed text) := by
    intro text
    have hquote : wellFormed (34 :: text) = wellFormed text := wellFormed_cons (by decide) text
    induction s using wellFormed.induct with
    | case1 => rw [List.flatMap_nil, List.nil_append, hquote, wellFormed, Bool.true_and]
    | case2 c =>
      rw [List.flatMap_cons, List.flatMap_nil, List.append_nil]
      by_cases hc : isSurrogate c
      · rw [pyEscape_surrogate hc, wellFormed_append_cons (by decide), hquote]
      · rw [hascii c hc, hquote, wellFormed]
        simp [hc]
    | case3 c d s hpair ih =>
      obtain ⟨hc, hd⟩ := Bool.and_eq_true_iff.1 hpair
      rw [List.flatMap_cons, List.flatMap_cons, pyEscape_surrogate (by simp [isSurrogate, hc]),
        pyEscape_surrogate (by simp [isSurrogate, hd]), wellFormed, if_pos hpair, ← ih]
      simp [wellFormed, hpair]
    | case4 c d s hpair ih =>
      rw [wellFormed, if_neg hpair]
      by_cases hc : isSurrogate c
      · -- the code unit after a lone surrogate does not make a pair with it
        obtain ⟨e, rest, hcons, htrailing⟩ := head_pyEscape d
        rw [← htrailing] at hpair
        rw [List.flatMap_cons, List.flatMap_cons, pyEscape_surrogate hc, hcons]
        simp [wellFormed, hpair, hc]
      · rw [List.flatMap_cons, List.append_assoc, hascii c hc, ih]
        simp [hc]
  intro text
  rw [pyQuote, List.cons_append, wellFormed_cons (by decide), List.append_assoc,
    List.singleton_append, hbody]

/-! ## Numbers -/

/-- The digits of an exponent, at least two. -/
def exponentDigits (n : ℕ) : List ℕ :=
  if n < 10 then [0, n] else digitsOf n

/-- `float.__repr__` of the digits of a positive decimal, `0.d₁d₂… · 10 ^ n`. -/
def reprDigits (ds : List ℕ) (n : ℤ) : Utf16 :=
  if -4 < n ∧ n ≤ 16 then
    if n ≤ 0 then 48 :: 46 :: digitText (zeros (-n) ++ ds)
    else if ds.length ≤ n then digitText (ds ++ zeros (n - ds.length)) ++ [46, 48]
    else digitText (ds.take n.toNat) ++ 46 :: digitText (ds.drop n.toNat)
  else
    digitText (ds.take 1) ++ (if ds.length = 1 then [] else 46 :: digitText (ds.drop 1)) ++
      101 :: (if 0 < n then 43 else 45) :: digitText (exponentDigits (n - 1).natAbs)

/-- `float.__repr__` of a finite float. -/
def floatRepr (x : FiniteDouble) : Utf16 :=
  (if x.negative then [45] else []) ++
    if h : x.magnitude.mantissa ≠ 0 then
      reprDigits (significant (shortest x.magnitude h).1)
        ((digitsOf (shortest x.magnitude h).1).length + (shortest x.magnitude h).2)
    else [48, 46, 48]

/-- `int.__repr__`. -/
def intRepr (n : ℤ) : Utf16 :=
  (if n < 0 then [45] else []) ++ if n = 0 then [48] else digitText (digitsOf n.natAbs)

/-- Where `float.__repr__` and `Number::toString` write a decimal alike : a fraction that both write
with a point, or an exponent of two digits. -/
def reprAgrees (ds : List ℕ) (n : ℤ) : Prop :=
  n ≤ -9 ∨ (-4 < n ∧ n ≤ 16 ∧ n < ds.length) ∨ 21 < n

instance (ds : List ℕ) (n : ℤ) : Decidable (reprAgrees ds n) :=
  inferInstanceAs (Decidable (_ ∨ _ ∨ _))

theorem exponentDigits_lt {n d : ℕ} (h : d ∈ exponentDigits n) : d < 10 := by
  rw [exponentDigits] at h
  split at h
  · rcases List.mem_pair.1 h with rfl | rfl <;> omega
  · exact digitsOf_lt h

theorem exponentDigits_eq_iff (n : ℕ) : exponentDigits n = digitsOf n ↔ 10 ≤ n := by
  rw [exponentDigits]
  split_ifs with h
  · refine ⟨fun heq => ?_, fun hle => absurd h (by omega)⟩
    have hlength := congrArg List.length heq
    have hshort : (digitsOf n).length ≤ 1 := by
      rw [digitsOf, List.length_reverse]
      exact (Nat.digits_length_le_iff (by norm_num) n).2 (by omega)
    simp only [List.length_cons, List.length_nil] at hlength
    omega
  · exact ⟨fun _ => by omega, fun _ => rfl⟩

/-- The notations with an exponent agree when the exponent has two digits. -/
theorem exponent_eq_iff (text : Utf16) (n : ℤ) :
    text ++ 101 :: (if 0 < n then 43 else 45) :: digitText (exponentDigits (n - 1).natAbs) =
        text ++ 101 :: (if 0 < n then 43 else 45) :: digitText (digitsOf (n - 1).natAbs) ↔
      10 ≤ (n - 1).natAbs := by
  rw [List.append_cancel_left_eq, List.cons_inj_right, List.cons_inj_right, ← exponentDigits_eq_iff]
  exact ⟨digitText_inj (fun _ => exponentDigits_lt) fun _ => digitsOf_lt, congrArg digitText⟩

/-- The two notations of a decimal. -/
theorem reprDigits_eq_iff {ds : List ℕ} (hds : ∀ d ∈ ds, d < 10)
    (hhead : ∃ d ds', ds = d :: ds' ∧ d ≠ 0) (n : ℤ) :
    reprDigits ds n = formatDigits ds n ↔ reprAgrees ds n := by
  obtain ⟨d, ds', hcons, hd⟩ := hhead
  have hpos : 0 < ds.length := by simp [hcons]
  have hall : ∀ k, ∀ e ∈ ds ++ zeros k, e < 10 := fun k e he =>
    (List.mem_append.1 he).elim (hds e) zeros_lt
  rw [reprDigits, formatDigits, reprAgrees]
  by_cases hfixed : -4 < n ∧ n ≤ 16
  · rw [if_pos hfixed]
    by_cases hzero : n ≤ 0
    · -- zeros after the point
      rw [if_pos hzero, if_neg (by omega), if_neg (by omega), if_pos (by omega)]
      exact ⟨fun _ => by omega, fun _ => rfl⟩
    by_cases hlength : ds.length ≤ n
    · -- Python writes an integral float with a point
      rw [if_neg hzero, if_pos hlength, if_pos (by omega)]
      refine ⟨fun h => ?_, fun h => by omega⟩
      have := congrArg List.length h
      rw [List.length_append] at this
      simp at this
    · rw [if_neg hzero, if_neg hlength, if_neg (by omega), if_pos (by omega)]
      exact ⟨fun _ => by omega, fun _ => rfl⟩
  rw [if_neg hfixed]
  by_cases hsmall : -6 < n ∧ n ≤ 0
  · -- `Number::toString` writes zeros after the point, and Python an exponent
    rw [if_neg (show ¬((ds.length : ℤ) ≤ n ∧ n ≤ 21) by omega),
      if_neg (show ¬(0 < n ∧ n ≤ 21) by omega), if_pos hsmall]
    refine ⟨fun h => ?_, fun h => by omega⟩
    have hne : digitUnit d ≠ 48 := by
      intro h48
      have hval := digitUnit_val (hds d (by simp [hcons]))
      rw [h48] at hval
      exact hd (by simpa using hval.symm)
    rw [hcons] at h
    exact absurd (List.cons.inj h).1 hne
  by_cases hlarge : 0 < n ∧ n ≤ 21
  · -- Python writes an exponent, and `Number::toString` none
    refine ⟨fun h => absurd (h ▸ List.mem_append_right _ List.mem_cons_self) ?_, fun h => by omega⟩
    rw [if_pos hlarge]
    split_ifs
    · exact notMem_digitText (hall _) (by decide)
    · rw [List.mem_append, not_or, List.mem_cons, not_or]
      exact ⟨notMem_digitText (fun e he => hds e (List.mem_of_mem_take he)) (by decide), by decide,
        notMem_digitText (fun e he => hds e (List.mem_of_mem_drop he)) (by decide)⟩
  · rw [if_neg (show ¬((ds.length : ℤ) ≤ n ∧ n ≤ 21) by omega), if_neg hlarge, if_neg hsmall,
      exponent_eq_iff]
    omega

/-- A finite float is written as `Number::toString` does. -/
theorem floatRepr_eq_iff (x : FiniteDouble) :
    floatRepr x = numberToString x ↔ ∃ h : x.magnitude.mantissa ≠ 0,
      reprAgrees (significant (shortest x.magnitude h).1)
        ((digitsOf (shortest x.magnitude h).1).length + (shortest x.magnitude h).2) := by
  rw [floatRepr, numberToString]
  by_cases h : x.magnitude.mantissa ≠ 0
  · rw [dif_pos h, dif_pos h, List.append_cancel_left_eq, magnitudeText,
      reprDigits_eq_iff (fun _ => significant_lt) (head?_significant (shortest_ne_zero h))]
    constructor
    · exact fun hagrees => ⟨h, hagrees⟩
    · rintro ⟨_, hagrees⟩
      exact hagrees
  · rw [dif_neg h, dif_neg h]
    constructor
    · intro heq
      have hlength := congrArg List.length heq
      rw [List.length_append] at hlength
      simp at hlength
    · rintro ⟨h', -⟩
      exact absurd h' h

/-! ### What is printed is a number -/

theorem readExponent_digits (positive : Prop) [Decidable positive] {es : List ℕ}
    (hes : ∀ e ∈ es, e < 10) (hne : es ≠ []) :
    ∃ k, readExponent (101 :: (if positive then 43 else 45) :: digitText es) = some k := by
  by_cases h : positive
  · exact ⟨ofDigits es, by simp [readExponent, h, spanDigits_digitText hes, hne]⟩
  · exact ⟨-ofDigits es, by simp [readExponent, h, spanDigits_digitText hes, hne]⟩

theorem exponentDigits_ne_nil {n : ℕ} : exponentDigits n ≠ [] := by
  rw [exponentDigits]
  split
  · simp
  · obtain ⟨d, ds, hcons, -⟩ := head?_digitsOf (n := n) (by omega)
    simp [hcons]

/-- The digits of a decimal are printed as a number. -/
theorem readUnsigned_reprDigits (negative : Bool) {ds : List ℕ} (hds : ∀ d ∈ ds, d < 10)
    (hhead : ∃ d ds', ds = d :: ds' ∧ d ≠ 0) (n : ℤ) :
    ∃ x, readUnsigned negative (reprDigits ds n) = some x := by
  obtain ⟨d, ds', hcons, hd⟩ := hhead
  have htake : ∀ k, ∀ e ∈ ds.take k, e < 10 := fun k e he => hds e (List.mem_of_mem_take he)
  have hdrop : ∀ k, ∀ e ∈ ds.drop k, e < 10 := fun k e he => hds e (List.mem_of_mem_drop he)
  have hpoint : ∀ integer fraction : List ℕ, (∀ e ∈ integer, e < 10) → validInteger integer →
      (∀ e ∈ fraction, e < 10) → fraction ≠ [] →
      ∃ x, readUnsigned negative (digitText integer ++ 46 :: digitText fraction) = some x := by
    intro integer fraction hinteger hvalid hfraction hne
    have hread := readUnsigned_append negative integer hinteger hvalid (noDigit_cons (by decide))
      (readFraction_point hfraction hne noDigit_nil) (readExponent.eq_1)
    rw [List.append_nil] at hread
    exact ⟨_, hread⟩
  rw [reprDigits]
  by_cases hfixed : -4 < n ∧ n ≤ 16
  · rw [if_pos hfixed]
    split_ifs with hzero hlength
    · exact hpoint [0] _ (by simp) (by decide)
        (fun e he => (List.mem_append.1 he).elim zeros_lt (hds e)) (by simp [hcons])
    · refine hpoint _ [0] (fun e he => (List.mem_append.1 he).elim (hds e) zeros_lt) ?_
        (by simp) (by simp)
      rw [hcons, List.cons_append]
      exact validInteger_cons hd
    · refine hpoint _ _ (htake _) ?_ (hdrop _) ?_
      · obtain ⟨m, hm⟩ : ∃ m, n.toNat = m + 1 := ⟨n.toNat - 1, by omega⟩
        rw [hcons, hm, List.take_succ_cons]
        exact validInteger_cons hd
      · rw [Ne, List.drop_eq_nil_iff]
        omega
  · rw [if_neg hfixed]
    obtain ⟨k, hk⟩ := readExponent_digits (0 < n)
      (fun _ => exponentDigits_lt (n := (n - 1).natAbs)) exponentDigits_ne_nil
    have hfirst : validInteger (ds.take 1) := by
      rw [hcons, List.take_succ_cons]
      exact validInteger_cons hd
    by_cases hone : ds.length = 1
    · rw [if_pos hone, List.append_nil]
      exact ⟨_, readUnsigned_append negative _ (htake 1) hfirst (noDigit_cons (by decide))
        (readFraction_exponent _) hk⟩
    · have hne : ds.drop 1 ≠ [] := by
        rw [Ne, List.drop_eq_nil_iff]
        have : 0 < ds.length := by simp [hcons]
        omega
      rw [if_neg hone, List.append_assoc]
      exact ⟨_, readUnsigned_append negative _ (htake 1) hfirst (noDigit_cons (by decide))
        (readFraction_point (hdrop 1) hne (noDigit_cons (by decide))) hk⟩

theorem isNumberUnit_of_mem_reprDigits {ds : List ℕ} (hds : ∀ d ∈ ds, d < 10) {n : ℤ}
    {c : CodeUnit} (hc : c ∈ reprDigits ds n) : isNumberUnit c := by
  have htake : ∀ k, ∀ e ∈ ds.take k, e < 10 := fun k e he => hds e (List.mem_of_mem_take he)
  have hdrop : ∀ k, ∀ e ∈ ds.drop k, e < 10 := fun k e he => hds e (List.mem_of_mem_drop he)
  have hpoint : ∀ integer fraction : List ℕ, (∀ e ∈ integer, e < 10) →
      (∀ e ∈ fraction, e < 10) → c ∈ digitText integer ++ 46 :: digitText fraction →
      isNumberUnit c := by
    intro integer fraction hinteger hfraction hc
    rcases List.mem_append.1 hc with hc | hc
    · exact isNumberUnit_of_mem_digitText hinteger hc
    · rcases List.mem_cons.1 hc with rfl | hc
      · decide
      · exact isNumberUnit_of_mem_digitText hfraction hc
  rw [reprDigits] at hc
  split at hc
  · split at hc
    · exact hpoint [0] _ (by simp)
        (fun e he => (List.mem_append.1 he).elim zeros_lt (hds e)) hc
    · split at hc
      · exact hpoint _ [0] (fun e he => (List.mem_append.1 he).elim (hds e) zeros_lt)
          (by simp) hc
      · exact hpoint _ _ (htake _) (hdrop _) hc
  · rcases List.mem_append.1 hc with hc | hc
    · split at hc
      · rw [List.append_nil] at hc
        exact isNumberUnit_of_mem_digitText (htake 1) hc
      · exact hpoint _ _ (htake 1) (hdrop 1) hc
    · rcases List.mem_cons.1 hc with rfl | hc
      · decide
      · rcases List.mem_cons.1 hc with rfl | hc
        · split <;> decide
        · exact isNumberUnit_of_mem_digitText (fun _ => exponentDigits_lt) hc

/-- An unsigned number with a sign. -/
theorem isNumber_signed (negative : Bool) {c : CodeUnit} {text : Utf16} (hc : isDigit c)
    (hunits : ∀ d ∈ c :: text, isNumberUnit d)
    (hread : ∃ x, readUnsigned negative (c :: text) = some x) :
    isNumber ((if negative then [45] else []) ++ c :: text) := by
  obtain ⟨x, hread⟩ := hread
  have hminus : c ≠ 45 := by
    rintro rfl
    exact absurd hc (by decide)
  rw [isNumber, Bool.and_eq_true, List.all_eq_true]
  cases negative with
  | true =>
    refine ⟨fun d hd => ?_, ?_⟩
    · rcases List.mem_cons.1 hd with rfl | hd
      · decide
      · exact hunits d hd
    · rw [if_pos rfl, List.singleton_append, readNumber, if_pos rfl, hread]
      rfl
  | false =>
    refine ⟨hunits, ?_⟩
    rw [if_neg (by decide), List.nil_append, readNumber, if_neg hminus, hread]
    rfl

theorem isNumber_floatRepr (x : FiniteDouble) : isNumber (floatRepr x) := by
  rw [floatRepr]
  by_cases h : x.magnitude.mantissa ≠ 0
  · rw [dif_pos h]
    have hhead := head?_significant (shortest_ne_zero h)
    obtain ⟨c, text, hcons, hc⟩ : ∃ c text, reprDigits (significant (shortest x.magnitude h).1)
        ((digitsOf (shortest x.magnitude h).1).length + (shortest x.magnitude h).2) = c :: text ∧
        isDigit c := by
      obtain ⟨d, ds', hds, -⟩ := hhead
      have hd : isDigit (digitUnit d) :=
        isDigit_digitUnit (significant_lt (hds ▸ List.mem_cons_self))
      rw [hds, reprDigits]
      split_ifs with h₁ h₂ h₃
      · exact ⟨_, _, rfl, by decide⟩
      · exact ⟨_, _, rfl, hd⟩
      · obtain ⟨m, hm⟩ : ∃ m, ((digitsOf (shortest x.magnitude h).1).length +
            (shortest x.magnitude h).2).toNat = m + 1 := ⟨_, (Nat.succ_pred (by omega)).symm⟩
        rw [hm]
        exact ⟨_, _, rfl, hd⟩
      all_goals exact ⟨_, _, rfl, hd⟩
    rw [hcons]
    refine isNumber_signed _ hc (fun d hd => ?_) ?_
    · exact isNumberUnit_of_mem_reprDigits (fun _ => significant_lt) (hcons ▸ hd)
    · exact hcons ▸ readUnsigned_reprDigits x.negative (fun _ => significant_lt) hhead _
  · rw [dif_neg h]
    have hunits : ∀ c ∈ ([48, 46, 48] : Utf16), isNumberUnit c := List.all_eq_true.1 (by decide)
    exact isNumber_signed _ (by decide) hunits ⟨⟨x.negative, 0, -1⟩, by cases x.negative <;> rfl⟩

theorem isNumber_intRepr (n : ℤ) : isNumber (intRepr n) := by
  rw [intRepr]
  by_cases h : n = 0
  · rw [if_neg (by omega), if_pos h]
    decide
  · rw [if_neg h]
    obtain ⟨d, ds, hcons, hd⟩ := head?_digitsOf (n := n.natAbs) (by omega)
    have hlt : ∀ e ∈ d :: ds, e < 10 := fun e he => digitsOf_lt (n := n.natAbs) (hcons ▸ he)
    have hread := readUnsigned_append (decide (n < 0)) (d :: ds) hlt (validInteger_cons hd)
      noDigit_nil (readFraction.eq_2) (readExponent.eq_1)
    rw [List.append_nil] at hread
    have hsigned := isNumber_signed (decide (n < 0)) (isDigit_digitUnit (hlt d List.mem_cons_self))
      (fun c hc => isNumberUnit_of_mem_digitText hlt hc) ⟨_, hread⟩
    simp only [decide_eq_true_eq] at hsigned
    rw [hcons]
    exact hsigned

/-! ### Numbers that are read and printed -/

/-- A number that `json.loads` returns. -/
inductive PyNumber where
  | int (n : ℤ)
  | float (x : FiniteDouble)
  | infinite (negative : Bool)
deriving DecidableEq

/-- Whether a number of the JSON grammar has neither a fraction nor an exponent. -/
def isIntToken (token : Utf16) : Bool :=
  token.all fun c => c ≠ 46 && c ≠ 69 && c ≠ 101

/-- The number of a text. -/
def pyNumberOf (token : Utf16) : PyNumber :=
  match readNumber token with
  | some d =>
    if isIntToken token then .int (if d.negative then -d.digits else d.digits)
    else
      match nearest d.toRat with
      | some magnitude => .float ⟨d.negative, magnitude⟩
      | none => .infinite d.negative
  | none => .int 0

/-- The text of a number, and nothing when `allow_nan` is off and it is not finite. -/
def PyNumber.text? : PyNumber → Option Utf16
  | .int n => some (intRepr n)
  | .float x => some (floatRepr x)
  | .infinite _ => none

/-- An integer that `Number::toString` writes with its digits : it is zero, or it has 21 digits at
most and is the shortest decimal of the double next to it. -/
def intAgrees (m : ℕ) : Prop :=
  m = 0 ∨ m < 10 ^ 21 ∧ ∃ (x : Magnitude) (h : x.mantissa ≠ 0),
    nearest (m : ℚ) = some x ∧ ((shortest x h).1 : ℚ) * 10 ^ (shortest x h).2 = m

/-- A decimal whose double is written alike by `float.__repr__` and `Number::toString`. -/
def floatAgrees (q : ℚ) : Prop :=
  ∃ (x : Magnitude) (h : x.mantissa ≠ 0), nearest q = some x ∧
    reprAgrees (significant (shortest x h).1)
      ((digitsOf (shortest x h).1).length + (shortest x h).2)

/-- A number that is read and printed alike. -/
def numberAgrees (token : Utf16) : Prop :=
  ∃ d, readNumber token = some d ∧
    if isIntToken token then intAgrees d.digits else floatAgrees d.toRat

theorem spanDigits_suffix (text : Utf16) : (spanDigits text).2 <:+ text := by
  induction text with
  | nil => exact List.suffix_rfl
  | cons c text ih =>
    rw [spanDigits]
    split
    · exact ih.trans (List.suffix_cons c text)
    · exact List.suffix_rfl

/-- A number without a fraction and an exponent is an integer. -/
theorem readUnsigned_integer {negative : Bool} {text : Utf16} {d : Decimal}
    (h : readUnsigned negative text = some d) (hint : isIntToken text) : d.exponent = 0 := by
  rw [readUnsigned] at h
  split at h
  · obtain ⟨⟨fraction, rest⟩, hfraction, h⟩ := Option.bind_eq_some_iff.1 h
    obtain ⟨exponent, hexponent, rfl⟩ := Option.map_eq_some_iff.1 h
    have hunits : ∀ c ∈ (spanDigits text).2, c ≠ 46 ∧ c ≠ 69 ∧ c ≠ 101 := fun c hc => by
      have hall := List.all_eq_true.1 hint c ((spanDigits_suffix text).subset hc)
      simpa [and_assoc] using hall
    cases hrest : (spanDigits text).2 with
    | nil =>
      rw [hrest, readFraction.eq_2] at hfraction
      obtain ⟨rfl, rfl⟩ := Prod.mk.inj (Option.some.inj hfraction)
      rw [readExponent] at hexponent
      obtain rfl := Option.some.inj hexponent
      rfl
    | cons c text' =>
      obtain ⟨hpoint, hupper, hlower⟩ := hunits c (hrest ▸ List.mem_cons_self)
      rw [hrest, readFraction, if_neg hpoint] at hfraction
      obtain ⟨rfl, rfl⟩ := Prod.mk.inj (Option.some.inj hfraction)
      rw [readExponent, if_neg (by simp [hupper, hlower])] at hexponent
      cases hexponent
  · cases h

theorem readNumber_integer {token : Utf16} {d : Decimal} (h : readNumber token = some d)
    (hint : isIntToken token) : d.exponent = 0 := by
  cases token with
  | nil => cases h
  | cons c text =>
    rw [readNumber] at h
    split at h
    · rw [isIntToken, List.all_cons, Bool.and_eq_true] at hint
      exact readUnsigned_integer h hint.2
    · exact readUnsigned_integer h hint

/-- An integer rounds to zero only when it is zero. -/
theorem mantissa_ne_zero {m : ℕ} (hm : m ≠ 0) {x : Magnitude} (h : nearest (m : ℚ) = some x) :
    x.mantissa ≠ 0 := by
  intro hzero
  refine hm (eq_of_nearest_natCast (n := 0) (by norm_num) ?_ h)
  rw [Magnitude.toRat, hzero, Nat.cast_zero, zero_mul]

/-- An integer and the double next to it. -/
theorem intRepr_eq_iff {m : ℕ} (negative : Bool) {x : Magnitude} (h : nearest (m : ℚ) = some x) :
    intRepr (if negative then -m else m) = numberToString ⟨negative, x⟩ ↔ intAgrees m := by
  by_cases hm : m = 0
  · subst hm
    rw [Nat.cast_zero, nearest, if_pos le_rfl, Option.some.injEq] at h
    subst h
    have hzero : (if negative then -((0 : ℕ) : ℤ) else ((0 : ℕ) : ℤ)) = 0 := by simp
    rw [hzero]
    exact ⟨fun _ => Or.inl rfl, fun _ => rfl⟩
  · have hne := mantissa_ne_zero hm h
    have habs : (if negative then -(m : ℤ) else (m : ℤ)).natAbs = m := by
      cases negative <;> simp
    have hsign : ((if negative then -(m : ℤ) else (m : ℤ)) < 0) ↔ negative = true := by
      cases negative
      · simp
      · simpa using Nat.pos_of_ne_zero hm
    have hnonzero : (if negative then -(m : ℤ) else (m : ℤ)) ≠ 0 := by
      cases negative <;> simpa using hm
    rw [intRepr, numberToString, dif_pos hne, if_neg hnonzero, habs]
    simp only [hsign]
    rw [List.append_cancel_left_eq, eq_comm, magnitudeText_eq_iff hne, intAgrees]
    constructor
    · rintro ⟨hlt, hvalue⟩
      exact Or.inr ⟨hlt, x, hne, h, hvalue⟩
    · rintro (hzero | ⟨hlt, y, hy, hnearest, hvalue⟩)
      · exact absurd hzero hm
      · obtain rfl := Option.some.inj (h.symm.trans hnearest)
        exact ⟨hlt, hvalue⟩

/-- A number is written alike exactly when it agrees. -/
theorem pyNumberOf_eq_iff {token : Utf16} (h : isNumber token) :
    (∃ x, numberOf token = .finite x ∧ (pyNumberOf token).text? = some (numberToString x)) ↔
      numberAgrees token := by
  rw [isNumber, Bool.and_eq_true] at h
  obtain ⟨d, hread⟩ := Option.isSome_iff_exists.1 h.2
  have hagrees : numberAgrees token ↔
      if isIntToken token then intAgrees d.digits else floatAgrees d.toRat := by
    constructor
    · rintro ⟨e, he, hagrees⟩
      rwa [Option.some.inj (hread.symm.trans he)]
    · exact fun hagrees => ⟨d, hread, hagrees⟩
  rw [hagrees]
  by_cases hint : isIntToken token
  · have hvalue : d.toRat = d.digits := by
      rw [Decimal.toRat, readNumber_integer hread hint, zpow_zero, mul_one]
    rw [if_pos hint]
    simp only [numberOf, pyNumberOf, hread, hint, if_true, hvalue, PyNumber.text?,
      Option.some.injEq]
    cases hnearest : nearest (d.digits : ℚ) with
    | none =>
      constructor
      · rintro ⟨x, hx, -⟩
        simp at hx
      · rintro (hzero | ⟨-, x, -, hx, -⟩)
        · rw [hzero, Nat.cast_zero, nearest, if_pos le_rfl] at hnearest
          cases hnearest
        · rw [hnearest] at hx
          cases hx
    | some x =>
      rw [← intRepr_eq_iff d.negative hnearest]
      simp
  · rw [if_neg hint, floatAgrees]
    simp only [numberOf, pyNumberOf, hread, hint]
    cases hnearest : nearest d.toRat with
    | none => simp
    | some x =>
      simp only [JsNumber.finite.injEq, Bool.false_eq_true, if_false, PyNumber.text?,
        Option.some.injEq, exists_eq_left', floatRepr_eq_iff]
      constructor
      · rintro ⟨hne, hrepr⟩
        exact ⟨x, hne, rfl, hrepr⟩
      · rintro ⟨y, hne, rfl, hrepr⟩
        exact ⟨hne, hrepr⟩

/-- Integers below `2 ^ 53` are written alike. -/
theorem intAgrees_of_lt {m : ℕ} (h : m < 2 ^ 53) : intAgrees m := by
  by_cases hm : m = 0
  · exact Or.inl hm
  · obtain ⟨x, hx⟩ := exists_magnitude hm h
    have hnearest : nearest (m : ℚ) = some x := hx ▸ nearest_toRat x
    have hne := mantissa_ne_zero hm hnearest
    exact Or.inr ⟨h.trans (by norm_num), x, hne, hnearest, shortest_natCast h hx hne⟩

end JsonText
