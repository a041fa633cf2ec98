import FactoryFloor.JsValues

/-!
# Objects of JavaScript

A property of an object is looked up in its members. `lookup_setMember` says what is found after a
member is defined. What `trim` removes, and what a function throws, are here too.
-/

namespace FactoryFloor

open JsonText

/-- What a function throws : a `DomainError`, or an error of another class. -/
inductive Thrown where
  | domain (code : String) (message : Utf16)
  | other (errorClass : String)
deriving DecidableEq

/-! ## Properties -/

/-- A property of an object, when there is one. -/
def property? (value : JsValue) (name : String) : Option JsValue :=
  match value with
  | .obj members => members.lookup (ascii name)
  | _ => none

/-- A property that is a string. -/
def textProperty (value : JsValue) (name : String) : Utf16 :=
  match property? value name with
  | some (.str s) => s
  | _ => []

/-- The entries of an object. -/
def entries : JsValue → List (Utf16 × JsValue)
  | .obj members => members
  | _ => []

section Lookup

variable {α : Type*} {members : List (Utf16 × α)} {k key : Utf16}

theorem lookup_cons_ite (k : Utf16) (value : α) (members : List (Utf16 × α)) (key : Utf16) :
    ((k, value) :: members).lookup key = if key = k then some value else members.lookup key := by
  rw [List.lookup_cons]
  by_cases hk : key = k
  · rw [if_pos hk, beq_iff_eq.2 hk]
  · rw [if_neg hk, beq_eq_false_iff_ne.2 hk]

theorem lookup_eq_none_iff : members.lookup key = none ↔ key ∉ members.map Prod.fst := by
  induction members with
  | nil => simp
  | cons m members ih =>
    obtain ⟨k, value⟩ := m
    rw [lookup_cons_ite, List.map_cons, List.mem_cons, not_or, ← ih]
    by_cases hk : key = k
    · simp [hk]
    · simp [hk]

theorem lookup_insertMember (value : α) (h : k ∉ members.map Prod.fst) (key : Utf16) :
    (insertMember k value members).lookup key =
      if key = k then some value else members.lookup key := by
  induction members with
  | nil => rw [insertMember, lookup_cons_ite]
  | cons m members ih =>
    obtain ⟨k', value'⟩ := m
    obtain ⟨hne, hrest⟩ := not_or.1 (List.mem_cons.not.1 h)
    rw [insertMember]
    by_cases hbefore : enumeratedBefore k k'
    · rw [if_pos hbefore, lookup_cons_ite]
    · rw [if_neg hbefore, lookup_cons_ite, lookup_cons_ite, ih hrest]
      by_cases hkey : key = k
      · have hother : key ≠ k' := fun heq => hne (hkey ▸ heq)
        rw [if_neg hother]
        simp [hkey]
      · simp [hkey]

theorem lookup_setMember (members : List (Utf16 × α)) (m : Utf16 × α) (key : Utf16) :
    (setMember members m).lookup key = if key = m.1 then some m.2 else members.lookup key := by
  rw [setMember]
  split_ifs with hmem hkey hkey
  · subst hkey
    induction members with
    | nil => simp at hmem
    | cons n members ih =>
      obtain ⟨k, value⟩ := n
      rw [List.map_cons]
      by_cases hk : k = m.1
      · rw [if_pos hk, lookup_cons_ite, if_pos hk.symm]
      · have hrest : m.1 ∈ members.map Prod.fst :=
          (List.mem_cons.1 hmem).resolve_left (Ne.symm hk)
        rw [if_neg hk, lookup_cons_ite, if_neg (Ne.symm hk), ih hrest]
  · clear hmem
    induction members with
    | nil => rfl
    | cons n members ih =>
      obtain ⟨k, value⟩ := n
      rw [List.map_cons, lookup_cons_ite]
      by_cases hk : k = m.1
      · have hother : key ≠ k := fun heq => hkey (heq.trans hk)
        rw [if_pos hk, lookup_cons_ite, ih, if_neg hother, if_neg hother]
      · rw [if_neg hk, lookup_cons_ite, ih]
  · rw [lookup_insertMember m.2 hmem, if_pos hkey]
  · rw [lookup_insertMember m.2 hmem, if_neg hkey]

end Lookup

/-! ## White space -/

/-- What `trim` removes : the white space and line ends of the language. -/
def isWhiteSpace (c : CodeUnit) : Bool :=
  9 ≤ c.val && c.val ≤ 13 || 0x2000 ≤ c.val && c.val ≤ 0x200a ||
    c.val ∈ [32, 0xa0, 0x1680, 0x2028, 0x2029, 0x202f, 0x205f, 0x3000, 0xfeff]

/-- `value.trim().length === 0`. -/
def isBlankText (s : Utf16) : Bool :=
  s.all isWhiteSpace

/-- `value.trim()`. -/
def trimText (s : Utf16) : Utf16 :=
  (s.dropWhile isWhiteSpace).rdropWhile isWhiteSpace

theorem mem_dropWhile {α : Type*} {p : α → Bool} {a : α} {values : List α} (ha : a ∈ values)
    (hkeep : p a = false) : a ∈ values.dropWhile p := by
  rw [← List.takeWhile_append_dropWhile (p := p) (l := values)] at ha
  refine (List.mem_append.1 ha).resolve_left fun hleft => ?_
  rw [List.mem_takeWhile_imp hleft] at hkeep
  cases hkeep

/-- What is no white space is not removed. -/
theorem mem_trimText {s : Utf16} {c : CodeUnit} (hc : c ∈ s) (hkeep : isWhiteSpace c = false) :
    c ∈ trimText s := by
  rw [trimText, List.rdropWhile, List.mem_reverse]
  exact mem_dropWhile (List.mem_reverse.2 (mem_dropWhile hc hkeep)) hkeep

/-! ## Numbers -/

/-- `String(n)` of a natural number. -/
def natText (n : ℕ) : Utf16 :=
  if n = 0 then [48] else (digitsOf n).map digitUnit

/-- A natural number as a value. -/
def natValue (n : ℕ) : JsValue :=
  .num (match Doubles.nearest n with
    | some magnitude => .finite ⟨false, magnitude⟩
    | none => .infinite false)

/-- The value of a digit, up to fifteen. -/
def digitValue (c : CodeUnit) : Option ℕ :=
  if isDigit c then some (c.val - 48)
  else if 97 ≤ c.val ∧ c.val ≤ 102 then some (c.val - 87)
  else if 65 ≤ c.val ∧ c.val ≤ 70 then some (c.val - 55)
  else none

/-- The number of some digits, and nothing when there are none. -/
def readRadix (radix : ℕ) (text : Utf16) : Option ℕ :=
  if text = [] then none
  else text.foldlM (fun n c => ((digitValue c).filter (· < radix)).map (n * radix + ·)) 0

/-- The integer that `BigInt` reads from a text, and nothing when it throws. -/
def bigInt? (text : Utf16) : Option ℤ :=
  match trimText text with
  | [] => some 0
  | c :: digits =>
    if c = 43 then (readRadix 10 digits).map Int.ofNat
    else if c = 45 then (readRadix 10 digits).map fun n => -Int.ofNat n
    else
      match digits with
      | [] => (readRadix 10 [c]).map Int.ofNat
      | d :: rest =>
        if c = 48 ∧ d ∈ ascii "xX" then (readRadix 16 rest).map Int.ofNat
        else if c = 48 ∧ d ∈ ascii "oO" then (readRadix 8 rest).map Int.ofNat
        else if c = 48 ∧ d ∈ ascii "bB" then (readRadix 2 rest).map Int.ofNat
        else (readRadix 10 (c :: d :: rest)).map Int.ofNat

theorem readRadix_of_mem {radix : ℕ} {text : Utf16} {c : CodeUnit} (hc : c ∈ text)
    (hdigit : digitValue c = none) : readRadix radix text = none := by
  have hfold : ∀ n, text.foldlM
      (fun n c => ((digitValue c).filter (· < radix)).map (n * radix + ·)) n = none := by
    induction text with
    | nil => simp at hc
    | cons d text ih =>
      intro n
      rw [List.foldlM_cons]
      rcases List.mem_cons.1 hc with rfl | hc
      · rw [hdigit]
        rfl
      · cases hd : ((digitValue d).filter (· < radix)).map (n * radix + ·) with
        | none => rfl
        | some m => exact ih hc m
  rw [readRadix, hfold 0, ite_self]

/-- `BigInt` reads no text with a decimal point. -/
theorem bigInt?_of_point {text : Utf16} (h : 46 ∈ text) : bigInt? text = none := by
  have hmem : (46 : CodeUnit) ∈ trimText text := mem_trimText h (by decide)
  have hread : ∀ {radix : ℕ} {digits : Utf16}, 46 ∈ digits → readRadix radix digits = none :=
    fun hpoint => readRadix_of_mem hpoint (by decide)
  have hskip : ∀ {c : CodeUnit} {rest : Utf16}, 46 ∈ c :: rest → c ≠ 46 → 46 ∈ rest :=
    fun hpoint hne => (List.mem_cons.1 hpoint).resolve_left (Ne.symm hne)
  have hletter : ∀ {d : CodeUnit} {letters : List CodeUnit}, d ∈ letters → 46 ∉ letters → d ≠ 46 := by
    rintro d letters hd hnot rfl
    exact hnot hd
  rw [bigInt?]
  rcases htrim : trimText text with - | ⟨c, digits⟩
  · rw [htrim] at hmem
    simp at hmem
  rw [htrim] at hmem
  dsimp only
  split_ifs with hplus hminus
  · rw [hread (hskip hmem (by rw [hplus]; decide))]
    rfl
  · rw [hread (hskip hmem (by rw [hminus]; decide))]
    rfl
  rcases digits with - | ⟨d, rest⟩
  · rw [hread hmem]
    rfl
  dsimp only
  split_ifs with hhex hoctal hbinary
  · have hd := hletter hhex.2 (by decide)
    rw [hread (hskip (hskip hmem (by rw [hhex.1]; decide)) hd)]
    rfl
  · have hd := hletter hoctal.2 (by decide)
    rw [hread (hskip (hskip hmem (by rw [hoctal.1]; decide)) hd)]
    rfl
  · have hd := hletter hbinary.2 (by decide)
    rw [hread (hskip (hskip hmem (by rw [hbinary.1]; decide)) hd)]
    rfl
  · rw [hread hmem]
    rfl

end FactoryFloor
