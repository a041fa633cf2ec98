import FactoryFloor.Utf8

/-!
# Base64url

`toBase64url` and `fromBase64` are `Buffer.toString('base64url')` and
`Buffer.from(text, 'base64url')` of Node. The decoder takes both alphabets and passes over what is
in neither of them, padding included. Bytes that are encoded are decoded to the same bytes
(`fromBase64_toBase64url`).
-/

namespace JsonText

/-- The character of six bits. -/
def base64Digit (d : ℕ) : CodeUnit :=
  Fin.ofNat 65536 <|
    if d < 26 then 65 + d else if d < 52 then 71 + d else if d < 62 then d - 4
    else if d = 62 then 45 else 95

/-- The six bits of a character, in one alphabet or the other. -/
def base64Value (c : CodeUnit) : Option ℕ :=
  if 65 ≤ c.val ∧ c.val ≤ 90 then some (c.val - 65)
  else if 97 ≤ c.val ∧ c.val ≤ 122 then some (c.val - 71)
  else if 48 ≤ c.val ∧ c.val ≤ 57 then some (c.val + 4)
  else if c.val = 43 ∨ c.val = 45 then some 62
  else if c.val = 47 ∨ c.val = 95 then some 63
  else none

/-- The groups of six bits of some bytes. -/
def sextets : List UInt8 → List ℕ
  | [] => []
  | [a] => [a.toNat / 4, a.toNat % 4 * 16]
  | [a, b] => [a.toNat / 4, a.toNat % 4 * 16 + b.toNat / 16, b.toNat % 16 * 4]
  | a :: b :: c :: bytes =>
    a.toNat / 4 :: (a.toNat % 4 * 16 + b.toNat / 16) :: (b.toNat % 16 * 4 + c.toNat / 64) ::
      c.toNat % 64 :: sextets bytes

/-- The bytes of groups of six bits. -/
def ofSextets : List ℕ → List UInt8
  | w :: x :: y :: z :: rest =>
    UInt8.ofNat (w * 4 + x / 16) :: UInt8.ofNat (x % 16 * 16 + y / 4) ::
      UInt8.ofNat (y % 4 * 64 + z) :: ofSextets rest
  | [w, x, y] => [UInt8.ofNat (w * 4 + x / 16), UInt8.ofNat (x % 16 * 16 + y / 4)]
  | [w, x] => [UInt8.ofNat (w * 4 + x / 16)]
  | _ => []

/-- `Buffer.toString('base64url')`. -/
def toBase64url (bytes : List UInt8) : Utf16 :=
  (sextets bytes).map base64Digit

/-- `Buffer.from(text, 'base64url')`. -/
def fromBase64 (text : Utf16) : List UInt8 :=
  ofSextets (text.filterMap base64Value)

/-! ## Round trip -/

theorem base64Value_base64Digit : ∀ d < 64, base64Value (base64Digit d) = some d := by decide

theorem sextets_lt (bytes : List UInt8) : ∀ d ∈ sextets bytes, d < 64 := by
  have hbyte : ∀ b : UInt8, b.toNat < 256 := UInt8.toNat_lt
  fun_induction sextets bytes with
  | case1 => simp
  | case2 a =>
    have ha := hbyte a
    simp only [List.mem_cons, List.not_mem_nil, or_false]
    rintro d (rfl | rfl) <;> omega
  | case3 a b =>
    have ha := hbyte a
    have hb := hbyte b
    simp only [List.mem_cons, List.not_mem_nil, or_false]
    rintro d (rfl | rfl | rfl) <;> omega
  | case4 a b c bytes ih =>
    have ha := hbyte a
    have hb := hbyte b
    have hc := hbyte c
    simp only [List.mem_cons]
    rintro d (rfl | rfl | rfl | rfl | hd)
    · omega
    · omega
    · omega
    · omega
    · exact ih d hd

theorem ofNat_eq_of_toNat {b : UInt8} {n : ℕ} (h : n = b.toNat) : UInt8.ofNat n = b := by
  rw [h, UInt8.ofNat_toNat]

theorem ofSextets_sextets (bytes : List UInt8) : ofSextets (sextets bytes) = bytes := by
  have hbyte : ∀ b : UInt8, b.toNat < 256 := UInt8.toNat_lt
  fun_induction sextets bytes with
  | case1 => rfl
  | case2 a =>
    rw [ofSextets, ofNat_eq_of_toNat]
    omega
  | case3 a b =>
    have hb := hbyte b
    rw [ofSextets, ofNat_eq_of_toNat (b := a), ofNat_eq_of_toNat (b := b)]
    · omega
    · omega
  | case4 a b c bytes ih =>
    have hb := hbyte b
    have hc := hbyte c
    rw [ofSextets, ih, ofNat_eq_of_toNat (b := a), ofNat_eq_of_toNat (b := b),
      ofNat_eq_of_toNat (b := c)]
    · omega
    · omega
    · omega

theorem filterMap_base64Value {ds : List ℕ} (h : ∀ d ∈ ds, d < 64) :
    (ds.map base64Digit).filterMap base64Value = ds := by
  induction ds with
  | nil => rfl
  | cons d ds ih =>
    have hd := base64Value_base64Digit d (h d List.mem_cons_self)
    rw [List.map_cons, List.filterMap_cons_some hd, ih fun e he => h e (List.mem_cons_of_mem d he)]

/-- What is encoded is decoded to the same bytes. -/
theorem fromBase64_toBase64url (bytes : List UInt8) : fromBase64 (toBase64url bytes) = bytes := by
  rw [fromBase64, toBase64url, filterMap_base64Value (sextets_lt bytes), ofSextets_sextets]

/-- What is encoded has characters of the alphabet only. -/
theorem base64Value_of_mem {bytes : List UInt8} {c : CodeUnit} (h : c ∈ toBase64url bytes) :
    (base64Value c).isSome := by
  obtain ⟨d, hd, rfl⟩ := List.mem_map.1 h
  rw [base64Value_base64Digit d (sextets_lt bytes d hd)]
  rfl

theorem toBase64url_ne_nil {bytes : List UInt8} (h : bytes ≠ []) : toBase64url bytes ≠ [] := by
  intro hnil
  have hround := fromBase64_toBase64url bytes
  rw [hnil] at hround
  exact h hround.symm

end JsonText
