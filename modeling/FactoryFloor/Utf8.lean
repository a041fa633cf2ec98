import FactoryFloor.CodePoints

/-!
# Decoding UTF-8

`decodeText` decodes bytes as Node's `readFile(path, 'utf8')` and `setEncoding('utf8')` do it : each
maximal part of a sequence that is not well formed is replaced by U+FFFD, and a byte order mark stays. The encoding of a well formed text is decoded
to the text (`decodeText_encodeText`), so its bytes stand as they are when they are decoded and encoded
again (`reencode_encodeText`).
-/

namespace JsonText

/-- A sequence whose bytes have been read in part : its value so far, the number of bytes that are
missing, and the bounds of the next one. -/
structure Awaiting where
  value : ℕ
  missing : ℕ
  lower : ℕ
  upper : ℕ

/-- What a first byte is : a code point, or the beginning of a sequence. -/
def startSequence (b : ℕ) : ℕ ⊕ Awaiting :=
  if b < 0x80 then .inl b
  else if b < 0xc2 then .inl 0xfffd
  else if b < 0xe0 then .inr ⟨b - 0xc0, 1, 0x80, 0xbf⟩
  else if b < 0xf0 then
    .inr ⟨b - 0xe0, 2, if b = 0xe0 then 0xa0 else 0x80, if b = 0xed then 0x9f else 0xbf⟩
  else if b < 0xf5 then
    .inr ⟨b - 0xf0, 3, if b = 0xf0 then 0x90 else 0x80, if b = 0xf4 then 0x8f else 0xbf⟩
  else .inl 0xfffd

/-- The code points of some bytes, after those of a sequence that is not complete. -/
def decodePoints : Option Awaiting → List UInt8 → List ℕ
  | none, [] => []
  | some _, [] => [0xfffd]
  | pending, b :: bytes =>
    let restart : List ℕ :=
      match startSequence b.toNat with
      | .inl p => p :: decodePoints none bytes
      | .inr a => decodePoints (some a) bytes
    match pending with
    | none => restart
    | some a =>
      if a.lower ≤ b.toNat ∧ b.toNat ≤ a.upper then
        let value := a.value * 64 + (b.toNat - 0x80)
        if a.missing = 1 then value :: decodePoints none bytes
        else decodePoints (some ⟨value, a.missing - 1, 0x80, 0xbf⟩) bytes
      else 0xfffd :: restart

/-- The text that bytes are decoded to. -/
def decodeText (bytes : List UInt8) : Utf16 :=
  (decodePoints none bytes).flatMap unitsOf

/-- Bytes that are decoded and encoded again. -/
def reencode (bytes : List UInt8) : List UInt8 :=
  encodeText (decodeText bytes)

/-! ## Round trip -/

theorem decodePoints_start {n : ℕ} (h : n < 256) (bytes : List UInt8) :
    decodePoints none (UInt8.ofNat n :: bytes) =
      match startSequence n with
      | .inl p => p :: decodePoints none bytes
      | .inr a => decodePoints (some a) bytes := by
  rw [decodePoints, UInt8.toNat_ofNat', Nat.mod_eq_of_lt h]

theorem decodePoints_next {a : Awaiting} {n : ℕ} (h : n < 256) (hlower : a.lower ≤ n)
    (hupper : n ≤ a.upper) (hmissing : a.missing ≠ 1) (bytes : List UInt8) :
    decodePoints (some a) (UInt8.ofNat n :: bytes) =
      decodePoints (some ⟨a.value * 64 + (n - 0x80), a.missing - 1, 0x80, 0xbf⟩) bytes := by
  rw [decodePoints, UInt8.toNat_ofNat', Nat.mod_eq_of_lt h]
  dsimp only
  rw [if_pos ⟨hlower, hupper⟩, if_neg hmissing]

theorem decodePoints_last {a : Awaiting} {n : ℕ} (h : n < 256) (hlower : a.lower ≤ n)
    (hupper : n ≤ a.upper) (hmissing : a.missing = 1) (bytes : List UInt8) :
    decodePoints (some a) (UInt8.ofNat n :: bytes) =
      (a.value * 64 + (n - 0x80)) :: decodePoints none bytes := by
  rw [decodePoints, UInt8.toNat_ofNat', Nat.mod_eq_of_lt h]
  dsimp only
  rw [if_pos ⟨hlower, hupper⟩, if_pos hmissing]

/-- The bytes of a character are decoded to it. -/
theorem decodePoints_utf8EncodeChar (c : Char) (bytes : List UInt8) :
    decodePoints none (String.utf8EncodeChar c ++ bytes) = c.toNat :: decodePoints none bytes := by
  have hvalid : c.toNat.isValidChar := c.valid
  rw [Nat.isValidChar] at hvalid
  have hval : c.val.toNat = c.toNat := rfl
  generalize c.toNat = v at hvalid hval
  rw [String.utf8EncodeChar]
  simp only [hval]
  by_cases h1 : v ≤ 0x7f
  · rw [if_pos h1, List.singleton_append, decodePoints_start (by omega), startSequence,
      if_pos (by omega)]
  rw [if_neg h1]
  by_cases h2 : v ≤ 0x7ff
  · rw [if_pos h2, List.cons_append, List.singleton_append, decodePoints_start (by omega),
      startSequence, if_neg (by omega), if_neg (by omega), if_pos (by omega)]
    dsimp only
    have hvalue : (v / 64 % 32 + 0xc0 - 0xc0) * 64 + (v % 64 + 0x80 - 0x80) = v := by omega
    rw [decodePoints_last (by omega) (by dsimp only; omega) (by dsimp only; omega) rfl]
    dsimp only
    rw [hvalue]
  rw [if_neg h2]
  by_cases h3 : v ≤ 0xffff
  · rw [if_pos h3, List.cons_append, List.cons_append, List.singleton_append,
      decodePoints_start (by omega), startSequence, if_neg (by omega), if_neg (by omega),
      if_neg (by omega), if_pos (by omega)]
    dsimp only
    have hvalue : ((v / 4096 % 16 + 0xe0 - 0xe0) * 64 + (v / 64 % 64 + 0x80 - 0x80)) * 64 +
        (v % 64 + 0x80 - 0x80) = v := by omega
    rw [decodePoints_next (by omega) (by dsimp only; split_ifs <;> omega)
      (by dsimp only; split_ifs <;> omega) (by dsimp only; omega), decodePoints_last (by omega)
      (by dsimp only; omega) (by dsimp only; omega) rfl]
    dsimp only
    rw [hvalue]
  · rw [if_neg h3, List.cons_append, List.cons_append, List.cons_append, List.singleton_append,
      decodePoints_start (by omega), startSequence, if_neg (by omega), if_neg (by omega),
      if_neg (by omega), if_neg (by omega), if_pos (by omega)]
    dsimp only
    have hvalue : (((v / 262144 % 8 + 0xf0 - 0xf0) * 64 + (v / 4096 % 64 + 0x80 - 0x80)) * 64 +
        (v / 64 % 64 + 0x80 - 0x80)) * 64 + (v % 64 + 0x80 - 0x80) = v := by omega
    rw [decodePoints_next (by omega) (by dsimp only; split_ifs <;> omega)
      (by dsimp only; split_ifs <;> omega) (by dsimp only; omega), decodePoints_next (by omega)
      (by dsimp only; omega) (by dsimp only; omega) (by dsimp only; omega),
      decodePoints_last (by omega) (by dsimp only; omega) (by dsimp only; omega) rfl]
    dsimp only
    rw [hvalue]

/-- The bytes of some characters are decoded to them, whatever follows. -/
theorem decodePoints_flatMap_append (chars : List Char) (bytes : List UInt8) :
    decodePoints none (chars.flatMap String.utf8EncodeChar ++ bytes) =
      chars.map Char.toNat ++ decodePoints none bytes := by
  induction chars with
  | nil => rfl
  | cons c chars ih =>
    rw [List.flatMap_cons, List.append_assoc, decodePoints_utf8EncodeChar, ih, List.map_cons,
      List.cons_append]

theorem decodePoints_flatMap (chars : List Char) :
    decodePoints none (chars.flatMap String.utf8EncodeChar) = chars.map Char.toNat := by
  have h := decodePoints_flatMap_append chars []
  rwa [List.append_nil, decodePoints, List.append_nil] at h

/-- Some but not all bytes of a character are decoded to one U+FFFD. -/
theorem decodePoints_take {c : Char} {k : ℕ} (hpos : 0 < k)
    (hlt : k < (String.utf8EncodeChar c).length) :
    decodePoints none ((String.utf8EncodeChar c).take k) = [0xfffd] := by
  have hvalid : c.toNat.isValidChar := c.valid
  rw [Nat.isValidChar] at hvalid
  have hval : c.val.toNat = c.toNat := rfl
  generalize c.toNat = v at hvalid hval
  rw [String.utf8EncodeChar] at hlt ⊢
  simp only [hval] at hlt ⊢
  by_cases h1 : v ≤ 0x7f
  · rw [if_pos h1] at hlt
    exact absurd hlt (by simp; omega)
  rw [if_neg h1] at hlt ⊢
  by_cases h2 : v ≤ 0x7ff
  · rw [if_pos h2] at hlt ⊢
    obtain rfl : k = 1 := by
      simp only [List.length_cons, List.length_nil] at hlt
      omega
    rw [List.take_succ_cons, List.take_zero, decodePoints_start (by omega), startSequence,
      if_neg (by omega), if_neg (by omega), if_pos (by omega)]
    rfl
  rw [if_neg h2] at hlt ⊢
  by_cases h3 : v ≤ 0xffff
  · rw [if_pos h3] at hlt ⊢
    have hk : k = 1 ∨ k = 2 := by
      simp only [List.length_cons, List.length_nil] at hlt
      omega
    rcases hk with rfl | rfl
    · rw [List.take_succ_cons, List.take_zero, decodePoints_start (by omega), startSequence,
        if_neg (by omega), if_neg (by omega), if_neg (by omega), if_pos (by omega)]
      rfl
    · rw [List.take_succ_cons, List.take_succ_cons, List.take_zero, decodePoints_start (by omega),
        startSequence, if_neg (by omega), if_neg (by omega), if_neg (by omega), if_pos (by omega)]
      dsimp only
      rw [decodePoints_next (by omega) (by dsimp only; split_ifs <;> omega)
        (by dsimp only; split_ifs <;> omega) (by dsimp only; omega)]
      rfl
  · rw [if_neg h3] at hlt ⊢
    have hk : k = 1 ∨ k = 2 ∨ k = 3 := by
      simp only [List.length_cons, List.length_nil] at hlt
      omega
    rcases hk with rfl | rfl | rfl
    · rw [List.take_succ_cons, List.take_zero, decodePoints_start (by omega), startSequence,
        if_neg (by omega), if_neg (by omega), if_neg (by omega), if_neg (by omega),
        if_pos (by omega)]
      rfl
    · rw [List.take_succ_cons, List.take_succ_cons, List.take_zero, decodePoints_start (by omega),
        startSequence, if_neg (by omega), if_neg (by omega), if_neg (by omega),
        if_neg (by omega), if_pos (by omega)]
      dsimp only
      rw [decodePoints_next (by omega) (by dsimp only; split_ifs <;> omega)
        (by dsimp only; split_ifs <;> omega) (by dsimp only; omega)]
      rfl
    · rw [List.take_succ_cons, List.take_succ_cons, List.take_succ_cons, List.take_zero,
        decodePoints_start (by omega), startSequence, if_neg (by omega), if_neg (by omega),
        if_neg (by omega), if_neg (by omega), if_pos (by omega)]
      dsimp only
      rw [decodePoints_next (by omega) (by dsimp only; split_ifs <;> omega)
        (by dsimp only; split_ifs <;> omega) (by dsimp only; omega),
        decodePoints_next (by omega) (by dsimp only; omega) (by dsimp only; omega)
        (by dsimp only; omega)]
      rfl

/-- The encoding of a well formed text is decoded to the text. -/
theorem decodeText_encodeText {text : Utf16} (h : wellFormed text) :
    decodeText (encodeText text) = text := by
  rw [decodeText, encodeText, decodePoints_flatMap, List.flatMap_map]
  exact flatMap_scalar h

/-- The encoding of a well formed text stands as it is when it is decoded and encoded again. -/
theorem reencode_encodeText {text : Utf16} (h : wellFormed text) :
    reencode (encodeText text) = encodeText text := by
  rw [reencode, decodeText_encodeText h]

end JsonText
