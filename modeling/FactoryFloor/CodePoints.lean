import FactoryFloor.JsValues

/-!
# Code points

The code points of a UTF-16 text : a surrogate pair is one, and a lone surrogate stands for itself. A
text is well formed when it has no lone surrogate. `encodeText` is its UTF-8 encoding, as
`TextEncoder` and Node's `Buffer` do it, with U+FFFD for a lone surrogate.

The encoding tells well formed texts apart (`encodeText_injective`), and what `JSON.stringify` writes is
well formed (`wellFormed_render`).
-/

namespace JsonText

/-! ## Code points -/

/-- The code points of a text. -/
def points : Utf16 → List ℕ
  | [] => []
  | [c] => [c.val]
  | c :: d :: text =>
    if isLeading c && isTrailing d then
      (0x10000 + (c.val - 0xd800) * 0x400 + (d.val - 0xdc00)) :: points text
    else c.val :: points (d :: text)

/-- A code unit of a surrogate pair. -/
def isSurrogate (c : CodeUnit) : Bool :=
  isLeading c || isTrailing c

/-- A text without lone surrogates. -/
def wellFormed : Utf16 → Bool
  | [] => true
  | [c] => !isSurrogate c
  | c :: d :: text =>
    if isLeading c && isTrailing d then wellFormed text
    else !isSurrogate c && wellFormed (d :: text)

/-- The code units of a code point. -/
def unitsOf (p : ℕ) : Utf16 :=
  if p < 0x10000 then [Fin.ofNat 65536 p]
  else [Fin.ofNat 65536 (0xd800 + (p - 0x10000) / 0x400),
    Fin.ofNat 65536 (0xdc00 + (p - 0x10000) % 0x400)]

/-- The character of a code point, or U+FFFD. -/
def scalar (p : ℕ) : Char :=
  if p.isValidChar then Char.ofNat p else Char.ofNat 0xfffd

/-- The UTF-8 encoding of a text. -/
def encodeText (text : Utf16) : List UInt8 :=
  ((points text).map scalar).flatMap String.utf8EncodeChar

theorem ofNat_val (c : CodeUnit) : Fin.ofNat 65536 c.val = c :=
  Fin.ext (Nat.mod_eq_of_lt c.isLt)

theorem isLeading_iff {c : CodeUnit} : isLeading c ↔ 0xd800 ≤ c.val ∧ c.val < 0xdc00 := by
  simp [isLeading]

theorem isTrailing_iff {c : CodeUnit} : isTrailing c ↔ 0xdc00 ≤ c.val ∧ c.val < 0xe000 := by
  simp [isTrailing]

theorem isSurrogate_iff {c : CodeUnit} : isSurrogate c ↔ 0xd800 ≤ c.val ∧ c.val < 0xe000 := by
  rw [isSurrogate, Bool.or_eq_true, isLeading_iff, isTrailing_iff]
  omega

/-- The code units of a pair are read back from its code point. -/
theorem unitsOf_pair {c d : CodeUnit} (hc : isLeading c) (hd : isTrailing d) :
    unitsOf (0x10000 + (c.val - 0xd800) * 0x400 + (d.val - 0xdc00)) = [c, d] := by
  rw [isLeading_iff] at hc
  rw [isTrailing_iff] at hd
  have hleading : 0xd800 + (0x10000 + (c.val - 0xd800) * 0x400 + (d.val - 0xdc00) - 0x10000) /
      0x400 = c.val := by omega
  have htrailing : 0xdc00 + (0x10000 + (c.val - 0xd800) * 0x400 + (d.val - 0xdc00) - 0x10000) %
      0x400 = d.val := by omega
  rw [unitsOf, if_neg (by omega), hleading, htrailing, ofNat_val, ofNat_val]

theorem unitsOf_unit (c : CodeUnit) : unitsOf c.val = [c] := by
  rw [unitsOf, if_pos c.isLt, ofNat_val]

/-- A text is read back from its code points. -/
theorem flatMap_points (text : Utf16) : (points text).flatMap unitsOf = text := by
  induction text using points.induct with
  | case1 => rfl
  | case2 c => rw [points, List.flatMap_cons, unitsOf_unit, List.flatMap_nil, List.append_nil]
  | case3 c d text hpair ih =>
    obtain ⟨hc, hd⟩ := Bool.and_eq_true_iff.1 hpair
    rw [points, if_pos hpair, List.flatMap_cons, unitsOf_pair hc hd, ih]
    rfl
  | case4 c d text hpair ih =>
    rw [points, if_neg hpair, List.flatMap_cons, unitsOf_unit, ih]
    rfl

/-- The code points of a text are those of its parts, where no pair is cut. -/
theorem points_append {s text : Utf16} (h : ∀ c ∈ text.head?, isTrailing c = false) :
    points (s ++ text) = points s ++ points text := by
  induction s using points.induct with
  | case1 => rfl
  | case2 c =>
    cases text with
    | nil => rfl
    | cons d text =>
      have hd : isTrailing d = false := h d rfl
      simp [points, hd]
  | case3 c d s hpair ih =>
    rw [List.cons_append, List.cons_append, points, if_pos hpair, ih, points, if_pos hpair]
    rfl
  | case4 c d s hpair ih =>
    rw [List.cons_append, List.cons_append, points, if_neg hpair, ← List.cons_append, ih, points,
      if_neg hpair]
    rfl

theorem points_injective {s t : Utf16} (h : points s = points t) : s = t := by
  rw [← flatMap_points s, ← flatMap_points t, h]

/-! ## Encoding -/

/-- The code points of a well formed text are those of characters. -/
theorem isValidChar_of_mem_points {text : Utf16} (h : wellFormed text) :
    ∀ p ∈ points text, p.isValidChar := by
  have hunit : ∀ c : CodeUnit, !isSurrogate c → c.val.isValidChar := by
    intro c hc
    have hlt := c.isLt
    have hnot : ¬isSurrogate c := by simpa using hc
    rw [isSurrogate_iff] at hnot
    rw [Nat.isValidChar]
    omega
  induction text using points.induct with
  | case1 => simp [points]
  | case2 c =>
    rw [points]
    rw [wellFormed] at h
    simpa using hunit c h
  | case3 c d text hpair ih =>
    obtain ⟨hc, hd⟩ := Bool.and_eq_true_iff.1 hpair
    rw [isLeading_iff] at hc
    rw [isTrailing_iff] at hd
    rw [wellFormed, if_pos hpair] at h
    rw [points, if_pos hpair]
    refine List.forall_mem_cons.2 ⟨?_, ih h⟩
    rw [Nat.isValidChar]
    omega
  | case4 c d text hpair ih =>
    rw [wellFormed, if_neg hpair, Bool.and_eq_true] at h
    rw [points, if_neg hpair]
    exact List.forall_mem_cons.2 ⟨hunit c h.1, ih h.2⟩

theorem toNat_scalar {p : ℕ} (h : p.isValidChar) : (scalar p).toNat = p := by
  rw [scalar, if_pos h, Char.ofNat, dif_pos h]
  rfl

/-- A well formed text is read back from its characters. -/
theorem flatMap_scalar {text : Utf16} (h : wellFormed text) :
    ((points text).map scalar).flatMap (fun c => unitsOf c.toNat) = text := by
  rw [List.flatMap_map]
  conv_rhs => rw [← flatMap_points text]
  refine List.flatMap_congr fun p hp => ?_
  rw [toNat_scalar (isValidChar_of_mem_points h p hp)]

/-- UTF-8 tells well formed texts apart. -/
theorem encodeText_injective {s t : Utf16} (hs : wellFormed s) (ht : wellFormed t)
    (h : encodeText s = encodeText t) : s = t := by
  have hbytes : ((points s).map scalar).utf8Encode = ((points t).map scalar).utf8Encode :=
    congrArg List.toByteArray h
  have hdecode := congrArg ByteArray.utf8Decode? hbytes
  rw [List.utf8Decode?_utf8Encode, List.utf8Decode?_utf8Encode, Option.some.injEq] at hdecode
  have hchars : (points s).map scalar = (points t).map scalar := by simpa using hdecode
  rw [← flatMap_scalar hs, ← flatMap_scalar ht, hchars]

/-! ## Well formed texts -/

theorem wellFormed_cons {c : CodeUnit} (hc : ¬isSurrogate c) (text : Utf16) :
    wellFormed (c :: text) = wellFormed text := by
  cases text with
  | nil => simp [wellFormed, hc]
  | cons d text =>
    have hpair : ¬(isLeading c && isTrailing d) := by
      rw [isSurrogate, Bool.or_eq_true, not_or] at hc
      simp [hc.1]
    simp [wellFormed, hpair, hc]

/-- A text is well formed when its parts around a code unit of no pair are. -/
theorem wellFormed_append_cons {c : CodeUnit} (hc : ¬isSurrogate c) (s text : Utf16) :
    wellFormed (s ++ c :: text) = (wellFormed s && wellFormed (c :: text)) := by
  have htrailing : isTrailing c = false := by
    rw [isSurrogate, Bool.or_eq_true, not_or] at hc
    simpa using hc.2
  induction s using wellFormed.induct with
  | case1 => rfl
  | case2 a => simp [wellFormed, htrailing]
  | case3 a b s hpair ih =>
    rw [List.cons_append, List.cons_append, wellFormed, if_pos hpair, ih, wellFormed, if_pos hpair]
  | case4 a b s hpair ih =>
    rw [List.cons_append, List.cons_append, wellFormed, if_neg hpair, ← List.cons_append, ih,
      wellFormed, if_neg hpair, Bool.and_assoc]

theorem wellFormed_append {s : Utf16} (hs : ∀ c ∈ s, ¬isSurrogate c) (text : Utf16) :
    wellFormed (s ++ text) = wellFormed text := by
  induction s with
  | nil => rfl
  | cons c s ih =>
    obtain ⟨hc, hs⟩ := List.forall_mem_cons.1 hs
    rw [List.cons_append, wellFormed_cons hc, ih hs]

/-! ## Texts of trees -/

section Render

variable (q : Utf16 → Utf16)

mutual

/-- The text of a tree, with a way of writing strings. -/
def renderWith : Tree → Utf16
  | .null => ascii "null"
  | .bool true => ascii "true"
  | .bool false => ascii "false"
  | .num token => token
  | .str s => q s
  | .arr [] => [91, 93]
  | .arr (item :: items) => 91 :: (renderWith item ++ renderMoreWith items)
  | .obj [] => [123, 125]
  | .obj ((key, value) :: members) =>
    123 :: (q key ++ 58 :: (renderWith value ++ renderMoreMembersWith members))

def renderMoreWith : List Tree → Utf16
  | [] => [93]
  | item :: items => 44 :: (renderWith item ++ renderMoreWith items)

def renderMoreMembersWith : List (Utf16 × Tree) → Utf16
  | [] => [125]
  | (key, value) :: members =>
    44 :: (q key ++ 58 :: (renderWith value ++ renderMoreMembersWith members))

end

variable (P : Utf16 → Bool)

mutual

/-- Whether all strings and keys of a tree are of a kind. -/
def allStrings : Tree → Bool
  | .str s => P s
  | .arr items => allStringsItems items
  | .obj members => allStringsMembers members
  | _ => true

def allStringsItems : List Tree → Bool
  | [] => true
  | item :: items => allStrings item && allStringsItems items

def allStringsMembers : List (Utf16 × Tree) → Bool
  | [] => true
  | (key, value) :: members => P key && (allStrings value && allStringsMembers members)

end

end Render

section WellFormed

variable {q : Utf16 → Utf16} {P : Utf16 → Bool}

/-- A text that a kind of value is written as, in front of another text. -/
def WritesWell (s : Utf16) (good : Bool) : Prop :=
  ∀ text, wellFormed (s ++ text) = (good && wellFormed text)

theorem WritesWell.of_units {s : Utf16} (h : s.all (!isSurrogate ·)) : WritesWell s true :=
  fun text => by
    rw [wellFormed_append (by simpa using h), Bool.true_and]

theorem WritesWell.append {s s' : Utf16} {good good' : Bool} (h : WritesWell s good)
    (h' : WritesWell s' good') : WritesWell (s ++ s') (good && good') :=
  fun text => by rw [List.append_assoc, h, h', Bool.and_assoc]

theorem WritesWell.cons {s : Utf16} {good : Bool} {c : CodeUnit} (hc : ¬isSurrogate c)
    (h : WritesWell s good) : WritesWell (c :: s) good :=
  fun text => by rw [List.cons_append, wellFormed_cons hc, h]

/-- A number is written with ASCII. -/
theorem WritesWell.number {token : Utf16} (h : isNumber token) : WritesWell token true := by
  refine .of_units (List.all_eq_true.2 fun c hc => ?_)
  simp only [isNumber, Bool.and_eq_true, List.all_eq_true] at h
  have hunit := h.1 c hc
  have hsmall : ∀ d : CodeUnit, isNumberUnit d → d.val < 0xd800 := by
    intro d hd
    simp only [isNumberUnit, isDigit, Bool.or_eq_true, Bool.and_eq_true, decide_eq_true_eq,
      Fin.ext_iff] at hd
    have hvalues : (43 : CodeUnit).val = 43 ∧ (45 : CodeUnit).val = 45 ∧ (46 : CodeUnit).val = 46 ∧
        (69 : CodeUnit).val = 69 ∧ (101 : CodeUnit).val = 101 := by decide
    omega
  rw [Bool.not_eq_true', ← Bool.not_eq_true, isSurrogate_iff]
  have := hsmall c hunit
  omega

theorem WritesWell.more {items : List Tree}
    (h : ∀ item ∈ items, WritesWell (renderWith q item) (allStrings P item)) :
    WritesWell (renderMoreWith q items) (allStringsItems P items) := by
  induction items with
  | nil => exact .of_units (by rw [renderMoreWith]; decide)
  | cons item items ih =>
    obtain ⟨hitem, hitems⟩ := List.forall_mem_cons.1 h
    rw [renderMoreWith, allStringsItems]
    exact (hitem.append (ih hitems)).cons (by decide)

theorem WritesWell.moreMembers (hq : ∀ s, WritesWell (q s) (P s)) {members : List (Utf16 × Tree)}
    (h : ∀ m ∈ members, WritesWell (renderWith q m.2) (allStrings P m.2)) :
    WritesWell (renderMoreMembersWith q members) (allStringsMembers P members) := by
  induction members with
  | nil => exact .of_units (by rw [renderMoreMembersWith]; decide)
  | cons m members ih =>
    obtain ⟨hm, hmembers⟩ := List.forall_mem_cons.1 h
    obtain ⟨key, value⟩ := m
    rw [renderMoreMembersWith, allStringsMembers]
    exact ((hq key).append ((hm.append (ih hmembers)).cons (by decide))).cons (by decide)

/-- The text of a tree is well formed when its strings are written so. -/
theorem WritesWell.tree (hq : ∀ s, WritesWell (q s) (P s)) {t : Tree} (h : t.Valid) :
    WritesWell (renderWith q t) (allStrings P t) := by
  induction t with
  | null => exact .of_units (by rw [renderWith]; decide)
  | bool b => cases b <;> exact .of_units (by rw [renderWith]; decide)
  | num token => exact .number h
  | str s => exact hq s
  | arr items ih =>
    have hall := validItems_iff.1 h
    cases items with
    | nil => exact .of_units (by rw [renderWith]; decide)
    | cons item items =>
      obtain ⟨hitem, hitems⟩ := List.forall_mem_cons.1 fun i hi => ih i hi (hall i hi)
      rw [renderWith, allStrings, allStringsItems]
      exact (hitem.append (.more hitems)).cons (by decide)
  | obj members ih =>
    have hall := validMembers_iff.1 h
    cases members with
    | nil => exact .of_units (by rw [renderWith]; decide)
    | cons m members =>
      obtain ⟨hm, hmembers⟩ := List.forall_mem_cons.1 fun i hi => ih i hi (hall i hi)
      obtain ⟨key, value⟩ := m
      rw [renderWith, allStrings, allStringsMembers]
      exact ((hq key).append ((hm.append (.moreMembers hq hmembers)).cons (by decide))).cons
        (by decide)

end WellFormed

/-! ## The text of `JSON.stringify` -/

theorem renderMoreWith_congr {q q' : Utf16 → Utf16} {items : List Tree}
    (h : ∀ item ∈ items, renderWith q item = renderWith q' item) :
    renderMoreWith q items = renderMoreWith q' items := by
  induction items with
  | nil => rfl
  | cons item items ih =>
    obtain ⟨hitem, hitems⟩ := List.forall_mem_cons.1 h
    rw [renderMoreWith, renderMoreWith, hitem, ih hitems]

theorem renderMoreMembersWith_congr {q q' : Utf16 → Utf16} {members : List (Utf16 × Tree)}
    (hkeys : ∀ m ∈ members, q m.1 = q' m.1)
    (h : ∀ m ∈ members, renderWith q m.2 = renderWith q' m.2) :
    renderMoreMembersWith q members = renderMoreMembersWith q' members := by
  induction members with
  | nil => rfl
  | cons m members ih =>
    obtain ⟨key, value⟩ := m
    obtain ⟨hkey, hkeys⟩ := List.forall_mem_cons.1 hkeys
    obtain ⟨hm, hmembers⟩ := List.forall_mem_cons.1 h
    rw [renderMoreMembersWith, renderMoreMembersWith, hkey, hm, ih hkeys hmembers]

theorem allStringsItems_iff {P : Utf16 → Bool} {items : List Tree} :
    allStringsItems P items ↔ ∀ item ∈ items, allStrings P item := by
  induction items with
  | nil => simp [allStringsItems]
  | cons item items ih => rw [allStringsItems, Bool.and_eq_true, ih, List.forall_mem_cons]

theorem allStringsMembers_iff {P : Utf16 → Bool} {members : List (Utf16 × Tree)} :
    allStringsMembers P members ↔ ∀ m ∈ members, P m.1 ∧ allStrings P m.2 := by
  induction members with
  | nil => simp [allStringsMembers]
  | cons m members ih =>
    obtain ⟨key, value⟩ := m
    rw [allStringsMembers, Bool.and_eq_true, Bool.and_eq_true, ih, List.forall_mem_cons, and_assoc]

/-- Ways of writing strings that agree on the strings of a tree. -/
theorem renderWith_congr {q q' : Utf16 → Utf16} {P : Utf16 → Bool} (hq : ∀ s, P s → q s = q' s)
    {t : Tree} (h : allStrings P t) : renderWith q t = renderWith q' t := by
  induction t with
  | null | num token => rfl
  | bool b => cases b <;> rfl
  | str s => exact hq s h
  | arr items ih =>
    have hall := allStringsItems_iff.1 h
    cases items with
    | nil => rfl
    | cons item items =>
      obtain ⟨hitem, hitems⟩ := List.forall_mem_cons.1 fun i hi => ih i hi (hall i hi)
      rw [renderWith, renderWith, hitem, renderMoreWith_congr hitems]
  | obj members ih =>
    have hall := allStringsMembers_iff.1 h
    cases members with
    | nil => rfl
    | cons m members =>
      obtain ⟨hkey, hkeys⟩ := List.forall_mem_cons.1 fun i hi => hq _ (hall i hi).1
      obtain ⟨hm, hmembers⟩ := List.forall_mem_cons.1 fun i hi => ih i hi (hall i hi).2
      obtain ⟨key, value⟩ := m
      rw [renderWith, renderWith, hkey, hm, renderMoreMembersWith_congr hkeys hmembers]

theorem renderMore_eq {items : List Tree} (h : ∀ item ∈ items, render item = renderWith quote item) :
    renderMore items = renderMoreWith quote items := by
  induction items with
  | nil => rfl
  | cons item items ih =>
    obtain ⟨hitem, hitems⟩ := List.forall_mem_cons.1 h
    rw [renderMore, renderMoreWith, hitem, ih hitems]

theorem renderMoreMembers_eq {members : List (Utf16 × Tree)}
    (h : ∀ m ∈ members, render m.2 = renderWith quote m.2) :
    renderMoreMembers members = renderMoreMembersWith quote members := by
  induction members with
  | nil => rfl
  | cons m members ih =>
    obtain ⟨hm, hmembers⟩ := List.forall_mem_cons.1 h
    obtain ⟨key, value⟩ := m
    rw [renderMoreMembers, renderMoreMembersWith, hm, ih hmembers]

theorem render_eq (t : Tree) : render t = renderWith quote t := by
  induction t with
  | null | num token | str s => rfl
  | bool b => cases b <;> rfl
  | arr items ih =>
    cases items with
    | nil => rfl
    | cons item items =>
      obtain ⟨hitem, hitems⟩ := List.forall_mem_cons.1 ih
      rw [render, renderWith, hitem, renderMore_eq hitems]
  | obj members ih =>
    cases members with
    | nil => rfl
    | cons m members =>
      obtain ⟨hm, hmembers⟩ := List.forall_mem_cons.1 ih
      obtain ⟨key, value⟩ := m
      rw [render, renderWith, hm, renderMoreMembers_eq hmembers]

/-- An escaped code unit is written with ASCII, or as it is. -/
theorem all_escapeUnit (c : CodeUnit) : (escapeUnit c).all (!isSurrogate ·) := by
  have hdigit : ∀ n < 16, !isSurrogate (hexDigit n) := by decide
  have hlt := c.isLt
  unfold escapeUnit
  split_ifs with _ _ _ _ _ _ _ h
  iterate 7
    · decide
  · simp only [unicodeEscape, List.all_cons, List.all_nil, Bool.and_true, Bool.and_eq_true]
    exact ⟨by decide, by decide, hdigit _ (by omega), hdigit _ (by omega), hdigit _ (by omega),
      hdigit _ (by omega)⟩
  · simp only [Bool.or_eq_true, not_or] at h
    simp [isSurrogate, h.1.2, h.2]

/-- `QuoteJSONString` escapes lone surrogates. -/
theorem writesWell_quote (s : Utf16) : WritesWell (quote s) true := by
  have hescape : ∀ c text, wellFormed (escapeUnit c ++ text) = wellFormed text := by
    intro c text
    exact wellFormed_append (by simpa using all_escapeUnit c) text
  have hbody : ∀ text, wellFormed (quoteBody s ++ text) = wellFormed text := by
    intro text
    induction s using quoteBody.induct with
    | case1 => exact wellFormed_cons (by decide) text
    | case2 c =>
      rw [quoteBody, List.append_assoc, hescape]
      exact wellFormed_cons (by decide) text
    | case3 c d s hpair ih =>
      rw [quoteBody, if_pos hpair, List.cons_append, List.cons_append, wellFormed, if_pos hpair, ih]
    | case4 c d s hpair ih =>
      rw [quoteBody, if_neg hpair, List.append_assoc, hescape, ih]
  intro text
  rw [quote, List.cons_append, wellFormed_cons (by decide), hbody, Bool.true_and]

theorem allStrings_true (t : Tree) : allStrings (fun _ => true) t := by
  induction t with
  | null | bool b | num token | str s => rfl
  | arr items ih => exact allStringsItems_iff.2 ih
  | obj members ih => exact allStringsMembers_iff.2 fun m hm => ⟨rfl, ih m hm⟩

/-- What `JSON.stringify` writes is well formed. -/
theorem wellFormed_render {t : Tree} (h : t.Valid) : wellFormed (render t) := by
  have hwrites := WritesWell.tree writesWell_quote h []
  rw [List.append_nil, allStrings_true, ← render_eq] at hwrites
  rw [hwrites]
  rfl

end JsonText
