import FactoryFloor.TypeScriptText

/-!
# Literals are read back

`ReadsAs` says that a text is read as a value, whatever may follow it. There is one rule for each
kind of literal : `readsAs_word`, `readsAs_number` and `readsAs_string` for the scalars,
`readsAs_array` and `readsAs_object` for what is composed of texts that are read. A key that is
read as itself is an identifier (`readsKey_identifier`) or the text of a number
(`readsKey_number`).
-/

namespace TypeScript

open FactoryFloor JsonText

variable {U : Unicode}

/-! ## What follows a literal -/

/-- A text that a literal ends before : it is empty, or begins with a line end, a space, a closing
parenthesis or a comma. -/
def Delimited (text : Utf16) : Prop :=
  ∀ c ∈ text.head?, c ∈ ([10, 32, 41, 44] : List CodeUnit)

theorem Delimited.apart {rest : Utf16} (h : Delimited rest) : Apart rest := by
  intro c hc
  have hmem := h c hc
  simp only [List.mem_cons, List.not_mem_nil, or_false] at hmem
  rcases hmem with rfl | rfl | rfl | rfl <;> decide

theorem Delimited.noNumber {rest : Utf16} (h : Delimited rest) : NoNumber rest := by
  intro c hc
  have hmem := h c hc
  simp only [List.mem_cons, List.not_mem_nil, or_false] at hmem
  rcases hmem with rfl | rfl | rfl | rfl <;> decide

theorem delimited_cons {c : CodeUnit} {rest : Utf16} (h : c ∈ ([10, 32, 41, 44] : List CodeUnit)) :
    Delimited (c :: rest) := by
  intro d hd
  obtain rfl := Option.some.inj hd
  exact h

/-! ## Strings -/

section Strings

variable {quotation : CodeUnit}

/-- The closing quotation mark. -/
theorem readString_close (text : Utf16) :
    readString quotation (quotation :: text) = some ([], text) := by
  rw [readString.eq_def]
  exact if_pos rfl

/-- A code unit that is not escaped. -/
theorem readString_cons {c : CodeUnit} (text : Utf16) (hquote : c ≠ quotation)
    (hbackslash : c ≠ 92) (hline : ¬(c = 10 ∨ c = 13)) : readString quotation (c :: text) =
      (readString quotation text).map fun r => (c :: r.1, r.2) := by
  conv_lhs => rw [readString.eq_def]
  simp only [hquote, hbackslash, hline, if_false]

theorem readString_escaped {e u : CodeUnit} (text : Utf16) (hquote : 92 ≠ quotation)
    (he : e ≠ 117) (hu : escaped e = some u) : readString quotation (92 :: e :: text) =
      (readString quotation text).map fun r => (u :: r.1, r.2) := by
  conv_lhs => rw [readString.eq_def]
  simp only [hquote, he, hu, if_true, if_false, Option.bind_some]

theorem readString_unicode {h₁ h₂ h₃ h₄ u : CodeUnit} (text : Utf16) (hquote : 92 ≠ quotation)
    (hu : hexUnit h₁ h₂ h₃ h₄ = some u) :
    readString quotation (92 :: 117 :: h₁ :: h₂ :: h₃ :: h₄ :: text) =
      (readString quotation text).map fun r => (u :: r.1, r.2) := by
  conv_lhs => rw [readString.eq_def]
  simp only [hquote, hu, if_true, if_false, Option.bind_some]

end Strings

/-! ## Literals by themselves -/

/-- A text is read as a value, before anything that can follow it. -/
def ReadsAs (U : Unicode) (text : Utf16) (v : JsValue) : Prop :=
  ∀ fuel rest, text.length ≤ fuel → Delimited rest →
    ∃ w, readLiteral U fuel (text ++ rest) = some (w, rest) ∧ Same w v

/-- A text that begins with another code point has no name. -/
theorem readName_cons {c : CodeUnit} {text : Utf16} (hascii : c.val < 128)
    (hstart : isAsciiStart c.val = false) : readName U (c :: text) = none := by
  have hleading : isLeading c = false := by
    refine Bool.eq_false_iff.2 fun hc => ?_
    rw [isLeading_iff] at hc
    omega
  rw [readName, head_points hleading, Option.any_some, isNameStart, if_pos hascii, hstart,
    if_neg Bool.false_ne_true]

/-- No name begins with white space. -/
theorem readName_blank {c : CodeUnit} {text : Utf16} (hspace : isWhiteSpace c = true) :
    readName U (c :: text) = none := by
  have hleading : isLeading c = false := by
    refine Bool.eq_false_iff.2 fun hc => ?_
    rw [isLeading_iff] at hc
    obtain ⟨c, hlt⟩ := c
    simp only [isWhiteSpace, List.mem_cons, List.not_mem_nil, or_false, Bool.or_eq_true,
      Bool.and_eq_true, decide_eq_true_eq] at hspace
    dsimp only at hc
    omega
  have hhead : (points (c :: text)).head? = some c.val := head_points hleading
  have hstart : isNameStart U c.val = false := by
    rw [isNameStart, U.blank c hspace, ite_eq_right_iff]
    intro hascii
    obtain ⟨c, hlt⟩ := c
    simp only [isWhiteSpace, List.mem_cons, List.not_mem_nil, or_false, Bool.or_eq_true,
      Bool.and_eq_true, decide_eq_true_eq] at hspace
    simp only [isAsciiStart, Bool.or_eq_false_iff, Bool.and_eq_false_iff, decide_eq_false_iff_not]
    dsimp only at hascii
    omega
  rw [readName, hhead, Option.any_some, hstart, if_neg Bool.false_ne_true]

/-- No literal begins with a closing bracket. -/
theorem readLiteral_close {fuel : ℕ} {text : Utf16} {r : JsValue × Utf16}
    (h : readLiteral U fuel text = some r) : eat [93] (skipBlank text) = none := by
  cases hskip : skipBlank text with
  | nil => rfl
  | cons c rest =>
    refine eat_cons_of_ne ?_
    rintro rfl
    cases fuel with
    | zero => cases h
    | succ fuel =>
      have hword : wordLiteral U (93 :: rest) = none := by
        rw [wordLiteral, readName_cons (by decide) (by decide), Option.bind_none]
      rw [readLiteral, hskip] at h
      simp only [hword] at h
      cases h

theorem readsAs_blank {blank text : Utf16} {v : JsValue} (hblank : blank.all isWhiteSpace = true)
    (h : ReadsAs U text v) : ReadsAs U (blank ++ text) v := by
  intro fuel rest hfuel hrest
  rw [List.length_append] at hfuel
  obtain ⟨w, hw, hsame⟩ := h fuel rest (by omega) hrest
  refine ⟨w, ?_, hsame⟩
  cases fuel with
  | zero => cases hw
  | succ fuel =>
    rw [readLiteral] at hw ⊢
    rw [List.append_assoc, skipBlank_append hblank]
    exact hw

theorem readsAs_string {body s : Utf16}
    (h : ∀ rest, readString 39 (body ++ rest) = some (s, rest)) :
    ReadsAs U (39 :: body) (.str s) := by
  intro fuel rest hfuel _
  cases fuel with
  | zero => simp at hfuel
  | succ fuel =>
    refine ⟨.str s, ?_, .str s⟩
    rw [readLiteral, List.cons_append, skipBlank_cons (by decide)]
    simp only [or_true, if_true, h rest, Option.map_some]

/-- A text of more than no code units is read by a call. -/
theorem readsAs_of_succ {text : Utf16} {v : JsValue} (hne : text ≠ [])
    (h : ∀ fuel rest, text.length ≤ fuel + 1 → Delimited rest →
      ∃ w, readLiteral U (fuel + 1) (text ++ rest) = some (w, rest) ∧ Same w v) :
    ReadsAs U text v := by
  intro fuel rest hfuel hrest
  have hpos := List.length_pos_of_ne_nil hne
  obtain ⟨fuel, rfl⟩ : ∃ n, fuel = n + 1 := ⟨fuel - 1, by omega⟩
  exact h fuel rest hfuel hrest

theorem readsAs_word {word : Utf16} {v : JsValue} (htoken : (Lexeme.word word).isToken = true)
    (h : wordValue word = some v) : ReadsAs U word v := by
  cases word with
  | nil => cases htoken
  | cons c letters =>
    refine readsAs_of_succ (List.cons_ne_nil _ _) fun fuel rest _ hrest => ⟨v, ?_, .refl v⟩
    have hname := readName_append (isName_word (U := U) htoken) hrest.apart
    have hc : isAsciiStart c.val = true := by
      rw [Lexeme.isToken, Bool.and_eq_true] at htoken
      exact htoken.1
    have hpart : isAsciiPart c.val = true := by rw [isAsciiPart, hc, Bool.true_or]
    have hne : ∀ d : CodeUnit, isAsciiStart d.val = false → c ≠ d := by
      rintro d hd rfl
      rw [hc] at hd
      cases hd
    have hdigit : (isDigit c || c = 45) = false := by
      obtain ⟨c, hlt⟩ := c
      simp only [isAsciiStart, Bool.or_eq_true, Bool.and_eq_true, decide_eq_true_eq] at hc
      simp only [isDigit, Bool.or_eq_false_iff, Bool.and_eq_false_iff, decide_eq_false_iff_not,
        Fin.ext_iff]
      omega
    rw [List.cons_append, readLiteral, skipBlank_cons (not_space_of_part hpart)]
    simp only [hne 34 (by decide), hne 39 (by decide), hne 91 (by decide), hne 123 (by decide),
      or_self, if_false, hdigit, Bool.false_eq_true]
    rw [wordLiteral, ← List.cons_append, hname, Option.bind_some, h, Option.map_some]

theorem readsAs_number {token : Utf16} (h : isNumber token = true)
    (hstart : token.head?.any (fun c => isDigit c || c = 45) = true) :
    ReadsAs U token (.num (numberOf token)) := by
  cases token with
  | nil => cases hstart
  | cons c digits =>
    refine readsAs_of_succ (List.cons_ne_nil _ _) fun fuel rest _ hrest =>
      ⟨.num (numberOf (c :: digits)), ?_, .refl _⟩
    rw [List.head?_cons, Option.any_some] at hstart
    have hnumber := parseNumber_append h hrest.noNumber
    have hne : ∀ d : CodeUnit, (isDigit d || d = 45) = false → c ≠ d := by
      rintro d hd rfl
      rw [hstart] at hd
      cases hd
    rw [List.cons_append, readLiteral, skipBlank_cons (not_space_of_number hstart)]
    simp only [hne 34 (by decide), hne 39 (by decide), hne 91 (by decide), hne 123 (by decide),
      or_self, if_false, hstart, if_true]
    rw [← List.cons_append, hnumber, Option.map_some, ofTree]

/-! ## Arrays and objects -/

section Composed

/-- The texts of some items, each with a comma after it. -/
def spellItems (items : List (Utf16 × JsValue)) : Utf16 :=
  items.flatMap fun item => item.1 ++ [44]

theorem eat_before_comma {c : CodeUnit} (hc : c ≠ 44) (text : Utf16) :
    eat [c] (skipBlank (44 :: text)) = none := by
  rw [skipBlank_cons (by decide)]
  exact eat_cons_of_ne hc

theorem eat_comma (text : Utf16) : eat [44] (skipBlank (44 :: text)) = some text := by
  rw [skipBlank_cons (by decide)]
  exact eat_append [44] text

theorem readItems_spell {items : List (Utf16 × JsValue)}
    (hitems : ∀ item ∈ items, ReadsAs U item.1 item.2) {blank : Utf16}
    (hblank : blank.all isWhiteSpace = true) (fuel : ℕ) (rest : Utf16)
    (hfuel : (spellItems items).length < fuel) :
    ∃ ws, readItems U fuel (spellItems items ++ (blank ++ 93 :: rest)) = some (ws, rest) ∧
      List.Forall₂ Same ws (items.map Prod.snd) := by
  induction items generalizing fuel with
  | nil =>
    obtain ⟨fuel, rfl⟩ : ∃ n, fuel = n + 1 := ⟨fuel - 1, by omega⟩
    refine ⟨[], ?_, .nil⟩
    have hclose : eat [93] (skipBlank (blank ++ 93 :: rest)) = some rest := by
      rw [skipBlank_append hblank, skipBlank_cons (by decide)]
      exact eat_append [93] rest
    rw [spellItems, List.flatMap_nil, List.nil_append, readItems, hclose]
  | cons item items ih =>
    obtain ⟨fuel, rfl⟩ : ∃ n, fuel = n + 1 := ⟨fuel - 1, by omega⟩
    have hcons : spellItems (item :: items) = item.1 ++ [44] ++ spellItems items :=
      List.flatMap_cons
    simp only [hcons, List.length_append, List.length_singleton] at hfuel
    obtain ⟨w, hw, hsame⟩ := hitems item List.mem_cons_self fuel
      (44 :: (spellItems items ++ (blank ++ 93 :: rest))) (by omega) (delimited_cons (by decide))
    obtain ⟨ws, hws, hall⟩ := ih (fun i hi => hitems i (List.mem_cons_of_mem _ hi)) fuel (by omega)
    refine ⟨w :: ws, ?_, .cons hsame hall⟩
    have htext : spellItems (item :: items) ++ (blank ++ 93 :: rest) =
        item.1 ++ 44 :: (spellItems items ++ (blank ++ 93 :: rest)) := by
      simp [hcons]
    rw [htext, readItems, readLiteral_close hw]
    dsimp only
    rw [hw, Option.bind_some, eat_before_comma (by decide)]
    dsimp only
    rw [eat_comma, Option.bind_some, hws, Option.map_some]

/-- An array of items that are read. -/
theorem readsAs_array {items : List (Utf16 × JsValue)}
    (hitems : ∀ item ∈ items, ReadsAs U item.1 item.2) {blank : Utf16}
    (hblank : blank.all isWhiteSpace = true) :
    ReadsAs U (91 :: (spellItems items ++ (blank ++ [93]))) (.arr (items.map Prod.snd)) := by
  refine readsAs_of_succ (List.cons_ne_nil _ _) fun fuel rest hfuel _ => ?_
  obtain ⟨ws, hws, hall⟩ := readItems_spell hitems hblank fuel rest (by
    simp only [List.length_cons, List.length_append] at hfuel
    omega)
  refine ⟨.arr ws, ?_, .arr hall⟩
  have htext : 91 :: (spellItems items ++ (blank ++ [93])) ++ rest =
      91 :: (spellItems items ++ (blank ++ 93 :: rest)) := by simp
  have h₁ : ¬((91 : CodeUnit) = 34 ∨ (91 : CodeUnit) = 39) := by decide
  rw [htext, readLiteral, skipBlank_cons (by decide)]
  simp only [h₁, if_false, if_true, hws, Option.map_some]

/-- A member with the texts of its parts. -/
structure MemberText where
  blank : Utf16
  key : Utf16
  text : Utf16
  value : JsValue

/-- The texts of some members, each with a comma after it. -/
def spellMembers (members : List MemberText) : Utf16 :=
  members.flatMap fun m => m.blank ++ m.key ++ 58 :: m.text ++ [44]

/-- A key that is read as itself. -/
def ReadsKey (U : Unicode) (key : Utf16) : Prop :=
  ∀ rest, readKey U (key ++ 58 :: rest) = some (key, 58 :: rest)

/-- A key begins with what is neither white space nor a closing brace. -/
theorem readKey_start {text : Utf16} {r : Utf16 × Utf16} (h : readKey U text = some r) :
    ∃ c rest, text = c :: rest ∧ isWhiteSpace c = false ∧ c ≠ 125 := by
  cases text with
  | nil => cases h
  | cons c rest =>
    refine ⟨c, rest, rfl, Bool.eq_false_iff.2 fun hspace => ?_, ?_⟩
    · have hdigit : isDigit c = false ∧ ¬(c = 34 ∨ c = 39) := by
        obtain ⟨c, hlt⟩ := c
        simp only [isWhiteSpace, List.mem_cons, List.not_mem_nil, or_false, Bool.or_eq_true,
          Bool.and_eq_true, decide_eq_true_eq] at hspace
        simp only [isDigit, Bool.and_eq_false_iff, decide_eq_false_iff_not, Fin.ext_iff]
        omega
      rw [readKey, if_neg hdigit.2, hdigit.1, if_neg Bool.false_ne_true, readName_blank hspace] at h
      cases h
    · rintro rfl
      have hname : readName U (125 :: rest) = none := readName_cons (by decide) (by decide)
      have hquote : ¬((125 : CodeUnit) = 34 ∨ (125 : CodeUnit) = 39) := by decide
      have hdigit : ¬isDigit 125 = true := by decide
      rw [readKey, if_neg hquote, if_neg hdigit, hname] at h
      cases h

theorem readsKey_identifier {key : Utf16} (h : (Lexeme.word key).isToken = true) :
    ReadsKey U key := by
  intro rest
  cases key with
  | nil => cases h
  | cons c letters =>
    have hname := readName_append (U := U) (isName_word h)
      (apart_cons (c := 58) (by decide) (by decide) rest)
    have hc : isAsciiStart c.val = true := by
      rw [Lexeme.isToken, Bool.and_eq_true] at h
      exact h.1
    obtain ⟨c, hlt⟩ := c
    have hother : ¬((⟨c, hlt⟩ : CodeUnit) = 34 ∨ (⟨c, hlt⟩ : CodeUnit) = 39) ∧
        isDigit ⟨c, hlt⟩ = false := by
      simp only [isAsciiStart, Bool.or_eq_true, Bool.and_eq_true, decide_eq_true_eq] at hc
      simp only [isDigit, Bool.and_eq_false_iff, decide_eq_false_iff_not, Fin.ext_iff]
      omega
    rw [List.cons_append, readKey, if_neg hother.1, hother.2, if_neg Bool.false_ne_true,
      ← List.cons_append, hname]

theorem readsKey_number {key : Utf16} (h : isNumber key = true)
    (hstart : key.head?.any isDigit = true) (htext : numberText (numberOf key) = key) :
    ReadsKey U key := by
  intro rest
  cases key with
  | nil => cases hstart
  | cons c digits =>
    rw [List.head?_cons, Option.any_some] at hstart
    have hnumber := @parseNumber_append _ (58 :: rest) h (noNumber_cons (by decide))
    obtain ⟨c, hlt⟩ := c
    have hother : ¬((⟨c, hlt⟩ : CodeUnit) = 34 ∨ (⟨c, hlt⟩ : CodeUnit) = 39) := by
      simp only [isDigit, Bool.and_eq_true, decide_eq_true_eq] at hstart
      simp only [Fin.ext_iff]
      omega
    rw [List.cons_append, readKey, if_neg hother, if_pos hstart, ← List.cons_append, hnumber,
      Option.bind_some]
    dsimp only
    rw [htext]

/-- Members whose keys are read as themselves and whose values are read. -/
structure MemberText.Reads (U : Unicode) (m : MemberText) : Prop where
  blank : m.blank.all isWhiteSpace = true
  key : ReadsKey U m.key
  proto : m.key ≠ protoKey
  value : ReadsAs U m.text m.value

theorem readMembers_spell {members : List MemberText} (hmembers : ∀ m ∈ members, m.Reads U)
    {blank : Utf16} (hblank : blank.all isWhiteSpace = true) (fuel : ℕ) (rest : Utf16)
    (hfuel : (spellMembers members).length < fuel) :
    ∃ ws, readMembers U fuel (spellMembers members ++ (blank ++ 125 :: rest)) = some (ws, rest) ∧
      List.Forall₂ SameMember ws (members.map fun m => (m.key, m.value)) := by
  induction members generalizing fuel with
  | nil =>
    obtain ⟨fuel, rfl⟩ : ∃ n, fuel = n + 1 := ⟨fuel - 1, by omega⟩
    refine ⟨[], ?_, .nil⟩
    have hclose : eat [125] (skipBlank (blank ++ 125 :: rest)) = some rest := by
      rw [skipBlank_append hblank, skipBlank_cons (by decide)]
      exact eat_append [125] rest
    rw [spellMembers, List.flatMap_nil, List.nil_append, readMembers, hclose]
  | cons m members ih =>
    obtain ⟨fuel, rfl⟩ : ∃ n, fuel = n + 1 := ⟨fuel - 1, by omega⟩
    have hm := hmembers m List.mem_cons_self
    have hcons : spellMembers (m :: members) =
        m.blank ++ m.key ++ 58 :: m.text ++ [44] ++ spellMembers members := List.flatMap_cons
    simp only [hcons, List.length_append, List.length_cons, List.length_nil] at hfuel
    obtain ⟨w, hw, hsame⟩ := hm.value fuel
      (44 :: (spellMembers members ++ (blank ++ 125 :: rest))) (by omega)
      (delimited_cons (by decide))
    obtain ⟨ws, hws, hall⟩ :=
      ih (fun n hn => hmembers n (List.mem_cons_of_mem _ hn)) fuel (by omega)
    refine ⟨(m.key, w) :: ws, ?_, .cons ⟨rfl, hsame⟩ hall⟩
    have htext : spellMembers (m :: members) ++ (blank ++ 125 :: rest) = m.blank ++ (m.key ++ 58 ::
        (m.text ++ 44 :: (spellMembers members ++ (blank ++ 125 :: rest)))) := by
      simp [hcons]
    have hkey := hm.key (m.text ++ 44 :: (spellMembers members ++ (blank ++ 125 :: rest)))
    obtain ⟨c, text, hstart, hspace, hclose⟩ := readKey_start hkey
    have hskip : skipBlank (m.blank ++ (m.key ++ 58 ::
        (m.text ++ 44 :: (spellMembers members ++ (blank ++ 125 :: rest))))) = m.key ++ 58 ::
        (m.text ++ 44 :: (spellMembers members ++ (blank ++ 125 :: rest))) := by
      rw [skipBlank_append hm.blank, hstart, skipBlank_cons hspace]
    have hopen : eat [125] (m.key ++ 58 ::
        (m.text ++ 44 :: (spellMembers members ++ (blank ++ 125 :: rest)))) = none := by
      rw [hstart]
      exact eat_cons_of_ne hclose.symm
    have hcolon : ∀ text : Utf16, eat [58] (skipBlank (58 :: text)) = some text := by
      intro text
      rw [skipBlank_cons (by decide)]
      exact eat_append [58] text
    rw [htext, readMembers, hskip, hopen]
    dsimp only
    rw [hkey, Option.bind_some, hcolon, Option.bind_some, hw, Option.bind_some,
      eat_before_comma (by decide)]
    dsimp only
    rw [eat_comma, Option.bind_some, hws, Option.map_some, if_neg hm.proto]
    rfl

/-- An object of members that are read, with distinct keys. -/
theorem readsAs_object {members : List MemberText} (hmembers : ∀ m ∈ members, m.Reads U)
    (hkeys : (members.map (·.key)).Nodup) {blank : Utf16} (hblank : blank.all isWhiteSpace = true) :
    ReadsAs U (123 :: (spellMembers members ++ (blank ++ [125])))
      (.obj (members.map fun m => (m.key, m.value))) := by
  refine readsAs_of_succ (List.cons_ne_nil _ _) fun fuel rest hfuel _ => ?_
  obtain ⟨ws, hws, hall⟩ := readMembers_spell hmembers hblank fuel rest (by
    simp only [List.length_cons, List.length_append] at hfuel
    omega)
  have hnodup : (ws.map Prod.fst).Nodup := by
    rw [(forall₂_sameMember.1 hall).1, List.map_map]
    exact hkeys
  refine ⟨.obj (defineMembers ws), ?_, ?_⟩
  · have htext : 123 :: (spellMembers members ++ (blank ++ [125])) ++ rest =
        123 :: (spellMembers members ++ (blank ++ 125 :: rest)) := by simp
    have h₁ : ¬((123 : CodeUnit) = 34 ∨ (123 : CodeUnit) = 39) := by decide
    have h₂ : (123 : CodeUnit) ≠ 91 := by decide
    rw [htext, readLiteral, skipBlank_cons (by decide)]
    simp only [h₁, h₂, if_false, if_true, hws, Option.map_some]
  · obtain ⟨zs, hzs, hperm⟩ := List.perm_comp_forall₂ (defineMembers_perm hnodup) hall
    exact same_obj.2 ⟨zs, hperm.symm, hzs⟩

end Composed

end TypeScript
