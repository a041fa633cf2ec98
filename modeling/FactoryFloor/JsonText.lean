import FactoryFloor.JsonNumbers

/-!
# JSON text

A `Tree` is a JSON text without its white space : the members of an object are in the order of the
text, and a number is the text it is written as. `render` writes a tree as `JSON.stringify` does, with
`QuoteJSONString` for its strings. `parse` reads a text of the JSON grammar.

What is written is read back (`parse_render`), so two trees that are written alike are equal
(`render_injective`).
-/

namespace JsonText

/-! ## Strings -/

/-- The first code unit of a surrogate pair. -/
def isLeading (c : CodeUnit) : Bool :=
  0xd800 ≤ c.val && c.val < 0xdc00

/-- The second code unit of a surrogate pair. -/
def isTrailing (c : CodeUnit) : Bool :=
  0xdc00 ≤ c.val && c.val < 0xe000

/-- A hexadecimal digit, in lower case. -/
def hexDigit (d : ℕ) : CodeUnit :=
  Fin.ofNat 65536 (if d < 10 then 48 + d else 87 + d)

/-- `UnicodeEscape`. -/
def unicodeEscape (c : CodeUnit) : Utf16 :=
  [92, 117, hexDigit (c.val / 4096), hexDigit (c.val / 256 % 16), hexDigit (c.val / 16 % 16),
    hexDigit (c.val % 16)]

/-- A code unit that is not of a surrogate pair, in `QuoteJSONString`. -/
def escapeUnit (c : CodeUnit) : Utf16 :=
  if c = 8 then [92, 98]
  else if c = 9 then [92, 116]
  else if c = 10 then [92, 110]
  else if c = 12 then [92, 102]
  else if c = 13 then [92, 114]
  else if c = 34 then [92, 34]
  else if c = 92 then [92, 92]
  else if c.val < 32 || isLeading c || isTrailing c then unicodeEscape c
  else [c]

/-- `QuoteJSONString`, after the opening quotation mark. -/
def quoteBody : Utf16 → Utf16
  | [] => [34]
  | [c] => escapeUnit c ++ [34]
  | c :: d :: text =>
    if isLeading c && isTrailing d then c :: d :: quoteBody text
    else escapeUnit c ++ quoteBody (d :: text)

/-- `QuoteJSONString`. -/
def quote (s : Utf16) : Utf16 :=
  34 :: quoteBody s

/-- The value of a hexadecimal digit. -/
def hexValue (c : CodeUnit) : Option ℕ :=
  if 48 ≤ c.val ∧ c.val ≤ 57 then some (c.val - 48)
  else if 97 ≤ c.val ∧ c.val ≤ 102 then some (c.val - 87)
  else if 65 ≤ c.val ∧ c.val ≤ 70 then some (c.val - 55)
  else none

/-- The code unit of four hexadecimal digits. -/
def hexUnit (a b c d : CodeUnit) : Option CodeUnit :=
  (hexValue a).bind fun a => (hexValue b).bind fun b => (hexValue c).bind fun c =>
    (hexValue d).map fun d => Fin.ofNat 65536 (((a * 16 + b) * 16 + c) * 16 + d)

/-- The code unit of an escape other than `u`. -/
def unescape (c : CodeUnit) : Option CodeUnit :=
  if c = 34 ∨ c = 92 ∨ c = 47 then some c
  else if c = 98 then some 8
  else if c = 102 then some 12
  else if c = 110 then some 10
  else if c = 114 then some 13
  else if c = 116 then some 9
  else none

/-- A string of the JSON grammar, after its opening quotation mark. -/
def parseString : Utf16 → Option (Utf16 × Utf16)
  | [] => none
  | c :: text =>
    if c = 34 then some ([], text)
    else if c = 92 then
      match text with
      | [] => none
      | e :: text =>
        if e = 117 then
          match text with
          | h₁ :: h₂ :: h₃ :: h₄ :: text =>
            (hexUnit h₁ h₂ h₃ h₄).bind fun u => (parseString text).map fun r => (u :: r.1, r.2)
          | _ => none
        else (unescape e).bind fun u => (parseString text).map fun r => (u :: r.1, r.2)
    else if c.val < 32 then none
    else (parseString text).map fun r => (c :: r.1, r.2)

/-! ## Trees -/

/-- A JSON text without its white space. -/
inductive Tree where
  | null
  | bool (b : Bool)
  | num (token : Utf16)
  | str (s : Utf16)
  | arr (items : List Tree)
  | obj (members : List (Utf16 × Tree))

/-- Induction over a tree, its items and its members. -/
@[elab_as_elim, induction_eliminator]
theorem Tree.induct {P : Tree → Prop} (null : P .null) (bool : ∀ b, P (.bool b))
    (num : ∀ token, P (.num token)) (str : ∀ s, P (.str s))
    (arr : ∀ items, (∀ item ∈ items, P item) → P (.arr items))
    (obj : ∀ members, (∀ member ∈ members, P member.2) → P (.obj members)) : ∀ t, P t
  | .null => null
  | .bool b => bool b
  | .num token => num token
  | .str s => str s
  | .arr items => arr items fun item _ => Tree.induct null bool num str arr obj item
  | .obj members => obj members fun member _ => Tree.induct null bool num str arr obj member.2
termination_by t => sizeOf t
decreasing_by
  · have := List.sizeOf_lt_of_mem ‹_›
    simp only [Tree.arr.sizeOf_spec]
    omega
  · have := List.sizeOf_lt_of_mem ‹_›
    obtain ⟨key, value⟩ := member
    simp only [Tree.obj.sizeOf_spec, Prod.mk.sizeOf_spec] at this ⊢
    omega

mutual

/-- `JSON.stringify` of a tree. -/
def render : Tree → Utf16
  | .null => ascii "null"
  | .bool true => ascii "true"
  | .bool false => ascii "false"
  | .num token => token
  | .str s => quote s
  | .arr [] => [91, 93]
  | .arr (item :: items) => 91 :: (render item ++ renderMore items)
  | .obj [] => [123, 125]
  | .obj ((key, value) :: members) =>
    123 :: (quote key ++ 58 :: (render value ++ renderMoreMembers members))

/-- The items after the first, and the closing bracket. -/
def renderMore : List Tree → Utf16
  | [] => [93]
  | item :: items => 44 :: (render item ++ renderMore items)

/-- The members after the first, and the closing brace. -/
def renderMoreMembers : List (Utf16 × Tree) → Utf16
  | [] => [125]
  | (key, value) :: members =>
    44 :: (quote key ++ 58 :: (render value ++ renderMoreMembers members))

end

/-! ## Reading -/

/-- White space of the JSON grammar. -/
def isSpace (c : CodeUnit) : Bool :=
  c = 9 || c = 10 || c = 13 || c = 32

def skipSpace (text : Utf16) : Utf16 :=
  text.dropWhile isSpace

/-- The rest of a text after a word. -/
def eat (word text : Utf16) : Option Utf16 :=
  if word.isPrefixOf text then some (text.drop word.length) else none

/-- The number a text starts with. -/
def parseNumber (text : Utf16) : Option (Tree × Utf16) :=
  if (readNumber (text.takeWhile isNumberUnit)).isSome then
    some (.num (text.takeWhile isNumberUnit), text.dropWhile isNumberUnit)
  else none

/-- A literal or a number. -/
def parseScalar (text : Utf16) : Option (Tree × Utf16) :=
  match eat (ascii "null") text, eat (ascii "true") text, eat (ascii "false") text with
  | some rest, _, _ => some (.null, rest)
  | none, some rest, _ => some (.bool true, rest)
  | none, none, some rest => some (.bool false, rest)
  | none, none, none => parseNumber text

mutual

/-- A value of the JSON grammar. Every call takes a code unit, so a text has no deeper calls than
code units. -/
def parseValue : ℕ → Utf16 → Option (Tree × Utf16)
  | 0, _ => none
  | fuel + 1, text =>
    match skipSpace text with
    | [] => none
    | c :: text =>
      if c = 34 then (parseString text).map fun r => (.str r.1, r.2)
      else if c = 91 then
        match eat [93] (skipSpace text) with
        | some rest => some (.arr [], rest)
        | none => (parseItems fuel text).map fun r => (.arr r.1, r.2)
      else if c = 123 then
        match eat [125] (skipSpace text) with
        | some rest => some (.obj [], rest)
        | none => (parseMembers fuel text).map fun r => (.obj r.1, r.2)
      else parseScalar (c :: text)

/-- Some items, and the closing bracket. -/
def parseItems : ℕ → Utf16 → Option (List Tree × Utf16)
  | 0, _ => none
  | fuel + 1, text =>
    (parseValue fuel text).bind fun item =>
      match skipSpace item.2 with
      | [] => none
      | c :: rest =>
        if c = 93 then some ([item.1], rest)
        else if c = 44 then (parseItems fuel rest).map fun r => (item.1 :: r.1, r.2)
        else none

/-- Some members, and the closing brace. -/
def parseMembers : ℕ → Utf16 → Option (List (Utf16 × Tree) × Utf16)
  | 0, _ => none
  | fuel + 1, text =>
    (eat [34] (skipSpace text)).bind fun text =>
      (parseString text).bind fun key =>
        (eat [58] (skipSpace key.2)).bind fun text =>
          (parseValue fuel text).bind fun value =>
            match skipSpace value.2 with
            | [] => none
            | c :: rest =>
              if c = 125 then some ([(key.1, value.1)], rest)
              else if c = 44 then
                (parseMembers fuel rest).map fun r => ((key.1, value.1) :: r.1, r.2)
              else none

end

/-- A JSON text. -/
def parse (text : Utf16) : Option Tree :=
  (parseValue (text.length + 1) text).bind fun r =>
    if skipSpace r.2 = [] then some r.1 else none

/-! ## Strings are read back -/

theorem hexValue_hexDigit : ∀ d < 16, hexValue (hexDigit d) = some d := by decide

theorem hexUnit_unicodeEscape (c : CodeUnit) :
    hexUnit (hexDigit (c.val / 4096)) (hexDigit (c.val / 256 % 16)) (hexDigit (c.val / 16 % 16))
      (hexDigit (c.val % 16)) = some c := by
  have hlt := c.isLt
  rw [hexUnit, hexValue_hexDigit _ (by omega), hexValue_hexDigit _ (by omega),
    hexValue_hexDigit _ (by omega), hexValue_hexDigit _ (by omega)]
  refine congrArg some (Fin.ext ?_)
  change ((((c.val / 4096) * 16 + c.val / 256 % 16) * 16 + c.val / 16 % 16) * 16 + c.val % 16) %
    65536 = c.val
  omega

/-- A code unit that is not escaped. -/
theorem parseString_cons {c : CodeUnit} (text : Utf16) (hquote : c ≠ 34) (hbackslash : c ≠ 92)
    (hcontrol : ¬c.val < 32) :
    parseString (c :: text) = (parseString text).map fun r => (c :: r.1, r.2) := by
  conv_lhs => rw [parseString.eq_def]
  simp only [hquote, hbackslash, hcontrol, if_false]

/-- The closing quotation mark. -/
theorem parseString_close (text : Utf16) : parseString (34 :: text) = some ([], text) := by
  rw [parseString.eq_def]
  rfl

theorem parseString_unescape {e u : CodeUnit} (text : Utf16) (he : e ≠ 117)
    (hu : unescape e = some u) :
    parseString (92 :: e :: text) = (parseString text).map fun r => (u :: r.1, r.2) := by
  have hquote : (92 : CodeUnit) ≠ 34 := by decide
  conv_lhs => rw [parseString.eq_def]
  simp only [hquote, he, hu, if_true, if_false, Option.bind_some]

theorem parseString_unicodeEscape (c : CodeUnit) (text : Utf16) :
    parseString (unicodeEscape c ++ text) = (parseString text).map fun r => (c :: r.1, r.2) := by
  simp only [unicodeEscape, List.cons_append, List.nil_append]
  have hquote : (92 : CodeUnit) ≠ 34 := by decide
  conv_lhs => rw [parseString.eq_def]
  simp only [hquote, if_true, if_false, hexUnit_unicodeEscape, Option.bind_some]

theorem parseString_escapeUnit (c : CodeUnit) (text : Utf16) :
    parseString (escapeUnit c ++ text) = (parseString text).map fun r => (c :: r.1, r.2) := by
  rw [escapeUnit]
  split_ifs with h₁ h₂ h₃ h₄ h₅ h₆ h₇ h₈
  · exact parseString_unescape text (by decide) (by rw [h₁]; decide)
  · exact parseString_unescape text (by decide) (by rw [h₂]; decide)
  · exact parseString_unescape text (by decide) (by rw [h₃]; decide)
  · exact parseString_unescape text (by decide) (by rw [h₄]; decide)
  · exact parseString_unescape text (by decide) (by rw [h₅]; decide)
  · exact parseString_unescape text (by decide) (by rw [h₆]; decide)
  · exact parseString_unescape text (by decide) (by rw [h₇]; decide)
  · exact parseString_unicodeEscape c text
  · simp only [Bool.or_eq_true, decide_eq_true_eq, not_or] at h₈
    exact parseString_cons text h₆ h₇ h₈.1.1

theorem parseString_quoteBody (s text : Utf16) :
    parseString (quoteBody s ++ text) = some (s, text) := by
  induction s using quoteBody.induct with
  | case1 => exact parseString_close text
  | case2 c =>
    rw [quoteBody, List.append_assoc, parseString_escapeUnit, List.singleton_append,
      parseString_close]
    rfl
  | case3 c d s hpair ih =>
    have hc : 0xd800 ≤ c.val := by
      simp only [isLeading, Bool.and_eq_true, decide_eq_true_eq] at hpair
      exact hpair.1.1
    have hd : 0xdc00 ≤ d.val := by
      simp only [isTrailing, Bool.and_eq_true, decide_eq_true_eq] at hpair
      exact hpair.2.1
    have hraw : ∀ e : CodeUnit, 0xd800 ≤ e.val → e ≠ 34 ∧ e ≠ 92 ∧ ¬e.val < 32 := by
      intro e he
      refine ⟨?_, ?_, by omega⟩ <;>
      · rintro rfl
        exact absurd he (by decide)
    obtain ⟨hc₁, hc₂, hc₃⟩ := hraw c hc
    obtain ⟨hd₁, hd₂, hd₃⟩ := hraw d (by omega)
    rw [quoteBody, if_pos hpair, List.cons_append, List.cons_append,
      parseString_cons _ hc₁ hc₂ hc₃, parseString_cons _ hd₁ hd₂ hd₃, ih]
    rfl
  | case4 c d s hpair ih =>
    rw [quoteBody, if_neg hpair, List.append_assoc, parseString_escapeUnit, ih]
    rfl

/-! ## Trees are read back -/

/-- The text of a number. -/
def isNumber (token : Utf16) : Bool :=
  token.all isNumberUnit && (readNumber token).isSome

theorem isNumber_numberToString (x : Doubles.FiniteDouble) : isNumber (numberToString x) := by
  obtain ⟨d, hread, -⟩ := readNumber_numberToString x
  simp only [isNumber, Bool.and_eq_true, List.all_eq_true, hread, Option.isSome_some, and_true]
  exact fun c => isNumberUnit_of_mem_numberToString

mutual

/-- The numbers of a tree are written as numbers. -/
def Tree.Valid : Tree → Prop
  | .num token => isNumber token
  | .arr items => ValidItems items
  | .obj members => ValidMembers members
  | _ => True

def ValidItems : List Tree → Prop
  | [] => True
  | item :: items => item.Valid ∧ ValidItems items

def ValidMembers : List (Utf16 × Tree) → Prop
  | [] => True
  | (_, value) :: members => value.Valid ∧ ValidMembers members

end

/-- A text that does not go on with a code unit of numbers. -/
def NoNumber (text : Utf16) : Prop :=
  ∀ c ∈ text.head?, isNumberUnit c = false

theorem noNumber_cons {c : CodeUnit} {text : Utf16} (h : isNumberUnit c = false) :
    NoNumber (c :: text) := by
  simpa [NoNumber] using h

theorem skipSpace_cons {c : CodeUnit} (text : Utf16) (h : isSpace c = false) :
    skipSpace (c :: text) = c :: text := by
  simp [skipSpace, h]

theorem eat_append (word text : Utf16) : eat word (word ++ text) = some text := by
  simp [eat]

theorem eat_cons_of_ne {c d : CodeUnit} {word text : Utf16} (h : c ≠ d) :
    eat (c :: word) (d :: text) = none := by
  simp [eat, h]

/-- A number starts with one of its code units. -/
theorem head_of_isNumber {token : Utf16} (h : isNumber token) :
    ∃ c rest, token = c :: rest ∧ isNumberUnit c := by
  simp only [isNumber, Bool.and_eq_true] at h
  cases token with
  | nil => simp [readNumber] at h
  | cons c rest => exact ⟨c, rest, rfl, List.all_eq_true.1 h.1 c List.mem_cons_self⟩

theorem parseNumber_append {token rest : Utf16} (h : isNumber token) (hrest : NoNumber rest) :
    parseNumber (token ++ rest) = some (.num token, rest) := by
  simp only [isNumber, Bool.and_eq_true, List.all_eq_true] at h
  have hstop : rest.takeWhile isNumberUnit = [] ∧ rest.dropWhile isNumberUnit = rest := by
    cases rest with
    | nil => exact ⟨rfl, rfl⟩
    | cons c rest =>
      have hc : isNumberUnit c = false := hrest c rfl
      simp [hc]
  have htake : (token ++ rest).takeWhile isNumberUnit = token := by
    rw [List.takeWhile_append_of_pos h.1, hstop.1, List.append_nil]
  have hdrop : (token ++ rest).dropWhile isNumberUnit = rest := by
    rw [List.dropWhile_append_of_pos h.1, hstop.2]
  rw [parseNumber, htake, hdrop, if_pos h.2]

theorem parseScalar_number {token rest : Utf16} (h : isNumber token) (hrest : NoNumber rest) :
    parseScalar (token ++ rest) = some (.num token, rest) := by
  obtain ⟨c, text, htoken, hc⟩ := head_of_isNumber h
  have hword : ∀ {d : CodeUnit} {word : Utf16}, isNumberUnit d = false →
      eat (d :: word) (token ++ rest) = none := by
    intro d word hd
    rw [htoken, List.cons_append]
    refine eat_cons_of_ne ?_
    rintro rfl
    rw [hd] at hc
    cases hc
  have hnull : eat (ascii "null") (token ++ rest) = none := hword (by decide)
  have htrue : eat (ascii "true") (token ++ rest) = none := hword (by decide)
  have hfalse : eat (ascii "false") (token ++ rest) = none := hword (by decide)
  rw [parseScalar, hnull, htrue, hfalse]
  exact parseNumber_append h hrest

/-- A code unit that starts a value : no white space, and no closing bracket. -/
def startsValue (c : CodeUnit) : Bool :=
  !isSpace c && c ≠ 93

theorem startsValue_of_isNumberUnit {c : CodeUnit} (h : isNumberUnit c) : startsValue c := by
  have hne : ∀ d : CodeUnit, isNumberUnit d = false → c ≠ d := by
    rintro d hd rfl
    rw [hd] at h
    cases h
  simp [startsValue, isSpace, hne 9 (by decide), hne 10 (by decide), hne 13 (by decide),
    hne 32 (by decide), hne 93 (by decide)]

theorem head_render {t : Tree} (h : t.Valid) : ∃ c text, render t = c :: text ∧ startsValue c := by
  cases t with
  | null => exact ⟨_, _, rfl, by decide⟩
  | bool b => cases b <;> exact ⟨_, _, rfl, by decide⟩
  | num token =>
    obtain ⟨c, rest, htoken, hc⟩ := head_of_isNumber (show isNumber token from h)
    exact ⟨c, rest, htoken, startsValue_of_isNumberUnit hc⟩
  | str s => exact ⟨_, _, rfl, by decide⟩
  | arr items => cases items <;> exact ⟨_, _, rfl, by decide⟩
  | obj members => cases members <;> exact ⟨_, _, rfl, by decide⟩

theorem render_ne_nil {t : Tree} (h : t.Valid) : render t ≠ [] := by
  obtain ⟨c, text, hcons, -⟩ := head_render h
  simp [hcons]

theorem skipSpace_render {t : Tree} (h : t.Valid) (rest : Utf16) :
    skipSpace (render t ++ rest) = render t ++ rest := by
  obtain ⟨c, text, hcons, hc⟩ := head_render h
  simp only [startsValue, Bool.and_eq_true, Bool.not_eq_true'] at hc
  rw [hcons, List.cons_append]
  exact skipSpace_cons _ hc.1

theorem eat_bracket_render {t : Tree} (h : t.Valid) (rest : Utf16) :
    eat [93] (render t ++ rest) = none := by
  obtain ⟨c, text, hcons, hc⟩ := head_render h
  simp only [startsValue, Bool.and_eq_true, decide_eq_true_eq] at hc
  rw [hcons, List.cons_append]
  exact eat_cons_of_ne (Ne.symm hc.2)

/-- What follows a value in an array or an object does not go on with a number. -/
theorem noNumber_renderMore (items : List Tree) (rest : Utf16) :
    NoNumber (renderMore items ++ rest) := by
  cases items <;> exact noNumber_cons (by decide)

theorem noNumber_renderMoreMembers (members : List (Utf16 × Tree)) (rest : Utf16) :
    NoNumber (renderMoreMembers members ++ rest) := by
  rcases members with _ | ⟨⟨key, value⟩, members⟩ <;> exact noNumber_cons (by decide)

/-- The members of an object, the first one without a comma. -/
def renderMembers : List (Utf16 × Tree) → Utf16
  | [] => []
  | (key, value) :: members => quote key ++ 58 :: (render value ++ renderMoreMembers members)

/-- The items of an array, the first one without a comma. -/
def renderItems : List Tree → Utf16
  | [] => []
  | item :: items => render item ++ renderMore items

/-- A value is read back from its text, with as many calls as the text has code units. -/
def ReadBack (t : Tree) : Prop :=
  ∀ fuel rest, (render t).length ≤ fuel → NoNumber rest →
    parseValue fuel (render t ++ rest) = some (t, rest)

/-- The text of a value is not empty, so there is a call to read it. -/
theorem readBack_of_succ {t : Tree} (h : t.Valid)
    (hread : ∀ fuel rest, (render t).length ≤ fuel + 1 → NoNumber rest →
      parseValue (fuel + 1) (render t ++ rest) = some (t, rest)) : ReadBack t := by
  intro fuel rest hfuel hrest
  have hpos := List.length_pos_of_ne_nil (render_ne_nil h)
  obtain ⟨fuel, rfl⟩ : ∃ n, fuel = n + 1 := ⟨fuel - 1, by omega⟩
  exact hread fuel rest hfuel hrest

/-- The items of an array are read back, when each of them is. -/
theorem parseItems_render {items : List Tree} (hvalid : ValidItems items)
    (hback : ∀ item ∈ items, item.Valid → ReadBack item) (hne : items ≠ []) (fuel : ℕ) (rest : Utf16)
    (hfuel : (renderItems items).length ≤ fuel) :
    parseItems fuel (renderItems items ++ rest) = some (items, rest) := by
  induction items generalizing fuel with
  | nil => exact absurd rfl hne
  | cons item items ih =>
    have hlength : (render item).length + (renderMore items).length ≤ fuel := by
      simpa [renderItems] using hfuel
    have hmore : 0 < (renderMore items).length := by
      cases items <;> simp [renderMore]
    obtain ⟨fuel, rfl⟩ : ∃ n, fuel = n + 1 := ⟨fuel - 1, by omega⟩
    have hvalue := hback item List.mem_cons_self hvalid.1 fuel (renderMore items ++ rest) (by omega)
      (noNumber_renderMore items rest)
    rw [renderItems, List.append_assoc, parseItems, hvalue, Option.bind_some]
    cases items with
    | nil => rfl
    | cons next items =>
      have hnext := ih hvalid.2 (fun i hi => hback i (List.mem_cons_of_mem item hi)) (by simp)
        fuel (by
          simp only [renderMore, renderItems, List.length_cons, List.length_append] at hlength ⊢
          omega)
      have hskip : skipSpace (renderMore (next :: items) ++ rest) =
          44 :: (renderItems (next :: items) ++ rest) := by
        rw [renderMore, List.cons_append, renderItems]
        exact skipSpace_cons _ (by decide)
      have h₁ : (44 : CodeUnit) ≠ 93 := by decide
      simp only [hskip, h₁, if_true, if_false, hnext]
      rfl

/-- The members of an object are read back, when the value of each of them is. -/
theorem parseMembers_render {members : List (Utf16 × Tree)} (hvalid : ValidMembers members)
    (hback : ∀ member ∈ members, member.2.Valid → ReadBack member.2) (hne : members ≠ []) (fuel : ℕ)
    (rest : Utf16) (hfuel : (renderMembers members).length ≤ fuel) :
    parseMembers fuel (renderMembers members ++ rest) = some (members, rest) := by
  induction members generalizing fuel with
  | nil => exact absurd rfl hne
  | cons member members ih =>
    obtain ⟨key, value⟩ := member
    have hlength : (quote key).length + ((render value).length + (renderMoreMembers members).length +
        1) ≤ fuel := by
      simpa [renderMembers] using hfuel
    obtain ⟨fuel, rfl⟩ : ∃ n, fuel = n + 1 := ⟨fuel - 1, by omega⟩
    have hvalue := hback _ List.mem_cons_self hvalid.1 fuel (renderMoreMembers members ++ rest)
      (by dsimp only; omega) (noNumber_renderMoreMembers members rest)
    have hquote : eat [34] (skipSpace (renderMembers ((key, value) :: members) ++ rest)) =
        some (quoteBody key ++ 58 :: (render value ++ (renderMoreMembers members ++ rest))) := by
      have hskip := skipSpace_cons (c := 34)
        (quoteBody key ++ 58 :: (render value ++ (renderMoreMembers members ++ rest))) (by decide)
      rw [renderMembers, quote, List.append_assoc, List.cons_append, List.cons_append,
        List.append_assoc, hskip]
      exact eat_append [34] _
    have hcolon : eat [58] (skipSpace (58 :: (render value ++ (renderMoreMembers members ++ rest)))) =
        some (render value ++ (renderMoreMembers members ++ rest)) := by
      rw [skipSpace_cons _ (by decide)]
      exact eat_append [58] _
    rw [parseMembers, hquote, Option.bind_some, parseString_quoteBody, Option.bind_some, hcolon,
      Option.bind_some, hvalue, Option.bind_some]
    rcases members with _ | ⟨⟨key', value'⟩, members⟩
    · rfl
    · have hnext := ih hvalid.2 (fun m hm => hback m (List.mem_cons_of_mem _ hm)) (by simp)
        fuel (by
          simp only [renderMoreMembers, renderMembers, List.length_cons, List.length_append]
            at hlength ⊢
          omega)
      have hskip : skipSpace (renderMoreMembers ((key', value') :: members) ++ rest) =
          44 :: (renderMembers ((key', value') :: members) ++ rest) := by
        rw [renderMoreMembers, List.cons_append, renderMembers]
        exact skipSpace_cons _ (by decide)
      have h₁ : (44 : CodeUnit) ≠ 125 := by decide
      simp only [hskip, h₁, if_true, if_false, hnext]
      rfl

theorem readBack_num {token : Utf16} (h : isNumber token) : ReadBack (.num token) := by
  refine readBack_of_succ h fun fuel rest _ hrest => ?_
  obtain ⟨c, text, htoken, hc⟩ := head_of_isNumber h
  have hne : ∀ d : CodeUnit, isNumberUnit d = false → c ≠ d := by
    rintro d hd rfl
    rw [hd] at hc
    cases hc
  have hscalar := parseScalar_number h hrest
  rw [parseValue, skipSpace_render (t := .num token) h, render, htoken, List.cons_append]
  rw [htoken, List.cons_append] at hscalar
  simp only [hne 34 (by decide), hne 91 (by decide), hne 123 (by decide), if_false]
  rw [hscalar]

theorem readBack_arr {items : List Tree} (hvalid : ValidItems items)
    (hback : ∀ item ∈ items, item.Valid → ReadBack item) : ReadBack (.arr items) := by
  refine readBack_of_succ hvalid fun fuel rest hfuel _ => ?_
  rw [parseValue, skipSpace_render (t := .arr items) hvalid]
  cases items with
  | nil => rfl
  | cons item items =>
    have hitems := parseItems_render hvalid hback (by simp) fuel rest (by
      simpa [render, renderItems] using hfuel)
    have hskip : skipSpace (renderItems (item :: items) ++ rest) =
        renderItems (item :: items) ++ rest := by
      rw [renderItems, List.append_assoc]
      exact skipSpace_render hvalid.1 _
    have heat : eat [93] (renderItems (item :: items) ++ rest) = none := by
      rw [renderItems, List.append_assoc]
      exact eat_bracket_render hvalid.1 _
    have hrender : render (.arr (item :: items)) = 91 :: renderItems (item :: items) := by
      rw [render, renderItems]
    rw [hrender, List.cons_append]
    have h₁ : (91 : CodeUnit) ≠ 34 := by decide
    simp only [h₁, if_true, if_false, hskip, heat, hitems]
    rfl

theorem readBack_obj {members : List (Utf16 × Tree)} (hvalid : ValidMembers members)
    (hback : ∀ member ∈ members, member.2.Valid → ReadBack member.2) : ReadBack (.obj members) := by
  refine readBack_of_succ hvalid fun fuel rest hfuel _ => ?_
  rw [parseValue, skipSpace_render (t := .obj members) hvalid]
  rcases members with _ | ⟨⟨key, value⟩, members⟩
  · rfl
  · have hmembers := parseMembers_render hvalid hback (by simp) fuel rest (by
      simpa [render, renderMembers] using hfuel)
    have hrender : render (.obj ((key, value) :: members)) =
        123 :: renderMembers ((key, value) :: members) := by
      rw [render, renderMembers]
    have hskip : skipSpace (renderMembers ((key, value) :: members) ++ rest) =
        renderMembers ((key, value) :: members) ++ rest := by
      rw [renderMembers, quote]
      exact skipSpace_cons _ (by decide)
    have heat : eat [125] (renderMembers ((key, value) :: members) ++ rest) = none := by
      rw [renderMembers, quote]
      exact eat_cons_of_ne (by decide)
    rw [hrender, List.cons_append]
    have h₁ : (123 : CodeUnit) ≠ 34 := by decide
    have h₂ : (123 : CodeUnit) ≠ 91 := by decide
    simp only [h₁, h₂, if_true, if_false, hskip, heat, hmembers]
    rfl

/-- A value is read back. -/
theorem Tree.Valid.readBack {t : Tree} (h : t.Valid) : ReadBack t := by
  induction t with
  | null =>
    refine readBack_of_succ h fun fuel rest _ _ => ?_
    rw [parseValue, skipSpace_render h]
    rfl
  | bool b =>
    refine readBack_of_succ h fun fuel rest _ _ => ?_
    rw [parseValue, skipSpace_render h]
    cases b <;> rfl
  | str s =>
    refine readBack_of_succ h fun fuel rest _ _ => ?_
    rw [parseValue, skipSpace_render h, render, quote, List.cons_append]
    simp only [if_true, parseString_quoteBody, Option.map_some]
  | num token => exact readBack_num h
  | arr items ih => exact readBack_arr h fun item hitem => ih item hitem
  | obj members ih => exact readBack_obj h fun member hmember => ih member hmember

/-- What is written is read back. -/
theorem parse_render {t : Tree} (h : t.Valid) : parse (render t) = some t := by
  have hread := h.readBack ((render t).length + 1) [] (Nat.le_succ _) (by simp [NoNumber])
  rw [List.append_nil] at hread
  rw [parse, hread]
  rfl

/-- Trees that are written alike are equal. -/
theorem render_injective {t u : Tree} (ht : t.Valid) (hu : u.Valid) (h : render t = render u) :
    t = u := by
  have hparse := parse_render ht
  rw [h, parse_render hu] at hparse
  exact (Option.some.inj hparse).symm

end JsonText
