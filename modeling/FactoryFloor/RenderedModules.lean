import FactoryFloor.RecipeReruns
import FactoryFloor.TypeScriptLiterals

/-!
# Rendered modules are read back

`renderModule` writes constants, and this module shows that the language reads them as written. The
lines of a value are a literal of it (`written`), by induction on the value. An export is two
statements (`readStatements_export`), and a module is its exports (`evalModule_renderModule`).

Keys are written without quotation marks and exports are asserted to be constant. So the keys have
to be plain (`isPlainKey`), and no export can be null. The recipe checks neither.
-/

namespace FactoryFloor

open JsonText TypeScript Doubles

namespace ModuleRecipe

/-! ## Keys without quotation marks -/

/-- A key that stands for itself where it is written without quotation marks : an identifier, or the
text of a number. -/
def isPlainKey (key : Utf16) : Bool :=
  isIdentifier key && key ≠ protoKey ||
    key.head?.any isDigit && isNumber key && numberText (numberOf key) = key

mutual

/-- Whether the keys of all objects in a value are plain. -/
def plainKeys : JsValue → Bool
  | .arr items => plainKeysItems items
  | .obj members => plainKeysMembers members
  | _ => true

def plainKeysItems : List JsValue → Bool
  | [] => true
  | item :: items => plainKeys item && plainKeysItems items

def plainKeysMembers : List (Utf16 × JsValue) → Bool
  | [] => true
  | (key, value) :: members => isPlainKey key && plainKeys value && plainKeysMembers members

end

theorem plainKeysItems_iff {items : List JsValue} :
    plainKeysItems items = true ↔ ∀ item ∈ items, plainKeys item = true := by
  induction items with
  | nil => simp [plainKeysItems]
  | cons item items ih => rw [plainKeysItems, Bool.and_eq_true, ih, List.forall_mem_cons]

theorem plainKeysMembers_iff {members : List (Utf16 × JsValue)} :
    plainKeysMembers members = true ↔
      ∀ m ∈ members, isPlainKey m.1 = true ∧ plainKeys m.2 = true := by
  induction members with
  | nil => simp [plainKeysMembers]
  | cons m members ih =>
    obtain ⟨key, value⟩ := m
    rw [plainKeysMembers, Bool.and_eq_true, Bool.and_eq_true, ih, List.forall_mem_cons]

theorem isToken_identifier {name : Utf16} (h : isIdentifier name = true) :
    (Lexeme.word name).isToken = true := by
  have hstart : ∀ c : CodeUnit, isIdentifierStart c = true → isAsciiStart c.val = true := by
    rintro ⟨c, hlt⟩ hc
    simp only [isIdentifierStart, Bool.or_eq_true, Bool.and_eq_true, decide_eq_true_eq,
      Fin.ext_iff] at hc
    simp only [isAsciiStart, Bool.or_eq_true, Bool.and_eq_true, decide_eq_true_eq]
    omega
  have hpart : ∀ c : CodeUnit, (isIdentifierStart c || isDigit c) = true →
      isAsciiPart c.val = true := by
    intro c hc
    rw [Bool.or_eq_true] at hc
    rw [isAsciiPart, Bool.or_eq_true]
    exact hc.imp (hstart c) id
  cases name with
  | nil => cases h
  | cons c rest =>
    rw [isIdentifier, Bool.and_eq_true, List.all_eq_true] at h
    rw [Lexeme.isToken, Bool.and_eq_true, List.all_eq_true]
    refine ⟨hstart c h.1, List.forall_mem_cons.2 ⟨?_, fun d hd => hpart d (h.2 d hd)⟩⟩
    rw [isAsciiPart, hstart c h.1, Bool.true_or]

section PlainKeys

variable {U : Unicode}

theorem readsKey_plain {key : Utf16} (h : isPlainKey key = true) : ReadsKey U key := by
  rw [isPlainKey, Bool.or_eq_true] at h
  rcases h with h | h
  · rw [Bool.and_eq_true] at h
    exact readsKey_identifier (isToken_identifier h.1)
  · rw [Bool.and_eq_true, Bool.and_eq_true, decide_eq_true_eq] at h
    exact readsKey_number h.1.2 h.1.1 h.2

theorem plain_ne_proto {key : Utf16} (h : isPlainKey key = true) : key ≠ protoKey := by
  rintro rfl
  revert h
  decide

end PlainKeys

/-! ## Strings -/

/-- What `quoteString` writes for a code unit. -/
def quotedUnit (c : CodeUnit) : Utf16 :=
  if c = 92 then [92, 92]
  else if c = 39 then [92, 39]
  else if c = 13 then [92, 114]
  else if c = 10 then [92, 110]
  else if c = 0x2028 then [92, 117, 50, 48, 50, 56]
  else if c = 0x2029 then [92, 117, 50, 48, 50, 57]
  else [c]

theorem quoteString_eq (value : Utf16) :
    quoteString value = 39 :: value.flatMap quotedUnit ++ [39] := by
  simp only [quoteString, replaceUnit, List.flatMap_assoc]
  refine congrArg (fun text => 39 :: text ++ [39]) (List.flatMap_congr fun c _ => ?_)
  by_cases h₁ : c = 92
  · subst h₁; decide
  by_cases h₂ : c = 39
  · subst h₂; decide
  by_cases h₃ : c = 13
  · subst h₃; decide
  by_cases h₄ : c = 10
  · subst h₄; decide
  by_cases h₅ : c = 0x2028
  · subst h₅; decide
  by_cases h₆ : c = 0x2029
  · subst h₆; decide
  simp only [quotedUnit, h₁, h₂, h₃, h₄, h₅, h₆, if_false, List.flatMap_singleton]

theorem readString_quotedUnit (c : CodeUnit) (text : Utf16) :
    readString 39 (quotedUnit c ++ text) = (readString 39 text).map fun r => (c :: r.1, r.2) := by
  have hquote : (92 : CodeUnit) ≠ 39 := by decide
  rw [quotedUnit]
  split_ifs with h₁ h₂ h₃ h₄ h₅ h₆
  · exact readString_escaped text hquote (by decide) (by rw [h₁]; decide)
  · exact readString_escaped text hquote (by decide) (by rw [h₂]; decide)
  · exact readString_escaped text hquote (by decide) (by rw [h₃]; decide)
  · exact readString_escaped text hquote (by decide) (by rw [h₄]; decide)
  · exact readString_unicode text hquote (by rw [h₅]; decide)
  · exact readString_unicode text hquote (by rw [h₆]; decide)
  · exact readString_cons text h₂ h₁ (not_or.2 ⟨h₄, h₃⟩)

/-- A string in quotation marks is read as the string. -/
theorem readString_quoted (value rest : Utf16) :
    readString 39 (value.flatMap quotedUnit ++ 39 :: rest) = some (value, rest) := by
  induction value with
  | nil => exact readString_close rest
  | cons c value ih =>
    rw [List.flatMap_cons, List.append_assoc, readString_quotedUnit, ih]
    rfl

/-! ## Lines -/

/-- Each line after a line end. -/
def onLines (lines : List Utf16) : Utf16 :=
  lines.flatMap (10 :: ·)

theorem joinLines_cons (separator line : Utf16) (lines : List Utf16) :
    joinLines separator (line :: lines) = line ++ lines.flatMap (separator ++ ·) := by
  induction lines generalizing line with
  | nil => simp [joinLines]
  | cons next lines ih =>
    rw [joinLines, ih, List.flatMap_cons, List.append_assoc, List.append_assoc]
    exact List.cons_ne_nil _ _

theorem onLines_cons (line : Utf16) (lines : List Utf16) :
    onLines (line :: lines) = 10 :: line ++ onLines lines :=
  List.flatMap_cons

theorem onLines_append (lines more : List Utf16) :
    onLines (lines ++ more) = onLines lines ++ onLines more :=
  List.flatMap_append

theorem onLines_appendLast {lines : List Utf16} (h : lines ≠ []) (suffix : Utf16) :
    onLines (appendLast suffix lines) = onLines lines ++ suffix := by
  induction lines with
  | nil => exact absurd rfl h
  | cons line lines ih =>
    cases lines with
    | nil => simp [appendLast, onLines]
    | cons next lines =>
      have hrest := ih (List.cons_ne_nil _ _)
      rw [appendLast]
      · rw [onLines_cons, hrest, onLines_cons line, List.append_assoc (10 :: line)]
      · exact List.cons_ne_nil _ _

/-! ## Values are read back -/

section Values

variable {U : Unicode}

theorem trimStart_spaces {first : Utf16} (h : ∀ c ∈ first.head?, isWhiteSpace c = false) (n : ℕ) :
    trimStart (spaces n ++ first) = first := by
  have hspaces : ∀ c ∈ spaces n, isWhiteSpace c = true := by
    intro c hc
    rw [List.eq_of_mem_replicate hc]
    decide
  rw [trimStart, List.dropWhile_append_of_pos hspaces]
  cases first with
  | nil => rfl
  | cons c first =>
    rw [List.dropWhile_cons_of_neg (by rw [h c rfl]; exact Bool.false_ne_true)]

theorem spaces_blank (n : ℕ) : (spaces n).all isWhiteSpace = true := by
  refine List.all_eq_true.2 fun c hc => ?_
  rw [List.eq_of_mem_replicate hc]
  decide

theorem line_blank (n : ℕ) : (10 :: spaces n).all isWhiteSpace = true := by
  rw [List.all_cons, spaces_blank, Bool.and_true]
  decide

/-- A text that is read as a value is read as the same value. -/
theorem readsAs_same {text : Utf16} {v w : JsValue} (h : ReadsAs U text v) (hsame : Same v w) :
    ReadsAs U text w := by
  intro fuel rest hfuel hrest
  obtain ⟨x, hx, hxv⟩ := h fuel rest hfuel hrest
  exact ⟨x, hx, hxv.trans hsame⟩

theorem head_numberToString (x : FiniteDouble) :
    (numberToString x).head?.any (fun c => isDigit c || c = 45) = true := by
  rw [numberToString]
  split_ifs with h hsign
  · rfl
  · obtain ⟨c, text, hcons, hc⟩ := head?_formatDigits (fun d => significant_lt)
      (head?_significant (shortest_ne_zero h))
      ((digitsOf (shortest x.magnitude h).1).length + (shortest x.magnitude h).2)
    rw [List.nil_append, magnitudeText, hcons, List.head?_cons, Option.any_some, hc, Bool.true_or]
  · rfl

theorem head_word {word : Utf16} (h : (Lexeme.word word).isToken = true) :
    ∀ c ∈ word.head?, isWhiteSpace c = false := by
  cases word with
  | nil => cases h
  | cons c letters =>
    intro d hd
    obtain rfl := Option.some.inj hd
    rw [Lexeme.isToken, Bool.and_eq_true, List.all_eq_true] at h
    exact not_space_of_part (h.2 c List.mem_cons_self)

/-- A scalar is read back, and its text does not begin with white space. -/
theorem readsAs_scalar {v : JsValue} (hjson : IsJson v) (hscalar : isScalar v = true) :
    ReadsAs U (renderScalar v) v ∧ ∀ c ∈ (renderScalar v).head?, isWhiteSpace c = false := by
  cases hjson with
  | null =>
    have htoken : (Lexeme.word (ascii "null")).isToken = true := by decide
    exact ⟨readsAs_word htoken (if_pos rfl), head_word htoken⟩
  | bool b =>
    have htrue : (Lexeme.word (ascii "true")).isToken = true := by decide
    have hfalse : (Lexeme.word (ascii "false")).isToken = true := by decide
    have hnull : ascii "true" ≠ ascii "null" ∧ ascii "false" ≠ ascii "null" ∧
        ascii "false" ≠ ascii "true" := by decide
    cases b with
    | true =>
      exact ⟨readsAs_word htrue ((if_neg hnull.1).trans (if_pos rfl)), head_word htrue⟩
    | false =>
      refine ⟨readsAs_word hfalse ?_, head_word hfalse⟩
      exact (if_neg hnull.2.1).trans ((if_neg hnull.2.2).trans (if_pos rfl))
  | num x =>
    obtain ⟨y, hy, hsame⟩ := numberOf_numberToString x
    have hhead := head_numberToString x
    refine ⟨?_, fun c hc => ?_⟩
    · have hreads := readsAs_number (U := U) (isNumber_numberToString x) hhead
      rw [hy] at hreads
      exact readsAs_same hreads (.num hsame)
    · have hnumber := (Option.any_eq_true _ _).1 hhead
      obtain ⟨d, hd, hunit⟩ := hnumber
      obtain rfl := Option.some.inj (hd.symm.trans hc)
      exact not_space_of_number hunit
  | str s =>
    rw [renderScalar, quoteString_eq]
    refine ⟨readsAs_string fun rest => ?_, fun c hc => ?_⟩
    · have htext : s.flatMap quotedUnit ++ [39] ++ rest = s.flatMap quotedUnit ++ 39 :: rest := by
        simp
      exact htext ▸ readString_quoted s rest
    · obtain rfl := Option.some.inj hc
      decide
  | arr _ => cases hscalar
  | obj _ _ => cases hscalar

/-- The lines of a value are a literal of it, after the indentation. -/
def Written (U : Unicode) (n : ℕ) (v : JsValue) : Prop :=
  ∃ first rest, renderValueLines n v = (spaces n ++ first) :: rest ∧
    (∀ c ∈ first.head?, isWhiteSpace c = false) ∧ ReadsAs U (first ++ onLines rest) v

theorem Written.onLines {n : ℕ} {v : JsValue} (h : Written U n v) :
    renderValueLines n v ≠ [] ∧ ReadsAs U (onLines (renderValueLines n v)) v := by
  obtain ⟨first, rest, hlines, -, hreads⟩ := h
  rw [hlines]
  refine ⟨List.cons_ne_nil _ _, ?_⟩
  rw [onLines_cons, ← List.cons_append, List.append_assoc]
  exact readsAs_blank (line_blank n) hreads

theorem written_scalar {v : JsValue} (hjson : IsJson v) (hscalar : isScalar v = true) (n : ℕ) :
    Written U n v := by
  obtain ⟨hreads, hhead⟩ := readsAs_scalar (U := U) hjson hscalar
  refine ⟨renderScalar v, [], ?_, hhead, ?_⟩
  · cases v with
    | arr | obj => cases hscalar
    | _ => rfl
  · rw [ModuleRecipe.onLines, List.flatMap_nil, List.append_nil]
    exact hreads

theorem onLines_renderItems {items : List JsValue} {n : ℕ}
    (h : ∀ item ∈ items, renderValueLines (n + 2) item ≠ []) :
    onLines (renderItems n items) =
      spellItems (items.map fun item => (onLines (renderValueLines (n + 2) item), item)) := by
  induction items with
  | nil => rfl
  | cons item items ih =>
    rw [renderItems, onLines_append, onLines_appendLast (h item List.mem_cons_self),
      ih fun i hi => h i (List.mem_cons_of_mem _ hi)]
    rfl

/-- What begins with a bracket does not begin with white space. -/
theorem head_bracket {c : CodeUnit} {text : Utf16} (h : isWhiteSpace c = false) :
    ∀ d ∈ (c :: text).head?, isWhiteSpace d = false := by
  intro d hd
  obtain rfl := Option.some.inj hd
  exact h

theorem written_arr {items : List JsValue} (h : ∀ item ∈ items, ∀ n, Written U n item) (n : ℕ) :
    Written U n (.arr items) := by
  by_cases hempty : items.isEmpty = true
  · obtain rfl := List.isEmpty_iff.1 hempty
    refine ⟨[91, 93], [], ?_, head_bracket (by decide), ?_⟩
    · rw [renderValueLines, if_pos hempty]
      rfl
    · exact @readsAs_array U [] (by simp) [] rfl
  refine ⟨[91], renderItems n items ++ [spaces n ++ [93]], ?_, head_bracket (by decide), ?_⟩
  · rw [renderValueLines, if_neg hempty]
    rfl
  have htext : [91] ++ onLines (renderItems n items ++ [spaces n ++ [93]]) = 91 ::
      (spellItems (items.map fun item => (onLines (renderValueLines (n + 2) item), item)) ++
        (10 :: spaces n ++ [93])) := by
    rw [onLines_append, onLines_renderItems fun item hi => (h item hi (n + 2)).onLines.1]
    simp [onLines]
  have hvalues : (items.map fun item => (onLines (renderValueLines (n + 2) item), item)).map
      Prod.snd = items := by
    rw [List.map_map]
    exact List.map_id _
  have hitems : ∀ item ∈ items.map fun item => (onLines (renderValueLines (n + 2) item), item),
      ReadsAs U item.1 item.2 :=
    List.forall_mem_map.2 fun item hi => (h item hi (n + 2)).onLines.2
  have hreads := readsAs_array hitems (line_blank n)
  rw [hvalues] at hreads
  rw [htext]
  exact hreads

/-- A property is a key and the text of its value, with a comma after it. -/
theorem exists_propertyText {key : Utf16} {entry : JsValue} {n : ℕ} (hjson : IsJson entry)
    (hentry : Written U (n + 2) entry) :
    ∃ text, onLines (propertyLines n key entry (renderValueLines (n + 2) entry)) =
      (10 :: spaces (n + 2)) ++ key ++ 58 :: text ++ [44] ∧ ReadsAs U text entry := by
  by_cases hscalar : isScalar entry = true
  · have hreads := (readsAs_scalar (U := U) hjson hscalar).1
    simp only [propertyLines, hscalar, if_true]
    split_ifs with hlength
    · refine ⟨[32] ++ renderScalar entry, ?_, readsAs_blank (by decide) hreads⟩
      simp [onLines, ascii]
    · refine ⟨10 :: spaces (n + 4) ++ renderScalar entry, ?_, readsAs_blank (line_blank _) hreads⟩
      simp [onLines, ascii]
  · obtain ⟨first, rest, hlines, hfirst, hreads⟩ := hentry
    simp only [propertyLines, hscalar, if_false, hlines, Bool.false_eq_true]
    refine ⟨[32] ++ (first ++ onLines rest), ?_, readsAs_blank (by decide) hreads⟩
    rw [onLines_appendLast (List.cons_ne_nil _ _), onLines_cons, trimStart_spaces hfirst]
    simp [ascii]

/-- The members of an object are written as members that are read. -/
theorem exists_memberTexts {members : List (Utf16 × JsValue)} {n : ℕ}
    (hjson : ∀ m ∈ members, IsJson m.2) (hplain : ∀ m ∈ members, isPlainKey m.1 = true)
    (hwritten : ∀ m ∈ members, Written U (n + 2) m.2) :
    ∃ ms : List MemberText, onLines (renderMembers n members) = spellMembers ms ∧
      ms.map (fun m => (m.key, m.value)) = members ∧ ∀ m ∈ ms, m.Reads U := by
  induction members with
  | nil => exact ⟨[], rfl, rfl, by simp⟩
  | cons m members ih =>
    obtain ⟨key, entry⟩ := m
    rw [List.forall_mem_cons] at hjson hplain hwritten
    obtain ⟨text, htext, hreads⟩ := @exists_propertyText U key _ _ hjson.1 hwritten.1
    obtain ⟨ms, hms, hmembers, hall⟩ := ih hjson.2 hplain.2 hwritten.2
    refine ⟨⟨10 :: spaces (n + 2), key, text, entry⟩ :: ms, ?_, ?_, ?_⟩
    · rw [renderMembers, onLines_append, htext, hms]
      rfl
    · rw [List.map_cons, hmembers]
    · refine List.forall_mem_cons.2 ⟨?_, hall⟩
      exact ⟨line_blank _, readsKey_plain hplain.1, plain_ne_proto hplain.1, hreads⟩

theorem written_obj {members : List (Utf16 × JsValue)} (hkeys : (members.map Prod.fst).Nodup)
    (hjson : ∀ m ∈ members, IsJson m.2) (hplain : ∀ m ∈ members, isPlainKey m.1 = true)
    (h : ∀ m ∈ members, ∀ n, Written U n m.2) (n : ℕ) : Written U n (.obj members) := by
  by_cases hempty : members.isEmpty = true
  · obtain rfl := List.isEmpty_iff.1 hempty
    refine ⟨[123, 125], [], ?_, head_bracket (by decide), ?_⟩
    · rw [renderValueLines, if_pos hempty]
      rfl
    · exact @readsAs_object U [] (by simp) (by simp) [] rfl
  refine ⟨[123], renderMembers n members ++ [spaces n ++ [125]], ?_, head_bracket (by decide), ?_⟩
  · rw [renderValueLines, if_neg hempty]
    rfl
  obtain ⟨ms, hms, hmembers, hall⟩ := exists_memberTexts hjson hplain fun m hm => h m hm (n + 2)
  have htext : [123] ++ onLines (renderMembers n members ++ [spaces n ++ [125]]) =
      123 :: (spellMembers ms ++ (10 :: spaces n ++ [125])) := by
    rw [onLines_append, hms]
    simp [onLines]
  have hnodup : (ms.map (·.key)).Nodup := by
    rw [← hmembers, List.map_map] at hkeys
    exact hkeys
  have hreads := readsAs_object hall hnodup (line_blank n)
  rw [hmembers] at hreads
  rw [htext]
  exact hreads

/-- The lines of a value with plain keys are a literal of it. -/
theorem written {v : JsValue} (hjson : IsJson v) (hplain : plainKeys v = true) (n : ℕ) :
    Written U n v := by
  induction v generalizing n with
  | null | bool | num | str => exact written_scalar hjson rfl n
  | arr items ih =>
    cases hjson with
    | arr hitems =>
      rw [plainKeys, plainKeysItems_iff] at hplain
      exact written_arr (fun item hi => ih item hi (hitems item hi) (hplain item hi)) n
  | obj members ih =>
    cases hjson with
    | obj hkeys hmembers =>
      rw [plainKeys, plainKeysMembers_iff] at hplain
      exact written_obj hkeys hmembers (fun m hm => (hplain m hm).1)
        (fun m hm => ih m hm (hmembers m hm) (hplain m hm).2) n

/-- The text of a value is read as the value. -/
theorem readsAs_renderValue {v : JsValue} (hjson : IsJson v) (hplain : plainKeys v = true) :
    ReadsAs U (renderValue (some v)) v := by
  obtain ⟨first, rest, hlines, -, hreads⟩ := written (U := U) hjson hplain 0
  rw [renderValue, renderOptionLines, hlines, joinLines_cons]
  exact hreads

end Values

/-! ## Statements are read back -/

section Statements

variable {U : Unicode} {rest : Utf16} {fuel : ℕ}

theorem eatAll_word {blank word : Utf16} (hblank : blank.all isWhiteSpace = true)
    (htoken : (Lexeme.word word).isToken = true) (hrest : Apart rest) :
    eatAll U [.word word] (blank ++ (word ++ rest)) = some rest := by
  rw [eatAll, List.foldlM_cons, eatLexeme, readName_word hblank htoken hrest, Option.bind_some,
    if_pos rfl]
  rfl

theorem eatAll_mark {blank : Utf16} {c : CodeUnit} (hblank : blank.all isWhiteSpace = true)
    (hc : isWhiteSpace c = false) (rest : Utf16) :
    eatAll U [.mark [c]] (blank ++ c :: rest) = some rest := by
  rw [eatAll, List.foldlM_cons, eatLexeme, skipBlank_append hblank, skipBlank_cons hc]
  exact congrArg (Option.bind · some) (eat_append [c] rest)

theorem isToken_export : (Lexeme.word (ascii "export")).isToken = true := by
  decide

/-- `export const name = literal as const;`. -/
theorem readStatement_const {blank name text : Utf16} {v : JsValue}
    (hblank : blank.all isWhiteSpace = true) (hname : isIdentifier name = true)
    (hreads : ReadsAs U text v) (hnull : v ≠ .null) (hfuel : text.length < fuel) :
    ∃ w, readStatement U fuel (blank ++ (ascii "export const " ++ name ++ ascii " = " ++ text ++
      ascii " as const;" ++ rest)) = some (.exportConst name w, rest) ∧ Same w v := by
  have htext : blank ++ (ascii "export const " ++ name ++ ascii " = " ++ text ++
      ascii " as const;" ++ rest) = blank ++ (ascii "export" ++ ([32] ++ (ascii "const" ++
        ([32] ++ (name ++ ([32] ++ 61 :: ([32] ++ text ++ (ascii " as const;" ++ rest)))))))) := by
    simp [ascii]
  have hspace : ∀ text, Apart ([32] ++ text) := apart_cons (by decide) (by decide)
  obtain ⟨w, hw, hsame⟩ := readsAs_blank blank_space hreads fuel
    (ascii " as const;" ++ rest) (by rw [List.length_append, List.length_singleton]; omega)
    (delimited_cons (by decide))
  have hend : eatAll U (words ["as", "const"] ++ [.mark (ascii ";")]) (ascii " as const;" ++ rest) =
      some rest :=
    eatAll_spell (show isSpelled [([32], .word (ascii "as")), ([32], .word (ascii "const")),
      ([], .mark (ascii ";"))] = true by decide) (by simp)
  have hvalue : isNull w = false := by
    cases hsame with
    | null => exact absurd rfl hnull
    | _ => rfl
  refine ⟨w, ?_, hsame⟩
  rw [htext, readStatement]
  have hexport := eatAll_word (U := U) hblank isToken_export
    (hspace (ascii "const" ++ ([32] ++ (name ++ ([32] ++ 61 ::
      ([32] ++ text ++ (ascii " as const;" ++ rest)))))))
  have hconst := readName_word (U := U) blank_space
    (show (Lexeme.word (ascii "const")).isToken = true by decide)
    (hspace (name ++ ([32] ++ 61 :: ([32] ++ text ++ (ascii " as const;" ++ rest)))))
  have hbound := readName_word (U := U) blank_space (isToken_identifier hname)
    (hspace (61 :: ([32] ++ text ++ (ascii " as const;" ++ rest))))
  have hequals := eatAll_mark (U := U) (c := 61) blank_space (by decide)
    ([32] ++ text ++ (ascii " as const;" ++ rest))
  have hone : words ["export"] = [.word (ascii "export")] ∧ ascii "=" = [61] := ⟨rfl, rfl⟩
  simp only [hone.1, hone.2, Option.bind_eq_bind, hexport, hconst, hbound, hequals, hw, hend,
    Option.bind_some, if_true, hvalue, Bool.false_eq_true, if_false]

/-- `export type name = typeof other;`. -/
theorem readStatement_type {blank typeName name : Utf16} (hblank : blank.all isWhiteSpace = true)
    (htype : isIdentifier typeName = true) (hname : isIdentifier name = true) :
    readStatement U fuel (blank ++ (ascii "export type " ++ typeName ++ ascii " =\n  typeof " ++
      name ++ ascii ";" ++ rest)) = some (.exportType typeName name, rest) := by
  have htext : blank ++ (ascii "export type " ++ typeName ++ ascii " =\n  typeof " ++ name ++
      ascii ";" ++ rest) = blank ++ (ascii "export" ++ ([32] ++ (ascii "type" ++
        ([32] ++ (typeName ++ ([32] ++ 61 :: ([10, 32, 32] ++ (ascii "typeof" ++
          ([32] ++ (name ++ ([] ++ 59 :: rest))))))))))) := by
    simp [ascii]
  have hspace : ∀ text, Apart ([32] ++ text) := apart_cons (by decide) (by decide)
  have hexport := eatAll_word (U := U) hblank isToken_export
    (hspace (ascii "type" ++ ([32] ++ (typeName ++ ([32] ++ 61 :: ([10, 32, 32] ++
      (ascii "typeof" ++ ([32] ++ (name ++ ([] ++ 59 :: rest))))))))))
  have hkeyword := readName_word (U := U) blank_space
    (show (Lexeme.word (ascii "type")).isToken = true by decide)
    (hspace (typeName ++ ([32] ++ 61 :: ([10, 32, 32] ++
      (ascii "typeof" ++ ([32] ++ (name ++ ([] ++ 59 :: rest))))))))
  have hbound := readName_word (U := U) blank_space (isToken_identifier htype)
    (hspace (61 :: ([10, 32, 32] ++ (ascii "typeof" ++ ([32] ++ (name ++ ([] ++ 59 :: rest)))))))
  have hequals := eatAll_mark (U := U) (c := 61) blank_space (by decide)
    ([10, 32, 32] ++ (ascii "typeof" ++ ([32] ++ (name ++ ([] ++ 59 :: rest)))))
  have htypeof := eatAll_word (U := U) (show List.all [10, 32, 32] isWhiteSpace = true by decide)
    (show (Lexeme.word (ascii "typeof")).isToken = true by decide)
    (hspace (name ++ ([] ++ 59 :: rest)))
  have hqueried := readName_word (U := U) blank_space (isToken_identifier hname)
    (show Apart ([] ++ 59 :: rest) from apart_cons (by decide) (by decide) rest)
  have hend := eatAll_mark (U := U) (c := 59) (show List.all [] isWhiteSpace = true from rfl)
    (by decide) rest
  have hone : words ["export"] = [.word (ascii "export")] ∧ words ["typeof"] =
      [.word (ascii "typeof")] ∧ ascii "=" = [61] ∧ ascii ";" = [59] := ⟨rfl, rfl, rfl, rfl⟩
  have hother : ascii "type" ≠ ascii "const" := by decide
  rw [htext, readStatement]
  simp only [hone.1, hone.2.1, hone.2.2.1, hone.2.2.2, Option.bind_eq_bind, hexport, hkeyword,
    hbound, hequals, htypeof, hqueried, hend, Option.bind_some, if_true, hother, if_false]

/-- A text of nothing but white space has no statement. -/
theorem skipBlank_of_readStatement {text : Utf16} {r : Statement × Utf16}
    (h : readStatement U fuel text = some r) : skipBlank text ≠ [] := by
  intro hskip
  have hexport : eatAll U (words ["export"]) text = none := by
    have hname : readName U [] = none := rfl
    have hone : words ["export"] = [.word (ascii "export")] := rfl
    rw [hone, eatAll, List.foldlM_cons, eatLexeme, hskip, hname]
    rfl
  simp only [readStatement, hexport, Option.bind_eq_bind, Option.bind_none] at h
  cases h

theorem readStatements_cons {text : Utf16} {statement : Statement}
    (h : readStatement U fuel text = some (statement, rest)) (n : ℕ) :
    readStatements U fuel (n + 1) text = (readStatements U fuel n rest).map (statement :: ·) := by
  rw [readStatements, if_neg (skipBlank_of_readStatement h), h, Option.bind_some]

end Statements

/-! ## Modules are read back -/

/-- An export that a module can have : its value is JSON with plain keys, and not null. -/
structure RecipeExport.Renderable (e : RecipeExport) : Prop where
  name : isIdentifier e.name = true
  typeName : isIdentifier e.typeName = true
  value : ∃ v, e.value = some v ∧ IsJson v ∧ plainKeys v = true ∧ v ≠ .null

/-- A constant that is bound to the value of an export. -/
def BoundTo (constant : Utf16 × JsValue) (e : RecipeExport) : Prop :=
  constant.1 = e.name ∧ ∃ v, e.value = some v ∧ Same constant.2 v

section Modules

variable {U : Unicode} {fuel : ℕ}

theorem readStatements_export {e : RecipeExport} (he : e.Renderable) {blank : Utf16}
    (hblank : blank.all isWhiteSpace = true) (hfuel : (renderExport e).length ≤ fuel)
    (tail : Utf16) (n : ℕ) :
    ∃ w, BoundTo (e.name, w) e ∧
      readStatements U fuel (n + 2) (blank ++ (renderExport e ++ tail)) =
        (readStatements U fuel n tail).map fun statements =>
          .exportConst e.name w :: .exportType e.typeName e.name :: statements := by
  obtain ⟨v, hv, hjson, hplain, hnull⟩ := he.value
  have htext : blank ++ (renderExport e ++ tail) = blank ++ (ascii "export const " ++ e.name ++
      ascii " = " ++ renderValue (some v) ++ ascii " as const;" ++ ([10, 10] ++
        (ascii "export type " ++ e.typeName ++ ascii " =\n  typeof " ++ e.name ++ ascii ";" ++
          tail))) := by
    simp [renderExport, hv, ascii]
  have hlength : (renderValue (some v)).length < fuel := by
    simp only [renderExport, hv, List.length_append] at hfuel
    have hconst : 0 < (ascii "export const ").length := by decide
    omega
  obtain ⟨w, hw, hsame⟩ := @readStatement_const U ([10, 10] ++
    (ascii "export type " ++ e.typeName ++ ascii " =\n  typeof " ++ e.name ++ ascii ";" ++ tail)) _
    _ _ _ _ hblank he.name (readsAs_renderValue hjson hplain) hnull hlength
  have htype := @readStatement_type U tail fuel _ _ _ blank_lines he.typeName he.name
  refine ⟨w, ⟨rfl, v, hv, hsame⟩, ?_⟩
  rw [htext, readStatements_cons hw, readStatements_cons htype, Option.map_map]
  rfl

/-- What is read of some exports : two statements for each. -/
def ReadExports (U : Unicode) (fuel n : ℕ) (text : Utf16) (exports : List RecipeExport) : Prop :=
  ∃ statements constants, readStatements U fuel n text = some statements ∧
    statements.filterMap Statement.constant? = constants ∧
    statements.filterMap Statement.type? = exports.map (fun e => (e.typeName, e.name)) ∧
    List.Forall₂ BoundTo constants exports

theorem ReadExports.cons {e : RecipeExport} {exports : List RecipeExport} {blank tail : Utf16}
    {n : ℕ} (h : ReadExports U fuel n tail exports) (he : e.Renderable)
    (hblank : blank.all isWhiteSpace = true) (hfuel : (renderExport e).length ≤ fuel) :
    ReadExports U fuel (n + 2) (blank ++ (renderExport e ++ tail)) (e :: exports) := by
  obtain ⟨statements, constants, hread, hconstants, htypes, hbound⟩ := h
  obtain ⟨w, hw, hexport⟩ := readStatements_export (U := U) he hblank hfuel tail n
  rw [hread, Option.map_some] at hexport
  refine ⟨_, (e.name, w) :: constants, hexport, ?_, ?_, .cons hw hbound⟩
  · rw [← hconstants]
    rfl
  · rw [List.map_cons, ← htypes]
    rfl

theorem readExports {exports : List RecipeExport} (h : ∀ e ∈ exports, e.Renderable)
    (hfuel : ∀ e ∈ exports, (renderExport e).length ≤ fuel) {n : ℕ}
    (hn : 2 * exports.length < n) : ReadExports U fuel n
      ((exports.map renderExport).flatMap ([10, 10] ++ ·) ++ [10]) exports := by
  induction exports generalizing n with
  | nil =>
    obtain ⟨n, rfl⟩ : ∃ m, n = m + 1 := ⟨n - 1, by omega⟩
    exact ⟨[], [], rfl, rfl, rfl, .nil⟩
  | cons e exports ih =>
    rw [List.forall_mem_cons] at h hfuel
    rw [List.length_cons] at hn
    obtain ⟨n, rfl⟩ : ∃ m, n = m + 2 := ⟨n - 2, by omega⟩
    have htail := ih h.2 hfuel.2 (n := n) (by omega)
    have hcons := htail.cons h.1 blank_lines hfuel.1
    rwa [← List.append_assoc, ← List.append_assoc, ← List.flatMap_cons, ← List.map_cons] at hcons

theorem BoundTo.names {constants : List (Utf16 × JsValue)} {exports : List RecipeExport}
    (h : List.Forall₂ BoundTo constants exports) :
    constants.map Prod.fst = exports.map (·.name) := by
  induction h with
  | nil => rfl
  | cons hbound _ ih => rw [List.map_cons, List.map_cons, hbound.1, ih]

theorem length_paragraphs (lines : List Utf16) :
    2 * lines.length ≤ (lines.flatMap ([10, 10] ++ ·)).length ∧ ∀ line ∈ lines,
      line.length + 2 * lines.length ≤ (lines.flatMap ([10, 10] ++ ·)).length := by
  induction lines with
  | nil => simp
  | cons line lines ih =>
    simp only [List.flatMap_cons, List.length_append, List.length_cons, List.length_nil]
    refine ⟨by omega, List.forall_mem_cons.2 ⟨by omega, fun other hother => ?_⟩⟩
    have := ih.2 other hother
    omega

/-- A rendered module binds the name of each export to its value. -/
theorem evalModule_renderModule {exports : List RecipeExport} (hne : exports ≠ [])
    (h : ∀ e ∈ exports, e.Renderable) (hnames : (exports.map (·.name)).Nodup)
    (htypes : (exports.map (·.typeName)).Nodup)
    (hbinding : ∀ e ∈ exports, isBindingName e.name = true)
    (htypeNames : ∀ e ∈ exports, isTypeName e.typeName = true) :
    ∃ constants, evalModule U (renderModule exports) = some constants ∧
      List.Forall₂ BoundTo constants exports := by
  obtain ⟨e, rest, rfl⟩ := List.exists_cons_of_ne_nil hne
  have htext : renderModule (e :: rest) =
      [] ++ (renderExport e ++ ((rest.map renderExport).flatMap ([10, 10] ++ ·) ++ [10])) := by
    rw [renderModule, List.map_cons, joinLines_cons, List.append_assoc, List.nil_append]
  obtain ⟨hcount, hlines⟩ := length_paragraphs (rest.map renderExport)
  have hlength : (renderModule (e :: rest)).length = (renderExport e).length +
      ((rest.map renderExport).flatMap ([10, 10] ++ ·)).length + 1 := by
    rw [htext]
    simp only [List.length_append, List.length_nil, List.length_singleton]
    omega
  have hfirst : 0 < (renderExport e).length := by
    simp [renderExport, ascii]
  rw [List.length_map] at hcount hlines
  have hall := List.forall_mem_cons.1 h
  have hfuel : ∀ f ∈ rest, (renderExport f).length ≤ (renderModule (e :: rest)).length + 1 := by
    intro f hf
    have := hlines _ (List.mem_map_of_mem hf)
    omega
  have hrest := readExports (U := U) hall.2 hfuel
    (n := (renderModule (e :: rest)).length - 1) (by omega)
  obtain ⟨statements, constants, hread, hconstants, htypeList, hbound⟩ :=
    hrest.cons hall.1 (show List.all [] isWhiteSpace = true from rfl) (by omega)
  have hsucc : (renderModule (e :: rest)).length - 1 + 2 =
      (renderModule (e :: rest)).length + 1 := by omega
  rw [hsucc, ← htext] at hread
  refine ⟨constants, ?_, hbound⟩
  have hfst := BoundTo.names hbound
  have hconstantNames : ∀ c ∈ constants, isBindingName c.1 = true := by
    intro c hc
    have hmem : c.1 ∈ (e :: rest).map (·.name) := hfst ▸ List.mem_map_of_mem hc
    obtain ⟨f, hf, hname⟩ := List.mem_map.1 hmem
    exact hname ▸ hbinding f hf
  have htypeFirst : (((e :: rest).map fun f => (f.typeName, f.name)).map Prod.fst).Nodup := by
    rw [List.map_map]
    exact htypes
  have hqueried : ∀ t ∈ (e :: rest).map (fun f => (f.typeName, f.name)),
      t.2 ∈ constants.map Prod.fst := by
    rw [hfst]
    exact List.forall_mem_map.2 fun f hf => List.mem_map_of_mem hf
  rw [evalModule, hread, Option.bind_some]
  dsimp only
  rw [hconstants, htypeList, if_pos ⟨hfst ▸ hnames, hconstantNames, htypeFirst,
    List.forall_mem_map.2 htypeNames, hqueried⟩]

end Modules

end ModuleRecipe

end FactoryFloor
