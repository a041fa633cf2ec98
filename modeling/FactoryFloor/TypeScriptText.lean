import FactoryFloor.CanonicalJson
import FactoryFloor.CodePoints
import FactoryFloor.JsObjects

/-!
# Literals and modules of TypeScript

The part of TypeScript that has literals, exported constants with the types of them, and tests of
these. A literal is null, a boolean, a number, a string, an array or an object, with any white space
between its tokens and with trailing commas. `readLiteral` reads one and evaluates it : a name or
the value of a number stands for a property key, and a property `__proto__` sets the prototype, so
the object has no such member.

`evalModule` and `evalTests` read a whole file. They give nothing for a file that is no module of
this part of the language, and for one that the compiler refuses : one that binds a reserved word or
a name twice, that declares the name of a predefined type, or that asserts `as const` of `null`.

Names may have any code points that Unicode allows. What Unicode says about the code points beyond
ASCII is a parameter.
-/

namespace TypeScript

open FactoryFloor JsonText

/-! ## Names -/

/-- What the Unicode standard says about code points. No name starts with white space. -/
structure Unicode where
  idStart : ℕ → Bool
  idContinue : ℕ → Bool
  blank : ∀ c : CodeUnit, isWhiteSpace c = true → idStart c.val = false

/-- The ASCII code points that a name can start with. -/
def isAsciiStart (p : ℕ) : Bool :=
  65 ≤ p && p ≤ 90 || 97 ≤ p && p ≤ 122 || p = 36 || p = 95

/-- The ASCII code points of names. -/
def isAsciiPart (p : ℕ) : Bool :=
  isAsciiStart p || 48 ≤ p && p ≤ 57

section Names

variable (U : Unicode)

/-- `IdentifierStartChar`. -/
def isNameStart (p : ℕ) : Bool :=
  if p < 128 then isAsciiStart p else U.idStart p

/-- `IdentifierPartChar`. -/
def isNamePart (p : ℕ) : Bool :=
  if p < 128 then isAsciiPart p else U.idStart p || U.idContinue p || p = 0x200c || p = 0x200d

/-- `IdentifierName`, without escapes. -/
def isName (name : Utf16) : Bool :=
  (points name).head?.any (isNameStart U) && (points name).all (isNamePart U)

/-- The longest name that a text starts with, and the rest. -/
def readName (text : Utf16) : Option (Utf16 × Utf16) :=
  if (points text).head?.any (isNameStart U) then
    let name := ((points text).takeWhile (isNamePart U)).flatMap unitsOf
    some (name, text.drop name.length)
  else none

end Names

/-! ## Literals -/

/-- The text after white space and line ends. -/
def skipBlank (text : Utf16) : Utf16 :=
  text.dropWhile isWhiteSpace

/-- The code unit of an escape other than `u`. Escapes of digits and of line ends are left out. -/
def escaped (c : CodeUnit) : Option CodeUnit :=
  if c = 98 then some 8
  else if c = 116 then some 9
  else if c = 110 then some 10
  else if c = 118 then some 11
  else if c = 102 then some 12
  else if c = 114 then some 13
  else if isDigit c || c = 120 || c.val ∈ [10, 13, 0x2028, 0x2029] then none
  else some c

/-- A string, after its opening quotation mark. -/
def readString (quotation : CodeUnit) : Utf16 → Option (Utf16 × Utf16)
  | [] => none
  | c :: text =>
    if c = quotation then some ([], text)
    else if c = 92 then
      match text with
      | [] => none
      | e :: text =>
        if e = 117 then
          match text with
          | h₁ :: h₂ :: h₃ :: h₄ :: text =>
            (hexUnit h₁ h₂ h₃ h₄).bind fun u =>
              (readString quotation text).map fun r => (u :: r.1, r.2)
          | _ => none
        else (escaped e).bind fun u => (readString quotation text).map fun r => (u :: r.1, r.2)
    else if c = 10 ∨ c = 13 then none
    else (readString quotation text).map fun r => (c :: r.1, r.2)

/-- `String(x)`. -/
def numberText : JsNumber → Utf16
  | .finite x => numberToString x
  | .infinite true => ascii "-Infinity"
  | .infinite false => ascii "Infinity"

/-- The property key that a text starts with : a string, a number or a name. -/
def readKey (U : Unicode) (text : Utf16) : Option (Utf16 × Utf16) :=
  match text with
  | [] => none
  | c :: rest =>
    if c = 34 ∨ c = 39 then readString c rest
    else if isDigit c then
      (parseNumber text).bind fun r =>
        match r.1 with
        | .num token => some (numberText (numberOf token), r.2)
        | _ => none
    else readName U text

/-- The value of a word that is a literal. -/
def wordValue (word : Utf16) : Option JsValue :=
  if word = ascii "null" then some .null
  else if word = ascii "true" then some (.bool true)
  else if word = ascii "false" then some (.bool false)
  else none

/-- A word that is a literal, and the rest. -/
def wordLiteral (U : Unicode) (text : Utf16) : Option (JsValue × Utf16) :=
  (readName U text).bind fun word => (wordValue word.1).map fun value => (value, word.2)

section Literals

variable (U : Unicode)

mutual

/-- A literal, and the rest. A number may have a minus sign directly before it. -/
def readLiteral : ℕ → Utf16 → Option (JsValue × Utf16)
  | 0, _ => none
  | fuel + 1, text =>
    match skipBlank text with
    | [] => none
    | c :: text =>
      if c = 34 ∨ c = 39 then (readString c text).map fun r => (.str r.1, r.2)
      else if c = 91 then (readItems fuel text).map fun r => (.arr r.1, r.2)
      else if c = 123 then (readMembers fuel text).map fun r => (.obj (defineMembers r.1), r.2)
      else if isDigit c || c = 45 then (parseNumber (c :: text)).map fun r => (ofTree r.1, r.2)
      else wordLiteral U (c :: text)

/-- Items with commas after them, where the last comma may be missing, and the closing bracket. -/
def readItems : ℕ → Utf16 → Option (List JsValue × Utf16)
  | 0, _ => none
  | fuel + 1, text =>
    match eat [93] (skipBlank text) with
    | some rest => some ([], rest)
    | none =>
      (readLiteral fuel text).bind fun item =>
        match eat [93] (skipBlank item.2) with
        | some rest => some ([item.1], rest)
        | none =>
          (eat [44] (skipBlank item.2)).bind fun rest =>
            (readItems fuel rest).map fun r => (item.1 :: r.1, r.2)

/-- Members with commas after them, where the last comma may be missing, and the closing brace. -/
def readMembers : ℕ → Utf16 → Option (List (Utf16 × JsValue) × Utf16)
  | 0, _ => none
  | fuel + 1, text =>
    match eat [125] (skipBlank text) with
    | some rest => some ([], rest)
    | none =>
      (readKey U (skipBlank text)).bind fun key =>
        (eat [58] (skipBlank key.2)).bind fun rest =>
          (readLiteral fuel rest).bind fun value =>
            let member := if key.1 = protoKey then [] else [(key.1, value.1)]
            match eat [125] (skipBlank value.2) with
            | some rest => some (member, rest)
            | none =>
              (eat [44] (skipBlank value.2)).bind fun rest =>
                (readMembers fuel rest).map fun r => (member ++ r.1, r.2)

end

end Literals

/-! ## Statements -/

/-- A token of a fixed text. -/
inductive Lexeme where
  | word (text : Utf16)
  | mark (text : Utf16)

/-- The words of a list. -/
def words (texts : List String) : List Lexeme :=
  texts.map (.word ∘ ascii)

section Statements

variable (U : Unicode)

/-- The rest of a text after a token. -/
def eatLexeme : Lexeme → Utf16 → Option Utf16
  | .word word, text =>
    (readName U (skipBlank text)).bind fun name => if name.1 = word then some name.2 else none
  | .mark mark, text => eat mark (skipBlank text)

/-- The rest of a text after some tokens. -/
def eatAll (lexemes : List Lexeme) (text : Utf16) : Option Utf16 :=
  lexemes.foldlM (fun text lexeme => eatLexeme U lexeme text) text

/-- A string in either quotation marks. -/
def eatString (text : Utf16) : Option (Utf16 × Utf16) :=
  match skipBlank text with
  | [] => none
  | c :: text => if c = 34 ∨ c = 39 then readString c text else none

inductive Statement where
  | exportConst (name : Utf16) (value : JsValue)
  | exportType (name queried : Utf16)

/-- Whether a value is null. -/
def isNull : JsValue → Bool
  | .null => true
  | _ => false

/-- `export const name = literal as const;`, or `export type name = typeof other;`. -/
def readStatement (fuel : ℕ) (text : Utf16) : Option (Statement × Utf16) := do
  let keyword ← readName U (skipBlank (← eatAll U (words ["export"]) text))
  let name ← readName U (skipBlank keyword.2)
  let text ← eatAll U [.mark (ascii "=")] name.2
  if keyword.1 = ascii "const" then
    let value ← readLiteral U fuel text
    let text ← eatAll U (words ["as", "const"] ++ [.mark (ascii ";")]) value.2
    if isNull value.1 then none else some (.exportConst name.1 value.1, text)
  else if keyword.1 = ascii "type" then
    let queried ← readName U (skipBlank (← eatAll U (words ["typeof"]) text))
    let text ← eatAll U [.mark (ascii ";")] queried.2
    some (.exportType name.1 queried.1, text)
  else none

/-- The statements of a text. Each takes a code unit. -/
def readStatements (fuel : ℕ) : ℕ → Utf16 → Option (List Statement)
  | 0, _ => none
  | n + 1, text =>
    if skipBlank text = [] then some []
    else (readStatement U fuel text).bind fun statement =>
      (readStatements fuel n statement.2).map (statement.1 :: ·)

end Statements

/-! ## Modules -/

/-- The words that a module cannot bind. -/
def reservedWords : List Utf16 :=
  ["await", "break", "case", "catch", "class", "const", "continue", "debugger", "default", "delete",
    "do", "else", "enum", "export", "extends", "false", "finally", "for", "function", "if",
    "implements", "import", "in", "instanceof", "interface", "let", "new", "null", "package",
    "private", "protected", "public", "return", "static", "super", "switch", "this", "throw",
    "true", "try", "typeof", "var", "void", "while", "with", "yield"].map ascii

/-- The names of the predefined types. -/
def predefinedTypes : List Utf16 :=
  ["any", "bigint", "boolean", "never", "number", "object", "string", "symbol", "undefined",
    "unknown", "void"].map ascii

/-- A name that a constant or an import can have. -/
def isBindingName (name : Utf16) : Bool :=
  name ∉ reservedWords && name ≠ ascii "eval" && name ≠ ascii "arguments"

/-- A name that a type can have. -/
def isTypeName (name : Utf16) : Bool :=
  name ∉ reservedWords && name ∉ predefinedTypes

def Statement.constant? : Statement → Option (Utf16 × JsValue)
  | .exportConst name value => some (name, value)
  | .exportType _ _ => none

def Statement.type? : Statement → Option (Utf16 × Utf16)
  | .exportConst _ _ => none
  | .exportType name queried => some (name, queried)

/-- The constants that a module exports, with what they are bound to. -/
def evalModule (U : Unicode) (text : Utf16) : Option (List (Utf16 × JsValue)) :=
  (readStatements U (text.length + 1) (text.length + 1) text).bind fun statements =>
    let constants := statements.filterMap Statement.constant?
    let types := statements.filterMap Statement.type?
    if (constants.map Prod.fst).Nodup ∧ (∀ c ∈ constants, isBindingName c.1) ∧
        (types.map Prod.fst).Nodup ∧ (∀ t ∈ types, isTypeName t.1) ∧
        ∀ t ∈ types, t.2 ∈ constants.map Prod.fst then
      some constants
    else none

/-! ## Tests -/

/-- `import { names } from 'source';`. -/
structure Import where
  names : List Utf16
  source : Utf16

/-- A suite of one test, which expects a name to equal a literal. -/
structure Suite where
  title : Utf16
  test : Utf16
  subject : Utf16
  expected : JsValue

section Tests

variable (U : Unicode)

/-- Names with commas between them, and the closing brace. -/
def readNames : ℕ → Utf16 → Option (List Utf16 × Utf16)
  | 0, _ => none
  | n + 1, text =>
    (readName U (skipBlank text)).bind fun name =>
      match eat [125] (skipBlank name.2) with
      | some rest => some ([name.1], rest)
      | none =>
        (eat [44] (skipBlank name.2)).bind fun rest =>
          (readNames n rest).map fun r => (name.1 :: r.1, r.2)

/-- An import, after its keyword. -/
def readImport (fuel : ℕ) (text : Utf16) : Option (Import × Utf16) := do
  let names ← readNames U fuel (← eatAll U [.mark (ascii "\x7b")] text)
  let source ← eatString (← eatAll U (words ["from"]) names.2)
  let text ← eatAll U [.mark (ascii ";")] source.2
  return (⟨names.1, source.1⟩, text)

/-- The imports that a text starts with, and the rest. -/
def readImports (fuel : ℕ) : ℕ → Utf16 → Option (List Import × Utf16)
  | 0, _ => none
  | n + 1, text =>
    match eatAll U (words ["import"]) text with
    | none => some ([], text)
    | some rest =>
      (readImport U fuel rest).bind fun i =>
        (readImports fuel n i.2).map fun r => (i.1 :: r.1, r.2)

/-- `, () => {`. -/
def opening : List Lexeme :=
  [",", "(", ")", "=>", "\x7b"].map (.mark ∘ ascii)

/-- `});`. -/
def closing : List Lexeme :=
  ["\x7d", ")", ";"].map (.mark ∘ ascii)

/-- `describe('..', () => { it('..', () => { expect(name).toEqual(literal); }); });`. -/
def readSuite (fuel : ℕ) (text : Utf16) : Option (Suite × Utf16) := do
  let title ← eatString (← eatAll U (words ["describe"] ++ [.mark (ascii "(")]) text)
  let test ← eatString (← eatAll U (opening ++ words ["it"] ++ [.mark (ascii "(")]) title.2)
  let text ← eatAll U (opening ++ words ["expect"] ++ [.mark (ascii "(")]) test.2
  let subject ← readName U (skipBlank text)
  let text ← eatAll U ([")", "."].map (.mark ∘ ascii) ++ words ["toEqual"] ++ [.mark (ascii "(")])
    subject.2
  let expected ← readLiteral U fuel text
  let text ← eatAll U ([")", ";"].map (.mark ∘ ascii) ++ closing ++ closing) expected.2
  return (⟨title.1, test.1, subject.1, expected.1⟩, text)

/-- The suites of a text. -/
def readSuites (fuel : ℕ) : ℕ → Utf16 → Option (List Suite)
  | 0, _ => none
  | n + 1, text =>
    if skipBlank text = [] then some []
    else (readSuite U fuel text).bind fun suite =>
      (readSuites fuel n suite.2).map (suite.1 :: ·)

/-- The suites of a test file. All that it uses is imported. -/
def evalTests (text : Utf16) : Option (List Suite) :=
  (readImports U (text.length + 1) (text.length + 1) text).bind fun imports =>
    (readSuites U (text.length + 1) (text.length + 1) imports.2).bind fun suites =>
      let names := imports.1.flatMap Import.names
      if names.Nodup ∧ (∀ name ∈ names, isBindingName name) ∧
          (∀ name ∈ ["describe", "it", "expect"].map ascii, name ∈ names) ∧
          ∀ suite ∈ suites, suite.subject ∈ names then
        some suites
      else none

end Tests

/-! ## Tokens are read back -/

section Tokens

variable {U : Unicode} {text rest : Utf16}

theorem skipBlank_append {blank : Utf16} (h : blank.all isWhiteSpace = true) (text : Utf16) :
    skipBlank (blank ++ text) = skipBlank text := by
  rw [skipBlank, List.dropWhile_append_of_pos (List.all_eq_true.1 h)]
  rfl

theorem skipBlank_cons {c : CodeUnit} (h : isWhiteSpace c = false) (text : Utf16) :
    skipBlank (c :: text) = c :: text := by
  rw [skipBlank, List.dropWhile_cons_of_neg (by rw [h]; exact Bool.false_ne_true)]

/-- The first code point of a text, when it is one code unit. -/
theorem head_points {c : CodeUnit} {text : Utf16} (h : isLeading c = false) :
    (points (c :: text)).head? = some c.val := by
  cases text with
  | nil => rfl
  | cons d text => simp [points, h]

/-- A text that no name goes on with. -/
def Apart (text : Utf16) : Prop :=
  ∀ c ∈ text.head?, c.val < 128 ∧ isAsciiPart c.val = false

theorem apart_cons {c : CodeUnit} (hascii : c.val < 128) (hpart : isAsciiPart c.val = false)
    (text : Utf16) : Apart (c :: text) := by
  intro d hd
  obtain rfl := Option.some.inj hd
  exact ⟨hascii, hpart⟩

theorem Apart.points (h : Apart text) : ∀ p ∈ (points text).head?, isNamePart U p = false := by
  cases text with
  | nil => simp [JsonText.points]
  | cons c text =>
    obtain ⟨hascii, hpart⟩ := h c rfl
    have hleading : isLeading c = false := by
      refine Bool.eq_false_iff.2 fun hc => ?_
      rw [isLeading_iff] at hc
      omega
    rw [head_points hleading]
    intro p hp
    obtain rfl := Option.some.inj hp
    rw [isNamePart, if_pos hascii]
    exact hpart

theorem readName_append {name : Utf16} (h : isName U name = true) (hrest : Apart rest) :
    readName U (name ++ rest) = some (name, rest) := by
  have htrailing : ∀ c ∈ rest.head?, isTrailing c = false := by
    intro c hc
    refine Bool.eq_false_iff.2 fun hpair => ?_
    have hascii := (hrest c hc).1
    rw [isTrailing_iff] at hpair
    omega
  rw [isName, Bool.and_eq_true, List.all_eq_true] at h
  obtain ⟨p, hhead, hp⟩ := (Option.any_eq_true _ _).1 h.1
  have hstop : (points rest).takeWhile (isNamePart U) = [] := by
    cases hpoints : points rest with
    | nil => rfl
    | cons q qs =>
      have hq : isNamePart U q = false := hrest.points q (by rw [hpoints]; rfl)
      rw [List.takeWhile_cons_of_neg (by rw [hq]; exact Bool.false_ne_true)]
  rw [readName, points_append htrailing, List.head?_append, hhead, Option.some_or, Option.any_some,
    if_pos hp, List.takeWhile_append_of_pos h.2, hstop, List.append_nil, flatMap_points]
  dsimp only
  rw [List.drop_left]

end Tokens

/-! ## Fixed tokens -/

/-- The text of a token. -/
def Lexeme.text : Lexeme → Utf16
  | .word text => text
  | .mark text => text

/-- Whether a token stands for itself : a word of ASCII letters, or a mark. -/
def Lexeme.isToken : Lexeme → Bool
  | .word [] | .mark [] => false
  | .word (c :: letters) => isAsciiStart c.val && (c :: letters).all fun d => isAsciiPart d.val
  | .mark (c :: _) => !isWhiteSpace c

/-- Tokens with the white space before each of them. -/
def spell (pieces : List (Utf16 × Lexeme)) : Utf16 :=
  pieces.flatMap fun p => p.1 ++ p.2.text

/-- Whether the tokens are told apart. -/
def isSpelled : List (Utf16 × Lexeme) → Bool
  | [] => true
  | p :: pieces =>
    p.1.all isWhiteSpace && p.2.isToken && isSpelled pieces &&
      match p.2, spell pieces with
      | .word _, c :: _ => decide (c.val < 128) && !isAsciiPart c.val
      | .word _, [] => pieces.isEmpty
      | .mark _, _ => true

section Fixed

variable {U : Unicode} {rest : Utf16}

theorem points_of_ascii {text : Utf16} (h : ∀ c ∈ text, c.val < 128) :
    points text = text.map Fin.val := by
  induction text using points.induct with
  | case1 => rfl
  | case2 c => rfl
  | case3 c d text hpair ih =>
    have hc := isLeading_iff.1 (Bool.and_eq_true_iff.1 hpair).1
    exact absurd (h c List.mem_cons_self) (by omega)
  | case4 c d text hpair ih =>
    rw [points, if_neg hpair, ih fun e he => h e (List.mem_cons_of_mem _ he)]
    rfl

theorem isAsciiPart_lt {p : ℕ} (h : isAsciiPart p = true) : p < 128 := by
  simp only [isAsciiPart, isAsciiStart, Bool.or_eq_true, Bool.and_eq_true, decide_eq_true_eq] at h
  omega

theorem isName_word {word : Utf16} (h : (Lexeme.word word).isToken = true) :
    isName U word = true := by
  cases word with
  | nil => cases h
  | cons c word =>
    rw [Lexeme.isToken, Bool.and_eq_true, List.all_eq_true] at h
    have hascii : ∀ d ∈ c :: word, d.val < 128 := fun d hd => isAsciiPart_lt (h.2 d hd)
    rw [isName, points_of_ascii hascii, Bool.and_eq_true, List.all_eq_true]
    refine ⟨?_, fun p hp => ?_⟩
    · rw [List.map_cons, List.head?_cons, Option.any_some, isNameStart,
        if_pos (hascii c List.mem_cons_self)]
      exact h.1
    · obtain ⟨d, hd, rfl⟩ := List.mem_map.1 hp
      rw [isNamePart, if_pos (hascii d hd)]
      exact h.2 d hd

/-- No number begins with white space. -/
theorem not_space_of_number {c : CodeUnit} (h : (isDigit c || c = 45) = true) :
    isWhiteSpace c = false := by
  obtain ⟨c, hc⟩ := c
  simp only [isDigit, Bool.or_eq_true, Bool.and_eq_true, decide_eq_true_eq, Fin.ext_iff] at h
  simp only [isWhiteSpace, List.mem_cons, List.not_mem_nil, or_false, Bool.or_eq_false_iff,
    Bool.and_eq_false_iff, decide_eq_false_iff_not]
  omega

theorem not_space_of_part {c : CodeUnit} (h : isAsciiPart c.val = true) :
    isWhiteSpace c = false := by
  obtain ⟨c, hc⟩ := c
  simp only [isAsciiPart, isAsciiStart, Bool.or_eq_true, Bool.and_eq_true, decide_eq_true_eq] at h
  simp only [isWhiteSpace, List.mem_cons, List.not_mem_nil, or_false, Bool.or_eq_false_iff,
    Bool.and_eq_false_iff, decide_eq_false_iff_not]
  omega

theorem blank_space : List.all ([32] : Utf16) isWhiteSpace = true := by
  decide

theorem blank_lines : List.all ([10, 10] : Utf16) isWhiteSpace = true := by
  decide

/-- A word is read, with the white space before it, where no name goes on. -/
theorem readName_word {blank word : Utf16} (hblank : blank.all isWhiteSpace = true)
    (htoken : (Lexeme.word word).isToken = true) (hrest : Apart rest) :
    readName U (skipBlank (blank ++ (word ++ rest))) = some (word, rest) := by
  have hskip : skipBlank (word ++ rest) = word ++ rest := by
    cases word with
    | nil => cases htoken
    | cons c word =>
      rw [Lexeme.isToken, Bool.and_eq_true, List.all_eq_true] at htoken
      exact skipBlank_cons (not_space_of_part (htoken.2 c List.mem_cons_self)) _
  rw [skipBlank_append hblank, hskip, readName_append (isName_word htoken) hrest]

/-- A token is read, with the white space before it, where no name goes on. -/
theorem eatLexeme_append {blank : Utf16} {lexeme : Lexeme} (hblank : blank.all isWhiteSpace = true)
    (htoken : lexeme.isToken = true) (hrest : ∀ word, lexeme = .word word → Apart rest) :
    eatLexeme U lexeme (blank ++ lexeme.text ++ rest) = some rest := by
  rw [List.append_assoc]
  cases lexeme with
  | word word =>
    rw [eatLexeme, Lexeme.text, readName_word hblank htoken (hrest word rfl), Option.bind_some,
      if_pos rfl]
  | mark mark =>
    have hskip : skipBlank (mark ++ rest) = mark ++ rest := by
      cases mark with
      | nil => cases htoken
      | cons c mark => exact skipBlank_cons (by simpa [Lexeme.isToken] using htoken) _
    rw [eatLexeme, Lexeme.text, skipBlank_append hblank, hskip, eat_append]

/-- Spelled tokens are read. -/
theorem eatAll_spell {pieces : List (Utf16 × Lexeme)} (h : isSpelled pieces = true)
    (hrest : ∀ word, (pieces.map Prod.snd).getLast? = some (.word word) → Apart rest) :
    eatAll U (pieces.map Prod.snd) (spell pieces ++ rest) = some rest := by
  induction pieces with
  | nil => rfl
  | cons p pieces ih =>
    simp only [isSpelled, Bool.and_eq_true] at h
    obtain ⟨⟨⟨hblank, htoken⟩, hpieces⟩, hnext⟩ := h
    have hlast : ∀ word, (pieces.map Prod.snd).getLast? = some (.word word) → Apart rest := by
      intro word hword
      refine hrest word ?_
      rw [List.map_cons, List.getLast?_cons, hword]
      rfl
    have happly : ∀ word, p.2 = .word word → Apart (spell pieces ++ rest) := by
      intro word hword
      rw [hword] at hnext
      cases hspell : spell pieces with
      | nil =>
        rw [hspell] at hnext
        have hempty : pieces = [] := List.isEmpty_iff.1 hnext
        rw [List.nil_append]
        refine hrest word ?_
        rw [hempty, List.map_cons, List.map_nil, List.getLast?_singleton, hword]
      | cons c text =>
        rw [hspell] at hnext
        simp only [Bool.and_eq_true, decide_eq_true_eq, Bool.not_eq_true'] at hnext
        intro d hd
        obtain rfl := Option.some.inj hd
        exact hnext
    have hspell : spell (p :: pieces) ++ rest = p.1 ++ p.2.text ++ (spell pieces ++ rest) := by
      rw [spell, List.flatMap_cons, List.append_assoc]
      rfl
    rw [hspell, List.map_cons, eatAll, List.foldlM_cons, eatLexeme_append hblank htoken happly]
    exact ih hpieces hlast

end Fixed

end TypeScript
