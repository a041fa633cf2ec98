import FactoryFloor.RecipePlans
import FactoryFloor.RenderedModules

/-!
# What a module and its test mean

`renderTest` writes two imports and a suite for each test case. `evalTests_renderTest` reads them
back.

`module_denotes` is about the inputs of the recipe. Where the language can express what they declare
(`ExpressibleExport`, `ExpressibleCase`), the module has the declared constants and no others, and
the suites expect the declared values. Neither the order of the inputs nor the order of the keys of
their objects matters.
-/

namespace FactoryFloor

open JsonText TypeScript

namespace ModuleRecipe

/-! ## Imports are read back -/

section Imports

variable {U : Unicode} {rest : Utf16}

/-- A code unit that stands for itself in a string. -/
def isStringUnit (c : CodeUnit) : Bool :=
  c ≠ 39 && c ≠ 92 && c ≠ 10 && c ≠ 13

theorem readString_plain {text : Utf16} (h : text.all isStringUnit = true) (rest : Utf16) :
    readString 39 (text ++ 39 :: rest) = some (text, rest) := by
  induction text with
  | nil => exact readString_close rest
  | cons c text ih =>
    rw [List.all_cons, Bool.and_eq_true] at h
    obtain ⟨hc, htext⟩ := h
    simp only [isStringUnit, Bool.and_eq_true, decide_eq_true_eq] at hc
    obtain ⟨⟨⟨hquote, hbackslash⟩, hfeed⟩, hreturn⟩ := hc
    rw [List.cons_append, readString_cons _ hquote hbackslash (not_or.2 ⟨hfeed, hreturn⟩), ih htext]
    rfl

theorem eatString_of_readString {body s : Utf16} {blank : Utf16}
    (hblank : blank.all isWhiteSpace = true) (h : readString 39 body = some (s, rest)) :
    eatString (blank ++ 39 :: body) = some (s, rest) := by
  rw [eatString, skipBlank_append hblank, skipBlank_cons (by decide)]
  simp only [or_true, if_true, h]

/-- Names with commas between them are read. -/
theorem readNames_joined {name : Utf16} {names : List Utf16}
    (h : ∀ n ∈ name :: names, isIdentifier n = true) {n : ℕ} (hn : names.length < n) :
    readNames U n ([32] ++ (joinLines (ascii ", ") (name :: names) ++ (ascii " \x7d" ++ rest))) =
      some (name :: names, rest) := by
  induction names generalizing name n with
  | nil =>
    obtain ⟨n, rfl⟩ : ∃ m, n = m + 1 := ⟨n - 1, by omega⟩
    have hname := readName_word (U := U) blank_space
      (isToken_identifier (h name List.mem_cons_self))
      (show Apart (ascii " \x7d" ++ rest) from apart_cons (by decide) (by decide) _)
    have hclose : eat [125] (skipBlank (ascii " \x7d" ++ rest)) = some rest := by
      have htext : ascii " \x7d" ++ rest = [32] ++ (125 :: rest) := rfl
      rw [htext, skipBlank_append (by decide), skipBlank_cons (by decide)]
      exact eat_append [125] rest
    rw [joinLines, readNames, hname, Option.bind_some, hclose]
  | cons next names ih =>
    obtain ⟨n, rfl⟩ : ∃ m, n = m + 1 := ⟨n - 1, by omega⟩
    rw [List.forall_mem_cons] at h
    rw [List.length_cons] at hn
    have htext : joinLines (ascii ", ") (name :: next :: names) ++ (ascii " \x7d" ++ rest) =
        name ++ (44 :: ([32] ++ (joinLines (ascii ", ") (next :: names) ++
          (ascii " \x7d" ++ rest)))) := by
      rw [joinLines]
      · simp [ascii]
      · exact List.cons_ne_nil _ _
    have hname := readName_word (U := U) blank_space (isToken_identifier h.1)
      (apart_cons (c := 44) (by decide) (by decide)
        ([32] ++ (joinLines (ascii ", ") (next :: names) ++ (ascii " \x7d" ++ rest))))
    rw [htext, readNames, hname, Option.bind_some, eat_before_comma (by decide)]
    dsimp only
    rw [eat_comma, Option.bind_some, ih h.2 (by omega), Option.map_some]

/-- The text of an import. -/
def importText (names : List Utf16) (source : Utf16) : Utf16 :=
  ascii "import \x7b " ++ joinLines (ascii ", ") names ++ ascii " \x7d from '" ++ source ++
    ascii "';"

theorem readImports_import {names : List Utf16} {source blank : Utf16} (hne : names ≠ [])
    (hnames : ∀ n ∈ names, isIdentifier n = true) (hsource : source.all isStringUnit = true)
    (hblank : blank.all isWhiteSpace = true) {fuel : ℕ} (hfuel : names.length ≤ fuel) (n : ℕ) :
    readImports U fuel (n + 1) (blank ++ (importText names source ++ rest)) =
      (readImports U fuel n rest).map fun r => (⟨names, source⟩ :: r.1, r.2) := by
  obtain ⟨name, names, rfl⟩ := List.exists_cons_of_ne_nil hne
  have htext : blank ++ (importText (name :: names) source ++ rest) = blank ++ (ascii "import" ++
      ([32] ++ 123 :: ([32] ++ (joinLines (ascii ", ") (name :: names) ++ (ascii " \x7d" ++
        ([32] ++ (ascii "from" ++ ([32] ++ 39 :: (source ++ 39 :: ([] ++ 59 :: rest)))))))))) := by
    simp [importText, ascii]
  have hspace : ∀ text, Apart ([32] ++ text) := apart_cons (by decide) (by decide)
  have hkeyword := eatAll_word (U := U) hblank
    (show (Lexeme.word (ascii "import")).isToken = true by decide)
    (hspace (123 :: ([32] ++ (joinLines (ascii ", ") (name :: names) ++ (ascii " \x7d" ++
      ([32] ++ (ascii "from" ++ ([32] ++ 39 :: (source ++ 39 :: ([] ++ 59 :: rest))))))))))
  have hopen := eatAll_mark (U := U) (c := 123) blank_space (by decide)
    ([32] ++ (joinLines (ascii ", ") (name :: names) ++ (ascii " \x7d" ++
      ([32] ++ (ascii "from" ++ ([32] ++ 39 :: (source ++ 39 :: ([] ++ 59 :: rest))))))))
  rw [List.length_cons] at hfuel
  have hnamed := @readNames_joined U ([32] ++ (ascii "from" ++ ([32] ++ 39 ::
    (source ++ 39 :: ([] ++ 59 :: rest))))) name names hnames fuel (by omega)
  have hfrom := eatAll_word (U := U) blank_space
    (show (Lexeme.word (ascii "from")).isToken = true by decide)
    (hspace (39 :: (source ++ 39 :: ([] ++ 59 :: rest))))
  have hstring := eatString_of_readString blank_space
    (readString_plain hsource ([] ++ 59 :: rest))
  have hend := eatAll_mark (U := U) (c := 59) (show List.all [] isWhiteSpace = true from rfl)
    (by decide) rest
  have hone : words ["import"] = [.word (ascii "import")] ∧ words ["from"] =
      [.word (ascii "from")] ∧ ascii "\x7b" = [123] ∧ ascii ";" = [59] := ⟨rfl, rfl, rfl, rfl⟩
  rw [htext, readImports]
  simp only [hone.1, hkeyword]
  simp only [readImport, hone.2.1, hone.2.2.1, hone.2.2.2, Option.bind_eq_bind, hopen, hnamed,
    hfrom, hstring, hend, Option.bind_some, Option.pure_def]

end Imports

/-! ## Suites are read back -/

/-- A test case that a test file can have. -/
structure RecipeTestCase.Renderable (testCase : RecipeTestCase) : Prop where
  exportName : isIdentifier testCase.exportName = true
  expected : ∃ v, testCase.expected = some v ∧ IsJson v ∧ plainKeys v = true

/-- A suite with the title, the test and the expectation of a test case. -/
def Expects (suite : Suite) (testCase : RecipeTestCase) : Prop :=
  suite.title = testCase.exportName ∧ suite.test = testCase.name ∧
    suite.subject = testCase.exportName ∧
      ∃ v, testCase.expected = some v ∧ Same suite.expected v

section Suites

variable {U : Unicode} {rest : Utf16} {fuel : ℕ}

theorem isStringUnit_identifier {name : Utf16} (h : isIdentifier name = true) :
    name.all isStringUnit = true := by
  refine List.all_eq_true.2 fun c hc => ?_
  have htoken := isToken_identifier h
  cases name with
  | nil => cases h
  | cons d letters =>
    rw [Lexeme.isToken, Bool.and_eq_true, List.all_eq_true] at htoken
    have hpart := htoken.2 c hc
    obtain ⟨c, hlt⟩ := c
    simp only [isAsciiPart, isAsciiStart, Bool.or_eq_true, Bool.and_eq_true,
      decide_eq_true_eq] at hpart
    simp only [isStringUnit, Bool.and_eq_true, decide_eq_true_eq, ne_eq, Fin.ext_iff]
    omega

/-- The literal of an expectation ends before the parenthesis, maybe on a line of its own. -/
theorem exists_expectedText {v : JsValue} (hjson : IsJson v) (hplain : plainKeys v = true) :
    ∃ text blank, trimStart ((renderOptionLines 4 (some v)).headD []) ++ [10] ++
        joinLines [10] (renderOptionLines 4 (some v)).tail = text ++ blank ∧
      (blank = [] ∨ blank = [10]) ∧ ReadsAs U text v := by
  obtain ⟨first, lines, hlines, hfirst, hreads⟩ := written (U := U) hjson hplain 4
  rw [renderOptionLines, hlines, List.headD_cons, List.tail_cons, trimStart_spaces hfirst]
  cases lines with
  | nil =>
    rw [onLines, List.flatMap_nil, List.append_nil] at hreads
    exact ⟨first, [10], by simp [joinLines], Or.inr rfl, hreads⟩
  | cons line lines =>
    refine ⟨first ++ onLines (line :: lines), [], ?_, Or.inl rfl, hreads⟩
    rw [joinLines_cons, onLines, List.flatMap_cons]
    simp

/-- What follows the literal of an expectation. -/
theorem eatAll_suiteEnd {blank : Utf16} (h : blank = [] ∨ blank = [10]) (rest : Utf16) :
    eatAll U ([")", ";"].map (.mark ∘ ascii) ++ closing ++ closing)
      (blank ++ (ascii ");\n  \x7d);\n\x7d);" ++ rest)) = some rest := by
  have hspell : ∀ blank : Utf16, isSpelled [(blank, .mark (ascii ")")), ([], .mark (ascii ";")),
      ([10, 32, 32], .mark (ascii "\x7d")), ([], .mark (ascii ")")), ([], .mark (ascii ";")),
      ([10], .mark (ascii "\x7d")), ([], .mark (ascii ")")), ([], .mark (ascii ";"))] = true →
      eatAll U ([")", ";"].map (.mark ∘ ascii) ++ closing ++ closing)
        (blank ++ (ascii ");\n  \x7d);\n\x7d);" ++ rest)) = some rest := by
    intro blank hspelled
    have heat := @eatAll_spell U rest _ hspelled (by simp)
    simpa [spell, ascii, Lexeme.text, closing] using heat
  rcases h with rfl | rfl
  · exact hspell [] (by decide)
  · exact hspell [10] (by decide)

theorem eatAll_blank {blank : Utf16} (hblank : blank.all isWhiteSpace = true) (lexeme : Lexeme)
    (lexemes : List Lexeme) (text : Utf16) :
    eatAll U (lexeme :: lexemes) (blank ++ text) = eatAll U (lexeme :: lexemes) text := by
  have hlexeme : eatLexeme U lexeme (blank ++ text) = eatLexeme U lexeme text := by
    cases lexeme with
    | word word => rw [eatLexeme, eatLexeme, skipBlank_append hblank]
    | mark mark => rw [eatLexeme, eatLexeme, skipBlank_append hblank]
  rw [eatAll, List.foldlM_cons, hlexeme]
  rfl

theorem readSuite_renderSuite {testCase : RecipeTestCase} (h : testCase.Renderable)
    {blank : Utf16} (hblank : blank.all isWhiteSpace = true)
    (hfuel : (renderSuite testCase).length ≤ fuel) (rest : Utf16) :
    ∃ suite, readSuite U fuel (blank ++ (renderSuite testCase ++ rest)) = some (suite, rest) ∧
      Expects suite testCase := by
  obtain ⟨v, hv, hjson, hplain⟩ := h.expected
  obtain ⟨text, gap, htext, hgap, hreads⟩ := exists_expectedText (U := U) hjson hplain
  have hrender : renderSuite testCase = ascii "describe('" ++ testCase.exportName ++
      ascii "', () => \x7b\n  it(" ++ quoteString testCase.name ++
      ascii ", () => \x7b\n    expect(" ++ testCase.exportName ++ ascii ").toEqual(" ++
      (text ++ gap) ++ ascii ");\n  \x7d);\n\x7d);" := by
    rw [← htext, ← hv]
    simp only [renderSuite, List.append_assoc]
  have hlength : text.length ≤ fuel := by
    rw [hrender] at hfuel
    simp only [List.length_append] at hfuel
    omega
  have hdelimited : Delimited (gap ++ (ascii ");\n  \x7d);\n\x7d);" ++ rest)) := by
    rcases hgap with rfl | rfl
    · exact delimited_cons (by decide)
    · exact delimited_cons (by decide)
  obtain ⟨w, hw, hsame⟩ := hreads fuel _ hlength hdelimited
  have hsplit : renderSuite testCase ++ rest = ascii "describe(" ++ ([] ++ 39 ::
      (testCase.exportName ++ 39 :: (ascii ", () => \x7b\n  it(" ++ ([] ++ 39 ::
        (testCase.name.flatMap quotedUnit ++ 39 :: (ascii ", () => \x7b\n    expect(" ++ ([] ++
          (testCase.exportName ++ (ascii ").toEqual(" ++ (text ++ (gap ++
            (ascii ");\n  \x7d);\n\x7d);" ++ rest)))))))))))) := by
    rw [hrender, quoteString_eq]
    simp [ascii]
  have hdescribe : ∀ tail, eatAll U (words ["describe"] ++ [.mark (ascii "(")])
      (blank ++ (ascii "describe(" ++ tail)) = some tail := fun tail =>
    (eatAll_blank hblank _ _ _).trans (eatAll_spell (show isSpelled
      [([], .word (ascii "describe")), ([], .mark (ascii "("))] = true by decide) (by simp))
  have hnone : List.all ([] : Utf16) isWhiteSpace = true := rfl
  have htitle := eatString_of_readString hnone (readString_plain
    (isStringUnit_identifier h.exportName) (ascii ", () => \x7b\n  it(" ++ ([] ++ 39 ::
      (testCase.name.flatMap quotedUnit ++ 39 :: (ascii ", () => \x7b\n    expect(" ++ ([] ++
        (testCase.exportName ++ (ascii ").toEqual(" ++ (text ++ (gap ++
          (ascii ");\n  \x7d);\n\x7d);" ++ rest)))))))))))
  have hit : ∀ tail, eatAll U (opening ++ words ["it"] ++ [.mark (ascii "(")])
      (ascii ", () => \x7b\n  it(" ++ tail) = some tail := fun tail =>
    eatAll_spell (show isSpelled [([], .mark (ascii ",")), ([32], .mark (ascii "(")),
      ([], .mark (ascii ")")), ([32], .mark (ascii "=>")), ([32], .mark (ascii "\x7b")),
      ([10, 32, 32], .word (ascii "it")), ([], .mark (ascii "("))] = true by decide) (by simp)
  have htest := eatString_of_readString hnone (readString_quoted testCase.name
    (ascii ", () => \x7b\n    expect(" ++ ([] ++ (testCase.exportName ++ (ascii ").toEqual(" ++
      (text ++ (gap ++ (ascii ");\n  \x7d);\n\x7d);" ++ rest))))))))
  have hexpect : ∀ tail, eatAll U (opening ++ words ["expect"] ++ [.mark (ascii "(")])
      (ascii ", () => \x7b\n    expect(" ++ tail) = some tail := fun tail =>
    eatAll_spell (show isSpelled [([], .mark (ascii ",")), ([32], .mark (ascii "(")),
      ([], .mark (ascii ")")), ([32], .mark (ascii "=>")), ([32], .mark (ascii "\x7b")),
      ([10, 32, 32, 32, 32], .word (ascii "expect")), ([], .mark (ascii "("))] = true by decide)
      (by simp)
  have hsubject := readName_word (U := U) hnone (isToken_identifier h.exportName)
    (show Apart (ascii ").toEqual(" ++ (text ++ (gap ++ (ascii ");\n  \x7d);\n\x7d);" ++ rest))))
      from apart_cons (by decide) (by decide) _)
  have hequal : ∀ tail, eatAll U ([")", "."].map (.mark ∘ ascii) ++ words ["toEqual"] ++
      [.mark (ascii "(")]) (ascii ").toEqual(" ++ tail) = some tail := fun tail =>
    eatAll_spell (show isSpelled [([], .mark (ascii ")")), ([], .mark (ascii ".")),
      ([], .word (ascii "toEqual")), ([], .mark (ascii "("))] = true by decide) (by simp)
  refine ⟨⟨testCase.exportName, testCase.name, testCase.exportName, w⟩, ?_, rfl, rfl, rfl, v, hv,
    hsame⟩
  rw [hsplit, readSuite]
  simp only [Option.bind_eq_bind, hdescribe, htitle, hit, htest, hexpect, hsubject, hequal, hw,
    eatAll_suiteEnd hgap, Option.bind_some, Option.pure_def]

theorem skipBlank_of_readSuite {text : Utf16} {r : Suite × Utf16}
    (h : readSuite U fuel text = some r) : skipBlank text ≠ [] := by
  intro hskip
  have hdescribe : eatAll U (words ["describe"] ++ [.mark (ascii "(")]) text = none := by
    have hname : readName U [] = none := rfl
    have hone : words ["describe"] ++ [.mark (ascii "(")] =
        [.word (ascii "describe"), .mark (ascii "(")] := rfl
    rw [hone, eatAll, List.foldlM_cons, eatLexeme, hskip, hname]
    rfl
  simp only [readSuite, hdescribe, Option.bind_eq_bind, Option.bind_none] at h
  cases h

theorem readSuites_renderSuites {testCases : List RecipeTestCase}
    (h : ∀ testCase ∈ testCases, testCase.Renderable)
    (hfuel : ∀ testCase ∈ testCases, (renderSuite testCase).length ≤ fuel) {n : ℕ}
    (hn : testCases.length < n) :
    ∃ suites, readSuites U fuel n ((testCases.map renderSuite).flatMap ([10, 10] ++ ·) ++ [10]) =
      some suites ∧ List.Forall₂ Expects suites testCases := by
  induction testCases generalizing n with
  | nil =>
    obtain ⟨n, rfl⟩ : ∃ m, n = m + 1 := ⟨n - 1, by omega⟩
    exact ⟨[], rfl, .nil⟩
  | cons testCase testCases ih =>
    rw [List.forall_mem_cons] at h hfuel
    rw [List.length_cons] at hn
    obtain ⟨n, rfl⟩ : ∃ m, n = m + 1 := ⟨n - 1, by omega⟩
    obtain ⟨suites, hsuites, hexpects⟩ := ih h.2 hfuel.2 (n := n) (by omega)
    obtain ⟨suite, hsuite, hexpect⟩ := readSuite_renderSuite (U := U) h.1 blank_lines hfuel.1
      ((testCases.map renderSuite).flatMap ([10, 10] ++ ·) ++ [10])
    refine ⟨suite :: suites, ?_, .cons hexpect hexpects⟩
    rw [List.map_cons, List.flatMap_cons, List.append_assoc, List.append_assoc, readSuites,
      if_neg (skipBlank_of_readSuite hsuite), hsuite, Option.bind_some, hsuites, Option.map_some]

end Suites

/-! ## Test files are read back -/

section Tests

variable {U : Unicode}

theorem length_joinLines {names : List Utf16} (h : ∀ name ∈ names, isIdentifier name = true)
    (separator : Utf16) : names.length ≤ (joinLines separator names).length := by
  have hpos : ∀ name ∈ names, 0 < name.length := by
    intro name hname
    cases name with
    | nil => cases h [] hname
    | cons c letters => exact Nat.succ_pos _
  clear h
  cases names with
  | nil => exact Nat.zero_le _
  | cons name names =>
    rw [joinLines_cons, List.length_append, List.length_cons]
    rw [List.forall_mem_cons] at hpos
    have hrest : names.length ≤ (names.flatMap (separator ++ ·)).length := by
      have hall := hpos.2
      clear hpos
      induction names with
      | nil => exact Nat.zero_le _
      | cons next names ih =>
        rw [List.forall_mem_cons] at hall
        have := ih hall.2
        rw [List.flatMap_cons, List.length_append, List.length_append, List.length_cons]
        omega
    omega

/-- The imports end where the first suite begins. -/
theorem readImports_describe {rest : Utf16} {fuel n : ℕ} :
    readImports U fuel (n + 1) ([10, 10] ++ (ascii "describe" ++ ([] ++ 40 :: rest))) =
      some ([], [10, 10] ++ (ascii "describe" ++ ([] ++ 40 :: rest))) := by
  have hword := readName_word (U := U) blank_lines
    (show (Lexeme.word (ascii "describe")).isToken = true by decide)
    (show Apart ([] ++ 40 :: rest) from apart_cons (by decide) (by decide) rest)
  have hother : ascii "describe" ≠ ascii "import" := by decide
  have hone : words ["import"] = [.word (ascii "import")] := rfl
  have himport : eatAll U (words ["import"])
      ([10, 10] ++ (ascii "describe" ++ ([] ++ 40 :: rest))) = none := by
    rw [hone, eatAll, List.foldlM_cons, eatLexeme, hword, Option.bind_some, if_neg hother]
    rfl
  rw [readImports, himport]

/-- The names that a test file imports from the test library. -/
def testNames : List Utf16 :=
  ["describe", "expect", "it"].map ascii

theorem renderTest_eq {moduleName : Utf16} {exports : List RecipeExport}
    {testCases : List RecipeTestCase} (hne : testCases ≠ []) :
    renderTest moduleName exports testCases = [] ++ (importText testNames (ascii "vitest") ++
      ([10] ++ (importText (sortNames (exports.map (·.name)))
        (ascii "../src/" ++ moduleName ++ ascii ".js") ++
          ((testCases.map renderSuite).flatMap ([10, 10] ++ ·) ++ [10])))) := by
  obtain ⟨testCase, rest, rfl⟩ := List.exists_cons_of_ne_nil hne
  rw [renderTest, List.map_cons, joinLines_cons]
  simp [importText, testNames, joinLines, ascii]

theorem isStringUnit_source {moduleName : Utf16} (h : ∀ c ∈ moduleName, isKebabUnit c = true) :
    (ascii "../src/" ++ moduleName ++ ascii ".js").all isStringUnit = true := by
  have hunit : ∀ c ∈ moduleName, isStringUnit c = true := by
    rintro ⟨c, hlt⟩ hc
    have hkebab := h _ hc
    simp only [isKebabUnit, isDigit, Bool.or_eq_true, Bool.and_eq_true, decide_eq_true_eq,
      Fin.ext_iff] at hkebab
    simp only [isStringUnit, Bool.and_eq_true, decide_eq_true_eq, ne_eq, Fin.ext_iff]
    omega
  rw [List.all_append, List.all_append, List.all_eq_true.2 hunit, Bool.and_true, Bool.and_eq_true]
  exact ⟨by decide, by decide⟩

theorem Expects.subjects {suites : List Suite} {testCases : List RecipeTestCase}
    (h : List.Forall₂ Expects suites testCases) :
    suites.map (·.subject) = testCases.map (·.exportName) := by
  induction h with
  | nil => rfl
  | cons hexpects _ ih => rw [List.map_cons, List.map_cons, hexpects.2.2.1, ih]

/-- The imports of a rendered test file. -/
def testImports (moduleName : Utf16) (exports : List RecipeExport) : List Import :=
  [⟨testNames, ascii "vitest"⟩,
    ⟨sortNames (exports.map (·.name)), ascii "../src/" ++ moduleName ++ ascii ".js"⟩]

theorem readImports_renderTest {moduleName : Utf16} {exports : List RecipeExport}
    {testCases : List RecipeTestCase} (hexports : exports ≠ []) (htestCases : testCases ≠ [])
    (hmodule : ∀ c ∈ moduleName, isKebabUnit c = true)
    (hidentifiers : ∀ name ∈ exports.map (·.name), isIdentifier name = true) {fuel : ℕ}
    (hfuel : exports.length + 3 ≤ fuel) (n : ℕ) :
    readImports U fuel (n + 3) (renderTest moduleName exports testCases) =
      some (testImports moduleName exports,
        (testCases.map renderSuite).flatMap ([10, 10] ++ ·) ++ [10]) := by
  have hsorted : (sortNames (exports.map (·.name))).Perm (exports.map (·.name)) :=
    List.perm_insertionSort _ _
  have hne : sortNames (exports.map (·.name)) ≠ [] := by
    intro hnil
    rw [hnil] at hsorted
    exact hexports (List.map_eq_nil_iff.1 hsorted.nil_eq.symm)
  have hcount : (sortNames (exports.map (·.name))).length ≤ fuel := by
    rw [hsorted.length_eq, List.length_map]
    omega
  have hnamed : testNames ≠ [] ∧ (∀ name ∈ testNames, isIdentifier name = true) ∧
      (ascii "vitest").all isStringUnit = true ∧ testNames.length = 3 := by decide
  rw [renderTest_eq htestCases, readImports_import hnamed.1 hnamed.2.1 hnamed.2.2.1 rfl (by omega),
    readImports_import hne (fun name hname => hidentifiers name (hsorted.mem_iff.1 hname))
      (isStringUnit_source hmodule) (by decide) hcount]
  obtain ⟨testCase, rest, rfl⟩ := List.exists_cons_of_ne_nil htestCases
  have htail : ((testCase :: rest).map renderSuite).flatMap ([10, 10] ++ ·) ++ [10] =
      [10, 10] ++ (ascii "describe" ++ ([] ++ 40 :: ((renderSuite testCase).drop 9 ++
        ((rest.map renderSuite).flatMap ([10, 10] ++ ·) ++ [10])))) := by
    rw [List.map_cons, List.flatMap_cons]
    simp [renderSuite, ascii]
  rw [htail, readImports_describe]
  rfl

/-- A rendered test file has a suite for each test case, which expects its value. -/
theorem evalTests_renderTest {moduleName : Utf16} {exports : List RecipeExport}
    {testCases : List RecipeTestCase} (hexports : exports ≠ []) (htestCases : testCases ≠ [])
    (hmodule : ∀ c ∈ moduleName, isKebabUnit c = true)
    (hidentifiers : ∀ name ∈ exports.map (·.name), isIdentifier name = true)
    (hnames : (exports.map (·.name)).Nodup)
    (hbinding : ∀ name ∈ exports.map (·.name), isBindingName name = true ∧ name ∉ testNames)
    (htests : ∀ testCase ∈ testCases, testCase.Renderable)
    (hsubjects : ∀ testCase ∈ testCases, testCase.exportName ∈ exports.map (·.name)) :
    ∃ suites, evalTests U (renderTest moduleName exports testCases) = some suites ∧
      List.Forall₂ Expects suites testCases := by
  have hsorted : (sortNames (exports.map (·.name))).Perm (exports.map (·.name)) :=
    List.perm_insertionSort _ _
  obtain ⟨hcount, hlines⟩ := length_paragraphs (testCases.map renderSuite)
  have hnamesLength := length_joinLines (fun name hname =>
    hidentifiers name (hsorted.mem_iff.1 hname)) (ascii ", ")
  rw [hsorted.length_eq, List.length_map] at hnamesLength
  have hlength : (joinLines (ascii ", ") (sortNames (exports.map (·.name)))).length +
      ((testCases.map renderSuite).flatMap ([10, 10] ++ ·)).length + 2 ≤
        (renderTest moduleName exports testCases).length := by
    have himport : 2 ≤ (ascii "import \x7b ").length := by decide
    rw [renderTest_eq htestCases]
    simp only [importText, List.length_append]
    omega
  rw [List.length_map] at hcount hlines
  have hfuel : ∀ t ∈ testCases,
      (renderSuite t).length ≤ (renderTest moduleName exports testCases).length + 1 := by
    intro t ht
    have := hlines _ (List.mem_map_of_mem ht)
    omega
  obtain ⟨suites, hsuites, hexpects⟩ := readSuites_renderSuites (U := U) htests hfuel
    (n := (renderTest moduleName exports testCases).length + 1) (by omega)
  have himports := @readImports_renderTest U _ _ _ hexports htestCases hmodule hidentifiers
    ((renderTest moduleName exports testCases).length + 1) (by omega)
    ((renderTest moduleName exports testCases).length - 2)
  have hsucc : (renderTest moduleName exports testCases).length - 2 + 3 =
      (renderTest moduleName exports testCases).length + 1 := by omega
  rw [hsucc] at himports
  have hnamed : (testImports moduleName exports).flatMap Import.names =
      testNames ++ sortNames (exports.map (·.name)) := by
    simp [testImports]
  have hnodup : (testNames ++ sortNames (exports.map (·.name))).Nodup := by
    refine List.nodup_append.2 ⟨by decide, hsorted.nodup_iff.2 hnames, ?_⟩
    rintro name hname other hother rfl
    exact (hbinding name (hsorted.mem_iff.1 hother)).2 hname
  have htestNames : (∀ name ∈ testNames, isBindingName name = true) ∧
      ∀ name ∈ ["describe", "it", "expect"].map ascii, name ∈ testNames := by decide
  have hbound : ∀ name ∈ testNames ++ sortNames (exports.map (·.name)),
      isBindingName name = true := by
    intro name hname
    rcases List.mem_append.1 hname with hname | hname
    · exact htestNames.1 name hname
    · exact (hbinding name (hsorted.mem_iff.1 hname)).1
  have hsubject : ∀ suite ∈ suites,
      suite.subject ∈ testNames ++ sortNames (exports.map (·.name)) := by
    intro suite hsuite
    have hmem : suite.subject ∈ testCases.map (·.exportName) :=
      Expects.subjects hexpects ▸ List.mem_map_of_mem hsuite
    obtain ⟨testCase, ht, hname⟩ := List.mem_map.1 hmem
    exact List.mem_append_right _ (hsorted.mem_iff.2 (hname ▸ hsubjects testCase ht))
  refine ⟨suites, ?_, hexpects⟩
  rw [evalTests, himports, Option.bind_some, hsuites, Option.bind_some]
  dsimp only
  rw [hnamed, if_pos ⟨hnodup, hbound, fun name hname =>
    List.mem_append_left _ (htestNames.2 name hname), hsubject⟩]

end Tests

/-! ## What is declared -/

theorem same_canonicalValue {v : JsValue} (h : IsJson v) : Same (canonicalValue v) v := by
  induction h with
  | @arr items _ ih =>
    rw [canonicalValue, canonicalItems_eq]
    exact .arr (List.forall₂_map_left_iff.2 (List.forall₂_same.2 ih))
  | @obj members hkeys _ ih =>
    rw [canonicalValue, canonicalMembers_eq]
    have hpairs : List.Forall₂ SameMember (members.map (mapValue canonicalValue)) members :=
      List.forall₂_map_left_iff.2 (List.forall₂_same.2 fun m hm => ⟨rfl, ih m hm⟩)
    obtain ⟨zs, hzs, hperm⟩ := List.perm_comp_forall₂ (canonical_perm hkeys) hpairs
    exact same_obj.2 ⟨zs, hperm.symm, hzs⟩
  | _ => exact .refl _

theorem plainKeys_canonicalValue {v : JsValue} (h : IsJson v) (hplain : plainKeys v = true) :
    plainKeys (canonicalValue v) = true := by
  induction h with
  | arr _ ih =>
    rw [plainKeys, plainKeysItems_iff] at hplain
    rw [canonicalValue, canonicalItems_eq, plainKeys, plainKeysItems_iff]
    exact List.forall_mem_map.2 fun item hitem => ih item hitem (hplain item hitem)
  | @obj members hkeys _ ih =>
    rw [plainKeys, plainKeysMembers_iff] at hplain
    rw [canonicalValue, canonicalMembers_eq, plainKeys, plainKeysMembers_iff]
    intro m hm
    obtain ⟨m, hmem, rfl⟩ := List.mem_map.1 ((canonical_perm hkeys).mem_iff.1 hm)
    exact ⟨(hplain m hmem).1, ih m hmem (hplain m hmem).2⟩
  | _ => rfl

theorem canonicalValue_ne_null {v : JsValue} (h : v ≠ .null) : canonicalValue v ≠ .null := by
  cases v with
  | null => exact absurd rfl h
  | bool | num | str => exact h
  | arr | obj => nofun

/-- An export of the inputs that the language can express. -/
structure ExpressibleExport (entry : JsValue) : Prop where
  name : ∀ name, property? entry "name" = some (.str name) →
    isBindingName name = true ∧ name ∉ testNames
  typeName : ∀ name, property? entry "typeName" = some (.str name) → isTypeName name = true
  value : ∃ v, property? entry "value" = some v ∧ IsJson v ∧ plainKeys v = true ∧ v ≠ .null

/-- A test case of the inputs that the language can express. -/
def ExpressibleCase (entry : JsValue) : Prop :=
  ∃ v, property? entry "expected" = some v ∧ IsJson v ∧ plainKeys v = true

/-- A constant with the name and the value of an export of the inputs. -/
def ConstantOf (constant : Utf16 × JsValue) (entry : JsValue) : Prop :=
  property? entry "name" = some (.str constant.1) ∧
    ∃ v, property? entry "value" = some v ∧ Same constant.2 v

/-- A suite that expects of an export what a test case of the inputs expects of it. -/
def SuiteOf (suite : Suite) (entry : JsValue) : Prop :=
  property? entry "exportName" = some (.str suite.subject) ∧ suite.title = suite.subject ∧
    (∃ name, property? entry "name" = some (.str name) ∧ suite.test = collapseText name) ∧
      ∃ v, property? entry "expected" = some v ∧ Same suite.expected v

theorem identifierAt_eq_some {value : JsValue} {name : String} {s : Utf16}
    (h : identifierAt value name = some s) :
    property? value name = some (.str s) ∧ isIdentifier s = true := by
  unfold identifierAt at h
  split at h
  · rename_i s' hs
    split_ifs at h with hid
    obtain rfl := Option.some.inj h
    exact ⟨hs, hid⟩
  · cases h

theorem stringAt_eq_some {value : JsValue} {name : String} {s : Utf16}
    (h : stringAt value name = some s) : property? value name = some (.str s) := by
  unfold stringAt at h
  split at h
  · rename_i s' hs
    exact Option.some.inj h ▸ hs
  · cases h

theorem exportOf_eq_some {entry : JsValue} {e : RecipeExport} (h : exportOf entry = some e) :
    property? entry "name" = some (.str e.name) ∧ isIdentifier e.name = true ∧
      property? entry "typeName" = some (.str e.typeName) ∧ isIdentifier e.typeName = true ∧
        e.value = (property? entry "value").map canonicalValue := by
  simp only [exportOf, Option.bind_eq_bind, Option.bind_eq_some_iff] at h
  obtain ⟨name, hname, typeName, htype, h⟩ := h
  obtain rfl := Option.some.inj h
  obtain ⟨hn, hnid⟩ := identifierAt_eq_some hname
  obtain ⟨ht, htid⟩ := identifierAt_eq_some htype
  exact ⟨hn, hnid, ht, htid, rfl⟩

theorem testCaseOf_eq_some {entry : JsValue} {t : RecipeTestCase} (h : testCaseOf entry = some t) :
    (∃ name, property? entry "name" = some (.str name) ∧ t.name = collapseText name) ∧
      property? entry "exportName" = some (.str t.exportName) ∧
        isIdentifier t.exportName = true ∧
          t.expected = (property? entry "expected").map canonicalValue := by
  simp only [testCaseOf, Option.bind_eq_bind, Option.bind_eq_some_iff] at h
  obtain ⟨name, hname, exportName, hexport, h⟩ := h
  split_ifs at h
  obtain rfl := Option.some.inj h
  obtain ⟨he, heid⟩ := identifierAt_eq_some hexport
  exact ⟨⟨name, stringAt_eq_some hname, rfl⟩, he, heid, rfl⟩

theorem ExpressibleExport.renderable {entry : JsValue} {e : RecipeExport}
    (h : ExpressibleExport entry) (he : exportOf entry = some e) : e.Renderable := by
  obtain ⟨-, hname, -, htype, hvalue⟩ := exportOf_eq_some he
  obtain ⟨v, hv, hjson, hplain, hnull⟩ := h.value
  rw [hv] at hvalue
  exact ⟨hname, htype, canonicalValue v, hvalue, isJson_canonicalValue hjson,
    plainKeys_canonicalValue hjson hplain, canonicalValue_ne_null hnull⟩

theorem ExpressibleCase.renderable {entry : JsValue} {t : RecipeTestCase}
    (h : ExpressibleCase entry) (ht : testCaseOf entry = some t) : t.Renderable := by
  obtain ⟨-, -, hname, hexpected⟩ := testCaseOf_eq_some ht
  obtain ⟨v, hv, hjson, hplain⟩ := h
  rw [hv] at hexpected
  exact ⟨hname, canonicalValue v, hexpected, isJson_canonicalValue hjson,
    plainKeys_canonicalValue hjson hplain⟩

theorem BoundTo.constantOf {constant : Utf16 × JsValue} {entry : JsValue} {e : RecipeExport}
    (h : BoundTo constant e) (hentry : ExpressibleExport entry) (he : exportOf entry = some e) :
    ConstantOf constant entry := by
  obtain ⟨hname, -, -, -, hvalue⟩ := exportOf_eq_some he
  obtain ⟨hfirst, w, hw, hsame⟩ := h
  obtain ⟨v, hv, hjson, -⟩ := hentry.value
  rw [hvalue, hv, Option.map_some] at hw
  obtain rfl := Option.some.inj hw
  exact ⟨hfirst ▸ hname, v, hv, hsame.trans (same_canonicalValue hjson)⟩

theorem Expects.suiteOf {suite : Suite} {entry : JsValue} {t : RecipeTestCase}
    (h : Expects suite t) (hentry : ExpressibleCase entry) (ht : testCaseOf entry = some t) :
    SuiteOf suite entry := by
  obtain ⟨⟨name, hname, hcollapsed⟩, hexport, -, hexpected⟩ := testCaseOf_eq_some ht
  obtain ⟨htitle, htest, hsubject, w, hw, hsame⟩ := h
  obtain ⟨v, hv, hjson, -⟩ := hentry
  rw [hexpected, hv, Option.map_some] at hw
  obtain rfl := Option.some.inj hw
  exact ⟨hsubject ▸ hexport, htitle.trans hsubject.symm, ⟨name, hname, htest.trans hcollapsed⟩, v,
    hv, hsame.trans (same_canonicalValue hjson)⟩

/-! ## What the recipe writes -/

theorem recipeContext_inputs {plan : NormalizedPlan} {profile : RepositoryProfile}
    {context : RecipeContext} (h : recipeContext plan profile = .ok context) :
    normalizeInputs (jsonValue plan.recipe.inputs) = some context.inputs ∧
      namesDistinct context.inputs.exports = true ∧
        ∀ t ∈ context.inputs.testCases, t.exportName ∈ context.inputs.exports.map (·.name) := by
  unfold recipeContext at h
  split at h
  · cases h
  rename_i inputs hinputs
  by_cases hkebab : isKebabCase inputs.moduleName = true
  · rw [hkebab, Bool.not_true, if_neg Bool.false_ne_true] at h
    dsimp only at h
    split at h
    · cases h
    obtain ⟨implementation, -, h⟩ := Except.bind_eq_ok.1 h
    obtain ⟨publicExport, -, h⟩ := Except.bind_eq_ok.1 h
    obtain ⟨unitTest, -, h⟩ := Except.bind_eq_ok.1 h
    split_ifs at h with hdistinct
    split at h
    · cases h
    rename_i hknown
    obtain rfl := Except.ok.inj h
    rw [Bool.not_eq_true, Bool.not_eq_false'] at hdistinct
    refine ⟨hinputs, hdistinct, fun t ht => ?_⟩
    simpa using List.find?_eq_none.1 hknown t ht
  · rw [if_pos (by rw [Bool.eq_false_iff.2 hkebab, Bool.not_false])] at h
    cases h

theorem forall₂_of_mapM {α β : Type} {f : α → Option β} {items : List α} {results : List β}
    (h : items.mapM f = some results) : List.Forall₂ (fun b a => f a = some b) results items := by
  induction items generalizing results with
  | nil =>
    obtain rfl := Option.some.inj h
    exact .nil
  | cons a items ih =>
    rw [List.mapM_cons] at h
    obtain ⟨first, hfirst, h⟩ := Option.bind_eq_some_iff.1 h
    obtain ⟨rest, hrest, h⟩ := Option.bind_eq_some_iff.1 h
    obtain rfl := Option.some.inj h
    exact .cons hfirst (ih hrest)

/-- The inputs are the declared exports and test cases, each in some order. -/
theorem normalizeInputs_entries {value : JsValue} {inputs : RecipeInputs}
    (h : normalizeInputs value = some inputs) :
    ∃ entries cases declared expected, arrayAt value "exports" = some entries ∧
      arrayAt value "testCases" = some cases ∧ declared.Perm entries ∧ expected.Perm cases ∧
        List.Forall₂ (fun e entry => exportOf entry = some e) inputs.exports declared ∧
          List.Forall₂ (fun t entry => testCaseOf entry = some t) inputs.testCases expected ∧
            inputs.exports ≠ [] ∧ inputs.testCases ≠ [] := by
  simp only [normalizeInputs, Option.bind_eq_bind, Option.bind_eq_some_iff] at h
  obtain ⟨_, -, _, -, _, -, entries, hentries, exports, hexports, h⟩ := h
  obtain ⟨cases, hcases, tests, htests, h⟩ := h
  split_ifs at h with hempty
  obtain rfl := Option.some.inj h
  rw [Bool.or_eq_true, not_or, List.isEmpty_iff, List.isEmpty_iff] at hempty
  have hexportsPerm := List.perm_insertionSort (fun e f => keyLe e.name f.name = true) exports
  have htestsPerm := List.perm_insertionSort (fun t u => keyLe t.sortKey u.sortKey = true) tests
  obtain ⟨declared, hdeclared, hperm⟩ :=
    List.perm_comp_forall₂ hexportsPerm (forall₂_of_mapM hexports)
  obtain ⟨expected, hexpected, hperm'⟩ :=
    List.perm_comp_forall₂ htestsPerm (forall₂_of_mapM htests)
  refine ⟨entries, cases, declared, expected, hentries, hcases, hperm, hperm', hdeclared, hexpected,
    fun hnil => hempty.1 ?_, fun hnil => hempty.2 ?_⟩
  · exact (hexportsPerm.symm.trans (List.Perm.of_eq hnil)).eq_nil
  · exact (htestsPerm.symm.trans (List.Perm.of_eq hnil)).eq_nil

theorem forall_of_forall₂ {α β : Type*} {R : α → β → Prop} {P : α → Prop} {xs : List α}
    {ys : List β} (h : List.Forall₂ R xs ys) (himp : ∀ x y, R x y → P x) : ∀ x ∈ xs, P x := by
  induction h with
  | nil => simp
  | cons hxy _ ih => exact List.forall_mem_cons.2 ⟨himp _ _ hxy, ih⟩

/-- What a module and its test mean : the declared constants, and suites that expect the declared
values, each in some order. -/
structure Denotes (U : Unicode) (context : RecipeContext) (entries cases : List JsValue) :
    Prop where
  module : ∃ constants declared, evalModule U context.moduleContent = some constants ∧
    declared.Perm entries ∧ List.Forall₂ ConstantOf constants declared
  tests : ∃ suites expected, evalTests U context.testContent = some suites ∧
    expected.Perm cases ∧ List.Forall₂ SuiteOf suites expected

/-- The module and the test that the recipe writes mean what is declared. -/
theorem module_denotes (U : Unicode) {plan : NormalizedPlan} {profile : RepositoryProfile}
    {context : RecipeContext} {entries cases : List JsValue}
    (h : recipeContext plan profile = .ok context)
    (hentries : arrayAt (jsonValue plan.recipe.inputs) "exports" = some entries)
    (hcases : arrayAt (jsonValue plan.recipe.inputs) "testCases" = some cases)
    (hexports : ∀ entry ∈ entries, ExpressibleExport entry)
    (hexpected : ∀ entry ∈ cases, ExpressibleCase entry) : Denotes U context entries cases := by
  obtain ⟨hinputs, hdistinct, hknown⟩ := recipeContext_inputs h
  have hchecked := recipeContext_checked h
  obtain ⟨entries', cases', declared, expected, hentries', hcases', hperm, hperm', hdeclared,
    htested, hne, hneTests⟩ := normalizeInputs_entries hinputs
  obtain rfl := Option.some.inj (hentries.symm.trans hentries')
  obtain rfl := Option.some.inj (hcases.symm.trans hcases')
  rw [namesDistinct, Bool.and_eq_true, decide_eq_true_eq, decide_eq_true_eq] at hdistinct
  -- each export, and each test case, with what it was declared as
  have hexport : List.Forall₂ (fun e entry => exportOf entry = some e ∧ ExpressibleExport entry)
      context.inputs.exports declared :=
    (forall₂_imp_mem hdeclared.flip fun entry hentry e he =>
      ⟨he, hexports entry (hperm.mem_iff.1 hentry)⟩).flip
  have htest : List.Forall₂ (fun t entry => testCaseOf entry = some t ∧ ExpressibleCase entry)
      context.inputs.testCases expected :=
    (forall₂_imp_mem htested.flip fun entry hentry t ht =>
      ⟨ht, hexpected entry (hperm'.mem_iff.1 hentry)⟩).flip
  have hrenderable : ∀ e ∈ context.inputs.exports, e.Renderable ∧
      (isBindingName e.name = true ∧ e.name ∉ testNames) ∧ isTypeName e.typeName = true :=
    forall_of_forall₂ hexport fun e entry he => by
      obtain ⟨hname, -, htype, -⟩ := exportOf_eq_some he.1
      exact ⟨he.2.renderable he.1, he.2.name _ hname, he.2.typeName _ htype⟩
  constructor
  · obtain ⟨constants, hconstants, hbound⟩ := evalModule_renderModule (U := U) hne
      (fun e he => (hrenderable e he).1) hdistinct.1 hdistinct.2
      (fun e he => (hrenderable e he).2.1.1) fun e he => (hrenderable e he).2.2
    exact ⟨constants, declared, hconstants, hperm, forall₂_trans_mem hbound hexport
      fun constant _ e entry hc he => hc.constantOf he.2 he.1⟩
  · obtain ⟨suites, hsuites, hexpects⟩ := evalTests_renderTest (U := U) hne hneTests
      hchecked.moduleName hchecked.identifiers hdistinct.1
      (List.forall_mem_map.2 fun e he => (hrenderable e he).2.1)
      (forall_of_forall₂ htest fun t entry ht => ht.2.renderable ht.1) hknown
    exact ⟨suites, expected, hsuites, hperm', forall₂_trans_mem hexpects htest
      fun suite _ t entry hs ht => hs.suiteOf ht.2 ht.1⟩

/-! ## A module `a` that exports a greeting -/

/-- `{ "parts": [true, null], "text": "it's" }`. -/
def greetingValue : Json :=
  .obj [("parts", .arr [.bool true, .null]), ("text", .str "it's")]

def greetingExport : Json :=
  .obj [("name", .str "GREETING"), ("typeName", .str "Greeting"), ("value", greetingValue)]

def greetingCase : Json :=
  .obj [("expected", greetingValue), ("exportName", .str "GREETING"), ("name", .str "isn't  empty")]

def greetingPlan : AuthoredPlan :=
  { recipePlan with
    recipe := { recipePlan.recipe with
      inputs := .obj [("exports", .arr [greetingExport]), ("moduleName", .str "a"),
        ("package", .str "core"), ("responsibility", .str "None."),
        ("testCases", .arr [greetingCase])] } }

/-- The Unicode standard, where no code point beyond ASCII is used. -/
def asciiNames : Unicode where
  idStart := fun _ => false
  idContinue := fun _ => false
  blank := fun _ _ => rfl

theorem greetingValue_json : IsJson (jsonValue greetingValue) ∧
    plainKeys (jsonValue greetingValue) = true := by
  refine ⟨.obj (by decide) (List.forall_mem_cons.2 ⟨.arr ?_, List.forall_mem_singleton.2 (.str _)⟩),
    by decide⟩
  exact List.forall_mem_cons.2 ⟨.bool true, List.forall_mem_singleton.2 .null⟩

theorem greeting_denotes : ∃ context,
    recipeContext (normalizePlan scriptTools greetingPlan)
      (profileOf scriptTools (moduleProfile [.str "core/**"])) = .ok context ∧
    Denotes asciiNames context [jsonValue greetingExport] [jsonValue greetingCase] := by
  have hcheck : (recipeContext (normalizePlan scriptTools greetingPlan)
      (profileOf scriptTools (moduleProfile [.str "core/**"]))).toOption.isSome = true := by
    decide +kernel
  obtain ⟨context, hcontext⟩ := Option.isSome_iff_exists.1 hcheck
  have hname : isBindingName (ascii "GREETING") = true ∧ ascii "GREETING" ∉ testNames ∧
      isTypeName (ascii "Greeting") = true := by decide
  refine ⟨context, eq_ok_of_toOption hcontext, module_denotes asciiNames
    (eq_ok_of_toOption hcontext) rfl rfl (List.forall_mem_singleton.2 ⟨?_, ?_, ?_⟩)
    (List.forall_mem_singleton.2 ⟨jsonValue greetingValue, rfl, greetingValue_json⟩)⟩
  · intro name heq
    have hgreeting : name = ascii "GREETING" := by
      cases heq
      rfl
    exact hgreeting ▸ ⟨hname.1, hname.2.1⟩
  · intro name heq
    have hgreeting : name = ascii "Greeting" := by
      cases heq
      rfl
    exact hgreeting ▸ hname.2.2
  · exact ⟨jsonValue greetingValue, rfl, greetingValue_json.1, greetingValue_json.2, nofun⟩

end ModuleRecipe

end FactoryFloor
