import FactoryFloor.ModuleRecipe
import FactoryFloor.PlanOrder

/-!
# Running the recipe of a module again

Some of the operations that the recipe proposed have been applied to the snapshot. Reconciling the new
snapshot proposes exactly the others, as they were (`reconcile_applied`) : a file that has been written
is the one that would be rendered, and the index keeps its export statement (`indexContent_idem`).

The check for names that are declared elsewhere passes again, because the export statement declares no
name but `export` (`declares_indexContent`). So a context is `Conventional` when no export has that
name, and when the index is another file than the module and its test.
-/

namespace FactoryFloor

open JsonText

namespace ModuleRecipe

/-! ## Declarations in a longer text -/

section Declarations

variable {word text tail : Utf16}

/-- Nothing of a word is at the start of what follows. -/
def NotStarting (tail word : Utf16) : Prop :=
  ∀ c ∈ word, tail.head? ≠ some c

theorem after?_append (h : NotStarting tail word) :
    after? word (text ++ tail) = (after? word text).map (· ++ tail) := by
  have hinitial : word.isPrefixOf (text ++ tail) = word.isPrefixOf text := by
    induction word generalizing text with
    | nil => rfl
    | cons c word ih =>
      have hword : NotStarting tail word := fun d hd => h d (List.mem_cons_of_mem _ hd)
      cases text with
      | nil =>
        have hc := h c List.mem_cons_self
        cases tail with
        | nil => rfl
        | cons d tail =>
          have hne : c ≠ d := fun heq => hc (by rw [heq, List.head?_cons])
          simp [List.isPrefixOf, hne]
      | cons d text => simp only [List.cons_append, List.isPrefixOf, ih hword]
  unfold after?
  rw [hinitial]
  split
  · rename_i hmem
    have hlength := (List.isPrefixOf_iff_prefix.1 hmem).length_le
    rw [List.drop_append_of_le_length hlength]
    rfl
  · rfl

theorem after?_eq_some {rest : Utf16} (h : after? word text = some rest) : text = word ++ rest := by
  unfold after? at h
  split at h
  · rename_i hmem
    obtain ⟨suffix, rfl⟩ := List.isPrefixOf_iff_prefix.1 hmem
    rw [List.drop_left] at h
    rw [Option.some.inj h]
  · cases h

/-- A text that does not end in white space. -/
def Trimmed (text : Utf16) : Prop :=
  text.getLast?.any isWhiteSpace = false

theorem Trimmed.suffix {left right : Utf16} (h : Trimmed (left ++ right)) : Trimmed right := by
  cases right with
  | nil => rfl
  | cons c right =>
    rw [Trimmed, List.getLast?_append_of_ne_nil _ (List.cons_ne_nil _ _)] at h
    exact h

theorem afterSpace?_append (h : Trimmed text) (hne : text ≠ []) :
    afterSpace? (text ++ tail) = (afterSpace? text).map (· ++ tail) := by
  have hdrop : text.dropWhile isWhiteSpace ≠ [] := by
    rw [Ne, List.dropWhile_eq_nil_iff]
    intro hall
    rw [Trimmed, List.getLast?_eq_getLast_of_ne_nil hne, Option.any_some,
      hall _ (List.getLast_mem hne)] at h
    cases h
  obtain ⟨c, text, rfl⟩ := List.exists_cons_of_ne_nil hne
  unfold afterSpace?
  rw [List.cons_append, List.head?_cons, List.head?_cons, Option.any_some]
  split
  · rw [← List.cons_append, List.dropWhile_append,
      if_neg (by rwa [List.isEmpty_iff]), Option.map_some]
  · rfl

theorem afterSpace?_eq_some {rest : Utf16} (h : afterSpace? text = some rest) :
    ∃ space, text = space ++ rest := by
  unfold afterSpace? at h
  split at h
  · obtain rfl := Option.some.inj h
    exact ⟨_, (List.takeWhile_append_dropWhile).symm⟩
  · cases h

/-- A text that is empty, or begins with white space. -/
def Spaced (text : Utf16) : Prop :=
  ∀ c, text.head? = some c → isWhiteSpace c = true

theorem Spaced.notStarting (h : Spaced tail) (hword : ∀ c ∈ word, isWhiteSpace c = false) :
    NotStarting tail word := by
  intro c hc heq
  have hspace := h c heq
  rw [hword c hc] at hspace
  cases hspace

theorem isWordUnit_of_space {c : CodeUnit} (h : isWhiteSpace c = true) : isWordUnit c = false := by
  obtain ⟨c, hc⟩ := c
  simp only [isWhiteSpace, List.mem_cons, List.not_mem_nil, or_false, Bool.or_eq_true,
    Bool.and_eq_true, decide_eq_true_eq] at h
  simp only [isWordUnit, isDigit, Bool.or_eq_false_iff, Bool.and_eq_false_iff,
    decide_eq_false_iff_not, Fin.ext_iff]
  omega

theorem wordBoundary_append (h : Spaced tail) (before : Option CodeUnit) :
    wordBoundary before (text ++ tail).head? = wordBoundary before text.head? := by
  cases text with
  | cons c text => rfl
  | nil =>
    have hany : tail.head?.any isWordUnit = false := by
      cases hhead : tail.head? with
      | none => rfl
      | some c => exact isWordUnit_of_space (h c hhead)
    rw [List.nil_append, wordBoundary, wordBoundary, hany]
    rfl

theorem isIdentifier_not_space {name : Utf16} (h : isIdentifier name) :
    ∀ c ∈ name, isWhiteSpace c = false := by
  have hword : ∀ c : CodeUnit, (isIdentifierStart c || isDigit c) = true → isWhiteSpace c = false := by
    intro c hc
    by_contra hspace
    have hnot := isWordUnit_of_space (Bool.of_not_eq_false hspace)
    have hdollar : c = 36 := by
      simp only [isWordUnit, Bool.or_eq_false_iff] at hnot
      simp only [isIdentifierStart, Bool.or_eq_true, hnot, Bool.false_eq_true, false_or,
        decide_eq_true_eq, or_false] at hc
      exact hc
    rw [hdollar] at hspace
    exact hspace (by decide)
  cases name with
  | nil => simp
  | cons c rest =>
    rw [isIdentifier, Bool.and_eq_true, List.all_eq_true] at h
    intro d hd
    rcases List.mem_cons.1 hd with rfl | hd
    · exact hword d (by rw [h.1, Bool.true_or])
    · exact hword d (h.2 d hd)

/-- The name, and a word boundary, at the start of a text. -/
def nameAt (name text : Utf16) : Bool :=
  (after? name text).any fun rest => wordBoundary name.getLast? rest.head?

theorem declarationAt_iff {name : Utf16} : declarationAt name text = true ↔
    ∃ keyword ∈ declarationKeywords, ∃ spaced, after? keyword text = some spaced ∧
      ∃ named, afterSpace? spaced = some named ∧ nameAt name named = true := by
  simp only [declarationAt, List.any_eq_true, Option.any_eq_true, Option.bind_eq_some_iff, nameAt]
  constructor
  · rintro ⟨keyword, hmem, rest, ⟨named, ⟨spaced, hspaced, hnamed⟩, hrest⟩, hboundary⟩
    exact ⟨keyword, hmem, spaced, hspaced, named, hnamed, rest, hrest, hboundary⟩
  · rintro ⟨keyword, hmem, spaced, hspaced, named, hnamed, rest, hrest, hboundary⟩
    exact ⟨keyword, hmem, rest, ⟨named, ⟨spaced, hspaced, hnamed⟩, hrest⟩, hboundary⟩

/-- The words that a declaration can begin with. -/
def declaringWords : List Utf16 :=
  ascii "export" :: declarationKeywords

theorem declaringWord_not_space : ∀ word ∈ declaringWords, ∀ c ∈ word,
    isWhiteSpace c = false := by
  have hall : (declaringWords.all fun k => k.all fun c => !isWhiteSpace c) = true := by decide
  simpa only [List.all_eq_true, Bool.not_eq_true'] using hall

end Declarations

/-! ## What a longer text declares -/

section Transfer

variable {name text tail other : Utf16} (hname : isIdentifier name) (htail : Spaced tail)
  (hother : Spaced other)

include hname htail hother

/-- What is declared at the start of a text with a tail is declared in the text itself, when it is not
the tail that has the name. -/
theorem declarationAt_append (htext : Trimmed text)
    (hfresh : ∀ named, afterSpace? tail = some named → nameAt name named = false)
    (h : declarationAt name (text ++ tail) = true) : declarationAt name (text ++ other) = true := by
  obtain ⟨keyword, hmem, spaced, hspaced, named, hnamed, hat⟩ := declarationAt_iff.1 h
  have hkeyword := declaringWord_not_space keyword (List.mem_cons_of_mem _ hmem)
  rw [after?_append (htail.notStarting hkeyword)] at hspaced
  obtain ⟨inner, hinner, rfl⟩ := Option.map_eq_some_iff.1 hspaced
  have htrimmed : Trimmed inner := Trimmed.suffix (after?_eq_some hinner ▸ htext)
  by_cases hempty : inner = []
  · subst hempty
    rw [hfresh named hnamed] at hat
    cases hat
  rw [afterSpace?_append htrimmed hempty] at hnamed
  obtain ⟨text', htext', rfl⟩ := Option.map_eq_some_iff.1 hnamed
  refine declarationAt_iff.2 ⟨keyword, hmem, inner ++ other, ?_, text' ++ other, ?_, ?_⟩
  · rw [after?_append (hother.notStarting hkeyword), hinner, Option.map_some]
  · rw [afterSpace?_append htrimmed hempty, htext', Option.map_some]
  · have hnotSpace := isIdentifier_not_space hname
    rw [nameAt, after?_append (htail.notStarting hnotSpace), Option.any_map] at hat
    rw [nameAt, after?_append (hother.notStarting hnotSpace), Option.any_map]
    simp only [wordBoundary_append htail] at hat
    simp only [wordBoundary_append hother]
    exact hat

theorem declaresFrom_append (htext : Trimmed text)
    (hfresh : ∀ named, afterSpace? tail = some named →
      nameAt name named = false ∧ declarationAt name named = false)
    (hquiet : ∀ before, declaresFrom name before tail = false) (before : Option CodeUnit)
    (h : declaresFrom name before (text ++ tail) = true) :
    declaresFrom name before (text ++ other) = true := by
  induction text generalizing before with
  | nil =>
    rw [List.nil_append, hquiet] at h
    cases h
  | cons c text ih =>
    have hrest : Trimmed text := Trimmed.suffix (show Trimmed ([c] ++ text) from htext)
    rw [List.cons_append, declaresFrom, Bool.or_eq_true, Bool.and_eq_true, Bool.or_eq_true] at h ⊢
    refine h.imp (And.imp_right (Or.imp (fun hdeclared => ?_) fun hexported => ?_)) (ih hrest _)
    · exact declarationAt_append hname htail hother htext (fun _ hn => (hfresh _ hn).1) hdeclared
    · -- the declaration stands behind `export`
      have hword := declaringWord_not_space (ascii "export") List.mem_cons_self
      rw [← List.cons_append, after?_append (htail.notStarting hword)] at hexported
      rw [← List.cons_append, after?_append (hother.notStarting hword)]
      obtain ⟨named, hnamed, hdeclared⟩ := (Option.any_eq_true _ _).1 hexported
      obtain ⟨spaced, hspaced, hnamed⟩ := Option.bind_eq_some_iff.1 hnamed
      obtain ⟨inner, hinner, rfl⟩ := Option.map_eq_some_iff.1 hspaced
      have htrimmed : Trimmed inner := Trimmed.suffix (after?_eq_some hinner ▸ htext)
      by_cases hempty : inner = []
      · subst hempty
        rw [(hfresh named hnamed).2] at hdeclared
        cases hdeclared
      rw [afterSpace?_append htrimmed hempty] at hnamed
      obtain ⟨text', htext', rfl⟩ := Option.map_eq_some_iff.1 hnamed
      obtain ⟨space, hspace⟩ := afterSpace?_eq_some htext'
      rw [hinner, Option.map_some, Option.bind_some, afterSpace?_append htrimmed hempty, htext',
        Option.map_some, Option.any_some]
      exact declarationAt_append hname htail hother (Trimmed.suffix (hspace ▸ htrimmed))
        (fun _ hn => (hfresh _ hn).1) hdeclared

end Transfer

/-! ## The index -/

/-- What an index gets at its end, after the module's name. -/
def statementEnd : Utf16 :=
  ascii ".js';\n"

/-- What an index gets at its end, up to the module's name. -/
def statementStart : Utf16 :=
  ascii "export * from './"

section Index

variable {name moduleName : Utf16}

/-- No declaration begins where no word of one stands before white space. -/
theorem declaresFrom_cons {c : CodeUnit} {text : Utf16} (before : Option CodeUnit)
    (hwords : (declaringWords.all fun word =>
      ((after? word (c :: text)).bind afterSpace?).isNone) = true) :
    declaresFrom name before (c :: text) = declaresFrom name (some c) text := by
  have h : ∀ word ∈ declaringWords, (after? word (c :: text)).bind afterSpace? = none :=
    fun word hmem => Option.isNone_iff_eq_none.1 (List.all_eq_true.1 hwords word hmem)
  have hdeclared : declarationAt name (c :: text) = false := by
    refine Bool.eq_false_iff.2 fun hdeclared => ?_
    obtain ⟨keyword, hmem, spaced, hspaced, named, hnamed, -⟩ := declarationAt_iff.1 hdeclared
    have hnone := h keyword (List.mem_cons_of_mem _ hmem)
    rw [hspaced, Option.bind_some, hnamed] at hnone
    cases hnone
  rw [declaresFrom, hdeclared, h _ List.mem_cons_self]
  simp

/-- The characters of a module's name. -/
def isKebabUnit (c : CodeUnit) : Bool :=
  97 ≤ c.val && c.val ≤ 122 || isDigit c || c = 45

theorem isKebabUnit_not_space {c : CodeUnit} (h : isKebabUnit c = true) :
    isWhiteSpace c = false := by
  refine Bool.eq_false_iff.2 fun hspace => ?_
  have hnot := isWordUnit_of_space hspace
  simp only [isWordUnit, Bool.or_eq_false_iff] at hnot
  simp only [isKebabUnit, hnot, Bool.or_false, Bool.false_or, decide_eq_true_eq] at h
  rw [h] at hspace
  exact absurd hspace (by decide)

/-- No declaration begins in the name of a module. -/
theorem declaresFrom_moduleName (before : Option CodeUnit)
    (hmodule : ∀ c ∈ moduleName, isWhiteSpace c = false) :
    declaresFrom name before (moduleName ++ statementEnd) = false := by
  induction moduleName generalizing before with
  | nil =>
    have hquiet : declaresFrom name (some 46) (ascii "js';\n") = false := rfl
    exact (declaresFrom_cons before (by decide)).trans hquiet
  | cons c moduleName ih =>
    have hrest := ih (some c) fun d hd => hmodule d (List.mem_cons_of_mem _ hd)
    rw [List.cons_append, declaresFrom_cons before, hrest]
    refine List.all_eq_true.2 fun word hmem => Option.isNone_iff_eq_none.2 ?_
    have hpoint : (declaringWords.all fun word => word.all (· ≠ 46)) = true := by decide
    have hstarting : NotStarting statementEnd word := by
      intro d hd heq
      obtain rfl : 46 = d := Option.some.inj heq
      exact absurd rfl (of_decide_eq_true (List.all_eq_true.1 (List.all_eq_true.1 hpoint word hmem) _ hd))
    rw [← List.cons_append, after?_append hstarting]
    cases hafter : after? word (c :: moduleName) with
    | none => rfl
    | some rest =>
      -- what follows the word is in the module's name, or the point behind it
      cases rest with
      | nil => rfl
      | cons d rest =>
        have hd : isWhiteSpace d = false := hmodule d (by rw [after?_eq_some hafter]; simp)
        simp [afterSpace?, hd]

theorem declaresFrom_statement (before : Option CodeUnit)
    (hmodule : ∀ c ∈ moduleName, isWhiteSpace c = false) :
    declaresFrom name before (10 :: (statementStart ++ (moduleName ++ statementEnd))) = false := by
  have hquiet : declaresFrom name (some 10) (statementStart ++ (moduleName ++ statementEnd)) =
      declaresFrom name (some 47) (moduleName ++ statementEnd) := rfl
  rw [declaresFrom_cons before rfl, hquiet, declaresFrom_moduleName _ hmodule]

/-- `trimEnd` removes white space. -/
theorem trimEnd_spec (text : Utf16) : Trimmed (trimEnd text) ∧
    ∃ space, Spaced space ∧ text = trimEnd text ++ space := by
  refine ⟨?_, text.rtakeWhile isWhiteSpace, ?_, List.rdropWhile_append_rtakeWhile.symm⟩
  · by_cases hempty : trimEnd text = []
    · rw [hempty]
      rfl
    · rw [Trimmed, List.getLast?_eq_getLast_of_ne_nil hempty, Option.any_some]
      exact Bool.eq_false_iff.2 (List.rdropWhile_last_not _ _ hempty)
  · intro c hc
    exact List.mem_rtakeWhile_imp (List.mem_of_mem_head? hc)

/-- A name at the start of the export statement is `export`. -/
theorem nameAt_statement (hname : isIdentifier name) (hexport : name ≠ ascii "export")
    (rest : Utf16) : nameAt name (statementStart ++ rest) = false := by
  refine Bool.eq_false_iff.2 fun hat => ?_
  obtain ⟨after, hafter, hboundary⟩ := (Option.any_eq_true _ _).1 hat
  have htext : ascii "export" ++ (ascii " * from './" ++ rest) = name ++ after :=
    after?_eq_some hafter
  have hspace : (32 : CodeUnit) ∉ name := fun hmem =>
    absurd (isIdentifier_not_space hname _ hmem) (by decide)
  rcases List.append_eq_append_iff.1 htext with ⟨middle, rfl, hmiddle⟩ | ⟨middle, hword, rfl⟩
  · -- a longer name would have the space in it
    cases middle with
    | nil => exact hexport (List.append_nil _)
    | cons c middle =>
      obtain rfl : (32 : CodeUnit) = c := (List.cons.inj hmiddle).1
      exact hspace (List.mem_append_right _ List.mem_cons_self)
  · cases middle with
    | nil => exact hexport (by rw [hword, List.append_nil])
    | cons c middle =>
      have hunits : (ascii "export").all isWordUnit = true := by decide
      rw [hword, List.all_eq_true] at hunits
      have hne : name ≠ [] := by
        rintro rfl
        cases hname
      rw [List.getLast?_eq_getLast_of_ne_nil hne, List.cons_append, List.head?_cons, wordBoundary,
        Option.any_some, Option.any_some,
        hunits _ (List.mem_append_left _ (List.getLast_mem hne)),
        hunits c (List.mem_append_right _ List.mem_cons_self)] at hboundary
      cases hboundary

/-- The export statement declares no name but `export`. -/
theorem declares_indexContent (context : RecipeContext) {index : Utf16} (hname : isIdentifier name)
    (hexport : name ≠ ascii "export") (hmodule : ∀ c ∈ context.inputs.moduleName, isWhiteSpace c = false)
    (h : declares name index = false) : declares name (context.indexContent index) = false := by
  rw [RecipeContext.indexContent]
  split
  · exact h
  obtain ⟨htrimmed, space, hspace, hindex⟩ := trimEnd_spec index
  refine Bool.eq_false_iff.2 fun hdeclares => Bool.eq_false_iff.1 h ?_
  have htext : trimEnd index ++ [10] ++ context.publicExportStatement ++ [10] =
      trimEnd index ++ 10 :: (statementStart ++ (context.inputs.moduleName ++ statementEnd)) := by
    have hend : statementEnd = ascii ".js';" ++ [10] := rfl
    rw [RecipeContext.publicExportStatement, hend, statementStart]
    simp only [List.append_assoc, List.cons_append, List.nil_append]
  rw [htext] at hdeclares
  rw [hindex]
  refine declaresFrom_append hname ?_ hspace htrimmed ?_
    (fun before => declaresFrom_statement before hmodule) none hdeclares
  · intro c hc
    obtain rfl := Option.some.inj hc
    decide
  · intro named hnamed
    obtain rfl := Option.some.inj hnamed
    exact ⟨nameAt_statement hname hexport _, rfl⟩

/-- The index has the export statement once it has been written. -/
theorem indexContent_idem (context : RecipeContext) (index : Utf16)
    (hmodule : ∀ c ∈ context.inputs.moduleName, isWhiteSpace c = false) :
    context.indexContent (context.indexContent index) = context.indexContent index := by
  have hline : (10 : CodeUnit) ∉ context.publicExportStatement := by
    have hends : (ascii "export * from './" ++ ascii ".js';").all (· ≠ 10) = true := by decide
    rw [List.all_append, Bool.and_eq_true, List.all_eq_true, List.all_eq_true] at hends
    intro hmem
    simp only [RecipeContext.publicExportStatement, List.mem_append] at hmem
    rcases hmem with (hmem | hmem) | hmem
    · exact absurd rfl (of_decide_eq_true (hends.1 _ hmem))
    · exact absurd (hmodule _ hmem) (by decide)
    · exact absurd rfl (of_decide_eq_true (hends.2 _ hmem))
  have hlast : context.publicExportStatement.getLast? = some 59 := by
    rw [RecipeContext.publicExportStatement, List.getLast?_append_of_ne_nil _ (by decide)]
    rfl
  by_cases hmem : context.publicExportStatement ∈ splitLines index
  · rw [RecipeContext.indexContent, RecipeContext.indexContent, if_pos hmem, if_pos hmem]
  · have hsegments : Separators.splitEvery 10
        (trimEnd index ++ [10] ++ context.publicExportStatement ++ [10]) =
        Separators.splitEvery 10 (trimEnd index) ++ [context.publicExportStatement] ++ [[]] := by
      have htext : trimEnd index ++ [10] ++ context.publicExportStatement ++ [10] =
          trimEnd index ++ 10 :: (context.publicExportStatement ++ 10 :: []) := by
        simp only [List.append_assoc, List.cons_append, List.nil_append]
      rw [htext, Separators.splitEvery_append_cons, Separators.splitEvery_append hline,
        Separators.splitEvery]
      simp only [List.append_assoc, List.singleton_append]
    have hagain : context.publicExportStatement ∈
        splitLines (trimEnd index ++ [10] ++ context.publicExportStatement ++ [10]) := by
      rw [splitLines, hsegments, List.dropLast_concat]
      refine List.mem_append_left _ (List.mem_map.2 ⟨context.publicExportStatement, by simp, ?_⟩)
      rw [hlast, if_neg (by decide)]
    have hindex : context.indexContent index =
        trimEnd index ++ [10] ++ context.publicExportStatement ++ [10] := if_neg hmem
    rw [hindex, RecipeContext.indexContent, if_pos hagain]

end Index

/-! ## What the context is -/

theorem expectedOutput_eq_ok {plan : NormalizedPlan} {name : String} {expectedPath : Utf16}
    {declared : DeclaredOutput × ℕ} (h : expectedOutput plan name expectedPath = .ok declared) :
    declaredOutput plan name = some declared ∧ utf16 declared.1.path = expectedPath ∧
      declared.1.mediaType = "text/typescript".toList := by
  unfold expectedOutput at h
  dsimp only at h
  split at h
  · cases h
  · rename_i output index hdeclared
    split_ifs at h with hpath hmedia
    obtain rfl := Except.ok.inj h
    exact ⟨hdeclared, not_not.1 hpath, not_not.1 hmedia⟩

/-- What the checks before the files ensure. -/
structure RecipeContext.Checked (plan : NormalizedPlan) (context : RecipeContext) : Prop where
  implementation : declaredOutput plan "implementation" = some context.implementation
  publicExport : declaredOutput plan "public-export" = some context.publicExport
  unitTest : declaredOutput plan "unit-test" = some context.unitTest
  implementationPath : utf16 context.implementation.1.path = context.sourcePath
  publicExportPath : utf16 context.publicExport.1.path = context.publicExportPath
  unitTestPath : utf16 context.unitTest.1.path = context.testPath
  mediaTypes : ∀ declared ∈ [context.implementation, context.publicExport, context.unitTest],
    declared.1.mediaType = "text/typescript".toList
  identifiers : ∀ name ∈ context.inputs.exports.map (·.name), isIdentifier name = true
  moduleName : ∀ c ∈ context.inputs.moduleName, isKebabUnit c = true
  distinct : context.sourcePath ≠ context.testPath

theorem isKebabCase_units {name : Utf16} (h : isKebabCase name = true) :
    ∀ c ∈ name, isKebabUnit c = true := by
  cases name with
  | nil => simp
  | cons c rest =>
    simp only [isKebabCase, Bool.and_eq_true, decide_eq_true_eq, List.all_eq_true] at h
    intro d hd
    rcases List.mem_cons.1 hd with rfl | hd
    · simp [isKebabUnit, h.1.1.1, h.1.1.2]
    · exact h.2 d hd

theorem exportOf_name {entry : JsValue} {e : RecipeExport} (h : exportOf entry = some e) :
    isIdentifier e.name = true := by
  simp only [exportOf, Option.bind_eq_bind, Option.bind_eq_some_iff] at h
  obtain ⟨name, hname, typeName, -, h⟩ := h
  obtain rfl := Option.some.inj h
  unfold identifierAt at hname
  split at hname
  · split_ifs at hname with hid
    obtain rfl := Option.some.inj hname
    exact hid
  · cases hname

theorem mem_of_mapM_eq_some {α β : Type} {f : α → Option β} {items : List α} {results : List β}
    (h : items.mapM f = some results) {b : β} (hb : b ∈ results) : ∃ a ∈ items, f a = some b := by
  induction items generalizing results with
  | nil =>
    obtain rfl := Option.some.inj h
    cases hb
  | cons a items ih =>
    rw [List.mapM_cons] at h
    obtain ⟨first, hfirst, h⟩ := Option.bind_eq_some_iff.1 h
    obtain ⟨rest, hrest, h⟩ := Option.bind_eq_some_iff.1 h
    obtain rfl := Option.some.inj h
    rcases List.mem_cons.1 hb with rfl | hb
    · exact ⟨a, List.mem_cons_self, hfirst⟩
    · obtain ⟨a', ha', hb⟩ := ih hrest hb
      exact ⟨a', List.mem_cons_of_mem _ ha', hb⟩

theorem normalizeInputs_names {value : JsValue} {inputs : RecipeInputs}
    (h : normalizeInputs value = some inputs) :
    ∀ name ∈ inputs.exports.map (·.name), isIdentifier name = true := by
  simp only [normalizeInputs, Option.bind_eq_bind, Option.bind_eq_some_iff] at h
  obtain ⟨_, -, _, -, _, -, items, -, exports, hexports, _, -, _, -, h⟩ := h
  split_ifs at h
  obtain rfl := Option.some.inj h
  intro name hname
  obtain ⟨e, he, rfl⟩ := List.mem_map.1 hname
  obtain ⟨entry, -, hentry⟩ := mem_of_mapM_eq_some hexports
    ((List.perm_insertionSort _ _).mem_iff.1 he)
  exact exportOf_name hentry

/-- The paths of a module and of its test. -/
theorem source_ne_test {directory source test moduleName : Utf16}
    (hmodule : ∀ c ∈ moduleName, isKebabUnit c = true) :
    directory ++ source ++ ascii "/" ++ moduleName ++ ascii ".ts" ≠
      directory ++ test ++ ascii "/" ++ moduleName ++ ascii ".test.ts" := by
  intro heq
  have hslash : (47 : CodeUnit) ∉ moduleName := fun hmem => absurd (hmodule _ hmem) (by decide)
  have hsplit : (directory ++ source) ++ 47 :: (moduleName ++ ascii ".ts") =
      (directory ++ test) ++ 47 :: (moduleName ++ ascii ".test.ts") := by
    have hone : ascii "/" = [47] := rfl
    simpa only [hone, List.append_assoc, List.singleton_append, List.cons_append, List.nil_append]
      using heq
  have hname := (Separators.append_cons_inj_last (fun hmem => ?_) (fun hmem => ?_) hsplit).2
  · have hlength := congrArg List.length hname
    simp [ascii] at hlength
  · exact (List.mem_append.1 hmem).elim hslash (by decide)
  · exact (List.mem_append.1 hmem).elim hslash (by decide)

theorem recipeContext_checked {plan : NormalizedPlan} {profile : RepositoryProfile}
    {context : RecipeContext} (h : recipeContext plan profile = .ok context) :
    context.Checked plan := by
  unfold recipeContext at h
  split at h
  · cases h
  rename_i inputs hinputs
  by_cases hkebab : isKebabCase inputs.moduleName = true
  · rw [hkebab, Bool.not_true, if_neg Bool.false_ne_true] at h
    dsimp only at h
    split at h
    · cases h
    rename_i packageEntry hpackage
    obtain ⟨implementation, himplementation, h⟩ := Except.bind_eq_ok.1 h
    obtain ⟨publicExport, hpublic, h⟩ := Except.bind_eq_ok.1 h
    obtain ⟨unitTest, hunit, h⟩ := Except.bind_eq_ok.1 h
    split_ifs at h with hdistinct
    split at h
    · cases h
    obtain rfl := Except.ok.inj h
    have hmodule := isKebabCase_units hkebab
    obtain ⟨hi, hiPath, hiMedia⟩ := expectedOutput_eq_ok himplementation
    obtain ⟨hp, hpPath, hpMedia⟩ := expectedOutput_eq_ok hpublic
    obtain ⟨hu, huPath, huMedia⟩ := expectedOutput_eq_ok hunit
    exact {
      implementation := hi
      publicExport := hp
      unitTest := hu
      implementationPath := hiPath
      publicExportPath := hpPath
      unitTestPath := huPath
      mediaTypes := by simp [hiMedia, hpMedia, huMedia]
      identifiers := normalizeInputs_names hinputs
      moduleName := hmodule
      distinct := source_ne_test hmodule }
  · rw [if_pos (by rw [Bool.eq_false_iff.2 hkebab, Bool.not_false])] at h
    cases h

/-! ## Applying operations -/

/-- The snapshot with some operations applied to it. The recipe proposes no deletion. -/
def applyOperations (files : SnapshotFiles) (operations : List ModuleOperation) : SnapshotFiles :=
  operations.foldl (fun files o => setMember files (utf16 o.path, .str o.content)) files

theorem mem_setMember_or_eq {α : Type*} {members : List (Utf16 × α)} {m n : Utf16 × α}
    (h : n ∈ setMember members m) : n ∈ members ∨ n = m := by
  by_cases hm : m.1 ∈ members.map Prod.fst
  · rw [setMember, if_pos hm] at h
    obtain ⟨o, ho, rfl⟩ := List.mem_map.1 h
    by_cases hkey : o.1 = m.1
    · exact Or.inr (by simp [hkey])
    · exact Or.inl (by simpa [hkey] using ho)
  · exact (List.mem_cons.1 ((setMember_perm hm).mem_iff.1 h)).symm

theorem mem_applyOperations {files : SnapshotFiles} {applied : List ModuleOperation}
    {file : Utf16 × JsValue} (h : file ∈ applyOperations files applied) :
    file ∈ files ∨ ∃ o ∈ applied, file = (utf16 o.path, .str o.content) := by
  induction applied generalizing files with
  | nil => exact Or.inl h
  | cons o applied ih =>
    rcases ih h with hmem | ⟨p, hp, rfl⟩
    · refine (mem_setMember_or_eq hmem).imp id fun heq => ?_
      exact ⟨o, List.mem_cons_self, heq⟩
    · exact Or.inr ⟨p, List.mem_cons_of_mem _ hp, rfl⟩

/-- Where the operations on a path agree on its content, this is what the file has. -/
theorem lookup_applyOperations {applied : List ModuleOperation} {path content : Utf16}
    (hcontent : ∀ o ∈ applied, utf16 o.path = path → o.content = content) (files : SnapshotFiles) :
    (applyOperations files applied).lookup path =
      if path ∈ applied.map (utf16 ·.path) then some (.str content) else files.lookup path := by
  induction applied generalizing files with
  | nil => rfl
  | cons o applied ih =>
    have hrest := ih (fun p hp => hcontent p (List.mem_cons_of_mem _ hp))
      (setMember files (utf16 o.path, .str o.content))
    have hstep : applyOperations files (o :: applied) =
        applyOperations (setMember files (utf16 o.path, .str o.content)) applied := rfl
    rw [hstep, hrest, lookup_setMember, List.map_cons]
    simp only [List.mem_cons]
    by_cases hpath : path = utf16 o.path
    · rw [hcontent o List.mem_cons_self hpath.symm, if_pos hpath, if_pos (Or.inl hpath), ite_self]
    · simp only [hpath, if_false, false_or]

/-- Where one operation only is on a path, its content is what the file has once it is applied. -/
theorem lookup_applied {applied : List ModuleOperation} {path : Utf16} {o : ModuleOperation}
    (hpath : utf16 o.path = path) (honly : ∀ p ∈ applied, utf16 p.path = path → p = o)
    (files : SnapshotFiles) : (applyOperations files applied).lookup path =
      if o ∈ applied then some (.str o.content) else files.lookup path := by
  rw [lookup_applyOperations fun p hp heq => congrArg ModuleOperation.content (honly p hp heq)]
  refine if_congr ⟨fun hmem => ?_, fun hmem => List.mem_map.2 ⟨o, hmem, hpath⟩⟩ rfl rfl
  obtain ⟨p, hp, heq⟩ := List.mem_map.1 hmem
  exact honly p hp heq ▸ hp

/-! ## Reconciling again -/

section Reconcile

variable {H : Sha256} {maxPatchBytes : ℕ} {context : RecipeContext} {files : SnapshotFiles}
  {operations : List ModuleOperation}

theorem reconcile_eq_ok : reconcile H maxPatchBytes context files = .ok operations ↔
    ∃ index, files.lookup context.publicExportPath = some (.str index) ∧
      context.nameConflict files = none ∧
      isConflicting files context.sourcePath context.moduleContent = false ∧
      isConflicting files context.testPath context.testContent = false ∧
      context.operations H files index = operations ∧ patchBytes operations ≤ maxPatchBytes := by
  unfold reconcile
  constructor
  · intro h
    split at h
    · rename_i index hindex
      split at h
      · cases h
      rename_i hname
      dsimp only at h
      split_ifs at h with hmodule htest hbytes
      obtain rfl := Except.ok.inj h
      exact ⟨index, hindex, hname, Bool.eq_false_iff.2 hmodule, Bool.eq_false_iff.2 htest, rfl,
        not_lt.1 hbytes⟩
    · cases h
  · rintro ⟨index, hindex, hname, hmodule, htest, rfl, hbytes⟩
    rw [hindex]
    dsimp only
    rw [hname]
    dsimp only
    rw [hmodule, htest, if_neg Bool.false_ne_true, if_neg Bool.false_ne_true,
      if_neg (not_lt.2 hbytes)]

theorem nameConflict_eq_none : context.nameConflict files = none ↔
    ∀ file ∈ files, ∀ content, file.2 = .str content →
      file.1 ≠ context.sourcePath → file.1 ≠ context.testPath →
      ∀ name ∈ context.inputs.exports.map (·.name), declares name content = false := by
  rw [RecipeContext.nameConflict, List.findSome?_eq_none_iff]
  refine forall₂_congr fun file _ => ?_
  obtain ⟨path, value⟩ := file
  cases value with
  | str content =>
    simp only [JsValue.str.injEq, forall_eq']
    split_ifs with hpath
    · simp only [true_iff]
      exact fun hsource htest => absurd hpath (not_or.2 ⟨hsource, htest⟩)
    · rw [Option.map_eq_none_iff, List.find?_eq_none]
      simp only [Bool.not_eq_true]
      exact ⟨fun h _ _ => h, fun h => h (not_or.1 hpath).1 (not_or.1 hpath).2⟩
  | _ => simp

theorem mem_operations {index : Utf16} {o : ModuleOperation}
    (h : o ∈ context.operations H files index) : o = context.implementationOperation H ∨
      o = context.publicExportOperation H index ∨ o = context.unitTestOperation H := by
  simp only [RecipeContext.operations, List.mem_append, List.mem_ite_nil_right,
    List.mem_singleton] at h
  rcases h with (⟨-, h⟩ | ⟨-, h⟩) | ⟨-, h⟩
  · exact Or.inl h
  · exact Or.inr (Or.inl h)
  · exact Or.inr (Or.inr h)

theorem filter_optional {α : Type*} [DecidableEq α] (a : α) (applied : List α) (p : Prop)
    [Decidable p] : (if p then [a] else []).filter (· ∉ applied) =
      if p ∧ a ∉ applied then [a] else [] := by
  by_cases hp : p <;> by_cases ha : a ∈ applied <;> simp [hp, ha]

theorem patchBytes_filter (p : ModuleOperation → Bool) (operations : List ModuleOperation) :
    patchBytes (operations.filter p) ≤ patchBytes operations :=
  (List.filter_sublist.map _).sum_le_sum fun _ _ => Nat.zero_le _

/-- The public index is another file than the module and its test, and no export has the keyword as
its name. -/
structure RecipeContext.Conventional (context : RecipeContext) : Prop where
  source : context.publicExportPath ≠ context.sourcePath
  test : context.publicExportPath ≠ context.testPath
  names : ascii "export" ∉ context.inputs.exports.map (·.name)

/-- What has been applied is not proposed again, and the rest is proposed as it was. -/
theorem reconcile_applied {plan : NormalizedPlan} (hchecked : context.Checked plan)
    (hconventional : context.Conventional)
    (h : reconcile H maxPatchBytes context files = .ok operations)
    {applied : List ModuleOperation} (happlied : ∀ o ∈ applied, o ∈ operations) :
    reconcile H maxPatchBytes context (applyOperations files applied) =
      .ok (operations.filter (· ∉ applied)) := by
  obtain ⟨index, hindex, hname, hmodule, hunit, rfl, hbytes⟩ := reconcile_eq_ok.1 h
  obtain ⟨hsource, htest, hexport⟩ := hconventional
  have hspace : ∀ c ∈ context.inputs.moduleName, isWhiteSpace c = false := fun c hc =>
    isKebabUnit_not_space (hchecked.moduleName c hc)
  have hi : utf16 (context.implementationOperation H).path = context.sourcePath :=
    hchecked.implementationPath
  have hp : utf16 (context.publicExportOperation H index).path = context.publicExportPath :=
    hchecked.publicExportPath
  have hu : utf16 (context.unitTestOperation H).path = context.testPath := hchecked.unitTestPath
  have hone := fun o ho => mem_operations (happlied o ho)
  have hmoduleFile := lookup_applied hi (fun o (ho : o ∈ applied) heq => by
    rcases hone o ho with rfl | rfl | rfl
    · rfl
    · exact absurd (hp.symm.trans heq) hsource
    · exact absurd (heq.symm.trans hu) hchecked.distinct) files
  have hindexFile := lookup_applied hp (fun o (ho : o ∈ applied) heq => by
    rcases hone o ho with rfl | rfl | rfl
    · exact absurd (heq.symm.trans hi) hsource
    · rfl
    · exact absurd (heq.symm.trans hu) htest) files
  have htestFile := lookup_applied hu (fun o (ho : o ∈ applied) heq => by
    rcases hone o ho with rfl | rfl | rfl
    · exact absurd (hi.symm.trans heq) hchecked.distinct
    · exact absurd (hp.symm.trans heq) htest
    · rfl) files
  have hnew : (applyOperations files applied).lookup context.publicExportPath = some (.str
      (if context.publicExportOperation H index ∈ applied then context.indexContent index
        else index)) := by
    rw [hindexFile, hindex]
    split_ifs <;> rfl
  refine reconcile_eq_ok.2 ⟨_, hnew, ?_, ?_, ?_, ?_, (patchBytes_filter _ _).trans hbytes⟩
  · rw [nameConflict_eq_none] at hname ⊢
    intro file hfile content hcontent hs ht name hmem
    rcases mem_applyOperations hfile with hold | ⟨o, ho, rfl⟩
    · exact hname file hold content hcontent hs ht name hmem
    rcases hone o ho with rfl | rfl | rfl
    · exact absurd hi hs
    · obtain rfl := JsValue.str.inj hcontent
      refine declares_indexContent context (hchecked.identifiers name hmem)
        (fun heq => hexport (heq ▸ hmem)) hspace ?_
      have hfile : (context.publicExportPath, JsValue.str index) ∈ files := by
        obtain ⟨before, after, rfl, -⟩ := List.lookup_eq_some_iff.1 hindex
        exact List.mem_append_right _ List.mem_cons_self
      exact hname _ hfile index rfl hsource htest name hmem
    · exact absurd hu ht
  · unfold isConflicting at hmodule ⊢
    rw [hmoduleFile]
    by_cases hmem : context.implementationOperation H ∈ applied
    · rw [if_pos hmem]
      exact decide_eq_false (not_not.2 rfl)
    · rw [if_neg hmem]
      exact hmodule
  · unfold isConflicting at hunit ⊢
    rw [htestFile]
    by_cases hmem : context.unitTestOperation H ∈ applied
    · rw [if_pos hmem]
      exact decide_eq_false (not_not.2 rfl)
    · rw [if_neg hmem]
      exact hunit
  · rw [RecipeContext.operations, RecipeContext.operations, List.filter_append, List.filter_append,
      filter_optional, filter_optional, filter_optional, hmoduleFile, htestFile]
    have hleft : ∀ (o : ModuleOperation) (path : Utf16), ((if o ∈ applied then
        some (JsValue.str o.content) else files.lookup path) = none) ↔
        files.lookup path = none ∧ o ∉ applied := by
      intro o path
      by_cases hmem : o ∈ applied <;> simp [hmem]
    congr 1
    congr 1
    · exact if_congr (hleft _ _) rfl rfl
    · by_cases hmem : context.publicExportOperation H index ∈ applied
      · rw [if_pos hmem, if_neg (not_not.2 (indexContent_idem context index hspace).symm),
          if_neg (fun hboth => hboth.2 hmem)]
      · simp only [hmem, if_false, not_false_eq_true, and_true]
    · exact if_congr (hleft _ _) rfl rfl

end Reconcile

end ModuleRecipe

end FactoryFloor
