import FactoryFloor.Base64
import FactoryFloor.JsValues
import FactoryFloor.Separators

/-!
# Text in frames

A frame is some lines, and an empty line ends it. `splitFrames` splits a text at its empty lines.
What it reads are the frames that were written, when their lines are printable and not empty
(`splitFrames_frame`). JSON and base64url are printable (`printable_stringify`,
`printable_toBase64url`).
-/

namespace JsonText

/-! ## Splitting -/

/-- `text.replaceAll('\r\n', '\n')`. -/
def replaceLineEnds : Utf16 → Utf16
  | [] => []
  | [c] => [c]
  | c :: d :: text =>
    if c = 13 ∧ d = 10 then 10 :: replaceLineEnds text else c :: replaceLineEnds (d :: text)

/-- A unit before the first of some texts. -/
def onHead (c : CodeUnit) : List Utf16 → List Utf16
  | [] => [[c]]
  | text :: texts => (c :: text) :: texts

/-- `text.split('\n\n')`. -/
def splitFrames : Utf16 → List Utf16
  | [] => [[]]
  | [c] => [[c]]
  | c :: d :: text =>
    if c = 10 ∧ d = 10 then [] :: splitFrames text else onHead c (splitFrames (d :: text))

/-! ## Printable text -/

/-- A text without control characters. -/
def Printable (text : Utf16) : Prop :=
  ∀ c ∈ text, 32 ≤ c.val

theorem printable_of_all {text : Utf16} (h : text.all (fun c => decide (32 ≤ c.val)) = true) :
    Printable text := by
  simpa [Printable] using h

theorem Printable.append {s text : Utf16} (hs : Printable s) (h : Printable text) :
    Printable (s ++ text) := fun c hc =>
  (List.mem_append.1 hc).elim (hs c) (h c)

theorem Printable.cons {c : CodeUnit} {text : Utf16} (hc : 32 ≤ c.val) (h : Printable text) :
    Printable (c :: text) := by
  rintro d hd
  rcases List.mem_cons.1 hd with rfl | hd
  · exact hc
  · exact h d hd

theorem printable_hexDigit (d : ℕ) (hd : d < 16) : 32 ≤ (hexDigit d).val := by
  have hall : ∀ e < 16, 32 ≤ (hexDigit e).val := by decide
  exact hall d hd

theorem printable_escapeUnit (c : CodeUnit) : Printable (escapeUnit c) := by
  have hc := c.isLt
  unfold escapeUnit
  split_ifs with _ _ _ _ _ _ _ hescape
  iterate 7 simp [Printable]
  · intro d hd
    simp only [unicodeEscape, List.mem_cons, List.not_mem_nil, or_false] at hd
    rcases hd with rfl | rfl | rfl | rfl | rfl | rfl
    · decide
    · decide
    · exact printable_hexDigit _ (by omega)
    · exact printable_hexDigit _ (by omega)
    · exact printable_hexDigit _ (by omega)
    · exact printable_hexDigit _ (by omega)
  · intro d hd
    rw [List.mem_singleton.1 hd]
    simp only [Bool.or_eq_true, decide_eq_true_eq, not_or] at hescape
    omega

theorem printable_quoteBody (s : Utf16) : Printable (quoteBody s) := by
  fun_induction quoteBody s with
  | case1 => simp [Printable]
  | case2 c => exact (printable_escapeUnit c).append (by simp [Printable])
  | case3 c d text hpair ih =>
    simp only [Bool.and_eq_true, isLeading_iff, isTrailing_iff] at hpair
    exact .cons (by omega) (.cons (by omega) ih)
  | case4 c d text hpair ih => exact (printable_escapeUnit c).append ih

theorem printable_quote (s : Utf16) : Printable (quote s) :=
  .cons (by decide) (printable_quoteBody s)

theorem printable_number {token : Utf16} (h : isNumber token) : Printable token := by
  intro c hc
  simp only [isNumber, Bool.and_eq_true, List.all_eq_true] at h
  have hunit := h.1 c hc
  simp only [isNumberUnit, isDigit, Bool.or_eq_true, Bool.and_eq_true, decide_eq_true_eq,
    Fin.ext_iff] at hunit
  have hvalues : (43 : CodeUnit).val = 43 ∧ (45 : CodeUnit).val = 45 ∧ (46 : CodeUnit).val = 46 ∧
      (69 : CodeUnit).val = 69 ∧ (101 : CodeUnit).val = 101 := by decide
  omega

theorem printable_more {items : List Tree} (h : ∀ item ∈ items, Printable (render item)) :
    Printable (renderMore items) := by
  induction items with
  | nil => simp [Printable, renderMore]
  | cons item items ih =>
    rw [renderMore]
    exact .cons (by decide) ((h item List.mem_cons_self).append
      (ih fun i hi => h i (List.mem_cons_of_mem item hi)))

theorem printable_moreMembers {members : List (Utf16 × Tree)}
    (h : ∀ m ∈ members, Printable (render m.2)) : Printable (renderMoreMembers members) := by
  induction members with
  | nil => simp [Printable, renderMoreMembers]
  | cons m members ih =>
    obtain ⟨key, value⟩ := m
    rw [renderMoreMembers]
    exact .cons (by decide) ((printable_quote key).append (.cons (by decide)
      ((h _ List.mem_cons_self).append (ih fun n hn => h n (List.mem_cons_of_mem _ hn)))))

/-- JSON is written without control characters. -/
theorem printable_render {t : Tree} (h : t.Valid) : Printable (render t) := by
  induction t with
  | null => exact printable_of_all (by rw [render]; rfl)
  | bool b => cases b <;> exact printable_of_all (by rw [render]; rfl)
  | num token => exact printable_number h
  | str s => exact printable_quote s
  | arr items ih =>
    rw [Tree.Valid, validItems_iff] at h
    cases items with
    | nil => simp [Printable, render]
    | cons item items =>
      rw [render]
      exact .cons (by decide) ((ih item List.mem_cons_self (h item List.mem_cons_self)).append
        (printable_more fun i hi => ih i (List.mem_cons_of_mem item hi)
          (h i (List.mem_cons_of_mem item hi))))
  | obj members ih =>
    rw [Tree.Valid, validMembers_iff] at h
    cases members with
    | nil => simp [Printable, render]
    | cons m members =>
      obtain ⟨key, value⟩ := m
      rw [render]
      exact .cons (by decide) ((printable_quote key).append (.cons (by decide)
        ((ih _ List.mem_cons_self (h _ List.mem_cons_self)).append
          (printable_moreMembers fun n hn => ih n (List.mem_cons_of_mem _ hn)
            (h n (List.mem_cons_of_mem _ hn))))))

theorem printable_stringify (v : JsValue) : Printable (stringify v) :=
  printable_render (toTree_valid v)

theorem printable_toBase64url (bytes : List UInt8) : Printable (toBase64url bytes) := by
  intro c hc
  obtain ⟨d, hd⟩ := Option.isSome_iff_exists.1 (base64Value_of_mem hc)
  unfold base64Value at hd
  split_ifs at hd <;> omega

/-! ## Frames are read back -/

/-- A line of a frame. -/
def Line (text : Utf16) : Prop :=
  Printable text ∧ text ≠ []

theorem Printable.notMem_lf {text : Utf16} (h : Printable text) : (10 : CodeUnit) ∉ text :=
  fun hmem => absurd (h 10 hmem) (by decide)

/-- Text without carriage returns stays. -/
theorem replaceLineEnds_eq {text : Utf16} (h : (13 : CodeUnit) ∉ text) :
    replaceLineEnds text = text := by
  fun_induction replaceLineEnds text with
  | case1 | case2 => rfl
  | case3 c d text hcd ih => exact absurd (hcd.1 ▸ List.mem_cons_self) h
  | case4 c d text hcd ih => rw [ih fun hmem => h (List.mem_cons_of_mem c hmem)]

theorem splitFrames_ne_nil (text : Utf16) : splitFrames text ≠ [] := by
  fun_induction splitFrames text with
  | case1 | case2 | case3 => simp
  | case4 c d text hcd ih => cases splitFrames (d :: text) <;> simp [onHead]

/-- Some units before the first of some texts. -/
def beforeHead (s : Utf16) (texts : List Utf16) : List Utf16 :=
  s.foldr onHead texts

theorem splitFrames_cons {c : CodeUnit} {text : Utf16} (h : c = 10 → text.head? ≠ some 10) :
    splitFrames (c :: text) = onHead c (splitFrames text) := by
  cases text with
  | nil => rfl
  | cons d text =>
    rw [splitFrames, if_neg]
    rintro ⟨hc, rfl⟩
    exact h hc rfl

theorem splitFrames_append {s text : Utf16} (h : (10 : CodeUnit) ∉ s) :
    splitFrames (s ++ text) = beforeHead s (splitFrames text) := by
  induction s with
  | nil => rfl
  | cons c s ih =>
    obtain ⟨hc, hs⟩ := not_or.1 (List.mem_cons.not.1 h)
    rw [List.cons_append, splitFrames_cons fun heq => absurd heq.symm hc, ih hs]
    rfl

theorem beforeHead_cons (s text : Utf16) (texts : List Utf16) :
    beforeHead s (text :: texts) = (s ++ text) :: texts := by
  induction s with
  | nil => rfl
  | cons c s ih =>
    rw [beforeHead, List.foldr_cons, ← beforeHead, ih]
    rfl

/-- The lines of a frame, with an end of line after each but the last. -/
def joinLines (lines : List Utf16) : Utf16 :=
  [(10 : CodeUnit)].intercalate lines

theorem joinLines_singleton (line : Utf16) : joinLines [line] = line := by
  simp [joinLines, List.intercalate]

theorem joinLines_cons (line next : Utf16) (lines : List Utf16) :
    joinLines (line :: next :: lines) = line ++ 10 :: joinLines (next :: lines) := by
  simp [joinLines, List.intercalate]

theorem head?_joinLines {line : Utf16} (h : Line line) (lines : List Utf16) (rest : Utf16) :
    (joinLines (line :: lines) ++ rest).head? ≠ some 10 := by
  obtain ⟨c, text, rfl⟩ := List.exists_cons_of_ne_nil h.2
  have hc : c ≠ 10 := fun heq => h.1.notMem_lf (heq ▸ List.mem_cons_self)
  cases lines with
  | nil => simpa [joinLines_singleton] using hc
  | cons next lines => simpa [joinLines_cons] using hc

/-- A frame is read as it was written. -/
theorem splitFrames_frame {lines : List Utf16} (hne : lines ≠ []) (h : ∀ line ∈ lines, Line line)
    (rest : Utf16) :
    splitFrames (joinLines lines ++ 10 :: 10 :: rest) = joinLines lines :: splitFrames rest := by
  induction lines with
  | nil => exact absurd rfl hne
  | cons line lines ih =>
    have hline := (h line List.mem_cons_self).1.notMem_lf
    cases lines with
    | nil =>
      rw [joinLines_singleton, splitFrames_append hline, splitFrames, if_pos ⟨rfl, rfl⟩,
        beforeHead_cons, List.append_nil]
    | cons next lines =>
      have hrest := ih (List.cons_ne_nil _ _) fun l hl => h l (List.mem_cons_of_mem line hl)
      have hnext := h next (List.mem_cons_of_mem line List.mem_cons_self)
      rw [joinLines_cons, List.append_assoc, splitFrames_append hline, List.cons_append,
        splitFrames_cons fun _ => head?_joinLines hnext lines _, hrest, onHead, beforeHead_cons]

theorem splitEvery_joinLines {lines : List Utf16} (hne : lines ≠ [])
    (h : ∀ line ∈ lines, Line line) : Separators.splitEvery 10 (joinLines lines) = lines := by
  induction lines with
  | nil => exact absurd rfl hne
  | cons line lines ih =>
    have hline := (h line List.mem_cons_self).1.notMem_lf
    cases lines with
    | nil => rw [joinLines_singleton, Separators.splitEvery_of_notMem hline]
    | cons next lines =>
      rw [joinLines_cons, Separators.splitEvery_append hline,
        ih (List.cons_ne_nil _ _) fun l hl => h l (List.mem_cons_of_mem line hl)]

end JsonText
