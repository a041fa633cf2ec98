import FactoryFloor.JsStrings
import FactoryFloor.Replacements
import FactoryFloor.Utf8

/-!
# Bounded logs

`apply-verify-service.ts` keeps the beginning of what the process of a verification stage writes to
each of its streams as evidence. The chunks of a stream are accumulated up to a number of code units,
the text is redacted, and the redacted text is cut at a number of bytes and decoded again. The texts are
those of `setEncoding('utf8')`, so they are well formed, and what `redact` finds is a `Pattern` of
`Replacements`. Durations and the signals that a timeout sends are left out.

`Kept` says what a log should be : within its limit, a beginning of the redacted text, and without a
character that redaction of the whole output removes as part of a secret. The last is about occurrences
: a text that stands elsewhere in the output too may show there.

A log is so exactly when the text is short enough or the cut falls between two characters
(`kept_logs_iff`). A cut within a character puts U+FFFD for the rest of it, which is too long or is not
what the text has (`cut_character_not_kept`). No secret shows in either case, although only a beginning
of the output is redacted (`not_shown`).
-/

namespace FactoryFloor.BoundedLogs

open JsonText Replacements

/-! ## Redaction -/

/-- `[A-Za-z0-9_]`. -/
def isWord (c : Char) : Bool := c.isAlphanum || c == '_'

/-- `[:=]`. -/
def isAssignment (c : Char) : Bool := c == ':' || c == '='

def bearerWords : List JsString := ["bearer".toList]

/-- `token|secret|password|api[_-]?key`. -/
def secretNames : List JsString :=
  ["token", "secret", "password", "api_key", "api-key", "apikey"].map String.toList

/-- Whether a character is neither white space nor a sign of assignment. -/
def isNamed (c : Char) : Bool := !isTrimmed c && !isAssignment c

theorem toLower_eq_self {c : Char} (h : isTrimmed c ∨ isAssignment c) : c.toLower = c := by
  refine dif_neg ?_
  rintro ⟨hlower, hupper⟩
  have hlower : 65 ≤ c.toNat := hlower
  have hupper : c.toNat ≤ 90 := hupper
  rcases h with h | h
  · simp only [isTrimmed, List.mem_cons, List.not_mem_nil, or_false, decide_eq_true_eq] at h
    omega
  · rw [isAssignment, Bool.or_eq_true, beq_iff_eq, beq_iff_eq] at h
    rcases h with rfl | rfl
    · exact absurd hlower (by decide)
    · exact absurd hlower (by decide)

/-- Neither white space nor a sign of assignment is a letter of some words. -/
theorem isNamed_anyWord {words : List JsString} (hwords : ∀ w ∈ words, w.all isNamed)
    {x : List Char} {a : ℕ} (h : anyWord words x = some a) {c : Char} (hc : c ∈ x.take a) :
    isTrimmed c = false ∧ isAssignment c = false := by
  rw [anyWord, Option.map_eq_some_iff] at h
  obtain ⟨w, hw, rfl⟩ := h
  have hbegins := beginsWith_iff.1 (List.find?_some (p := (beginsWith · x)) hw)
  have hletters := List.all_eq_true.1 (hwords w (List.mem_of_find?_eq_some hw))
  have hlower : c.toLower ∈ w := by
    rw [List.prefix_iff_eq_take.1 hbegins, ← List.map_take]
    exact List.mem_map_of_mem hc
  by_cases hsign : isTrimmed c ∨ isAssignment c
  · have hnamed := hletters _ hlower
    rw [toLower_eq_self hsign] at hnamed
    simpa [isNamed] using hnamed
  · rw [not_or, Bool.not_eq_true, Bool.not_eq_true] at hsign
    exact hsign

/-- `[A-Za-z0-9._~+/=-]`. -/
def isCredential (c : Char) : Bool := c.isAlphanum || "._~+/=-".toList.contains c

theorem not_isCredential {c : Char} (h : isTrimmed c) : isCredential c = false := by
  have hcode := of_decide_eq_true h
  have hnone := (by decide : ∀ n ∈ _, isCredential (Char.ofNat n) = false) c.toNat hcode
  rwa [Char.ofNat_toNat] at hnone

theorem run_eq_some {f : Char → Bool} {x : List Char} {n : ℕ} (h : run f x = some n) :
    x.take n = x.takeWhile f ∧ (x.takeWhile f).length = n := by
  obtain rfl := Option.some.inj h
  exact ⟨(List.prefix_iff_eq_take.1 (List.takeWhile_prefix f)).symm, rfl⟩

theorem bearer_ended {x : List Char} {a b : ℕ} (hkey : anyWord bearerWords x = some a)
    (hgap : nonempty (run isTrimmed) (x.drop a) = some b) :
    ∃ u c v, x.take (a + b) = u ++ c :: v ∧ isTrimmed c ∧ (∀ d ∈ u, isTrimmed d = false) ∧
      ∀ d ∈ v, isCredential d = false := by
  obtain ⟨hrun, hne⟩ := nonempty_eq_some.1 hgap
  obtain ⟨htake, hlength⟩ := run_eq_some hrun
  have hblank {d : Char} (hd : d ∈ (x.drop a).takeWhile isTrimmed) : isTrimmed d :=
    List.mem_takeWhile_imp hd
  cases hblanks : (x.drop a).takeWhile isTrimmed with
  | nil =>
    rw [hblanks] at hlength
    exact absurd hlength.symm hne
  | cons c v =>
    refine ⟨x.take a, c, v, ?_, hblank (by simp [hblanks]), ?_, ?_⟩
    · rw [List.take_add, htake, hblanks]
    · exact fun d hd => (isNamed_anyWord (by decide) hkey hd).1
    · exact fun d hd => not_isCredential (hblank (by simp [hblanks, hd]))

theorem assignment_ended {x : List Char} {a b : ℕ} (hkey : anyWord secretNames x = some a)
    (hgap : andThen (run isTrimmed) (andThen (one isAssignment) (run isTrimmed)) (x.drop a) =
      some b) :
    ∃ u c v, x.take (a + b) = u ++ c :: v ∧ isAssignment c ∧ (∀ d ∈ u, isAssignment d = false) ∧
      ∀ d ∈ v, (!isTrimmed d) = false := by
  obtain ⟨m, k, hbefore, hrest, rfl⟩ := andThen_eq_some.1 hgap
  obtain ⟨n, l, hone, hafter, rfl⟩ := andThen_eq_some.1 hrest
  obtain ⟨c, y, hy, hc, rfl⟩ := one_eq_some.1 hone
  obtain ⟨htake, -⟩ := run_eq_some hbefore
  obtain ⟨htake', -⟩ := run_eq_some hafter
  rw [hy, List.drop_succ_cons, List.drop_zero] at htake'
  refine ⟨x.take a ++ (x.drop a).takeWhile isTrimmed, c, y.takeWhile isTrimmed, ?_, hc, ?_, ?_⟩
  · rw [List.take_add, List.take_add, htake, hy, Nat.add_comm 1 l, List.take_succ_cons, htake',
      List.append_assoc]
  · intro d hd
    rcases List.mem_append.1 hd with hd | hd
    · exact (isNamed_anyWord (by decide) hkey hd).2
    · have hblank : isTrimmed d := List.mem_takeWhile_imp hd
      have hcode := of_decide_eq_true hblank
      have hnone := (by decide : ∀ n ∈ _, isAssignment (Char.ofNat n) = false) d.toNat hcode
      rwa [Char.ofNat_toNat] at hnone
  · intro d hd
    rw [List.mem_takeWhile_imp hd]
    rfl

/-- `/Bearer\s+[A-Za-z0-9._~+/=-]+/gi`, replaced by `Bearer [REDACTED]`. -/
def bearer : Pattern where
  before _ := true
  key := anyWord bearerWords
  gap := nonempty (run isTrimmed)
  isSecret := isCredential
  keeps := false
  literal := "Bearer [REDACTED]".toList
  ends := isTrimmed
  local_key := local_anyWord (by decide)
  local_gap := (local_run _).nonempty
  ended := bearer_ended

/-- `/\b(token|secret|password|api[_-]?key)\s*[:=]\s*[^\s]+/gi`, replaced by `$1=[REDACTED]`. -/
def assignment : Pattern where
  before p := !p.any isWord
  key := anyWord secretNames
  gap := andThen (run isTrimmed) (andThen (one isAssignment) (run isTrimmed))
  isSecret c := !isTrimmed c
  keeps := true
  literal := "=[REDACTED]".toList
  ends := isAssignment
  local_key := local_anyWord (by decide)
  local_gap := (local_run _).andThen ((local_one _).andThen (local_run _))
  ended := assignment_ended

/-- `redact`, for a text whose elements carry more than a character. -/
def redactWith {α : Type} (char : α → Char) (fixed : Char → α) (text : List α) : List α :=
  assignment.replace char fixed (bearer.replace char fixed text)

/-- `redact`. -/
def redact (value : JsString) : JsString := redactWith id id value

example : redact "API_Key :\t1 bEARER  ab/c=, token=Bearer x".toList =
    "API_Key=[REDACTED] Bearer [REDACTED], token=[REDACTED] [REDACTED]".toList := by
  decide +kernel

/-! ## Cutting -/

/-- `Buffer.from(text, 'utf8')`. -/
def encode (text : JsString) : List UInt8 := text.flatMap String.utf8EncodeChar

/-- `buffer.toString('utf8')`. -/
def decode (bytes : List UInt8) : JsString := (decodePoints none bytes).map Char.ofNat

/-- `boundedLog`. -/
def boundedLog (value : JsString) (maxBytes : ℕ) : JsString :=
  let redacted := redact value
  let buffer := encode redacted
  if buffer.length ≤ maxBytes then redacted else decode (buffer.take maxBytes)

/-- The log is short enough, or it is cut between two characters. -/
def CutsBetween (maxBytes : ℕ) (text : JsString) : Prop :=
  (encode text).length ≤ maxBytes ∨ ∃ u, u <+: text ∧ (encode u).length = maxBytes

theorem encode_append (s t : JsString) : encode (s ++ t) = encode s ++ encode t :=
  List.flatMap_append

theorem encode_cons (c : Char) (s : JsString) : encode (c :: s) = String.utf8EncodeChar c ++ encode s :=
  List.flatMap_cons

theorem decode_encode_append (s : JsString) (bytes : List UInt8) :
    decode (encode s ++ bytes) = s ++ decode bytes := by
  rw [decode, encode, decodePoints_flatMap_append, List.map_append, List.map_map]
  congr 1
  exact (List.map_congr_left fun c _ => Char.ofNat_toNat c).trans (List.map_id s)

/-- The character in which a text that is too long is cut. -/
theorem exists_cut {text : JsString} {maxBytes : ℕ} (h : maxBytes < (encode text).length) :
    ∃ u c v, text = u ++ c :: v ∧ (encode u).length ≤ maxBytes ∧
      maxBytes < (encode u).length + (String.utf8EncodeChar c).length := by
  induction text generalizing maxBytes with
  | nil => exact absurd h (Nat.not_lt_zero maxBytes)
  | cons c text ih =>
    rw [encode_cons, List.length_append] at h
    by_cases hlt : maxBytes < (String.utf8EncodeChar c).length
    · exact ⟨[], c, text, rfl, Nat.zero_le _, by simpa [encode] using hlt⟩
    · have hrest : maxBytes - (String.utf8EncodeChar c).length < (encode text).length := by omega
      obtain ⟨u, d, v, rfl, hu, hd⟩ := ih hrest
      refine ⟨c :: u, d, v, rfl, ?_, ?_⟩
      · rw [encode_cons, List.length_append]
        omega
      · rw [encode_cons, List.length_append]
        omega

/-- Between two characters, the log is cut to them. -/
theorem boundedLog_of_cutsBetween {value : JsString} {maxBytes : ℕ}
    (h : CutsBetween maxBytes (redact value)) :
    (encode (boundedLog value maxBytes)).length ≤ maxBytes ∧
      boundedLog value maxBytes <+: redact value := by
  rw [boundedLog]
  split_ifs with hfits
  · exact ⟨hfits, List.prefix_rfl⟩
  · obtain ⟨u, ⟨v, huv⟩, hlength⟩ := h.resolve_left hfits
    have hdecode : decode (encode u) = u := by
      have h := decode_encode_append u []
      rw [List.append_nil] at h
      exact h.trans (List.append_nil u)
    rw [← huv, encode_append, ← hlength, List.take_left, hdecode]
    exact ⟨Nat.le_refl _, List.prefix_append u v⟩

/-- Within a character, the log ends with a replacement character, which is too long or differs. -/
theorem cutsBetween_of_boundedLog {value : JsString} {maxBytes : ℕ}
    (hlength : (encode (boundedLog value maxBytes)).length ≤ maxBytes)
    (hinitial : boundedLog value maxBytes <+: redact value) :
    CutsBetween maxBytes (redact value) := by
  by_contra hcut
  rw [CutsBetween, not_or] at hcut
  obtain ⟨u, c, v, htext, hle, hlt⟩ := exists_cut (Nat.not_le.1 hcut.1)
  have hne : (encode u).length ≠ maxBytes := fun heq =>
    hcut.2 ⟨u, by rw [htext]; exact List.prefix_append _ _, heq⟩
  obtain ⟨k, rfl⟩ := Nat.exists_eq_add_of_le hle
  have hkept : boundedLog value ((encode u).length + k) = u ++ [Char.ofNat 0xfffd] := by
    rw [boundedLog, if_neg hcut.1, htext, encode_append, List.take_length_add_append, encode_cons,
      List.take_append_of_le_length (by omega), decode_encode_append, decode,
      decodePoints_take (by omega) (by omega)]
    rfl
  rw [hkept] at hlength hinitial
  rw [encode_append, List.length_append] at hlength
  have hlong : (encode [Char.ofNat 0xfffd]).length = 3 := by decide
  rw [htext, List.prefix_append_right_inj, List.cons_prefix_cons] at hinitial
  have hc : (String.utf8EncodeChar c).length = 3 := by
    rw [← hinitial.1]
    rfl
  omega

/-! ## Stages -/

/-- The streams of a child process. -/
inductive Stream where
  | stdout
  | stderr
deriving DecidableEq, Repr

/-- What happens to the child process of a stage. -/
inductive StageEvent where
  | data (stream : Stream) (chunk : JsString)
  | timeout
  | error (message : JsString)
  | close (exitCode : Option ℤ)
deriving DecidableEq, Repr

inductive StageStatus where
  | succeeded
  | failed
  | timedOut
deriving DecidableEq, Repr

structure StageProcessResult where
  status : StageStatus
  exitCode : Option ℤ
  stdout : JsString
  stderr : JsString
deriving DecidableEq, Repr

/-- The variables of `runStage`, with what its promise is resolved to. -/
structure Stage where
  stdout : JsString
  stderr : JsString
  timedOut : Bool
  resolved : Option StageProcessResult

def Stage.initial : Stage := ⟨[], [], false, none⟩

/-- `s.length`. -/
def utf16Length (s : JsString) : ℕ := (s.flatMap codeUnits).length

/-- `if (text.length < maxLogBytes * 4) text += chunk`. -/
def accumulate (maxLogBytes : ℕ) (text chunk : JsString) : JsString :=
  if utf16Length text < maxLogBytes * 4 then text ++ chunk else text

/-- `finish`. -/
def Stage.finish (maxLogBytes : ℕ) (exitCode : Option ℤ) (s : Stage) : Stage :=
  { s with
    resolved := some
      { status := if s.timedOut then .timedOut else if exitCode = some 0 then .succeeded else .failed
        exitCode
        stdout := boundedLog s.stdout maxLogBytes
        stderr := boundedLog s.stderr maxLogBytes } }

/-- The listeners of `runStage`. -/
def Stage.handle (maxLogBytes : ℕ) (s : Stage) : StageEvent → Stage
  | .data .stdout chunk => { s with stdout := accumulate maxLogBytes s.stdout chunk }
  | .data .stderr chunk => { s with stderr := accumulate maxLogBytes s.stderr chunk }
  | .timeout => { s with timedOut := true }
  | .error message => Stage.finish maxLogBytes none { s with stderr := s.stderr ++ message }
  | .close exitCode => s.finish maxLogBytes exitCode

/-- A step of a stage. Once the promise is resolved, nothing is read any more. -/
def Stage.step (maxLogBytes : ℕ) (s : Stage) (event : StageEvent) : Stage :=
  if s.resolved.isSome then s else s.handle maxLogBytes event

/-- `runStage`. -/
def runStage (maxLogBytes : ℕ) (events : List StageEvent) : Stage :=
  events.foldl (Stage.step maxLogBytes) Stage.initial

/-! ## What a log is cut from -/

/-- The chunk of a stream that comes with an event. -/
def StageEvent.chunk? (stream : Stream) : StageEvent → Option JsString
  | .data s chunk => if s = stream then some chunk else none
  | _ => none

/-- The chunks of a stream. -/
def chunks (stream : Stream) (events : List StageEvent) : List JsString :=
  events.filterMap (StageEvent.chunk? stream)

/-- Whether an event resolves the promise. -/
def StageEvent.finishes : StageEvent → Bool
  | .error _ => true
  | .close _ => true
  | _ => false

/-- The text of the chunks of a stream that are accumulated until the promise is resolved. -/
def accumulated (maxLogBytes : ℕ) (stream : Stream) (events : List StageEvent) : JsString :=
  (chunks stream (events.takeWhile (!·.finishes))).foldl (accumulate maxLogBytes) []

/-- The message of the error that resolves the promise, for `stderr`. -/
def errorMessage (stream : Stream) (events : List StageEvent) : JsString :=
  match stream, events.find? (·.finishes) with
  | .stderr, some (.error message) => message
  | _, _ => []

/-- The variable of a stream. -/
def Stage.text (s : Stage) : Stream → JsString
  | .stdout => s.stdout
  | .stderr => s.stderr

/-- The log of a stream. -/
def StageProcessResult.log (r : StageProcessResult) : Stream → JsString
  | .stdout => r.stdout
  | .stderr => r.stderr

theorem Stage.foldl_resolved {maxLogBytes : ℕ} {s : Stage} (h : s.resolved.isSome)
    (events : List StageEvent) : events.foldl (Stage.step maxLogBytes) s = s := by
  induction events with
  | nil => rfl
  | cons event events ih => rw [List.foldl_cons, Stage.step, if_pos h, ih]

theorem errorMessage_cons {event : StageEvent} (h : event.finishes = false) (stream : Stream)
    (events : List StageEvent) : errorMessage stream (event :: events) = errorMessage stream events := by
  cases stream with
  | stdout => rfl
  | stderr =>
    unfold errorMessage
    rw [List.find?_cons_of_neg (by rw [h]; exact Bool.false_ne_true)]

theorem accumulate_cons {maxLogBytes : ℕ} {event : StageEvent} (h : event.finishes = false)
    (stream : Stream) (events : List StageEvent) (text : JsString) :
    (chunks stream ((event :: events).takeWhile (!·.finishes))).foldl (accumulate maxLogBytes) text =
      (chunks stream (events.takeWhile (!·.finishes))).foldl (accumulate maxLogBytes)
        ((event.chunk? stream).elim text (accumulate maxLogBytes text)) := by
  rw [List.takeWhile_cons_of_pos (by rw [h]; rfl), chunks, List.filterMap_cons, chunks]
  cases event.chunk? stream <;> rfl

theorem chunks_of_finishes {event : StageEvent} (h : event.finishes) (stream : Stream)
    (events : List StageEvent) :
    chunks stream ((event :: events).takeWhile (!·.finishes)) = [] := by
  rw [List.takeWhile_cons_of_neg (by rw [h]; exact Bool.false_ne_true)]
  rfl

theorem Stage.log_foldl {maxLogBytes : ℕ} {events : List StageEvent} {r : StageProcessResult}
    (stream : Stream) {s : Stage} (hs : s.resolved = none)
    (h : (events.foldl (Stage.step maxLogBytes) s).resolved = some r) :
    r.log stream = boundedLog ((chunks stream (events.takeWhile (!·.finishes))).foldl
      (accumulate maxLogBytes) (s.text stream) ++ errorMessage stream events) maxLogBytes := by
  induction events generalizing s with
  | nil =>
    rw [List.foldl_nil, hs] at h
    exact nomatch h
  | cons event events ih =>
    rw [List.foldl_cons, Stage.step, if_neg (by rw [hs]; exact Bool.false_ne_true)] at h
    cases event with
    | data stream' chunk =>
      rw [errorMessage_cons rfl, accumulate_cons rfl]
      cases stream' with
      | stdout =>
        rw [ih (s := s.handle maxLogBytes (.data .stdout chunk)) hs h]
        cases stream <;> rfl
      | stderr =>
        rw [ih (s := s.handle maxLogBytes (.data .stderr chunk)) hs h]
        cases stream <;> rfl
    | timeout =>
      rw [errorMessage_cons rfl, accumulate_cons rfl, ih (s := s.handle maxLogBytes .timeout) hs h]
      cases stream <;> rfl
    | error m =>
      rw [Stage.foldl_resolved rfl] at h
      obtain rfl := Option.some.inj h
      rw [chunks_of_finishes rfl, List.foldl_nil]
      cases stream with
      | stdout =>
        have hmessage : errorMessage .stdout (.error m :: events) = [] := rfl
        rw [hmessage, List.append_nil]
        rfl
      | stderr => rfl
    | close exitCode =>
      have hmessage : errorMessage stream (.close exitCode :: events) = [] := by
        cases stream <;> rfl
      rw [Stage.foldl_resolved rfl] at h
      obtain rfl := Option.some.inj h
      rw [chunks_of_finishes rfl, List.foldl_nil, hmessage, List.append_nil]
      cases stream <;> rfl

/-- The logs of a stage are cut from what is accumulated. -/
theorem log_eq {maxLogBytes : ℕ} {events : List StageEvent} {r : StageProcessResult}
    (h : (runStage maxLogBytes events).resolved = some r) (stream : Stream) :
    r.log stream = boundedLog (accumulated maxLogBytes stream events ++ errorMessage stream events)
      maxLogBytes := by
  rw [Stage.log_foldl stream rfl h]
  cases stream <;> rfl

theorem foldl_accumulate_cut (maxLogBytes : ℕ) (chunks : List JsString) (text : JsString) :
    chunks.foldl (accumulate maxLogBytes) text <+: text ++ chunks.flatten := by
  induction chunks generalizing text with
  | nil => exact List.prefix_append _ _
  | cons chunk chunks ih =>
    rw [List.foldl_cons, accumulate]
    split_ifs with h
    · rw [List.flatten_cons, ← List.append_assoc]
      exact ih _
    · -- Nothing is appended to a text that is too long already.
      have hstays : chunks.foldl (accumulate maxLogBytes) text = text := by
        clear ih
        induction chunks with
        | nil => rfl
        | cons chunk chunks ih => rw [List.foldl_cons, accumulate, if_neg h, ih]
      rw [hstays]
      exact List.prefix_append _ _

/-- What is accumulated is a beginning of the output. -/
theorem accumulated_cut (maxLogBytes : ℕ) (stream : Stream) (events : List StageEvent) :
    accumulated maxLogBytes stream events <+: (chunks stream events).flatten := by
  refine (foldl_accumulate_cut maxLogBytes _ []).trans ?_
  obtain ⟨rest, hrest⟩ := List.takeWhile_prefix (l := events) (!·.finishes)
  conv_rhs => rw [← hrest, chunks, List.filterMap_append, List.flatten_append]
  exact List.prefix_append _ _

/-! ## What a log keeps -/

/-- A text with the place of each character. -/
def places (text : JsString) : List (Char × Option ℕ) := text.zipIdx.map fun (c, i) => (c, some i)

/-- A character that has no place in the output. -/
def unplaced (c : Char) : Char × Option ℕ := (c, none)

/-- The places of the characters that redaction removes as secrets. -/
def secretPlaces (output : JsString) : List (Option ℕ) :=
  (bearer.secrets Prod.fst (places output) ++
    assignment.secrets Prod.fst (bearer.replace Prod.fst unplaced (places output))).map Prod.snd

/-- The places of the characters that are left when a beginning of the output is redacted, with a
message after it. -/
def shownPlaces (text message : JsString) : List (Option ℕ) :=
  (redactWith Prod.fst unplaced (places text ++ message.map unplaced)).map Prod.snd

/-- The characters at these places make up the redacted text. -/
theorem map_fst_redactWith (text message : JsString) :
    (redactWith Prod.fst unplaced (places text ++ message.map unplaced)).map Prod.fst =
      redact (text ++ message) := by
  have hmap (r : Pattern) (t : List (Char × Option ℕ)) :
      (r.replace Prod.fst unplaced t).map Prod.fst = r.replace id id (t.map Prod.fst) := by
    have hchar (a : Char × Option ℕ) : id a.1 = a.1 := rfl
    have hfixed (c : Char) : (unplaced c).1 = id c := rfl
    exact (Pattern.replace_map hchar hfixed t).symm
  have htext : (places text ++ message.map unplaced).map Prod.fst = text ++ message := by
    have hplaces : (places text).map Prod.fst = text := by
      rw [places, List.map_map]
      exact List.zipIdx_map_fst 0 text
    have hunplaced : (message.map unplaced).map Prod.fst = message := by
      rw [List.map_map]
      exact List.map_id message
    rw [List.map_append, hplaces, hunplaced]
  rw [redactWith, hmap, hmap, htext, redact, redactWith]

/-- A log that is kept is within the limit, a beginning of the redacted text, and none of its
characters comes from a place of the whole output at which redaction removes a secret. -/
structure Kept (maxBytes : ℕ) (output text message log : JsString) : Prop where
  bounded : (encode log).length ≤ maxBytes
  initial : log <+: redact (text ++ message)
  redacted : ∀ i, some i ∈ secretPlaces output →
    some i ∉ (shownPlaces text message).take log.length

theorem places_append (s t : JsString) :
    places (s ++ t) = places s ++ (t.zipIdx s.length).map fun (c, i) => (c, some i) := by
  rw [places, List.zipIdx_append, List.map_append, Nat.zero_add]
  rfl

/-- A place is that of one character. -/
theorem countP_places (text : JsString) (i : ℕ) :
    (places text).countP (fun a => a.2 = some i) ≤ 1 := by
  have hplaces : (text.zipIdx.map Prod.snd).Nodup := by
    rw [List.zipIdx_map_snd]
    exact List.nodup_range'
  have hcount := List.nodup_iff_count_le_one.1 hplaces i
  rw [List.count, List.countP_map] at hcount
  rw [places, List.countP_map]
  refine le_trans (le_of_eq ?_) hcount
  exact List.countP_congr fun a _ => by simp

theorem mem_map_snd {t : List (Char × Option ℕ)} {i : ℕ} :
    some i ∈ t.map Prod.snd ↔ t.countP (fun a => a.2 = some i) ≠ 0 := by
  rw [ne_eq, List.countP_eq_zero, List.mem_map]
  push Not
  simp only [decide_eq_true_eq]

/-- A secret of the whole output does not show in a beginning of it. -/
theorem not_shown {output text : JsString} (h : text <+: output) (message : JsString) {i : ℕ}
    (hsecret : some i ∈ secretPlaces output) : some i ∉ shownPlaces text message := by
  obtain ⟨rest, rfl⟩ := h
  have hone := countP_places (text ++ rest) i
  rw [secretPlaces, mem_map_snd, List.countP_append] at hsecret
  rw [places_append] at hone hsecret
  have hmessage : (message.map unplaced).countP (fun a => a.2 = some i) = 0 := by
    rw [List.countP_eq_zero]
    intro a ha
    obtain ⟨c, -, rfl⟩ := List.mem_map.1 ha
    simp [unplaced]
  rw [shownPlaces, mem_map_snd, not_not]
  exact not_shown_of_secret rfl (fun c => by simp [unplaced]) hone hmessage (by omega)

theorem kept_iff {output text message : JsString} (h : text <+: output) (maxBytes : ℕ) :
    Kept maxBytes output text message (boundedLog (text ++ message) maxBytes) ↔
      CutsBetween maxBytes (redact (text ++ message)) := by
  constructor
  · intro hkept
    exact cutsBetween_of_boundedLog hkept.bounded hkept.initial
  · intro hcut
    obtain ⟨hbounded, hinitial⟩ := boundedLog_of_cutsBetween hcut
    exact ⟨hbounded, hinitial, fun i hi hshown =>
      not_shown h message hi (List.mem_of_mem_take hshown)⟩

/-- The log of each stream is kept within its limit, as a beginning of the redacted text and without
the secrets of the whole output, exactly when the text is short enough or is cut between two
characters. -/
theorem kept_logs_iff {maxLogBytes : ℕ} {events : List StageEvent} {r : StageProcessResult}
    (h : (runStage maxLogBytes events).resolved = some r) (stream : Stream) :
    Kept maxLogBytes (chunks stream events).flatten (accumulated maxLogBytes stream events)
        (errorMessage stream events) (r.log stream) ↔
      CutsBetween maxLogBytes
        (redact (accumulated maxLogBytes stream events ++ errorMessage stream events)) := by
  rw [log_eq h]
  exact kept_iff (accumulated_cut maxLogBytes stream events) maxLogBytes

/-- A stage with a secret on each stream. -/
def sampleEvents : List StageEvent :=
  [.data .stdout "Bearer x".toList, .data .stderr "token: y".toList, .data .stdout "y, é".toList,
    .close (some 1)]

def sampleResult : StageProcessResult :=
  ⟨.failed, some 1, "Bearer [REDACTED], ".toList, "token=[REDACTED]".toList⟩

theorem sample_logs_kept : (runStage 19 sampleEvents).resolved = some sampleResult ∧
    ∀ stream, (Kept 19 (chunks stream sampleEvents).flatten (accumulated 19 stream sampleEvents)
        (errorMessage stream sampleEvents) (sampleResult.log stream) ↔
      CutsBetween 19 (redact (accumulated 19 stream sampleEvents ++
        errorMessage stream sampleEvents))) := by
  have h : (runStage 19 sampleEvents).resolved = some sampleResult := by decide +kernel
  exact ⟨h, fun stream => kept_logs_iff h stream⟩

/-- The output of a stage whose only character takes two bytes, with a limit of one byte. -/
def cutEvents : List StageEvent := [.data .stdout "é".toList, .close (some 0)]

/-- The log is then a replacement character, which takes three bytes. -/
theorem cut_character_not_kept :
    ∃ r, (runStage 1 cutEvents).resolved = some r ∧ r.stdout = [Char.ofNat 0xfffd] ∧
      ¬Kept 1 (chunks .stdout cutEvents).flatten (accumulated 1 .stdout cutEvents)
        (errorMessage .stdout cutEvents) r.stdout := by
  refine ⟨⟨.succeeded, some 0, [Char.ofNat 0xfffd], []⟩, by decide +kernel, rfl, fun hkept => ?_⟩
  exact absurd hkept.bounded (by decide)

end FactoryFloor.BoundedLogs
