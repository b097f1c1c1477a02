import H11r.Wire.Laws
import Mathlib.Tactic.SplitIfs

/-!
# A parser that meets the laws

The laws of `Wire.Laws` are hypotheses of the results that need them; this
module shows that they can be met together. `Reference.httparse` reads a head
line by line: a line ends at its LF, an empty line before the start line is
skipped, and the empty line after the fields ends the head. An answer is given
at the LF of the line that decides it, so it only depends on what comes before.

It reads the heads of the strict grammar, which every head the connection
writes belongs to. Obsolete folding and the lenient options are not in it.
-/

namespace H11r.Reference

/-- The length of the name, and the range of the value, of a field line. -/
def fieldLine (line : Bytes) : Option (Nat × Nat × Nat) :=
  let name := line.takeWhile (· != colon)
  let text := line.drop (name.length + 1)
  let start := name.length + 1 + countWhile isOws text
  if name.length < line.length ∧ validName name = true ∧ text.all isLineValueByte = true then
    some (name.length, start, start + (trimOws text).length)
  else none

/-- How far a head has been read. `line` is what has come of the current line. -/
inductive Phase (α : Type) where
  | startLine (line : Bytes)
  | fields (start : α) (spans : List (Span × Span)) (line : Bytes)
  | complete (start : α) (stop : Nat) (spans : List (Span × Span))
  | failed (tooManyHeaders : Bool)

structure Scan (α : Type) where
  position : Nat
  phase : Phase α

section Scanning

variable {α : Type} (parseStart : Bytes → Option α) (slots : Nat)

/-- The phase after the LF that ends `line`, at `position`. -/
def endLine (position : Nat) : Phase α → Phase α
  | .startLine line =>
    if line.isEmpty ∨ line = [cr] then .startLine []
    else
      match parseStart (stripCr line) with
      | some start => .fields start [] []
      | none => .failed false
  | .fields start spans line =>
    if line.isEmpty ∨ line = [cr] then .complete start (position + 1) spans
    else
      match fieldLine (stripCr line) with
      | none => .failed false
      | some (name, valueStart, valueStop) =>
        if spans.length < slots then
          .fields start (spans ++ [(⟨position - line.length, position - line.length + name⟩,
            ⟨position - line.length + valueStart, position - line.length + valueStop⟩)]) []
        else .failed true
  | phase => phase

/-- The phase after a byte that does not end the line. -/
def extendLine (byte : UInt8) : Phase α → Phase α
  | .startLine line => .startLine (line ++ [byte])
  | .fields start spans line => .fields start spans (line ++ [byte])
  | phase => phase

def scanByte (scan : Scan α) (byte : UInt8) : Scan α :=
  ⟨scan.position + 1,
    if byte = lf then endLine parseStart slots scan.position scan.phase
    else extendLine byte scan.phase⟩

def scanBytes (scan : Scan α) (data : Bytes) : Scan α := data.foldl (scanByte parseStart slots) scan

theorem scanBytes_append (scan : Scan α) (data more : Bytes) :
    scanBytes parseStart slots scan (data ++ more) =
      scanBytes parseStart slots (scanBytes parseStart slots scan data) more :=
  List.foldl_append

theorem scanBytes_cons (scan : Scan α) (byte : UInt8) (data : Bytes) :
    scanBytes parseStart slots scan (byte :: data) =
      scanBytes parseStart slots (scanByte parseStart slots scan byte) data := rfl

/-- An answer is final. -/
theorem scanBytes_complete {start : α} {stop : Nat} {spans : List (Span × Span)} (position : Nat)
    (data : Bytes) : (scanBytes parseStart slots ⟨position, .complete start stop spans⟩ data).phase =
      .complete start stop spans := by
  induction data generalizing position with
  | nil => rfl
  | cons byte data ih =>
    rw [scanBytes_cons]
    unfold scanByte
    split <;> exact ih _

theorem scanBytes_failed {tooManyHeaders : Bool} (position : Nat) (data : Bytes) :
    (scanBytes parseStart slots ⟨position, .failed tooManyHeaders⟩ data).phase =
      .failed tooManyHeaders := by
  induction data generalizing position with
  | nil => rfl
  | cons byte data ih =>
    rw [scanBytes_cons]
    unfold scanByte
    split <;> exact ih _

theorem scanBytes_position (scan : Scan α) (data : Bytes) :
    (scanBytes parseStart slots scan data).position = scan.position + data.length := by
  induction data generalizing scan with
  | nil => rfl
  | cons byte data ih =>
    rw [scanBytes_cons, ih, List.length_cons]
    show scan.position + 1 + data.length = _
    omega

/-- The spans come in the order of the text, before its end. -/
def FieldsFit (stop : Nat) (spans : List (Span × Span)) : Prop :=
  (∀ field ∈ spans, field.1.start ≤ field.1.stop ∧ field.1.stop ≤ field.2.start ∧
      field.2.start ≤ field.2.stop ∧ field.2.stop ≤ stop) ∧
    spans.Pairwise fun earlier later => earlier.2.stop ≤ later.1.start

/-- The fields found so far lie before the current line, or before the end. -/
def Placed (scan : Scan α) : Prop :=
  match scan.phase with
  | .fields _ spans line => line.length ≤ scan.position ∧
      FieldsFit (scan.position - line.length) spans
  | .complete _ stop spans => stop ≤ scan.position ∧ FieldsFit stop spans
  | _ => True

theorem FieldsFit.mono {stop stop' : Nat} {spans : List (Span × Span)} (h : FieldsFit stop spans)
    (hle : stop ≤ stop') : FieldsFit stop' spans :=
  ⟨fun field hmem => by have := h.1 field hmem; omega, h.2⟩

theorem fieldLine_le {line : Bytes} {name start stop : Nat}
    (h : fieldLine line = some (name, start, stop)) :
    name ≤ start ∧ start ≤ stop ∧ stop ≤ line.length := by
  unfold fieldLine at h
  simp only at h
  split at h
  next hline =>
    cases h
    refine ⟨by omega, by omega, ?_⟩
    have htext : ∀ text : Bytes, countWhile isOws text + (trimOws text).length ≤ text.length := by
      intro text
      have hsplit := congrArg List.length (List.takeWhile_append_dropWhile (p := isOws) (l := text))
      have htail := (List.dropWhile_sublist (p := isOws)
        (l := (text.dropWhile isOws).reverse)).length_le
      rw [List.length_append] at hsplit
      rw [List.length_reverse] at htail
      unfold countWhile trimOws
      rw [List.length_reverse]
      omega
    have := htext (line.drop ((line.takeWhile (· != colon)).length + 1))
    rw [List.length_drop] at this
    omega
  next => cases h

theorem stripCr_length (line : Bytes) : (stripCr line).length ≤ line.length := by
  unfold stripCr
  split
  · rw [List.length_dropLast]
    omega
  · exact Nat.le_refl _

theorem scanByte_placed {scan : Scan α} (byte : UInt8) (h : Placed scan) :
    Placed (scanByte parseStart slots scan byte) := by
  obtain ⟨position, phase⟩ := scan
  unfold scanByte
  cases phase with
  | startLine line =>
    by_cases hbyte : byte = lf
    · simp only [if_pos hbyte, endLine]
      split_ifs
      · trivial
      · cases parseStart (stripCr line) with
        | none => trivial
        | some start => exact ⟨Nat.zero_le _, by simp, List.Pairwise.nil⟩
    · rw [if_neg hbyte]
      trivial
  | fields start spans line =>
    obtain ⟨hline, hfit⟩ : line.length ≤ position ∧ FieldsFit (position - line.length) spans := h
    by_cases hbyte : byte = lf
    · simp only [if_pos hbyte, endLine]
      by_cases hempty : line.isEmpty ∨ line = [cr]
      · rw [if_pos hempty]
        exact ⟨Nat.le_refl _, hfit.mono (by omega)⟩
      · rw [if_neg hempty]
        cases hparts : fieldLine (stripCr line) with
        | none => trivial
        | some parts =>
          obtain ⟨name, valueStart, valueStop⟩ := parts
          have hle := fieldLine_le hparts
          have hstrip := stripCr_length line
          dsimp only
          split_ifs
          · refine ⟨Nat.zero_le _, fun field hmem => ?_, ?_⟩
            · rcases List.mem_append.mp hmem with hold | hnew
              · have := hfit.1 field hold
                show _ ∧ _ ∧ _ ∧ field.2.stop ≤ position + 1 - 0
                omega
              · rw [List.mem_singleton] at hnew
                subst hnew
                show _ ∧ _ ∧ _ ∧ position - line.length + valueStop ≤ position + 1 - 0
                dsimp only
                omega
            · rw [List.pairwise_append]
              refine ⟨hfit.2, List.pairwise_singleton _ _, fun earlier hearlier later hlater => ?_⟩
              rw [List.mem_singleton] at hlater
              subst hlater
              exact (hfit.1 earlier hearlier).2.2.2
          · trivial
    · rw [if_neg hbyte]
      show (line ++ [byte]).length ≤ position + 1 ∧ FieldsFit (position + 1 - _) spans
      rw [List.length_append, List.length_singleton]
      exact ⟨by omega, hfit.mono (by omega)⟩
  | complete start stop spans =>
    obtain ⟨hstop, hfit⟩ : stop ≤ position ∧ FieldsFit stop spans := h
    split_ifs
    · exact ⟨Nat.le_succ_of_le hstop, hfit⟩
    · exact ⟨Nat.le_succ_of_le hstop, hfit⟩
  | failed tooManyHeaders =>
    split_ifs <;> trivial

theorem scanBytes_placed {scan : Scan α} (data : Bytes) (h : Placed scan) :
    Placed (scanBytes parseStart slots scan data) := by
  induction data generalizing scan with
  | nil => exact h
  | cons byte data ih => exact ih (scanByte_placed parseStart slots byte h)

/-- No more fields have been read than there are slots. -/
def WithinSlots : Phase α → Prop
  | .fields _ spans _ | .complete _ _ spans => spans.length ≤ slots
  | _ => True

theorem endLine_withinSlots (position : Nat) {phase : Phase α} (h : WithinSlots slots phase) :
    WithinSlots slots (endLine parseStart slots position phase) := by
  cases phase with
  | startLine line =>
    dsimp only [endLine]
    split
    · trivial
    · split
      · exact Nat.zero_le slots
      · trivial
  | fields start spans line =>
    dsimp only [endLine]
    split
    · exact h
    · split
      · trivial
      · split
        next hroom =>
          show (spans ++ _).length ≤ slots
          rw [List.length_append, List.length_singleton]
          omega
        next => trivial
  | complete => exact h
  | failed => trivial

theorem scanByte_withinSlots {scan : Scan α} (byte : UInt8) (h : WithinSlots slots scan.phase) :
    WithinSlots slots (scanByte parseStart slots scan byte).phase := by
  obtain ⟨position, phase⟩ := scan
  dsimp only [scanByte]
  split
  · exact endLine_withinSlots parseStart slots position h
  · cases phase with
    | startLine | failed => trivial
    | fields | complete => exact h

theorem scanBytes_withinSlots (data : Bytes) {scan : Scan α} (h : WithinSlots slots scan.phase) :
    WithinSlots slots (scanBytes parseStart slots scan data).phase := by
  induction data generalizing scan with
  | nil => exact h
  | cons byte data ih => exact ih (scanByte_withinSlots parseStart slots byte h)

/-! ## The scan ends where the line scan of the connection ends -/

/-- The phase of a scan in a line whose start the connection has seen or not. -/
def Matches (skip started : Bool) (line : Bytes) : Phase α → Prop
  | .startLine current => current = line ∧ skip = true ∧ started = false
  | .fields _ _ current => current = line ∧ (started = true ∨ skip = false)
  | _ => False

/-- What the answers of a scan say about the empty line. -/
def AgreesWith (stop : Option Nat) : Phase α → Prop
  | .complete _ found _ => stop = some found
  | .failed _ => True
  | _ => stop = none

theorem scanBytes_agrees {data : Bytes} {skip : Bool} {progress : SectionProgress}
    (hstart : progress.lineStart ≤ progress.position) (phase : Phase α)
    (hmatch : Matches skip progress.started
      (Span.slice ⟨progress.lineStart, progress.position⟩ data) phase) :
    AgreesWith (progress.poll data skip).1
      (scanBytes parseStart slots ⟨progress.position, phase⟩ (data.drop progress.position)).phase := by
  revert phase
  fun_induction progress.poll data skip with
  | case1 progress hlt next hlf line hempty hstarted =>
    intro phase hmatch
    rw [List.drop_eq_getElem_cons hlt, scanBytes_cons]
    unfold scanByte
    rw [if_pos hlf]
    cases phase with
    | startLine current =>
      obtain ⟨_, hskip, hnot⟩ := hmatch
      rw [hskip, hnot] at hstarted
      simp at hstarted
    | fields start spans current =>
      obtain ⟨rfl, _⟩ := hmatch
      rw [endLine, if_pos hempty, scanBytes_complete]
      exact rfl
    | complete => exact hmatch.elim
    | failed => exact hmatch.elim
  | case2 progress hlt next hlf line hempty hstarted ih =>
    intro phase hmatch
    rw [List.drop_eq_getElem_cons hlt, scanBytes_cons]
    unfold scanByte
    rw [if_pos hlf]
    cases phase with
    | startLine current =>
      obtain ⟨rfl, hskip, hnot⟩ := hmatch
      rw [endLine, if_pos hempty]
      refine ih (Nat.le_refl _) (.startLine []) ⟨?_, hskip, hnot⟩
      show [] = Span.slice ⟨next, next⟩ data
      rw [Span.slice, Nat.sub_self, List.take_zero]
    | fields start spans current =>
      obtain ⟨_, hstate⟩ := hmatch
      refine absurd ?_ hstarted
      rcases hstate with h | h
      · exact Or.inl h
      · exact Or.inr (by rw [h]; rfl)
    | complete => exact hmatch.elim
    | failed => exact hmatch.elim
  | case3 progress hlt next hlf line hempty ih =>
    intro phase hmatch
    rw [List.drop_eq_getElem_cons hlt, scanBytes_cons]
    unfold scanByte
    rw [if_pos hlf]
    have hnil : [] = Span.slice ⟨next, next⟩ data := by
      rw [Span.slice, Nat.sub_self, List.take_zero]
    cases phase with
    | startLine current =>
      obtain ⟨rfl, _, _⟩ := hmatch
      rw [endLine, if_neg hempty]
      cases parseStart (stripCr line) with
      | none =>
        rw [scanBytes_failed]
        trivial
      | some start => exact ih (Nat.le_refl _) _ ⟨hnil, Or.inl rfl⟩
    | fields start spans current =>
      obtain ⟨rfl, _⟩ := hmatch
      rw [endLine, if_neg hempty]
      cases fieldLine (stripCr line) with
      | none =>
        rw [scanBytes_failed]
        trivial
      | some parts =>
        dsimp only
        split_ifs
        · exact ih (Nat.le_refl _) _ ⟨hnil, Or.inl rfl⟩
        · rw [scanBytes_failed]
          trivial
    | complete => exact hmatch.elim
    | failed => exact hmatch.elim
  | case4 progress hlt next hlf ih =>
    intro phase hmatch
    rw [List.drop_eq_getElem_cons hlt, scanBytes_cons]
    unfold scanByte
    rw [if_neg hlf]
    have hline : Span.slice ⟨progress.lineStart, progress.position⟩ data ++
        [data[progress.position]] = Span.slice ⟨progress.lineStart, next⟩ data := by
      have hsub : next - progress.lineStart = progress.position - progress.lineStart + 1 := by
        show progress.position + 1 - _ = _
        omega
      have hat : progress.position - progress.lineStart <
          (data.drop progress.lineStart).length := by
        rw [List.length_drop]
        omega
      unfold Span.slice
      rw [hsub, List.take_succ_eq_append_getElem hat, List.getElem_drop]
      congr 3
      omega
    cases phase with
    | startLine current =>
      obtain ⟨rfl, hskip, hnot⟩ := hmatch
      exact ih (Nat.le_succ_of_le hstart) _ ⟨hline, hskip, hnot⟩
    | fields start spans current =>
      obtain ⟨rfl, hstate⟩ := hmatch
      exact ih (Nat.le_succ_of_le hstart) _ ⟨hline, hstate⟩
    | complete => exact hmatch.elim
    | failed => exact hmatch.elim
  | case5 progress hlt =>
    intro phase hmatch
    rw [List.drop_eq_nil_of_le (by omega)]
    cases phase with
    | startLine current => exact rfl
    | fields start spans current => exact rfl
    | complete => exact hmatch.elim
    | failed => exact hmatch.elim

/-! ## The answer of a scan -/

def outcome (scan : Scan α) :
    Except HttparseError (Option (α × Nat × List (Span × Span))) :=
  match scan.phase with
  | .startLine _ | .fields _ _ _ => .ok none
  | .complete start stop spans => .ok (some (start, stop, spans))
  | .failed tooManyHeaders => .error ⟨"invalid header name", tooManyHeaders⟩

theorem outcome_some {scan : Scan α} {start : α} {stop : Nat} {spans : List (Span × Span)}
    (h : outcome scan = .ok (some (start, stop, spans))) :
    scan.phase = .complete start stop spans := by
  unfold outcome at h
  split at h
  · cases h
  · cases h
  · cases h
    assumption
  · cases h

/-- The reading of a buffer from the first phase on. -/
def read (first : Phase α) (data : Bytes) :
    Except HttparseError (Option (α × Nat × List (Span × Span))) :=
  outcome (scanBytes parseStart slots ⟨0, first⟩ data)

theorem read_fit (first : Phase α) (hfirst : Placed ⟨0, first⟩) {data : Bytes}
    {parts : α × Nat × List (Span × Span)}
    (h : read parseStart slots first data = .ok (some parts)) :
    parts.2.1 ≤ data.length ∧ FieldsFit parts.2.1 parts.2.2 := by
  have hplaced := scanBytes_placed parseStart slots data hfirst
  unfold Placed at hplaced
  rw [outcome_some h, scanBytes_position] at hplaced
  simpa using hplaced

theorem read_withinSlots (first : Phase α) (hfirst : WithinSlots slots first) {data : Bytes}
    {parts : α × Nat × List (Span × Span)}
    (h : read parseStart slots first data = .ok (some parts)) : parts.2.2.length ≤ slots := by
  have hwithin : WithinSlots slots (scanBytes parseStart slots ⟨0, first⟩ data).phase :=
    scanBytes_withinSlots parseStart slots data hfirst
  rw [outcome_some h] at hwithin
  exact hwithin

theorem read_sectionReader (first : Phase α) {skip : Bool} (hfirst : Matches skip false [] first) :
    SectionReader (read parseStart slots first) (fun parts => parts.2.1) skip := by
  have hagrees : ∀ data : Bytes, AgreesWith (emptyLineEnd data skip)
      (scanBytes parseStart slots ⟨0, first⟩ data).phase := fun data =>
    scanBytes_agrees parseStart slots (Nat.le_refl 0) first hfirst
  refine ⟨?_, ?_, ?_, ?_⟩
  · intro data value more h
    unfold read at h ⊢
    obtain ⟨start, stop, spans⟩ := value
    rw [scanBytes_append]
    rcases hscan : scanBytes parseStart slots ⟨0, first⟩ data with ⟨position, phase⟩
    rw [hscan] at h
    have hphase := outcome_some h
    cases hphase
    unfold outcome
    rw [scanBytes_complete]
  · intro data error more h
    unfold read at h ⊢
    rw [scanBytes_append]
    rcases hscan : scanBytes parseStart slots ⟨0, first⟩ data with ⟨position, phase⟩
    rw [hscan] at h
    unfold outcome at h ⊢
    cases phase with
    | startLine line => cases h
    | fields start spans line => cases h
    | complete start stop spans =>
      rw [scanBytes_complete]
      exact h
    | failed tooManyHeaders =>
      rw [scanBytes_failed]
      exact h
  · intro data value h
    have hagree := hagrees data
    rw [outcome_some h] at hagree
    exact hagree
  · intro data h
    have hagree := hagrees data
    unfold read outcome at h
    cases hphase : (scanBytes parseStart slots ⟨0, first⟩ data).phase with
    | startLine line =>
      rw [hphase] at hagree
      exact hagree
    | fields start spans line =>
      rw [hphase] at hagree
      exact hagree
    | complete start stop spans =>
      simp only [hphase] at h
      cases h
    | failed tooManyHeaders =>
      simp only [hphase] at h
      cases h

/-! ## Reading what a sender has written -/

theorem scanBytes_startLine (position : Nat) (line text : Bytes) (h : lf ∉ text) :
    scanBytes parseStart slots ⟨position, .startLine line⟩ text =
      ⟨position + text.length, .startLine (line ++ text)⟩ := by
  induction text generalizing position line with
  | nil => simp [scanBytes]
  | cons byte text ih =>
    rw [List.mem_cons, not_or] at h
    rw [scanBytes_cons, scanByte, if_neg (Ne.symm h.1), extendLine, ih _ _ h.2, List.length_cons]
    simp [Nat.add_assoc, Nat.add_comm 1]

theorem scanBytes_fieldLine (position : Nat) (start : α) (spans : List (Span × Span))
    (line text : Bytes) (h : lf ∉ text) :
    scanBytes parseStart slots ⟨position, .fields start spans line⟩ text =
      ⟨position + text.length, .fields start spans (line ++ text)⟩ := by
  induction text generalizing position line with
  | nil => simp [scanBytes]
  | cons byte text ih =>
    rw [List.mem_cons, not_or] at h
    rw [scanBytes_cons, scanByte, if_neg (Ne.symm h.1), extendLine, ih _ _ h.2, List.length_cons]
    simp [Nat.add_assoc, Nat.add_comm 1]

theorem stripCr_append (line : Bytes) : stripCr (line ++ [cr]) = line := by
  unfold stripCr
  rw [List.getLast?_concat, if_pos rfl, List.dropLast_concat]

/-- A written start line is read in one go. -/
theorem scanBytes_start {text : Bytes} {start : α} (hne : text ≠ []) (hlf : lf ∉ text)
    (hparse : parseStart text = some start) :
    scanBytes parseStart slots ⟨0, .startLine []⟩ (text ++ crlf) =
      ⟨(text ++ crlf).length, .fields start [] []⟩ := by
  have hsplit : text ++ crlf = text ++ [cr] ++ [lf] := by simp [crlf]
  have hno : lf ∉ text ++ [cr] := by
    simp only [List.mem_append, List.mem_singleton, not_or]
    exact ⟨hlf, by decide⟩
  have hline : ¬((text ++ [cr]).isEmpty = true ∨ text ++ [cr] = [cr]) := by
    simp [hne]
  rw [hsplit, scanBytes_append, scanBytes_startLine _ _ _ _ _ hno, scanBytes_cons, scanByte,
    if_pos rfl]
  simp only [List.nil_append, endLine]
  rw [if_neg hline, stripCr_append, hparse]
  simp [scanBytes]

theorem takeWhile_token {name : Bytes} (h : name.all isTokenByte = true) (rest : Bytes) :
    (name ++ colon :: rest).takeWhile (· != colon) = name := by
  rw [List.takeWhile_append_of_pos]
  · simp
  · intro byte hbyte
    rw [bne_iff_ne]
    rintro rfl
    exact absurd (List.all_eq_true.mp h _ hbyte) (by decide)

theorem fieldLine_written {field : Bytes × Bytes} (h : validField field) :
    fieldLine (field.1 ++ ascii ": " ++ field.2) =
      some (field.1.length, field.1.length + 2, field.1.length + 2 + field.2.length) := by
  obtain ⟨name, value⟩ := field
  obtain ⟨hname, hvalue⟩ := h
  have htoken := validName_token hname
  have htrim := trimOws_valid hvalue
  have hline : name ++ ascii ": " ++ value = name ++ colon :: sp :: value := by
    rw [List.append_assoc]
    rfl
  have hdrop : (name ++ colon :: sp :: value).drop (name.length + 1) = sp :: value := by
    rw [← List.drop_drop, List.drop_left]
    rfl
  have hall : (sp :: value).all isLineValueByte = true := by
    rw [List.all_cons, validValue_all hvalue]
    decide
  rw [hline]
  unfold fieldLine
  simp only [takeWhile_token htoken.2, hdrop, htrim.1, htrim.2]
  rw [if_pos ⟨by simp, hname, hall⟩]

theorem scanBytes_written (position : Nat) (start : α) (spans : List (Span × Span))
    (fields : List (Bytes × Bytes)) (hvalid : ∀ field ∈ fields, validField field)
    (hslots : spans.length + fields.length ≤ slots) :
    scanBytes parseStart slots ⟨position, .fields start spans []⟩ (fields.flatMap writeField) =
      ⟨position + (fields.flatMap writeField).length,
        .fields start (spans ++ fieldSpans position fields) []⟩ := by
  induction fields generalizing position spans with
  | nil => simp [scanBytes, fieldSpans]
  | cons field fields ih =>
    have hfield := hvalid field (List.mem_cons_self ..)
    obtain ⟨name, value⟩ := field
    rw [List.length_cons] at hslots
    have hsplit : writeField (name, value) = name ++ ascii ": " ++ value ++ [cr] ++ [lf] := by
      simp [writeField, crlf]
    have hno : lf ∉ name ++ ascii ": " ++ value ++ [cr] := by
      simp only [List.mem_append, List.mem_singleton, not_or]
      exact ⟨⟨⟨lf_not_mem_token (validName_token hfield.1).2, by decide⟩,
        lf_not_mem_value (validValue_all hfield.2)⟩, by decide⟩
    have hline : ¬((name ++ ascii ": " ++ value ++ [cr]).isEmpty = true ∨
        name ++ ascii ": " ++ value ++ [cr] = [cr]) := by
      rintro (h | h)
      · simp at h
      · have hlength := congrArg List.length h
        simp only [List.length_append, List.length_singleton, Nat.add_eq_right] at hlength
        have hsep : (ascii ": ").length = 2 := rfl
        omega
    have hread : scanBytes parseStart slots ⟨position, .fields start spans []⟩
        (writeField (name, value)) = ⟨position + (writeField (name, value)).length,
          .fields start (spans ++ [(⟨position, position + name.length⟩,
            ⟨position + name.length + 2, position + name.length + 2 + value.length⟩)]) []⟩ := by
      rw [hsplit, scanBytes_append, scanBytes_fieldLine _ _ _ _ _ _ _ hno, scanBytes_cons, scanByte,
        if_pos rfl]
      simp only [List.nil_append, endLine]
      rw [if_neg hline, stripCr_append, fieldLine_written hfield]
      simp only [Nat.add_sub_cancel, scanBytes, List.foldl_nil]
      rw [if_pos (by omega)]
      simp [Nat.add_assoc]
    rw [List.flatMap_cons, scanBytes_append, hread,
      ih _ _ (fun other hmem => hvalid other (List.mem_cons_of_mem _ hmem))
        (by rw [List.length_append, List.length_singleton]; omega),
      List.length_append, Nat.add_assoc, List.append_assoc]
    rfl

/-- A written section is read back at the places where it was written. -/
theorem read_written (first : Phase α) (line : Bytes) {start : α} (fields : List (Bytes × Bytes))
    (rest : Bytes) (hline : scanBytes parseStart slots ⟨0, first⟩ line =
      ⟨line.length, .fields start [] []⟩)
    (hvalid : ∀ field ∈ fields, validField field) (hslots : fields.length ≤ slots) :
    read parseStart slots first (line ++ fields.flatMap writeField ++ crlf ++ rest) =
      .ok (some (start, (line ++ fields.flatMap writeField ++ crlf).length,
        fieldSpans line.length fields)) := by
  have hend : scanBytes parseStart slots ⟨0, first⟩ (line ++ fields.flatMap writeField ++ crlf) =
      ⟨(line ++ fields.flatMap writeField ++ crlf).length, .complete start
        (line ++ fields.flatMap writeField ++ crlf).length (fieldSpans line.length fields)⟩ := by
    rw [scanBytes_append, scanBytes_append, hline,
      scanBytes_written _ _ _ _ _ _ hvalid (by simpa using hslots)]
    simp [crlf, scanBytes, scanByte, endLine, extendLine, show cr ≠ lf by decide, Nat.add_assoc]
  unfold read outcome
  rw [scanBytes_append, hend, scanBytes_complete]

/-- Empty lines before the start line are no answer. -/
theorem scanBytes_emptyLines {data : Bytes} (h : onlyEmptyLines data = true) (position : Nat) :
    ∃ position', scanBytes parseStart slots ⟨position, .startLine []⟩ data =
      ⟨position', .startLine []⟩ := by
  unfold onlyEmptyLines at h
  fun_induction Lib.splitInclusive (fun byte => byte == lf) data generalizing position with
  | case1 => exact ⟨position, rfl⟩
  | case2 byte rest hbyte ih =>
    rw [beq_iff_eq] at hbyte
    subst hbyte
    rw [List.all_cons, Bool.and_eq_true] at h
    rw [scanBytes_cons]
    exact ih h.2 (position + 1)
  | case3 byte rest hbyte hrest ih =>
    rw [List.all_cons, Bool.and_eq_true] at h
    revert h
    simp only [Bool.or_eq_true, beq_iff_eq] at hbyte ⊢
    rintro ⟨h | h, _⟩
    · exact absurd (List.cons.inj h).1 hbyte
    · cases h
  | case4 byte rest hbyte piece pieces hrest ih =>
    rw [List.all_cons, Bool.and_eq_true] at h
    obtain ⟨hpiece, hpieces⟩ := h
    simp only [Bool.or_eq_true, beq_iff_eq] at hbyte hpiece
    -- The piece is CRLF, so what follows the CR starts with an LF.
    rcases hpiece with hpiece | hpiece
    · exact absurd (List.cons.inj hpiece).1 hbyte
    · obtain ⟨rfl, rfl⟩ := List.cons.inj hpiece
      cases rest with
      | nil => cases hrest
      | cons next rest =>
        rw [Lib.splitInclusive] at hrest
        split at hrest
        next hnext =>
          rw [beq_iff_eq] at hnext
          subst hnext
          obtain ⟨_, hrest⟩ := List.cons.inj hrest
          have hall : (Lib.splitInclusive (fun byte => byte == lf) (lf :: rest)).all
              (fun line => line == [lf] || line == [cr, lf]) = true := by
            rw [Lib.splitInclusive, if_pos (beq_self_eq_true lf), List.all_cons, hrest, hpieces]
            rfl
          obtain ⟨position', hscan⟩ := ih hall (position + 1)
          exact ⟨position', hscan⟩
        next hnext =>
          rw [beq_iff_eq] at hnext
          split at hrest
          · exact absurd (List.cons.inj (List.cons.inj hrest).1).1 hnext
          · exact absurd (List.cons.inj (List.cons.inj hrest).1).1 hnext

end Scanning

/-! ## Start lines -/

def versionMinor (text : Bytes) : Option Nat :=
  if text = ascii "HTTP/1.0" then some 0 else if text = ascii "HTTP/1.1" then some 1 else none

/-- `method SP target SP version`. -/
def parseRequestLine (line : Bytes) : Option (Method × Bytes × Nat) :=
  let method := line.takeWhile (· != sp)
  let rest := line.drop (method.length + 1)
  let target := rest.takeWhile (· != sp)
  match Method.fromBytes method, versionMinor (rest.drop (target.length + 1)) with
  | some method, some minor =>
    if target ≠ [] ∧ target.all isAsciiGraphic = true then some (method, target, minor) else none
  | _, _ => none

/-- `version SP status-code [ SP reason ]`. -/
def parseStatusLine (line : Bytes) : Option (Nat × Nat) :=
  let digits := (line.drop 9).take 3
  match versionMinor (line.take 8), parseNumber digits 10 with
  | some minor, some code =>
    if (line)[8]? = some sp ∧ digits.length = 3 ∧ (line.length = 12 ∨ (line)[12]? = some sp) ∧
        (line.drop 13).all isLineValueByte = true then some (code, minor)
    else none
  | _, _ => none

theorem versionMinor_wire (version : Version) :
    versionMinor (ascii "HTTP/" ++ version.wire) = some version.minor := by
  cases version <;> decide

theorem takeWhile_sp {text : Bytes} (h : sp ∉ text) (rest : Bytes) :
    (text ++ sp :: rest).takeWhile (· != sp) = text := by
  rw [List.takeWhile_append_of_pos]
  · simp
  · intro byte hbyte
    rw [bne_iff_ne]
    rintro rfl
    exact h hbyte

theorem drop_sp (text rest : Bytes) : (text ++ sp :: rest).drop (text.length + 1) = rest := by
  rw [← List.drop_drop, List.drop_left]
  rfl

theorem parseRequestLine_written (method : Method) {target : Bytes} (version : Version)
    (hne : target ≠ []) (hgraphic : target.all isAsciiGraphic = true) :
    parseRequestLine (method.asBytes ++ [sp] ++ target ++ ascii " HTTP/" ++ version.wire) =
      some (method, target, version.minor) := by
  have hmethod : sp ∉ method.asBytes := fun hmem =>
    absurd (List.all_eq_true.mp method.token.2 _ hmem) (by decide)
  have htarget : sp ∉ target := fun hmem =>
    absurd (List.all_eq_true.mp hgraphic _ hmem) (by decide)
  have hline : method.asBytes ++ [sp] ++ target ++ ascii " HTTP/" ++ version.wire =
      method.asBytes ++ sp :: (target ++ sp :: (ascii "HTTP/" ++ version.wire)) := by
    have hslash : ascii " HTTP/" = sp :: ascii "HTTP/" := by decide
    rw [hslash]
    simp
  have hfrom : Method.fromBytes method.asBytes = some method := dif_pos method.token
  rw [hline]
  unfold parseRequestLine
  simp only [takeWhile_sp hmethod, drop_sp, takeWhile_sp htarget, hfrom, versionMinor_wire]
  exact if_pos ⟨hne, hgraphic⟩

theorem toDigit_ofNat : ∀ digit < 10, toDigit (UInt8.ofNat (48 + digit)) 10 = some digit := by
  decide

theorem parseNumber_statusDigits (status : StatusCode) :
    parseNumber (statusDigits status) 10 = some status.asU16 := by
  obtain ⟨code, hlow, hhigh⟩ := status
  have h1 := toDigit_ofNat (code / 100) (by omega)
  have h2 := toDigit_ofNat (code / 10 % 10) (by omega)
  have h3 := toDigit_ofNat (code % 10) (by omega)
  have hmax : usizeMax = 18446744073709551615 := by decide
  have hcode : (code / 100 * 10 + code / 10 % 10) * 10 + code % 10 = code := by omega
  simp only [statusDigits, parseNumber, List.isEmpty_cons, Bool.false_eq_true, if_false, parseDigits,
    h1, h2, h3, hmax, Nat.zero_mul, Nat.zero_add, hcode]
  rw [if_pos (by omega), if_pos (by omega), if_pos (by omega), if_pos (by omega), if_pos (by omega),
    if_pos (by omega)]

theorem parseStatusLine_written (version : Version) (status : StatusCode) {reason : Bytes}
    (hreason : reason.all isLineValueByte = true) :
    parseStatusLine (ascii "HTTP/" ++ version.wire ++ [sp] ++ statusDigits status ++ [sp] ++ reason)
      = some (status.asU16, version.minor) := by
  have hwire : (ascii "HTTP/" ++ version.wire).length = 8 := by cases version <;> rfl
  have hdigits : (statusDigits status).length = 3 := rfl
  have hline : ascii "HTTP/" ++ version.wire ++ [sp] ++ statusDigits status ++ [sp] ++ reason =
      (ascii "HTTP/" ++ version.wire) ++ sp :: (statusDigits status ++ sp :: reason) := by simp
  have hnine : ((ascii "HTTP/" ++ version.wire) ++ sp :: (statusDigits status ++ sp :: reason)).drop 9
      = statusDigits status ++ sp :: reason := by
    have := drop_sp (ascii "HTTP/" ++ version.wire) (statusDigits status ++ sp :: reason)
    rwa [hwire] at this
  have hthirteen : ((ascii "HTTP/" ++ version.wire) ++ sp :: (statusDigits status ++ sp :: reason)
      ).drop 13 = reason := by
    show List.drop (9 + 4) _ = _
    rw [← List.drop_drop, hnine]
    exact drop_sp (statusDigits status) reason
  rw [hline]
  unfold parseStatusLine
  simp only [hnine, hthirteen]
  rw [List.take_left' hdigits, parseNumber_statusDigits, List.take_left' hwire, versionMinor_wire]
  refine if_pos ⟨?_, hdigits, Or.inr ?_, hreason⟩
  · rw [List.getElem?_append_right (by omega), hwire]
    rfl
  · rw [List.getElem?_append_right (by omega), hwire]
    rfl

/-! ## The parser -/

/-- The answer of a reading, with the proofs that the code relies on. -/
def answer {α : Type} {ρ : Type} (result : Except HttparseError (Option (α × Nat × List (Span × Span))))
    (make : (parts : α × Nat × List (Span × Span)) → result = .ok (some parts) → ρ) :
    Except HttparseError (ParseStatus ρ) :=
  match result, make with
  | .error error, _ => .error error
  | .ok none, _ => .ok .incomplete
  | .ok (some parts), make => .ok (.complete (make parts rfl))

theorem parsedAs_answer {α ρ β : Type}
    {result : Except HttparseError (Option (α × Nat × List (Span × Span)))}
    {make : (parts : α × Nat × List (Span × Span)) → result = .ok (some parts) → ρ}
    {toParts : ρ → β} {view : α × Nat × List (Span × Span) → β}
    (h : ∀ parts hparts, toParts (make parts hparts) = view parts) :
    parsedAs toParts (answer result make) = result.map (·.map view) := by
  cases result with
  | error error => rfl
  | ok value =>
    cases value with
    | none => rfl
    | some parts => exact congrArg (fun value => Except.ok (some value)) (h parts rfl)

def readRequest (slots : Nat) (data : Bytes) :
    Except HttparseError (Option ((Method × Bytes × Nat) × Nat × List (Span × Span))) :=
  read parseRequestLine slots (.startLine []) data

def readResponse (slots : Nat) (data : Bytes) :
    Except HttparseError (Option ((Nat × Nat) × Nat × List (Span × Span))) :=
  read parseStatusLine slots (.startLine []) data

def readHeaders (slots : Nat) (data : Bytes) :
    Except HttparseError (Option (Unit × Nat × List (Span × Span))) :=
  read (fun _ => none) slots (.fields () [] []) data

theorem placed_first : Placed ⟨0, (.fields () [] [] : Phase Unit)⟩ :=
  ⟨Nat.le_refl 0, by simp, List.Pairwise.nil⟩

def parsedFields {stop : Nat} {spans : List (Span × Span)} (h : FieldsFit stop spans) :
    ParsedFields stop := ⟨spans, h.1, h.2⟩

def httparse : Httparse where
  parseRequest buffer slots :=
    answer (readRequest slots buffer) fun parts h =>
      { stop := parts.2.1
        stop_le := (read_fit parseRequestLine slots (.startLine []) trivial h).1
        method := parts.1.1
        path := parts.1.2.1
        minor := parts.1.2.2
        fields := parsedFields (read_fit parseRequestLine slots (.startLine []) trivial h).2 }
  parseResponse _ buffer slots :=
    answer (readResponse slots buffer) fun parts h =>
      { stop := parts.2.1
        stop_le := (read_fit parseStatusLine slots (.startLine []) trivial h).1
        code := parts.1.1
        minor := parts.1.2
        fields := parsedFields (read_fit parseStatusLine slots (.startLine []) trivial h).2 }
  parseHeaders buffer slots :=
    answer (readHeaders slots buffer) fun parts h =>
      { stop := parts.2.1
        stop_le := (read_fit (fun _ => none) slots (.fields () [] []) placed_first h).1
        fields := parsedFields (read_fit (fun _ => none) slots (.fields () [] []) placed_first h).2 }

theorem httparse_request (slots : Nat) (data : Bytes) : httparse.request data slots =
    (readRequest slots data).map (·.map fun parts =>
      ⟨parts.2.1, parts.1.1, parts.1.2.1, parts.1.2.2, parts.2.2⟩) :=
  parsedAs_answer fun _ _ => rfl

theorem httparse_response (lenient : Bool) (slots : Nat) (data : Bytes) :
    httparse.response lenient data slots =
      (readResponse slots data).map (·.map fun parts =>
        ⟨parts.2.1, parts.1.1, parts.1.2, parts.2.2⟩) :=
  parsedAs_answer fun _ _ => rfl

theorem httparse_headers (slots : Nat) (data : Bytes) : httparse.headers data slots =
    (readHeaders slots data).map (·.map fun parts => ⟨parts.2.1, parts.2.2⟩) :=
  parsedAs_answer fun _ _ => rfl

/-- A reader of sections stays one when its values are shown differently. -/
theorem sectionReader_map {ε α β : Type} {read : Bytes → Except ε (Option α)} {stop : α → Nat}
    {skip : Bool} (h : SectionReader read stop skip) {view : α → β} {stop' : β → Nat}
    (hstop : ∀ value, stop' (view value) = stop value) :
    SectionReader (fun data => (read data).map (·.map view)) stop' skip := by
  have hok : ∀ {data : Bytes} {value : β}, (read data).map (·.map view) = .ok (some value) →
      ∃ inner, read data = .ok (some inner) ∧ view inner = value := by
    intro data value hread
    cases hdata : read data with
    | error error =>
      rw [hdata] at hread
      cases hread
    | ok result =>
      rw [hdata] at hread
      cases result with
      | none => cases hread
      | some inner => exact ⟨inner, rfl, Option.some.inj (Except.ok.inj hread)⟩
  refine ⟨?_, ?_, ?_, ?_⟩
  · intro data value more hread
    obtain ⟨inner, hinner, rfl⟩ := hok hread
    show (read (data ++ more)).map _ = _
    rw [h.complete more hinner]
    rfl
  · intro data error more hread
    show (read (data ++ more)).map _ = _
    cases hdata : read data with
    | error other =>
      rw [h.error more hdata]
      simp only [hdata] at hread
      exact hread
    | ok result =>
      simp only [hdata] at hread
      cases hread
  · intro data value hread
    obtain ⟨inner, hinner, rfl⟩ := hok hread
    rw [hstop]
    exact h.ends hinner
  · intro data hread
    cases hdata : read data with
    | error other =>
      simp only [hdata] at hread
      cases hread
    | ok result =>
      cases result with
      | none => exact h.waits hdata
      | some inner =>
        simp only [hdata] at hread
        cases hread

/-! ## The laws hold -/

/-- A line that is wrong whatever follows, or for which no slot is left. -/
def Doomed (slots : Nat) : Phase Unit → Prop
  | .fields _ spans line => 2 ≤ line.length ∧ (slots ≤ spans.length ∨
      ∃ before byte after, line = before ++ byte :: after ∧ isTokenByte byte = false ∧
        byte ≠ colon ∧ fieldLine before = none)
  | .complete _ _ _ => False
  | _ => True

/-- A wrong line stays wrong when more is appended after a blank. -/
theorem fieldLine_extended {before : Bytes} {byte : UInt8} (after : Bytes)
    (htoken : isTokenByte byte = false) (hcolon : byte ≠ colon) (h : fieldLine before = none) :
    fieldLine (before ++ byte :: after) = none := by
  unfold fieldLine at h ⊢
  simp only [ite_eq_right_iff, reduceCtorEq, imp_false] at h ⊢
  rintro ⟨hlength, hname, htext⟩
  rw [List.takeWhile_append] at hname htext
  by_cases hall : (before.takeWhile (· != colon)).length = before.length
  · -- There is no colon in the first part, so the name goes on past it.
    rw [if_pos hall, List.takeWhile_cons_of_pos (by simpa using hcolon)] at hname
    have hbytes := (validName_token hname).2
    rw [List.all_append, List.all_cons, htoken] at hbytes
    simp at hbytes
  · rw [if_neg hall] at hname htext
    have hshort : (before.takeWhile (· != colon)).length < before.length :=
      Nat.lt_of_le_of_ne (List.takeWhile_sublist _).length_le hall
    rw [List.drop_append_of_le_length (by omega), List.all_append, Bool.and_eq_true] at htext
    exact h ⟨hshort, hname, htext.1⟩

theorem stripCr_cons (before : Bytes) (byte : UInt8) (after : Bytes) :
    stripCr (before ++ byte :: after) = before ∨
      ∃ after', stripCr (before ++ byte :: after) = before ++ byte :: after' := by
  unfold stripCr
  split
  · rw [List.dropLast_append_cons]
    cases after with
    | nil => exact Or.inl (by simp)
    | cons next after => exact Or.inr ⟨_, by rw [List.dropLast_cons_cons]⟩
  · exact Or.inr ⟨after, rfl⟩

theorem scanByte_doomed {slots : Nat} {scan : Scan Unit} (byte : UInt8)
    (h : Doomed slots scan.phase) :
    Doomed slots (scanByte (fun _ => none) slots scan byte).phase := by
  obtain ⟨position, phase⟩ := scan
  unfold scanByte
  cases phase with
  | startLine line =>
    by_cases hbyte : byte = lf
    · simp only [if_pos hbyte, endLine]
      split_ifs <;> trivial
    · rw [if_neg hbyte]
      trivial
  | complete start stop spans => exact h.elim
  | failed tooManyHeaders => split_ifs <;> trivial
  | fields start spans line =>
    obtain ⟨hlength, hwrong⟩ := h
    by_cases hbyte : byte = lf
    · have hline : ¬(line.isEmpty = true ∨ line = [cr]) := by
        rintro (h | h)
        · rw [List.isEmpty_iff.mp h] at hlength
          simp at hlength
        · rw [h] at hlength
          simp at hlength
      simp only [if_pos hbyte, endLine]
      rw [if_neg hline]
      rcases hwrong with hslots | ⟨before, other, after, rfl, htoken, hcolon, hnone⟩
      · cases fieldLine (stripCr line) with
        | none => trivial
        | some parts =>
          dsimp only
          rw [if_neg (by omega)]
          trivial
      · have hstrip : fieldLine (stripCr (before ++ other :: after)) = none := by
          rcases stripCr_cons before other after with h | ⟨after', h⟩
          · rw [h, hnone]
          · rw [h]
            exact fieldLine_extended after' htoken hcolon hnone
        rw [hstrip]
        trivial
    · simp only [if_neg hbyte, extendLine]
      refine ⟨by rw [List.length_append]; omega, ?_⟩
      rcases hwrong with hslots | ⟨before, other, after, rfl, htoken, hcolon, hnone⟩
      · exact Or.inl hslots
      · exact Or.inr ⟨before, other, after ++ [byte], by simp, htoken, hcolon, hnone⟩

theorem scanBytes_doomed {slots : Nat} {scan : Scan Unit} (data : Bytes)
    (h : Doomed slots scan.phase) :
    Doomed slots (scanBytes (fun _ => none) slots scan data).phase := by
  induction data generalizing scan with
  | nil => exact h
  | cons byte data ih => exact ih (scanByte_doomed byte h)

theorem outcome_doomed {slots : Nat} {scan : Scan Unit} (h : Doomed slots scan.phase)
    (parts : Unit × Nat × List (Span × Span)) : outcome scan ≠ .ok (some parts) := by
  obtain ⟨start, stop, spans⟩ := parts
  intro hok
  rw [outcome_some hok] at h
  exact h

/-- What ends a line wrongly is doomed when the line goes on after a blank. -/
theorem endLine_doomed {slots position : Nat} {phase : Phase Unit} {breaks : Bytes}
    {tooManyHeaders : Bool} (hbreaks : breaks = [cr] ∨ breaks = [lf] ∨ breaks = crlf)
    (h : (scanBytes (fun _ => none) slots ⟨position, phase⟩ breaks).phase = .failed tooManyHeaders) :
    Doomed slots (scanByte (fun _ => none) slots ⟨position, phase⟩ sp).phase := by
  have hsp : sp ≠ lf := by decide
  unfold scanByte
  rw [if_neg hsp]
  cases phase with
  | startLine line => trivial
  | failed other => trivial
  | complete start stop spans =>
    rw [scanBytes_complete] at h
    cases h
  | fields start spans line =>
    -- `line` or what it is without its CR is the line that was refused.
    have hended : ∀ {ended : Bytes} {at_ : Nat}, (endLine (fun _ => none) slots at_
        (.fields start spans ended)) = .failed tooManyHeaders →
        ended ≠ [] ∧ ended ≠ [cr] ∧ (slots ≤ spans.length ∨ fieldLine (stripCr ended) = none) := by
      intro ended at_ hend
      rw [endLine] at hend
      split at hend
      · cases hend
      next hempty =>
        rw [not_or] at hempty
        refine ⟨fun hnil => hempty.1 (by rw [hnil]; rfl), hempty.2, ?_⟩
        cases hfield : fieldLine (stripCr ended) with
        | none => exact Or.inr rfl
        | some parts =>
          simp only [hfield] at hend
          split at hend
          · cases hend
          next hslots => exact Or.inl (by omega)
    rcases hbreaks with rfl | rfl | rfl
    · cases h
    · obtain ⟨hne, hcr, hwrong⟩ := hended (by simpa [scanBytes, scanByte] using h)
      refine ⟨?_, ?_⟩
      · rw [List.length_append, List.length_singleton]
        have := List.length_pos_iff.mpr hne
        omega
      · rcases hwrong with hslots | hnone
        · exact Or.inl hslots
        · refine Or.inr ?_
          unfold stripCr at hnone
          split at hnone
          next hlast =>
            obtain ⟨before, rfl⟩ := List.getLast?_eq_some_iff.mp hlast
            rw [List.dropLast_concat] at hnone
            exact ⟨before, cr, [sp], by simp, by decide, by decide, hnone⟩
          next hlast => exact ⟨line, sp, [], rfl, by decide, by decide, hnone⟩
    · obtain ⟨hne, hcr, hwrong⟩ := hended (by
        simpa [crlf, scanBytes, scanByte, extendLine, show cr ≠ lf by decide] using h)
      have hline : line ≠ [] := fun hnil => hcr (by rw [hnil]; rfl)
      refine ⟨?_, ?_⟩
      · rw [List.length_append, List.length_singleton]
        have := List.length_pos_iff.mpr hline
        omega
      · rcases hwrong with hslots | hnone
        · exact Or.inl hslots
        · rw [stripCr_append] at hnone
          exact Or.inr ⟨line, sp, [], rfl, by decide, by decide, hnone⟩

theorem readHeaders_fold {slots : Nat} {line breaks : Bytes} {error : HttparseError} (more : Bytes)
    (hbreaks : breaks = [cr] ∨ breaks = [lf] ∨ breaks = crlf)
    (h : readHeaders slots (line ++ breaks) = .error error)
    (parts : Unit × Nat × List (Span × Span)) :
    readHeaders slots (line ++ sp :: more) ≠ .ok (some parts) := by
  unfold readHeaders read at h ⊢
  rw [scanBytes_append] at h ⊢
  generalize scanBytes (fun _ => none) slots ⟨0, .fields () [] []⟩ line = scan at h ⊢
  obtain ⟨position, phase⟩ := scan
  have hfailed : ∃ tooManyHeaders, (scanBytes (fun _ => none) slots ⟨position, phase⟩ breaks).phase =
      .failed tooManyHeaders := by
    unfold outcome at h
    split at h
    · cases h
    · cases h
    · cases h
    next tooManyHeaders hphase => exact ⟨tooManyHeaders, hphase⟩
  obtain ⟨tooManyHeaders, hphase⟩ := hfailed
  rw [scanBytes_cons]
  exact outcome_doomed (scanBytes_doomed more (endLine_doomed hbreaks hphase)) parts

theorem map_eq_some {ε α β : Type} {result : Except ε (Option α)} {view : α → β} {value : β}
    (h : result.map (·.map view) = .ok (some value)) : ∃ inner, result = .ok (some inner) := by
  cases result with
  | error error => cases h
  | ok inner =>
    cases inner with
    | none => cases h
    | some inner => exact ⟨inner, rfl⟩

theorem map_eq_error {ε α β : Type} {result : Except ε (Option α)} {view : α → β} {error : ε}
    (h : result.map (·.map view) = .error error) : result = .error error := by
  cases result with
  | error other =>
    cases h
    rfl
  | ok inner => cases h

theorem stable : httparse.Stable where
  request slots := by
    simp only [httparse_request]
    exact sectionReader_map (read_sectionReader _ slots (.startLine []) ⟨rfl, rfl, rfl⟩) fun _ => rfl
  response lenient slots := by
    simp only [httparse_response]
    exact sectionReader_map (read_sectionReader _ slots (.startLine []) ⟨rfl, rfl, rfl⟩) fun _ => rfl
  headers slots := by
    simp only [httparse_headers]
    exact sectionReader_map (read_sectionReader _ slots (.fields () [] []) ⟨rfl, Or.inr rfl⟩)
      fun _ => rfl
  request_empty slots hempty := by
    obtain ⟨position, hscan⟩ := scanBytes_emptyLines parseRequestLine slots hempty 0
    rw [httparse_request, readRequest, read, hscan]
    rfl
  response_empty lenient slots hempty := by
    obtain ⟨position, hscan⟩ := scanBytes_emptyLines parseStatusLine slots hempty 0
    rw [httparse_response, readResponse, read, hscan]
    rfl
  fold more hbreaks herror parts hparts := by
    rw [httparse_headers] at herror hparts
    obtain ⟨inner, hinner⟩ := map_eq_some hparts
    exact readHeaders_fold more hbreaks (map_eq_error herror) inner hinner

theorem readsValid : httparse.ReadsValid where
  request method target version fields slots rest hne hgraphic hvalid hslots := by
    have htext : lf ∉ method.asBytes ++ [sp] ++ target ++ ascii " HTTP/" ++ version.wire := by
      simp only [List.mem_append, List.mem_singleton, not_or]
      refine ⟨⟨⟨⟨lf_not_mem_token method.token.2, by decide⟩, fun hmem => ?_⟩, by decide⟩, ?_⟩
      · exact absurd (List.all_eq_true.mp hgraphic _ hmem) (by decide)
      · cases version <;> decide
    have hline := scanBytes_start parseRequestLine slots (by simp) htext
      (parseRequestLine_written method version hne hgraphic)
    rw [httparse_request, readRequest]
    unfold requestLine
    rw [read_written parseRequestLine slots _ _ fields rest hline hvalid hslots]
    rfl
  response lenient version status reason fields slots rest hreason hvalid hslots := by
    have htext : lf ∉ ascii "HTTP/" ++ version.wire ++ [sp] ++ statusDigits status ++ [sp] ++
        reason := by
      have hdigits : ∀ digit < 10, UInt8.ofNat (48 + digit) ≠ lf := by decide
      have hrange := status.range
      have hstatus : lf ∉ statusDigits status := by
        simp only [statusDigits, List.mem_cons, List.not_mem_nil, or_false, not_or]
        exact ⟨Ne.symm (hdigits _ (by omega)), Ne.symm (hdigits _ (by omega)),
          Ne.symm (hdigits _ (by omega))⟩
      simp only [List.mem_append, List.mem_singleton, not_or]
      refine ⟨⟨⟨⟨⟨by decide, ?_⟩, by decide⟩, hstatus⟩, by decide⟩, lf_not_mem_value hreason⟩
      cases version <;> decide
    have hline := scanBytes_start parseStatusLine slots (by simp) htext
      (parseStatusLine_written version status hreason)
    rw [httparse_response, readResponse]
    unfold statusLineOf
    rw [read_written parseStatusLine slots _ _ fields rest hline hvalid hslots]
    rfl
  headers fields slots rest hvalid hslots := by
    have hread := read_written (fun _ => none) slots (.fields () [] []) [] fields rest rfl hvalid
      hslots
    rw [httparse_headers, readHeaders]
    rw [List.nil_append] at hread
    rw [hread]
    rfl

theorem httparse_fillsSlots : httparse.FillsSlots := by
  have hmap : ∀ {α β : Type} {result : Except HttparseError (Option α)} {view : α → β} {value : β},
      result.map (·.map view) = .ok (some value) →
        ∃ inner, result = .ok (some inner) ∧ view inner = value := by
    intro α β result view value h
    cases result with
    | error error => cases h
    | ok found =>
      cases found with
      | none => cases h
      | some inner => exact ⟨inner, rfl, Option.some.inj (Except.ok.inj h)⟩
  refine ⟨fun {buffer slots parts} h => ?_, fun {lenient buffer slots parts} h => ?_,
    fun {buffer slots parts} h => ?_⟩
  · rw [httparse_request] at h
    obtain ⟨inner, hread, rfl⟩ := hmap h
    exact read_withinSlots parseRequestLine slots (.startLine []) trivial hread
  · rw [httparse_response] at h
    obtain ⟨inner, hread, rfl⟩ := hmap h
    exact read_withinSlots parseStatusLine slots (.startLine []) trivial hread
  · rw [httparse_headers] at h
    obtain ⟨inner, hread, rfl⟩ := hmap h
    exact read_withinSlots (fun _ => none) slots (.fields () [] []) (Nat.zero_le slots) hread

end H11r.Reference
