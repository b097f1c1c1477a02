import H11r.Wire.Options
import H11r.Wire.CodingList
import Mathlib.Logic.Relation

/-!
# The length of a message body

`Fields::framing` against a definition of the body length that does not scan:
which of the two framing fields are there, the elements of every
Content-Length line, and the codings of every Transfer-Encoding line.

What it does not depend on follows. `Rearranges` lists the ways to write the
same fields differently: in another order, in other letter case, or a list cut
into two lines at one of its commas. A comma of a Transfer-Encoding line is a
place to cut only outside quoted strings, so the cut has to be read off the
grammar (`CodingList.cut`).
-/

namespace H11r

open Lib

/-! ## Content-Length -/

/-- The elements of all Content-Length lines, in order. -/
def lengthElements (fields : List (Bytes × Bytes)) : List Bytes :=
  (valuesOf fields (ascii "content-length")).flatMap (elements · false)

/-- A non-empty decimal numeral of the given value, a `usize`. -/
def IsLength (element : Bytes) (length : Nat) : Prop :=
  element ≠ [] ∧ (∀ byte ∈ element, isAsciiDigit byte = true) ∧
    numeral 10 decimalValue element = length ∧ length ≤ usizeMax

theorem parseNumber_isLength (element : Bytes) (length : Nat) :
    parseNumber element 10 = some length ↔ IsLength element length :=
  parseNumber_iff (by decide) toDigit_decimal element length

namespace Fields

theorem foldl_noteLength_error (message : String) (list : List Bytes) :
    list.foldl noteLength (some (.error message)) = some (.error message) := by
  induction list with
  | nil => rfl
  | cons element list ih => exact ih

theorem foldl_noteLength_ok (first : Nat) (list : List Bytes) :
    (list.foldl noteLength (some (.ok first)) = some (.ok first) ∧
      ∀ element ∈ list, IsLength element first) ∨
    ((∃ message, list.foldl noteLength (some (.ok first)) = some (.error message)) ∧
      ∃ element ∈ list, ¬IsLength element first) := by
  induction list with
  | nil => exact Or.inl ⟨rfl, by simp⟩
  | cons element list ih =>
    rw [List.foldl_cons]
    by_cases helement : parseNumber element 10 = some first
    · have hnote : noteLength (some (.ok first)) element = some (.ok first) := if_pos helement
      rw [hnote]
      rcases ih with ⟨hfold, hall⟩ | ⟨hfold, other, hmem, hother⟩
      · refine Or.inl ⟨hfold, fun other hmem => ?_⟩
        rcases List.mem_cons.mp hmem with rfl | hmem
        · exact (parseNumber_isLength _ _).mp helement
        · exact hall other hmem
      · exact Or.inr ⟨hfold, other, List.mem_cons_of_mem _ hmem, hother⟩
    · have hnote : noteLength (some (.ok first)) element =
          some (.error "conflicting Content-Length fields") := if_neg helement
      rw [hnote, foldl_noteLength_error]
      exact Or.inr ⟨⟨_, rfl⟩, element, List.mem_cons_self ..,
        fun h => helement ((parseNumber_isLength _ _).mpr h)⟩

/-- The lengths agree, or there is an error. -/
theorem foldl_noteLength {list : List Bytes} (hne : list ≠ []) :
    (∃ length, list.foldl noteLength none = some (.ok length) ∧
      ∀ element ∈ list, IsLength element length) ∨
    ((∃ message, list.foldl noteLength none = some (.error message)) ∧
      ∀ length, ∃ element ∈ list, ¬IsLength element length) := by
  cases list with
  | nil => exact absurd rfl hne
  | cons first list =>
    rw [List.foldl_cons]
    cases hfirst : parseNumber first 10 with
    | none =>
      have hnote : noteLength none first = some (.error "invalid Content-Length") := by
        unfold noteLength
        rw [hfirst]
      rw [hnote, foldl_noteLength_error]
      refine Or.inr ⟨⟨_, rfl⟩, fun length => ⟨first, List.mem_cons_self .., fun h => ?_⟩⟩
      rw [(parseNumber_isLength _ _).mpr h] at hfirst
      cases hfirst
    | some length =>
      have hnote : noteLength none first = some (.ok length) := by
        unfold noteLength
        rw [hfirst]
      have hlength := (parseNumber_isLength _ _).mp hfirst
      rw [hnote]
      rcases foldl_noteLength_ok length list with ⟨hfold, hall⟩ | ⟨hfold, other, hmem, hother⟩
      · refine Or.inl ⟨length, hfold, fun element hmem => ?_⟩
        rcases List.mem_cons.mp hmem with rfl | hmem
        · exact hlength
        · exact hall element hmem
      · refine Or.inr ⟨hfold, fun claimed => ?_⟩
        by_cases hsame : claimed = length
        · exact ⟨other, List.mem_cons_of_mem _ hmem, hsame ▸ hother⟩
        · exact ⟨first, List.mem_cons_self .., fun h => hsame (h.2.2.1.symm.trans hlength.2.2.1)⟩

theorem scan_length_elements (headers : Headers) :
    (scan headers).length = (lengthElements headers.iter).foldl noteLength none := by
  rw [scan_length]
  unfold lengthElements
  rw [List.foldl_flatMap]
  rfl

theorem lengthElements_eq_nil {fields : List (Bytes × Bytes)} :
    lengthElements fields = [] ↔ valuesOf fields (ascii "content-length") = [] := by
  unfold lengthElements
  rw [List.flatMap_eq_nil_iff]
  constructor
  · intro h
    cases hvalues : valuesOf fields (ascii "content-length") with
    | nil => rfl
    | cons value values =>
      exact absurd (h value (by rw [hvalues]; exact List.mem_cons_self ..)) (elements_ne_nil value false)
  · intro h
    rw [h]
    simp

/-! ## Transfer-Encoding -/

theorem foldl_codings (values : List Bytes) (codings : Codings) :
    values.foldl (fun codings value => some ((codings.getD .new).read value)) (some codings) =
      some (values.foldl Codings.read codings) := by
  induction values generalizing codings with
  | nil => rfl
  | cons value values ih => exact ih _

theorem scan_codings_lines (headers : Headers) : (scan headers).codings =
    match headers.getAll (ascii "transfer-encoding") with
    | [] => none
    | value :: values => some (Codings.readLines (value :: values)) := by
  rw [scan_codings]
  cases headers.getAll (ascii "transfer-encoding") with
  | nil => rfl
  | cons value values => exact foldl_codings values _

end Fields

/-! ## The decision -/

/-- The decision, case by case. -/
structure BodyLength (headers : Headers) (version : Version) (response : Bool)
    (decision : Except RemoteProtocolError Framing) : Prop where
  both : hasField headers (ascii "transfer-encoding") = true →
    hasField headers (ascii "content-length") = true → ∃ error, decision = .error error
  http10 : hasField headers (ascii "transfer-encoding") = true → version = .http10 →
    ∃ error, decision = .error error
  codings : hasField headers (ascii "transfer-encoding") = true →
    hasField headers (ascii "content-length") = false → version ≠ .http10 →
    decision = (Codings.readLines (headers.getAll (ascii "transfer-encoding"))).framing response
  length : hasField headers (ascii "transfer-encoding") = false →
    hasField headers (ascii "content-length") = true → ∀ length,
    (∀ element ∈ lengthElements headers.iter, IsLength element length) → decision = .ok (.fixed length)
  conflict : hasField headers (ascii "transfer-encoding") = false →
    hasField headers (ascii "content-length") = true →
    (¬∃ length, ∀ element ∈ lengthElements headers.iter, IsLength element length) →
    ∃ error, decision = .error error
  neither : hasField headers (ascii "transfer-encoding") = false →
    hasField headers (ascii "content-length") = false →
    decision = .ok (if response then .closeDelimited else .fixed 0)

theorem scan_framing_bodyLength (headers : Headers) (version : Version) (response : Bool) :
    BodyLength headers version response ((Fields.scan headers).framing version response) := by
  have hcodings := Fields.scan_codings_isSome headers
  have hlength := Fields.scan_length_isSome headers
  have hlines := Fields.scan_codings_lines headers
  have helements := Fields.scan_length_elements headers
  have hnonempty : hasField headers (ascii "content-length") = true →
      lengthElements headers.iter ≠ [] := by
    intro hfield hnil
    rw [helements, hnil] at hlength
    rw [← hlength] at hfield
    cases hfield
  unfold Fields.framing
  constructor
  · intro hte hcl
    rw [hte, Option.isSome_iff_exists] at hcodings
    rw [hcl, Option.isSome_iff_exists] at hlength
    obtain ⟨codings, hcodings⟩ := hcodings
    obtain ⟨length, hlength⟩ := hlength
    rw [hcodings, hlength]
    exact ⟨_, rfl⟩
  · intro hte hversion
    rw [hte, Option.isSome_iff_exists] at hcodings
    obtain ⟨codings, hcodings⟩ := hcodings
    rw [hcodings, hversion]
    cases (Fields.scan headers).length with
    | none => exact ⟨_, rfl⟩
    | some length => exact ⟨_, rfl⟩
  · intro hte hcl hversion
    rw [hcl, Option.isSome_eq_false_iff, Option.isNone_iff_eq_none] at hlength
    rw [hlength]
    cases hvalues : headers.getAll (ascii "transfer-encoding") with
    | nil =>
      unfold hasField at hte
      rw [hvalues] at hte
      cases hte
    | cons value values =>
      rw [hvalues] at hlines
      rw [hlines]
      exact if_neg hversion
  · intro hte hcl length hall
    rw [hte, Option.isSome_eq_false_iff, Option.isNone_iff_eq_none] at hcodings
    rw [hcodings, helements]
    rcases Fields.foldl_noteLength (hnonempty hcl) with ⟨found, hfold, hfound⟩ | ⟨_, hnone⟩
    · obtain ⟨element, hmem⟩ := List.exists_mem_of_ne_nil _ (hnonempty hcl)
      have hsame : found = length :=
        (hfound element hmem).2.2.1.symm.trans (hall element hmem).2.2.1
      rw [hfold, hsame]
    · obtain ⟨element, hmem, helement⟩ := hnone length
      exact absurd (hall element hmem) helement
  · intro hte hcl hnone
    rw [hte, Option.isSome_eq_false_iff, Option.isNone_iff_eq_none] at hcodings
    rw [hcodings, helements]
    rcases Fields.foldl_noteLength (hnonempty hcl) with ⟨found, _, hfound⟩ | ⟨⟨message, hfold⟩, _⟩
    · exact absurd ⟨found, hfound⟩ hnone
    · rw [hfold]
      exact ⟨_, rfl⟩
  · intro hte hcl
    rw [hte, Option.isSome_eq_false_iff, Option.isNone_iff_eq_none] at hcodings
    rw [hcl, Option.isSome_eq_false_iff, Option.isNone_iff_eq_none] at hlength
    rw [hcodings, hlength]
    cases response <;> rfl

/-! ## Where a coding list may be cut -/

/-- The state of a scan that knows quoted strings: whether it is in one, and
whether the byte before was a backslash there. -/
def quoteStep (state : Bool × Bool) (byte : UInt8) : Bool × Bool :=
  if state.2 then (state.1, false)
  else if byte == backslash && state.1 then (true, true)
  else if byte == quote then (!state.1, false)
  else state

/-- The text ends outside every quoted string. -/
def Unquoted (text : Bytes) : Prop := text.foldl quoteStep (false, false) = (false, false)

/-- The text is unquoted at its end and at none of its commas. -/
structure Closed (text : Bytes) : Prop where
  unquoted : Unquoted text
  commas : ∀ left right, text = left ++ comma :: right → ¬Unquoted left

theorem Unquoted.append {left right : Bytes} (h : Unquoted left) :
    Unquoted (left ++ right) ↔ Unquoted right := by
  unfold Unquoted at h ⊢
  rw [List.foldl_append, h]

theorem Closed.append {left right : Bytes} (hleft : Closed left) (hright : Closed right) :
    Closed (left ++ right) := by
  refine ⟨hleft.unquoted.append.mpr hright.unquoted, fun before after heq => ?_⟩
  rcases List.append_eq_append_iff.mp heq with ⟨middle, rfl, hmiddle⟩ | ⟨middle, hmiddle, hafter⟩
  · rw [hleft.unquoted.append]
    exact hright.commas middle after hmiddle
  · cases middle with
    | nil =>
      rw [List.nil_append] at hafter
      exact absurd rfl (hright.commas [] after hafter.symm)
    | cons byte middle =>
      obtain ⟨rfl, _⟩ := List.cons.inj hafter
      exact hleft.commas before middle hmiddle

/-- Bytes of a class without commas and quotes. -/
theorem closed_of_class {p : UInt8 → Bool} (hcomma : p comma = false) (hquote : p quote = false)
    {text : Bytes} (h : ∀ byte ∈ text, p byte = true) : Closed text := by
  refine ⟨?_, fun left right heq => ?_⟩
  · unfold Unquoted
    induction text with
    | nil => rfl
    | cons byte text ih =>
      have hbyte := h byte (List.mem_cons_self ..)
      have hne : byte ≠ quote := by
        rintro rfl
        rw [hquote] at hbyte
        cases hbyte
      have hstep : quoteStep (false, false) byte = (false, false) := by
        unfold quoteStep
        simp [hne]
      rw [List.foldl_cons, hstep]
      exact ih fun other hmem => h other (List.mem_cons_of_mem _ hmem)
  · have hmem := h comma (by rw [heq]; simp)
    rw [hcomma] at hmem
    cases hmem

theorem IsGap.closed {text : Bytes} (h : IsGap text) : Closed text :=
  closed_of_class (by decide) (by decide) h

theorem IsToken.closed {text : Bytes} (h : IsToken text) : Closed text :=
  closed_of_class (by decide) (by decide) h.2

theorem closed_byte {byte : UInt8} (hcomma : byte ≠ comma) (hquote : byte ≠ quote) :
    Closed [byte] := by
  refine closed_of_class (p := (· == byte)) ?_ ?_ (by simp)
  · simpa using hcomma.symm
  · simpa using hquote.symm

theorem quoteStep_qdtext : ∀ byte, isQdtext byte = true → quoteStep (true, false) byte = (true, false) :=
  forall_byte (by decide +kernel)

theorem quoteStep_escaped (byte : UInt8) : quoteStep (true, true) byte = (true, false) := rfl

theorem QuotedText.foldl {body : Bytes} (h : QuotedText body) :
    body.foldl quoteStep (true, false) = (true, false) := by
  induction h with
  | nil => rfl
  | text hbyte _ ih => rw [List.foldl_cons, quoteStep_qdtext _ hbyte, ih]
  | pair _ _ ih =>
    rw [List.foldl_cons, List.foldl_cons]
    exact ih

/-- A comma between the quotes does not end the string. -/
theorem QuotedText.comma {body left right : Bytes} (h : QuotedText body)
    (heq : body ++ [quote] = left ++ comma :: right) :
    (left.foldl quoteStep (true, false)).1 = true := by
  induction h generalizing left with
  | nil =>
    cases left with
    | nil => exact absurd (List.cons.inj heq).1 (by decide)
    | cons byte left => simp at heq
  | @text byte body hbyte _ ih =>
    cases left with
    | nil => rfl
    | cons first left =>
      obtain ⟨rfl, hrest⟩ := List.cons.inj heq
      rw [List.foldl_cons, quoteStep_qdtext _ hbyte]
      exact ih hrest
  | @pair byte body hbyte _ ih =>
    cases left with
    | nil => rfl
    | cons first left =>
      obtain ⟨rfl, hrest⟩ := List.cons.inj heq
      cases left with
      | nil => rfl
      | cons second left =>
        obtain ⟨rfl, hbody⟩ := List.cons.inj hrest
        rw [List.foldl_cons, List.foldl_cons]
        exact ih hbody

theorem IsQuotedString.closed {text : Bytes} (h : IsQuotedString text) : Closed text := by
  obtain ⟨body, hbody, rfl⟩ := h
  refine ⟨?_, fun left right heq hleft => ?_⟩
  · unfold Unquoted
    rw [List.cons_append, List.foldl_cons, List.foldl_append]
    show ([quote].foldl quoteStep (body.foldl quoteStep (true, false))) = _
    rw [hbody.foldl]
    rfl
  · cases left with
    | nil => exact absurd (List.cons.inj heq).1 (by decide)
    | cons first left =>
      obtain ⟨rfl, hrest⟩ := List.cons.inj heq
      have hinside := hbody.comma hrest
      have hfold : left.foldl quoteStep (true, false) = (false, false) := hleft
      rw [hfold] at hinside
      cases hinside

theorem IsWord.closed {text : Bytes} (h : IsWord text) : Closed text :=
  h.elim IsToken.closed IsQuotedString.closed

theorem Parameters.closed {text : Bytes} (h : Parameters text) : Closed text := by
  induction h with
  | nil => exact isGap_nil.closed
  | @cons before gap name left right word rest hbefore hgap hname hleft hright hword _ ih =>
    have hsemi : Closed [semicolon] := closed_byte (by decide) (by decide)
    have hequals : Closed [equalsSign] := closed_byte (by decide) (by decide)
    have hvalue := hequals.append (hright.closed.append (hword.closed.append ih))
    exact hbefore.closed.append (hsemi.append (hgap.closed.append (hname.closed.append
      (hleft.closed.append hvalue))))

theorem IsCoding.closed {text name : Bytes} (h : IsCoding text name) : Closed text := by
  obtain ⟨before, parameters, after, rfl, hbefore, hname, hparameters, hafter, _⟩ := h
  exact hbefore.closed.append (hname.closed.append (hparameters.closed.append hafter.closed))

/-- Two ways to cut a text at a comma, the first of them after a closed piece. -/
theorem Closed.cut {piece rest left right : Bytes} (hpiece : Closed piece) (hleft : Unquoted left)
    (heq : piece ++ comma :: rest = left ++ comma :: right) :
    (left = piece ∧ right = rest) ∨
      ∃ middle, left = piece ++ comma :: middle ∧ Unquoted middle ∧ rest = middle ++ comma :: right := by
  rcases List.append_eq_append_iff.mp heq with ⟨middle, rfl, hmiddle⟩ | ⟨middle, hmiddle, hrest⟩
  · cases middle with
    | nil => exact Or.inl ⟨List.append_nil _, (List.cons.inj hmiddle).2.symm⟩
    | cons byte middle =>
      obtain ⟨rfl, hrest⟩ := List.cons.inj hmiddle
      refine Or.inr ⟨middle, rfl, ?_, hrest⟩
      rw [hpiece.unquoted.append] at hleft
      exact hleft
  · cases middle with
    | nil =>
      rw [List.append_nil] at hmiddle
      exact Or.inl ⟨hmiddle.symm, (List.cons.inj hrest).2⟩
    | cons byte middle =>
      obtain ⟨rfl, _⟩ := List.cons.inj hrest
      exact absurd hleft (hpiece.commas left middle hmiddle)

/-- A list cut at a comma outside quoted strings is two lists. -/
theorem CodingList.cut {text left right : Bytes} {names : List Bytes} (h : CodingList text names)
    (heq : text = left ++ comma :: right) (hleft : Unquoted left) :
    ∃ before after, names = before ++ after ∧ CodingList left before ∧ CodingList right after := by
  induction h generalizing left with
  | empty hgap => exact absurd hleft (hgap.closed.commas left right heq)
  | coding hcoding => exact absurd hleft (hcoding.closed.commas left right heq)
  | @skip gap rest names hgap hrest ih =>
    rcases hgap.closed.cut hleft heq with ⟨rfl, rfl⟩ | ⟨middle, rfl, hmiddle, rfl⟩
    · exact ⟨[], names, rfl, .empty hgap, hrest⟩
    · obtain ⟨before, after, rfl, hbefore, hafter⟩ := ih rfl hmiddle
      exact ⟨before, after, rfl, .skip hgap hbefore, hafter⟩
  | @cons text name rest names hcoding hrest ih =>
    rcases hcoding.closed.cut hleft heq with ⟨rfl, rfl⟩ | ⟨middle, rfl, hmiddle, rfl⟩
    · exact ⟨[name], names, rfl, .coding hcoding, hrest⟩
    · obtain ⟨before, after, rfl, hbefore, hafter⟩ := ih rfl hmiddle
      exact ⟨name :: before, after, rfl, .cons hcoding hbefore, hafter⟩

/-! ## What the decision does not depend on -/

namespace Codings

/-- The turn of the scan does not read whether an empty element was seen. -/
theorem readTurn_agree {left right : Codings} (h : Agree left right) (value : Bytes) (start : Nat) :
    (∃ left' right', readTurn value (left, start) = .inl left' ∧
      readTurn value (right, start) = .inl right' ∧ Agree left' right') ∨
    ∃ left' right' next, readTurn value (left, start) = .inr (left', next) ∧
      readTurn value (right, start) = .inr (right', next) ∧ Agree left' right' := by
  have hseen : Agree { left with empty := true } { right with empty := true } := by
    unfold Agree at h ⊢
    rw [← h]
  unfold readTurn
  dsimp only
  split
  · exact Or.inl ⟨_, _, rfl, rfl, hseen⟩
  · split
    · exact Or.inr ⟨_, _, _, rfl, rfl, hseen⟩
    · split
      next chunked next helement => exact Or.inl ⟨_, _, rfl, rfl, h.note false chunked⟩
      next chunked next helement =>
        split
        · exact Or.inl ⟨_, _, rfl, rfl, h.note true chunked⟩
        · exact Or.inr ⟨_, _, _, rfl, rfl, h.note true chunked⟩

theorem readFrom_congr {left right : Codings} (h : Agree left right) (value : Bytes) (start : Nat) :
    Agree (readFrom value left start) (readFrom value right start) := by
  induction hsize : value.length - start using Nat.strongRecOn generalizing left right start with
  | ind size ih =>
  subst hsize
  rw [readFrom_turn, readFrom_turn value right]
  rcases readTurn_agree h value start with ⟨left', right', hleft, hright, hagree⟩ |
      ⟨left', right', next, hleft, hright, hagree⟩
  · rw [hleft, hright]
    exact hagree
  · rw [hleft, hright]
    exact ih _ (readTurn_forward hleft) hagree next rfl

theorem foldl_read_congr {left right : Codings} (h : Agree left right) (lines : List Bytes) :
    Agree (lines.foldl read left) (lines.foldl read right) := by
  induction lines generalizing left right with
  | nil => exact h
  | cons line lines ih => exact ih (readFrom_congr h line 0)

theorem Agree.symm {left right : Codings} (h : Agree left right) : Agree right left := by
  unfold Agree at h ⊢
  rw [← h]

theorem Agree.framing {left right : Codings} (h : Agree left right) (response : Bool) :
    left.framing response = right.framing response := by
  unfold Agree at h
  rw [← h]
  rfl

/-- A line cut in two is read as the line was. -/
theorem readLines_cut {left right : Bytes} {names : List Bytes} (before after : List Bytes)
    (hlist : CodingList (left ++ comma :: right) names) (hleft : Unquoted left) :
    Agree (readLines (before ++ (left ++ comma :: right) :: after))
      (readLines (before ++ left :: right :: after)) := by
  obtain ⟨first, second, rfl, hfirst, hsecond⟩ := hlist.cut rfl hleft
  unfold readLines
  rw [List.foldl_append, List.foldl_append, List.foldl_cons, List.foldl_cons, List.foldl_cons]
  refine foldl_read_congr ?_ after
  generalize before.foldl read new = codings
  -- Both readings note the same names.
  have hwhole := readFrom_agree (Agree.refl codings) _ hlist
  have hparts := readFrom_agree (readFrom_agree (Agree.refl codings) _ hfirst) _ hsecond
  rw [noteAll_append] at hwhole
  exact hwhole.trans hparts.symm

end Codings

/-- One way to write the same fields differently. -/
inductive Rearranges : List (Bytes × Bytes) → List (Bytes × Bytes) → Prop
  /-- Two neighbours of different names change places. -/
  | swap (before after : List (Bytes × Bytes)) (first second : Bytes × Bytes)
      (hnames : eqIgnoreAsciiCase first.1 second.1 = false) :
      Rearranges (before ++ first :: second :: after) (before ++ second :: first :: after)
  /-- A name is written in other letter case. -/
  | casing (before after : List (Bytes × Bytes)) (name name' value : Bytes)
      (hname : eqIgnoreAsciiCase name name' = true) :
      Rearranges (before ++ (name, value) :: after) (before ++ (name', value) :: after)
  /-- A Content-Length line is cut at a comma. -/
  | cutLength (before after : List (Bytes × Bytes)) (name left right : Bytes)
      (hname : eqIgnoreAsciiCase name (ascii "content-length") = true) :
      Rearranges (before ++ (name, left ++ comma :: right) :: after)
        (before ++ (name, left) :: (name, right) :: after)
  /-- A well-formed Transfer-Encoding line is cut at a comma outside quoted strings. -/
  | cutCodings (before after : List (Bytes × Bytes)) (name left right : Bytes) (names : List Bytes)
      (hname : eqIgnoreAsciiCase name (ascii "transfer-encoding") = true)
      (hlist : CodingList (left ++ comma :: right) names) (hleft : Unquoted left) :
      Rearranges (before ++ (name, left ++ comma :: right) :: after)
        (before ++ (name, left) :: (name, right) :: after)

/-- What the decision reads of the fields. -/
structure SameFraming (fields fields' : List (Bytes × Bytes)) : Prop where
  lengths : lengthElements fields = lengthElements fields'
  lines : valuesOf fields (ascii "transfer-encoding") = [] ↔
    valuesOf fields' (ascii "transfer-encoding") = []
  codings : Codings.Agree (Codings.readLines (valuesOf fields (ascii "transfer-encoding")))
    (Codings.readLines (valuesOf fields' (ascii "transfer-encoding")))

theorem SameFraming.of_values {fields fields' : List (Bytes × Bytes)}
    (h : ∀ name, valuesOf fields name = valuesOf fields' name) : SameFraming fields fields' := by
  refine ⟨?_, ?_, ?_⟩
  · unfold lengthElements
    rw [h]
  · rw [h]
  · rw [h]
    exact Codings.Agree.refl _

theorem SameFraming.trans {first second third : List (Bytes × Bytes)} (h : SameFraming first second)
    (h' : SameFraming second third) : SameFraming first third :=
  ⟨h.lengths.trans h'.lengths, h.lines.trans h'.lines, h.codings.trans h'.codings⟩

theorem elements_cut (left right : Bytes) :
    elements (left ++ comma :: right) false = elements left false ++ elements right false := by
  rw [elements_plain, elements_plain, elements_plain, List.splitOnP_append_cons _ _ (by decide),
    List.map_append]

/-- A field of another name is not among the values. -/
theorem valuesOf_cut_other {name other : Bytes} (left right whole : Bytes)
    (before after : List (Bytes × Bytes)) (hname : eqIgnoreAsciiCase name other = false) :
    valuesOf (before ++ (name, whole) :: after) other =
      valuesOf (before ++ (name, left) :: (name, right) :: after) other := by
  rw [valuesOf_append, valuesOf_append, valuesOf_cons, valuesOf_cons, valuesOf_cons]
  simp only [hname, Bool.false_eq_true, if_false]

theorem Rearranges.sameFraming {fields fields' : List (Bytes × Bytes)} (h : Rearranges fields fields') :
    SameFraming fields fields' := by
  cases h with
  | swap before after first second hnames =>
    refine .of_values fun name => ?_
    rw [valuesOf_append, valuesOf_append, valuesOf_cons, valuesOf_cons, valuesOf_cons, valuesOf_cons]
    cases hfirst : eqIgnoreAsciiCase first.1 name with
    | false => rfl
    | true =>
      have hsecond : eqIgnoreAsciiCase second.1 name = false := by
        rw [← Bool.not_eq_true]
        intro hsecond
        unfold eqIgnoreAsciiCase at hfirst hsecond hnames
        rw [beq_iff_eq] at hfirst hsecond
        rw [hfirst, hsecond, beq_self_eq_true] at hnames
        cases hnames
      rw [hsecond]
      rfl
  | casing before after name name' value hname =>
    refine .of_values fun other => ?_
    rw [valuesOf_append, valuesOf_append, valuesOf_cons, valuesOf_cons, eqIgnoreAsciiCase_left hname]
  | cutLength before after name left right hname =>
    have hother : eqIgnoreAsciiCase name (ascii "transfer-encoding") = false := by
      rw [eqIgnoreAsciiCase_left hname]
      decide
    have hlines := valuesOf_cut_other left right (left ++ comma :: right) before after hother
    refine ⟨?_, by rw [hlines], by rw [hlines]; exact Codings.Agree.refl _⟩
    unfold lengthElements
    rw [valuesOf_append, valuesOf_append, valuesOf_cons, valuesOf_cons, valuesOf_cons]
    simp only [hname, if_true, List.flatMap_append, List.flatMap_cons, elements_cut, List.append_assoc]
  | cutCodings before after name left right names hname hlist hleft =>
    have hother : eqIgnoreAsciiCase name (ascii "content-length") = false := by
      rw [eqIgnoreAsciiCase_left hname]
      decide
    have hvalues : ∀ value, valuesOf ((name, value) :: after) (ascii "transfer-encoding") =
        value :: valuesOf after (ascii "transfer-encoding") := by
      intro value
      rw [valuesOf_cons]
      simp only [hname, if_true]
    have hright : valuesOf ((name, left) :: (name, right) :: after) (ascii "transfer-encoding") =
        left :: right :: valuesOf after (ascii "transfer-encoding") := by
      rw [valuesOf_cons, hvalues]
      simp only [hname, if_true]
    refine ⟨?_, ?_, ?_⟩
    · unfold lengthElements
      rw [valuesOf_cut_other left right _ before after hother]
    · rw [valuesOf_append, valuesOf_append, hvalues, hright]
      simp
    · rw [valuesOf_append, valuesOf_append, hvalues, hright]
      exact Codings.readLines_cut _ _ hlist hleft

theorem SameFraming.framing {headers headers' : Headers} (h : SameFraming headers.iter headers'.iter)
    (version : Version) (response : Bool) :
    (Fields.scan headers).framing version response = (Fields.scan headers').framing version response := by
  unfold Fields.framing
  rw [Fields.scan_length_elements, Fields.scan_length_elements, h.lengths, Fields.scan_codings_lines,
    Fields.scan_codings_lines headers', getAll_eq, getAll_eq]
  have hlines := h.lines
  have hcodings := h.codings
  cases hleft : valuesOf headers.iter (ascii "transfer-encoding") with
  | nil => rw [hlines.mp hleft]
  | cons value values =>
    cases hright : valuesOf headers'.iter (ascii "transfer-encoding") with
    | nil =>
      rw [hlines.mpr hright] at hleft
      cases hleft
    | cons value' values' =>
      rw [hleft, hright] at hcodings
      cases (lengthElements headers'.iter).foldl Fields.noteLength none with
      | none =>
        dsimp only
        rw [hcodings.framing response]
      | some length => rfl

/-- The body length is what its definition says for every list of fields, and
the same however the fields are written. -/
theorem body_length_is_its_definition (headers : Headers) (version : Version) (response : Bool) :
    BodyLength headers version response ((Fields.scan headers).framing version response) ∧
    ∀ headers' : Headers, Relation.ReflTransGen Rearranges headers.iter headers'.iter →
      (Fields.scan headers').framing version response =
        (Fields.scan headers).framing version response := by
  refine ⟨scan_framing_bodyLength headers version response, fun headers' h => ?_⟩
  have hsame : SameFraming headers.iter headers'.iter := by
    generalize headers'.iter = fields at h
    induction h with
    | refl => exact .of_values fun _ => rfl
    | tail _ hlast ih => exact ih.trans hlast.sameFraming
  exact (hsame.framing version response).symm

end H11r
