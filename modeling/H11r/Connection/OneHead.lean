import H11r.Connection.Framed
import H11r.Connection.Run
import H11r.Wire.Announce
import Mathlib.Data.List.Perm.Basic

/-!
# What a send method writes is one head

A caller's method, target, reason, names and values go into the output as they
are, next to bytes the connection adds. None of them can break a line or end the
head early: every part has been checked for the bytes it may have, the checks of
the fields hold of the fields that are added and rebuilt later, and the flag
that spares a section its second check is the truth about it (`Headers.sound`).

`OneHead output start fields` is the shape this gives to an output: a start
line, a line for each field, an empty line, and no CR or LF anywhere else. The
end of a chunked message has it too, with the last chunk as its start line.
-/

namespace H11r

/-- The line of a field. -/
def lineOf (field : Bytes × Bytes) : Bytes := field.1 ++ ascii ": " ++ field.2

/-- A start line, one line for each field and an empty line. -/
structure OneHead (output start : Bytes) (fields : List (Bytes × Bytes)) : Prop where
  text : output = start ++ crlf ++ fields.flatMap (fun field => lineOf field ++ crlf) ++ crlf
  plain : PlainLine start ∧ ∀ field ∈ fields, PlainLine (lineOf field)

/-- Wherever a line of the output is empty, the output ends. -/
def EmptyLineLast (output : Bytes) : Prop :=
  ∀ before after, output = before ++ crlf ++ after → before = [] ∨ before.getLast? = some lf →
    after = []

/-! ## The first empty line -/

/-- What ends with a break and starts like a line has the whole line in it. -/
theorem prefix_of_break {line before tail : Bytes} (hplain : PlainLine line)
    (hlast : before.getLast? = some lf) (h : line ++ crlf <+: before ++ tail) :
    line ++ crlf <+: before := by
  rcases List.prefix_or_prefix_of_prefix h (List.prefix_append before tail) with hle | hle
  · exact hle
  · obtain ⟨rest, hrest⟩ := hle
    rcases List.eq_nil_or_concat rest with rfl | ⟨rest, byte, rfl⟩
    · rw [List.append_nil] at hrest
      exact ⟨[], by rw [hrest, List.append_nil]⟩
    · -- Otherwise the LF would be inside the line.
      have hshort : before ++ rest = line ++ [cr] := by
        have hsplit : (before ++ rest) ++ [byte] = (line ++ [cr]) ++ [lf] := by
          rw [List.append_assoc, List.append_assoc, ← List.concat_eq_append]
          exact hrest
        exact (List.append_inj' hsplit rfl).1
      have hmem : lf ∈ line ++ [cr] := by
        rw [← hshort]
        exact List.mem_append_left _ (List.mem_of_getLast? hlast)
      rcases List.mem_append.mp hmem with hline | hcr
      · exact absurd hline hplain.lf
      · exact absurd (List.mem_singleton.mp hcr) (by decide)

/-- Plain lines and an empty one: no empty line comes earlier. -/
theorem emptyLineLast_lines {lines : List Bytes} (hplain : ∀ line ∈ lines, PlainLine line) :
    EmptyLineLast (lines.flatMap (· ++ crlf) ++ crlf) := by
  induction lines with
  | nil =>
    intro before after h _
    have hlength := congrArg List.length h
    simp only [List.flatMap_nil, List.nil_append, List.length_append] at hlength
    exact List.length_eq_zero_iff.mp (by omega)
  | cons line lines ih =>
    intro before after h hline
    have hfirst := hplain line (List.mem_cons_self ..)
    rw [List.flatMap_cons, List.append_assoc] at h
    rcases hline with rfl | hlast
    · -- The output starts with the first byte of the line, which is no CR.
      cases line with
      | nil => exact absurd rfl hfirst.ne
      | cons byte rest =>
        have hcr : byte = cr := (List.cons.inj h).1
        subst hcr
        exact absurd (List.mem_cons_self ..) hfirst.cr
    · obtain ⟨rest, rfl⟩ :=
        prefix_of_break hfirst hlast ⟨_, h.trans (List.append_assoc before crlf after)⟩
      refine ih (fun other hmem => hplain other (List.mem_cons_of_mem _ hmem)) rest after ?_ ?_
      · rw [List.append_assoc (line ++ crlf), List.append_assoc (line ++ crlf)] at h
        exact List.append_cancel_left h
      · by_cases hrest : rest = []
        · exact Or.inl hrest
        · rw [List.getLast?_append, List.getLast?_eq_some_getLast hrest, Option.some_or] at hlast
          rw [List.getLast?_eq_some_getLast hrest]
          exact Or.inr hlast

/-- The empty line at the end is the first one. -/
theorem OneHead.emptyLineLast {output start : Bytes} {fields : List (Bytes × Bytes)}
    (h : OneHead output start fields) : EmptyLineLast output := by
  have hlines : output = (start :: fields.map lineOf).flatMap (· ++ crlf) ++ crlf := by
    rw [h.text, List.flatMap_cons, List.flatMap_map]
  rw [hlines]
  refine emptyLineLast_lines fun line hmem => ?_
  rcases List.mem_cons.mp hmem with rfl | hfield
  · exact h.plain.1
  · obtain ⟨field, hin, rfl⟩ := List.mem_map.mp hfield
    exact h.plain.2 field hin

/-! ## Start lines and fields -/

theorem writeField_lineOf (field : Bytes × Bytes) : writeField field = lineOf field ++ crlf := rfl

/-- Fields that are valid to send are written on one line each. -/
theorem lineOf_plain {fields : List (Bytes × Bytes)}
    (hvalid : ∀ field ∈ fields, validName field.1 = true ∧ validValue field.2 = true) :
    ∀ field ∈ fields, PlainLine (lineOf field) :=
  fun field hmem => plainLine_field (hvalid field hmem).1 (hvalid field hmem).2

def requestStart (request : Request) : Bytes :=
  request.method.asBytes ++ [sp] ++ request.target ++ ascii " HTTP/" ++ request.httpVersion.wire

def responseStart (response : Response) : Bytes :=
  ascii "HTTP/" ++ response.httpVersion.wire ++ [sp] ++ statusDigits response.status ++ [sp] ++
    response.reason

theorem validRequestTarget_graphic {method target : Bytes}
    (h : validRequestTarget method target = true) : target.all isAsciiGraphic = true := by
  unfold validRequestTarget at h
  split at h
  · cases h
  next hbytes =>
    rw [Bool.or_eq_true, not_or, Bool.not_eq_true', Bool.not_eq_false] at hbytes
    refine List.all_eq_true.mpr fun byte hbyte => ?_
    have hboth := List.all_eq_true.mp hbytes.2 byte hbyte
    rw [Bool.and_eq_true] at hboth
    exact hboth.1

theorem requestStart_plain {request : Request}
    (h : validRequestTarget request.method.asBytes request.target = true) :
    PlainLine (requestStart request) := by
  have hgraphic : ∀ byte, isAsciiGraphic byte = true → byte ≠ cr ∧ byte ≠ lf :=
    forall_byte (by decide +kernel)
  have htoken : ∀ byte, isTokenByte byte = true → byte ≠ cr ∧ byte ≠ lf :=
    fun byte hbyte => ⟨isTokenByte_ne_cr hbyte, isTokenByte_ne_lf hbyte⟩
  have hwritten : ∀ {text : Bytes}, text.all (fun byte => byte != cr && byte != lf) = true →
      ∀ byte ∈ text, byte ≠ cr ∧ byte ≠ lf := by
    intro text hall byte hmem
    have hbyte := List.all_eq_true.mp hall byte hmem
    rw [Bool.and_eq_true, bne_iff_ne, bne_iff_ne] at hbyte
    exact hbyte
  have hbytes : ∀ byte ∈ requestStart request, byte ≠ cr ∧ byte ≠ lf := by
    intro byte hbyte
    simp only [requestStart, List.mem_append, List.mem_singleton] at hbyte
    rcases hbyte with (((h1 | h1) | h1) | h1) | h1
    · exact htoken byte (List.all_eq_true.mp request.method.token.2 byte h1)
    · rw [h1]
      decide
    · exact hgraphic byte (List.all_eq_true.mp (validRequestTarget_graphic h) byte h1)
    · exact hwritten (by decide) byte h1
    · cases hversion : request.httpVersion with
      | http10 =>
        rw [hversion] at h1
        exact hwritten (by decide) byte h1
      | http11 =>
        rw [hversion] at h1
        exact hwritten (by decide) byte h1
  refine ⟨?_, fun hmem => (hbytes _ hmem).1 rfl, fun hmem => (hbytes _ hmem).2 rfl⟩
  unfold requestStart
  simp

/-- The Host field changes its place, and nothing else happens to the fields. -/
theorem hostFirst_perm (fields : List (Bytes × Bytes)) (hostAt : Nat) :
    (hostFirst fields hostAt).Perm fields := by
  unfold hostFirst
  by_cases h : hostAt < fields.length
  · rw [List.getElem?_eq_getElem h]
    exact List.getElem_cons_eraseIdx_perm h
  · rw [List.getElem?_eq_none (by omega), List.eraseIdx_of_length_le (by omega)]
    exact List.Perm.refl _

namespace Connection

variable {c c' : Connection}

/-! ## What the methods write -/

theorem sendRequest_oneHead {request : Request} {bytes : Bytes}
    (h : sendRequest request c = (.ok bytes, c')) :
    OneHead bytes (requestStart request)
      (hostFirst request.headers.iter (Fields.scan request.headers).hostAt) := by
  obtain ⟨framing, upgrades, state, _, _, hchecked, _, rfl, _⟩ := sendRequest_ok h
  obtain ⟨htarget, hheaders, _⟩ := validateRequest_ok hchecked.valid
  refine ⟨?_, requestStart_plain htarget, lineOf_plain fun field hmem => ?_⟩
  · rfl
  · exact validateHeaders_iff.mp hheaders field ((hostFirst_perm _ _).mem_iff.mp hmem)

theorem serializeResponse_oneHead {response : Response} {headers : Headers}
    (hreason : validateReason response.reason = .ok ())
    (hvalid : ∀ field ∈ headers.iter, validName field.1 = true ∧ validValue field.2 = true) :
    OneHead (serializeResponse response.httpVersion response.status response.reason headers)
      (responseStart response) headers.iter :=
  ⟨rfl, plainLine_status _ _ (validateReason_ok hreason), lineOf_plain hvalid⟩

theorem sendInformationalResponse_oneHead {response : Response} {bytes : Bytes}
    (h : sendInformationalResponse response c = (.ok bytes, c')) :
    OneHead bytes (responseStart response) response.headers.iter := by
  obtain ⟨_, _, _, _, _, hchecked, _, _, _, rfl, _⟩ := sendInformationalResponse_ok h
  exact serializeResponse_oneHead hchecked.reason (validateHeaders_iff.mp hchecked.headers)

/-- The fields that state the persistence of the connection are valid too. -/
theorem announcePersistence_valid (c : Connection) (version : Version) {headers : Headers}
    (hvalid : ∀ field ∈ headers.iter, validName field.1 = true ∧ validValue field.2 = true) :
    ∀ field ∈ (c.announcePersistence version headers).iter,
      validName field.1 = true ∧ validValue field.2 = true := by
  unfold announcePersistence
  split
  · exact setConnectionOption_valid hvalid (by decide) (by decide) (by decide)
  · split
    · exact setConnectionOption_valid hvalid (by decide) (by decide) (by decide)
    · exact hvalid

theorem sendResponse_oneHead {response : Response} {bytes : Bytes}
    (h : sendResponse response c = (.ok bytes, c')) :
    ∃ headers, bytes = serializeResponse response.httpVersion response.status response.reason
        headers ∧ OneHead bytes (responseStart response) headers.iter := by
  obtain ⟨framing, headers, state, _, _, hchecked, hplan, _, rfl, _⟩ := sendResponse_ok h
  have hvalid := (responseFraming_framed hplan).2.valid (validateHeaders_iff.mp hchecked.headers)
  refine ⟨_, rfl, serializeResponse_oneHead hchecked.reason ?_⟩
  split
  · exact hvalid
  · exact announcePersistence_valid _ _ hvalid

theorem endOfMessage_oneHead {trailers : Headers} {bytes : Bytes}
    (hchunked : c.cycle.writer = some .chunked)
    (h : endOfMessage trailers c = (.ok bytes, c')) :
    OneHead bytes (ascii "0") trailers.iter := by
  obtain ⟨framing, _, hvalid, hwriter, hframed, _, _⟩ := endOfMessage_ok h
  rw [hchunked] at hwriter
  cases hwriter
  cases hframed
  refine ⟨rfl, ⟨by decide, by decide, by decide⟩, lineOf_plain ?_⟩
  exact validateHeaders_iff.mp (validateTrailers_headers hvalid)

/-- On every connection and for all arguments, what a send method writes is one
head: start line, a line for each field of the list that is sent, and an empty
line, which is the first one. The end of a chunked message is written the same
way, after its last chunk. -/
theorem sent_heads_are_whole (c : Connection) :
    (∀ request bytes c', sendRequest request c = (.ok bytes, c') →
      ∃ fields, fields.Perm request.headers.iter ∧
        OneHead bytes (requestStart request) fields ∧ EmptyLineLast bytes) ∧
    (∀ response bytes c', sendInformationalResponse response c = (.ok bytes, c') →
      OneHead bytes (responseStart response) response.headers.iter ∧ EmptyLineLast bytes) ∧
    (∀ response bytes c', sendResponse response c = (.ok bytes, c') →
      ∃ headers, bytes = serializeResponse response.httpVersion response.status response.reason
          headers ∧ OneHead bytes (responseStart response) headers.iter ∧ EmptyLineLast bytes) ∧
    ∀ trailers bytes c', c.cycle.writer = some .chunked →
      endOfMessage trailers c = (.ok bytes, c') →
        OneHead bytes (ascii "0") trailers.iter ∧ EmptyLineLast bytes := by
  refine ⟨fun request bytes c' h => ?_, fun response bytes c' h => ?_,
    fun response bytes c' h => ?_, fun trailers bytes c' hchunked h => ?_⟩
  · have hhead := sendRequest_oneHead h
    exact ⟨_, hostFirst_perm _ _, hhead, hhead.emptyLineLast⟩
  · have hhead := sendInformationalResponse_oneHead h
    exact ⟨hhead, hhead.emptyLineLast⟩
  · obtain ⟨headers, hbytes, hhead⟩ := sendResponse_oneHead h
    exact ⟨headers, hbytes, hhead, hhead.emptyLineLast⟩
  · have hhead := endOfMessage_oneHead hchunked h
    exact ⟨hhead, hhead.emptyLineLast⟩

/-- The head of a request without a body. -/
theorem plain_get_is_one_head :
    ∃ bytes c' fields, sendRequest (plainGet .http11) (new .client .default) = (.ok bytes, c') ∧
      OneHead bytes (requestStart (plainGet .http11)) fields ∧ EmptyLineLast bytes := by
  obtain ⟨bytes, c', hsent⟩ := Lib.Call.exists_ok (sendRequest (plainGet .http11))
    (new .client .default) (by decide +kernel)
  obtain ⟨fields, _, hhead, hlast⟩ := (sent_heads_are_whole (new .client .default)).1 _ _ _ hsent
  exact ⟨bytes, c', fields, hsent, hhead, hlast⟩

end Connection

end H11r
