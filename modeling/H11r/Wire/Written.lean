import Mathlib
import H11r.Wire.Laws
import H11r.Wire.Prefix

/-!
# What is written is read back

The writers of `wire/head.rs` and `DataPrefix::chunk_size` against the readers
of the same modules: a chunk-size line stands for the length it was written
for, and a head or a trailer section is read with the parts it was made of.
What the parser makes of a valid text is its law (`Httparse.ReadsValid`); what
is made of its spans is shown here, down to the reason phrase, which is found
by its offset in the line.

`ReadsAs` is what a decoder needs to know of such a text, which may have come
in part: a part of it has no answer yet, all of it has one, and that answer
stands whatever comes behind it.
-/

namespace H11r

/-! ## Chunk-size lines -/

/-- The last `count` hex digits of `length`. -/
def sizeDigits (count length : Nat) : Bytes :=
  (List.range count).map fun index => hexDigit (length >>> (4 * (count - 1 - index)) % 16)

theorem chunkSize_eq (length : Nat) : chunkSize length = sizeDigits (hexDigits length) length ++ crlf := rfl

theorem sizeDigits_length (count length : Nat) : (sizeDigits count length).length = count := by
  unfold sizeDigits
  rw [List.length_map, List.length_range]

theorem sizeDigits_succ (count length : Nat) :
    sizeDigits (count + 1) length = sizeDigits count (length >>> 4) ++ [hexDigit (length % 16)] := by
  unfold sizeDigits
  rw [List.range_succ, List.map_append, List.map_singleton]
  congr 1
  · refine List.map_congr_left fun index hindex => ?_
    have hlt := List.mem_range.mp hindex
    have hshift : 4 * (count + 1 - 1 - index) = 4 + 4 * (count - 1 - index) := by omega
    rw [hshift, Nat.shiftRight_add]
  · have hlast : 4 * (count + 1 - 1 - count) = 0 := by omega
    rw [hlast, Nat.shiftRight_zero]

theorem hexDigit_value : ∀ digit < 16,
    isAsciiHexdigit (hexDigit digit) = true ∧ hexValue (hexDigit digit) = digit := by
  decide

theorem sizeDigits_hexdigit (count length : Nat) :
    ∀ byte ∈ sizeDigits count length, isAsciiHexdigit byte = true := by
  intro byte hmem
  obtain ⟨index, _, rfl⟩ := List.mem_map.mp hmem
  exact (hexDigit_value _ (Nat.mod_lt _ (by omega))).1

/-- Digits that leave nothing out stand for the length. -/
theorem numeral_sizeDigits {count length : Nat} (h : length >>> (4 * count) = 0) :
    numeral 16 hexValue (sizeDigits count length) = length := by
  induction count generalizing length with
  | zero =>
    rw [Nat.mul_zero, Nat.shiftRight_zero] at h
    rw [h]
    rfl
  | succ count ih =>
    have hrest : length >>> 4 >>> (4 * count) = 0 := by
      rw [← Nat.shiftRight_add]
      rw [Nat.mul_succ, Nat.add_comm] at h
      exact h
    have hdigit := (hexDigit_value (length % 16) (Nat.mod_lt _ (by omega))).2
    have hnumeral := ih hrest
    unfold numeral at hnumeral ⊢
    rw [sizeDigits_succ, List.foldl_append, hnumeral, List.foldl_cons, List.foldl_nil, hdigit,
      Nat.shiftRight_eq_div_pow]
    omega

theorem hexDigits_enough (length : Nat) : length >>> (4 * hexDigits length) = 0 := by
  by_cases hzero : length = 0
  · subst hzero
    exact Nat.zero_shiftRight _
  · have hlog : length < 2 ^ (length.log2 + 1) := Nat.lt_log2_self
    have hbits : length.log2 + 1 ≤ 4 * hexDigits length := by
      unfold hexDigits
      rw [if_neg hzero]
      omega
    rw [Nat.shiftRight_eq_div_pow]
    exact Nat.div_eq_of_lt (Nat.lt_of_lt_of_le hlog (Nat.pow_le_pow_right (by omega) hbits))

/-- The chunk-size line of a piece is read as its length. -/
theorem sizeLine_written {length : Nat} (h : length ≤ usizeMax) :
    SizeLine (sizeDigits (hexDigits length) length) length := by
  refine ⟨_, [], (List.append_nil _).symm, ?_, sizeDigits_hexdigit _ _,
    numeral_sizeDigits (hexDigits_enough length), h, .nil⟩
  intro hnil
  have hcount := sizeDigits_length (hexDigits length) length
  rw [hnil, List.length_nil] at hcount
  unfold hexDigits at hcount
  split at hcount <;> omega

/-- It has no extensions. -/
theorem extensionLength_written (length : Nat) :
    extensionLength (sizeDigits (hexDigits length) length) = 0 := by
  unfold extensionLength countWhile
  rw [List.takeWhile_eq_self_iff.mpr (sizeDigits_hexdigit _ _), Nat.sub_self]

/-! ## Fields at their places -/

theorem Span.shift_slice {span : Span} {start stop : Nat} {bytes : Bytes} (hstart : start ≤ span.start)
    (hrange : span.start ≤ span.stop) (hstop : span.stop ≤ stop) :
    (span.shift start).slice (Span.slice ⟨start, stop⟩ bytes) = span.slice bytes := by
  unfold Span.shift Span.slice
  dsimp only
  rw [List.drop_take, List.drop_drop, List.take_take]
  congr 1
  · omega
  · congr 1
    omega

/-- The copied fields are the slices that were parsed. -/
theorem copySection_iter {stop : Nat} (section_ : Bytes) (parsed : ParsedFields stop)
    (hstop : stop ≤ section_.length) :
    (copySection section_ parsed hstop).iter = fieldSlices section_ parsed := by
  unfold copySection Headers.fromSection Headers.iter fieldSlices
  dsimp only
  rw [List.map_map]
  refine List.map_congr_left fun field hmem => ?_
  have hrange := parsed.inRange field hmem
  have hstart := sectionStart_le parsed hmem
  have hend := stop_le_sectionEnd (sectionStart parsed.spans) hmem
  dsimp only [Function.comp]
  rw [Span.shift_slice hstart hrange.1 (by omega), Span.shift_slice (by omega) hrange.2.2.1 hend]

/-- Values without a line break are copied as they are. -/
theorem copyHeaders_iter {stop : Nat} (section_ : Bytes) (parsed : ParsedFields stop)
    (hstop : stop ≤ section_.length) (unfold_ : Bool)
    (hvalues : ∀ field ∈ fieldSlices section_ parsed, lf ∉ field.2) :
    (copyHeaders section_ parsed hstop unfold_).iter = fieldSlices section_ parsed := by
  have hnone : (fieldSlices section_ parsed).any (fun field => field.2.contains lf) = false := by
    rw [List.any_eq_false]
    intro field hmem hcontains
    exact hvalues field hmem (List.contains_iff_mem.mp hcontains)
  unfold copyHeaders
  rw [if_neg (by rw [hnone]; simp)]
  exact copySection_iter section_ parsed hstop

/-- At the places of written fields stand the fields. -/
theorem fieldSpans_slices (before rest : Bytes) (fields : List (Bytes × Bytes)) :
    ((fieldSpans before.length fields).map fun field =>
      (field.1.slice (before ++ fields.flatMap writeField ++ rest),
        field.2.slice (before ++ fields.flatMap writeField ++ rest))) = fields := by
  induction fields generalizing before with
  | nil => rfl
  | cons field fields ih =>
    obtain ⟨name, value⟩ := field
    have hrest := ih (before ++ writeField (name, value))
    have htext : before ++ writeField (name, value) ++ fields.flatMap writeField ++ rest =
        before ++ ((name, value) :: fields).flatMap writeField ++ rest := by
      rw [List.flatMap_cons, List.append_assoc before]
    rw [htext, List.length_append] at hrest
    -- The name and the value lie where `fieldSpans` says.
    have hname : before ++ ((name, value) :: fields).flatMap writeField ++ rest =
        before ++ name ++ (ascii ": " ++ (value ++ (crlf ++ (fields.flatMap writeField ++ rest)))) := by
      rw [List.flatMap_cons]
      unfold writeField
      simp only [List.append_assoc]
    have hvalue : before ++ ((name, value) :: fields).flatMap writeField ++ rest =
        before ++ name ++ ascii ": " ++ value ++ (crlf ++ (fields.flatMap writeField ++ rest)) := by
      rw [hname]
      simp only [List.append_assoc]
    have hfirst := Span.slice_appended before name
      (ascii ": " ++ (value ++ (crlf ++ (fields.flatMap writeField ++ rest))))
    have hsecond := Span.slice_appended (before ++ name ++ ascii ": ") value
      (crlf ++ (fields.flatMap writeField ++ rest))
    rw [← hname] at hfirst
    rw [← hvalue, List.length_append, List.length_append] at hsecond
    unfold fieldSpans
    rw [List.map_cons, hrest, hfirst]
    congr 2

/-! ## Texts and their readings -/

/-- `text` is read as `value`: not before all of it has come, and then whatever
comes behind it. -/
structure ReadsAs {ε α : Type} (parse : Bytes → Except ε (Option α)) (text : Bytes) (value : α) : Prop where
  whole : ∀ more, parse (text ++ more) = .ok (some value)
  part : ∀ data rest, data ++ rest = text → rest ≠ [] → parse data = .ok none
  ends : EndsSection text true text.length

section Heads

variable {hp : Httparse} {slots : Nat} {fields : List (Bytes × Bytes)}

/-- A valid value has no line break. -/
theorem validField.lf_not_mem {field : Bytes × Bytes} (h : validField field) : lf ∉ field.2 :=
  lf_not_mem_value (validValue_all h.2)

theorem EndsSection.of_emptyLineEnd {data : Bytes} {skip : Bool} {stop : Nat}
    (h : emptyLineEnd data skip = some stop) : EndsSection data skip stop :=
  (emptyLineEnd_iff _ _ _).mp h

/-- The fields copied from a head are those that were written in it. -/
theorem copyHeaders_written {line rest : Bytes} {stop : Nat} (hvalid : ∀ field ∈ fields, validField field)
    {parsed : ParsedFields stop} (hspans : parsed.spans = fieldSpans line.length fields)
    (hstop : stop ≤ (line ++ fields.flatMap writeField ++ rest).length) (unfold_ : Bool) :
    (copyHeaders (line ++ fields.flatMap writeField ++ rest) parsed hstop unfold_).iter = fields := by
  have hslices : fieldSlices (line ++ fields.flatMap writeField ++ rest) parsed = fields := by
    unfold fieldSlices
    rw [hspans]
    exact fieldSpans_slices line rest fields
  have hvalues : ∀ field ∈ fieldSlices (line ++ fields.flatMap writeField ++ rest) parsed, lf ∉ field.2 := by
    rw [hslices]
    exact fun field hmem => (hvalid field hmem).lf_not_mem
  rw [copyHeaders_iter _ _ _ _ hvalues, hslices]

/-- A request head is read with the parts it was written with. -/
theorem requestHead_readsAs (hhp : hp.Stable) (hread : hp.ReadsValid) (method : Method) {target : Bytes}
    (version_ : Version) (htarget : target ≠ []) (hgraphic : target.all isAsciiGraphic = true)
    (hvalid : ∀ field ∈ fields, validField field) (hslots : fields.length ≤ slots) :
    ∃ headers : Headers, headers.iter = fields ∧
      ReadsAs (fun data => parseRequestHead hp data slots)
        (requestLine method.asBytes target version_ ++ fields.flatMap writeField ++ crlf)
        ((requestLine method.asBytes target version_ ++ fields.flatMap writeField ++ crlf).length,
          { method := method, target := target, headers := headers, httpVersion := version_ }) := by
  have hparts := hread.request method target version_ fields slots [] htarget hgraphic hvalid hslots
  rw [List.append_nil] at hparts
  have hends := (hhp.request slots).ends hparts
  obtain ⟨raw, hraw, hfound⟩ := parsedAs_eq_some.mp hparts
  obtain ⟨stop, hstop, method', path, minor, parsed⟩ := raw
  simp only [RawRequest.parts, RequestParts.mk.injEq] at hfound
  obtain ⟨rfl, rfl, rfl, rfl, hspans⟩ := hfound
  refine ⟨copyHeaders _ parsed hstop false, copyHeaders_written hvalid hspans hstop false, ?_, ?_, ?_⟩
  · intro more
    refine parseRequestHead_complete hhp more ?_
    unfold parseRequestHead
    rw [hraw]
    dsimp only
    rw [version_minor]
  · intro data rest hdata hrest
    have hlt : data.length < (requestLine method'.asBytes path version_ ++ fields.flatMap writeField ++
        crlf).length := by
      rw [← hdata, List.length_append]
      have hpos := List.length_pos_iff.mpr hrest
      omega
    rw [← hdata] at hparts
    have hwaits := (hhp.request slots).waits_before hparts (hdata ▸ hlt)
    show parseRequestHead hp data slots = .ok none
    unfold parseRequestHead
    rw [parsedAs_eq_none.mp hwaits]
  · exact .of_emptyLineEnd hends

/-- The reason phrase starts behind `HTTP/1.x`, the status and the spaces. -/
theorem reasonPhrase_written (version_ : Version) (status : StatusCode) (reason rest : Bytes)
    (hreason : reason.all isLineValueByte = true) :
    reasonPhrase false (statusLine (statusLineOf version_ status reason ++ rest)).2 = reason := by
  have hdigits : ∀ digit < 10, UInt8.ofNat (48 + digit) ≠ lf := by decide
  have hprefix : lf ∉ ascii "HTTP/" ++ version_.wire ++ [sp] ++ statusDigits status ++ [sp] ++ reason := by
    have hrange := status.range
    have hstatus : lf ∉ statusDigits status := by
      simp only [statusDigits, List.mem_cons, List.not_mem_nil, or_false, not_or]
      exact ⟨Ne.symm (hdigits _ (by omega)), Ne.symm (hdigits _ (by omega)), Ne.symm (hdigits _ (by omega))⟩
    simp only [List.mem_append, List.mem_singleton, not_or]
    refine ⟨⟨⟨⟨⟨by decide, ?_⟩, by decide⟩, hstatus⟩, by decide⟩, lf_not_mem_value hreason⟩
    cases version_ <;> decide
  generalize hline : ascii "HTTP/" ++ version_.wire ++ [sp] ++ statusDigits status ++ [sp] ++ reason = line
    at hprefix
  have htext : statusLineOf version_ status reason ++ rest = (line ++ [cr]) ++ lf :: rest := by
    unfold statusLineOf
    rw [hline]
    simp [crlf]
  have hfirst : ∀ byte ∈ line ++ [cr], (byte == lf) = false := by
    intro byte hmem
    rw [beq_eq_false_iff_ne]
    rintro rfl
    rcases List.mem_append.mp hmem with hin | hcr
    · exact hprefix hin
    · exact absurd (List.mem_singleton.mp hcr) (by decide)
  have hstrip : stripCr (line ++ [cr]) = line := by
    unfold stripCr
    rw [if_pos (List.getLast?_concat ..), List.dropLast_concat]
  have hne : line ≠ [] := by
    rw [← hline]
    simp
  unfold statusLine
  rw [htext, List.splitOnP_append_cons_of_forall_mem hfirst lf (by rfl), findLine, hstrip,
    if_neg (by simpa using hne)]
  show line.drop 13 = reason
  rw [← hline]
  cases version_ <;> rfl

/-- A response head is read by a strict client with the parts it was written
with. -/
theorem responseHead_readsAs (hhp : hp.Stable) (hread : hp.ReadsValid) (version_ : Version)
    (status : StatusCode) {reason : Bytes} (hreason : reason.all isLineValueByte = true)
    (hvalid : ∀ field ∈ fields, validField field) (hslots : fields.length ≤ slots) :
    ∃ headers : Headers, headers.iter = fields ∧
      ReadsAs (fun data => parseResponseHead hp data slots false)
        (statusLineOf version_ status reason ++ fields.flatMap writeField ++ crlf)
        ((statusLineOf version_ status reason ++ fields.flatMap writeField ++ crlf).length,
          { status := status, reason := reason, headers := headers, httpVersion := version_ }, false) := by
  have hparts := hread.response false version_ status reason fields slots [] hreason hvalid hslots
  rw [List.append_nil] at hparts
  have hends := (hhp.response false slots).ends hparts
  obtain ⟨raw, hraw, hfound⟩ := parsedAs_eq_some.mp hparts
  obtain ⟨stop, hstop, code, minor, parsed⟩ := raw
  simp only [RawResponse.parts, ResponseParts.mk.injEq] at hfound
  obtain ⟨rfl, rfl, rfl, hspans⟩ := hfound
  have hstatus : StatusCode.fromU16 status.asU16 = some status := by
    unfold StatusCode.fromU16
    rw [dif_pos status.range]
  have hphrase : reasonPhrase false (statusLine (statusLineOf version_ status reason ++
      fields.flatMap writeField ++ crlf)).2 = reason := by
    rw [List.append_assoc]
    exact reasonPhrase_written version_ status reason _ hreason
  refine ⟨copyHeaders _ parsed hstop true, copyHeaders_written hvalid hspans hstop true, ?_, ?_, ?_⟩
  · intro more
    refine parseResponseHead_complete hhp more ?_
    unfold parseResponseHead
    rw [hraw]
    dsimp only
    rw [hstatus, version_minor, List.take_length]
    dsimp only
    rw [hphrase]
    rfl
  · intro data rest hdata hrest
    have hlt : data.length < (statusLineOf version_ status reason ++ fields.flatMap writeField ++
        crlf).length := by
      rw [← hdata, List.length_append]
      have hpos := List.length_pos_iff.mpr hrest
      omega
    rw [← hdata] at hparts
    have hwaits := (hhp.response false slots).waits_before hparts (hdata ▸ hlt)
    show parseResponseHead hp data slots false = .ok none
    unfold parseResponseHead
    rw [parsedAs_eq_none.mp hwaits]
  · exact .of_emptyLineEnd hends

/-! ## Trailers -/

theorem hasFold_line {line : Bytes} (rest : Bytes) (h : lf ∉ line) :
    hasFold (line ++ lf :: rest) = (startsWithOws rest || hasFold rest) := by
  induction line with
  | nil => rfl
  | cons byte line ih =>
    rw [List.mem_cons, not_or] at h
    have hbyte : (byte == lf) = false := beq_eq_false_iff_ne.mpr (Ne.symm h.1)
    rw [List.cons_append, hasFold, ih h.2, hbyte]
    rfl

/-- No line of a written section starts with whitespace. -/
theorem hasFold_written (hvalid : ∀ field ∈ fields, validField field) :
    startsWithOws (fields.flatMap writeField ++ crlf) = false ∧
      hasFold (fields.flatMap writeField ++ crlf) = false := by
  induction fields with
  | nil => exact ⟨rfl, rfl⟩
  | cons field fields ih =>
    obtain ⟨name, value⟩ := field
    obtain ⟨hstart, hfold⟩ := ih fun other hmem => hvalid other (List.mem_cons_of_mem _ hmem)
    have hfield := hvalid (name, value) (List.mem_cons_self ..)
    obtain ⟨hne, htoken⟩ := validName_token hfield.1
    have hline : ((name, value) :: fields).flatMap writeField ++ crlf =
        (name ++ ascii ": " ++ value ++ [cr]) ++ lf :: (fields.flatMap writeField ++ crlf) := by
      rw [List.flatMap_cons]
      unfold writeField
      simp [crlf]
    constructor
    · obtain ⟨byte, name, rfl⟩ := List.exists_cons_of_ne_nil hne
      rw [List.all_cons, Bool.and_eq_true] at htoken
      have hows : ∀ byte, isTokenByte byte = true → isOws byte = false := forall_byte (by decide +kernel)
      exact hows byte htoken.1
    · have hplain : lf ∉ name ++ ascii ": " ++ value ++ [cr] := by
        simp only [List.mem_append, List.mem_singleton, not_or]
        exact ⟨⟨⟨lf_not_mem_token htoken, by decide⟩, hfield.lf_not_mem⟩, by decide⟩
      rw [hline, hasFold_line _ hplain, hstart, hfold]
      rfl

/-- A trailer section is read with the fields it was written with, on a client
and on a server. -/
theorem trailerSection_written (hhp : hp.Stable) (hread : hp.ReadsValid) {limits : Limits} (client : Bool)
    (hvalid : ∀ field ∈ fields, validField field) (hcount : fields.length ≤ limits.maxHeaderCount)
    (hlimit : (fields.flatMap writeField ++ crlf).length ≤ limits.maxHeadBytes) :
    ∃ trailers : Headers, trailers.iter = fields ∧
      TrailerSection hp limits client (fields.flatMap writeField ++ crlf) trailers := by
  have hparts := hread.headers fields limits.maxHeaderCount [] hvalid hcount
  rw [List.append_nil] at hparts
  have hends := (hhp.headers limits.maxHeaderCount).ends hparts
  have hsame : unfoldedFor client (fields.flatMap writeField ++ crlf) = fields.flatMap writeField ++ crlf := by
    unfold unfoldedFor normalizeObsFold
    rw [(hasFold_written hvalid).2]
    cases client <;> rfl
  obtain ⟨raw, hraw, hfound⟩ := parsedAs_eq_some.mp hparts
  obtain ⟨stop, hstop, parsed⟩ := raw
  simp only [RawSection.parts, SectionParts.mk.injEq] at hfound
  obtain ⟨rfl, hspans⟩ := hfound
  refine ⟨copyHeaders _ parsed hstop false, ?_, .of_emptyLineEnd hends, hlimit, ?_⟩
  · have hcopied : (copyHeaders ([] ++ fields.flatMap writeField ++ crlf) parsed hstop false).iter = fields :=
      copyHeaders_written hvalid hspans hstop false
    exact hcopied
  · have hparses : ∀ text, text = fields.flatMap writeField ++ crlf → ∃ found,
        hp.parseHeaders text limits.maxHeaderCount = .ok (.complete found) ∧
          copyHeaders (fields.flatMap writeField ++ crlf) parsed hstop false =
            copyHeaders text found.fields found.stop_le false := by
      rintro _ rfl
      exact ⟨_, hraw, rfl⟩
    exact hparses _ hsame

/-! ## Chunks -/

/-- Pieces of a body, each written as a chunk. -/
def writeChunks (pieces : List Bytes) : Bytes :=
  pieces.flatMap fun piece => chunkSize piece.length ++ piece ++ crlf

/-- Chunks that are written, the last chunk and the trailer section are a
chunked body. -/
theorem chunkedBody_written (hhp : hp.Stable) (hread : hp.ReadsValid) {limits : Limits} (client : Bool)
    {pieces : List Bytes}
    (hpieces : ∀ piece ∈ pieces, piece ≠ [] ∧ piece.length ≤ usizeMax ∧
      hexDigits piece.length ≤ limits.maxHeadBytes)
    (hvalid : ∀ field ∈ fields, validField field) (hcount : fields.length ≤ limits.maxHeaderCount)
    (hlimit : (fields.flatMap writeField ++ crlf).length ≤ limits.maxHeadBytes) :
    ∃ trailers : Headers, trailers.iter = fields ∧ ChunkedBody hp limits client 0
      (writeChunks pieces ++ (ascii "0" ++ (crlf ++ (fields.flatMap writeField ++ crlf)))) pieces trailers := by
  obtain ⟨trailers, hiter, hsection⟩ := trailerSection_written hhp hread client hvalid hcount hlimit
  refine ⟨trailers, hiter, ?_⟩
  induction pieces with
  | nil =>
    -- The digit fits where the empty line does.
    have hroom : (ascii "0").length ≤ limits.maxHeadBytes := by
      rw [List.length_append] at hlimit
      have hcrlf : crlf.length = 2 := rfl
      have hzero : (ascii "0").length = 1 := rfl
      omega
    have hline : SizeLine (ascii "0") 0 :=
      sizeLine_written (Nat.zero_le _)
    exact .last hline hroom (Nat.zero_le _) hsection
  | cons piece pieces ih =>
    obtain ⟨hpiece, hlength, hdigits⟩ := hpieces piece (List.mem_cons_self ..)
    have hrest := ih fun other hmem => hpieces other (List.mem_cons_of_mem _ hmem)
    have hnone := extensionLength_written piece.length
    have hline : (sizeDigits (hexDigits piece.length) piece.length).length ≤ limits.maxHeadBytes := by
      rw [sizeDigits_length]
      exact hdigits
    have hchunk : ChunkedBody hp limits client 0 _ (piece :: pieces) trailers :=
      .chunk (sizeLine_written hlength) hpiece hline (by omega) (by rw [hnone]; exact hrest)
    unfold writeChunks at hchunk ⊢
    rw [List.flatMap_cons, chunkSize_eq]
    simp only [List.append_assoc] at hchunk ⊢
    exact hchunk

end Heads

end H11r
