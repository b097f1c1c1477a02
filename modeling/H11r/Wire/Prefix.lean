import H11r.Wire.ChunkedBody

/-!
# More input does not change an answer

A head or a trailer section is parsed from the part of it that has come, and
what the parser has said about that part it says again about every longer
input (`Httparse.Stable`). So do the functions that make a request, a response
or trailers of what it says: the positions it returns lie in the part that has
come, and what is copied from them is the same in the longer input.

For trailers of a response this is not quite so. They are unfolded first, and a
part that ends where a fold begins is unfolded in another way once the rest of
the fold is there. What is wrong stays wrong (`parseTrailers_wrong`).
-/

namespace H11r

variable {hp : Httparse} {data : Bytes} {stop slots : Nat}

/-! ## Copied fields -/

/-- Two field sections with the same data are the same. -/
theorem Headers.eq_of_data {headers other : Headers} (hbytes : headers.bytes = other.bytes)
    (hfields : headers.fields = other.fields) (hvalid : headers.valid = other.valid) :
    headers = other := by
  obtain ⟨bytes, fields, valid, _, _⟩ := headers
  obtain ⟨bytes', fields', valid', _, _⟩ := other
  cases hbytes
  cases hfields
  cases hvalid
  rfl

theorem fieldSlices_append (parsed : ParsedFields stop) (hstop : stop ≤ data.length) (more : Bytes) :
    fieldSlices (data ++ more) parsed = fieldSlices data parsed := by
  unfold fieldSlices
  refine List.map_congr_left fun field hmem => ?_
  have hrange := parsed.inRange field hmem
  have hname : field.1.InRange data.length := ⟨hrange.1, by omega⟩
  have hvalue : field.2.InRange data.length := ⟨hrange.2.2.1, by omega⟩
  rw [Span.slice_append more hname, Span.slice_append more hvalue]

theorem copySection_append (parsed : ParsedFields stop) (hstop : stop ≤ data.length) (more : Bytes)
    (hlong : stop ≤ (data ++ more).length) :
    copySection (data ++ more) parsed hlong = copySection data parsed hstop := by
  refine Headers.eq_of_data ?_ rfl rfl
  refine Span.slice_append_left more ?_
  cases hspans : parsed.spans with
  | nil => exact Nat.zero_le _
  | cons first rest =>
    have hfirst := parsed.inRange first (by rw [hspans]; exact List.mem_cons_self ..)
    refine Nat.le_trans (sectionEnd_le ?_ fun other hother => ?_) hstop
    · show first.1.start ≤ stop
      omega
    · rw [← hspans] at hother
      exact (parsed.inRange other hother).2.2.2

/-- The fields copied from a longer input are the same. -/
theorem copyHeaders_append (parsed : ParsedFields stop) (hstop : stop ≤ data.length) (more : Bytes)
    (hlong : stop ≤ (data ++ more).length) (unfold_ : Bool) :
    copyHeaders (data ++ more) parsed hlong unfold_ = copyHeaders data parsed hstop unfold_ := by
  unfold copyHeaders
  rw [fieldSlices_append parsed hstop, copySection_append parsed hstop]

/-! ## Answers of the parser -/

section ParsedAs

variable {α β : Type} {parts : α → β} {result : Except HttparseError (ParseStatus α)}

theorem parsedAs_eq_some {value : β} : parsedAs parts result = .ok (some value) ↔
    ∃ raw, result = .ok (.complete raw) ∧ parts raw = value := by
  rcases result with error | raw | _ <;> simp [parsedAs]

theorem parsedAs_eq_none : parsedAs parts result = .ok none ↔ result = .ok .incomplete := by
  rcases result with error | raw | _ <;> simp [parsedAs]

theorem parsedAs_eq_error {error : HttparseError} : parsedAs parts result = .error error ↔
    result = .error error := by
  rcases result with error' | raw | _ <;> simp [parsedAs]

end ParsedAs

namespace Httparse.Stable

theorem parseRequest_complete (hhp : hp.Stable) {raw : RawRequest data.length} (more : Bytes)
    (h : hp.parseRequest data slots = .ok (.complete raw)) : ∃ hle,
      hp.parseRequest (data ++ more) slots =
        .ok (.complete ⟨raw.stop, hle, raw.method, raw.path, raw.minor, raw.fields⟩) := by
  have hread : hp.request data slots = .ok (some raw.parts) := parsedAs_eq_some.mpr ⟨raw, h, rfl⟩
  obtain ⟨long, hlong, hparts⟩ := parsedAs_eq_some.mp ((hhp.request slots).complete more hread)
  obtain ⟨stop, hle, method, path, minor, ⟨spans, hrange, hordered⟩⟩ := raw
  obtain ⟨stop', hle', method', path', minor', ⟨spans', hrange', hordered'⟩⟩ := long
  cases hparts
  exact ⟨hle', hlong⟩

theorem parseRequest_error (hhp : hp.Stable) {error : HttparseError} (more : Bytes)
    (h : hp.parseRequest data slots = .error error) :
    hp.parseRequest (data ++ more) slots = .error error := by
  have hread : hp.request data slots = .error error := parsedAs_eq_error.mpr h
  exact parsedAs_eq_error.mp ((hhp.request slots).error more hread)

theorem parseResponse_complete (hhp : hp.Stable) {lenient : Bool} {raw : RawResponse data.length}
    (more : Bytes) (h : hp.parseResponse lenient data slots = .ok (.complete raw)) : ∃ hle,
      hp.parseResponse lenient (data ++ more) slots =
        .ok (.complete ⟨raw.stop, hle, raw.code, raw.minor, raw.fields⟩) := by
  have hread : hp.response lenient data slots = .ok (some raw.parts) :=
    parsedAs_eq_some.mpr ⟨raw, h, rfl⟩
  obtain ⟨long, hlong, hparts⟩ := parsedAs_eq_some.mp ((hhp.response lenient slots).complete more hread)
  obtain ⟨stop, hle, code, minor, ⟨spans, hrange, hordered⟩⟩ := raw
  obtain ⟨stop', hle', code', minor', ⟨spans', hrange', hordered'⟩⟩ := long
  cases hparts
  exact ⟨hle', hlong⟩

theorem parseResponse_error (hhp : hp.Stable) {lenient : Bool} {error : HttparseError} (more : Bytes)
    (h : hp.parseResponse lenient data slots = .error error) :
    hp.parseResponse lenient (data ++ more) slots = .error error := by
  have hread : hp.response lenient data slots = .error error := parsedAs_eq_error.mpr h
  exact parsedAs_eq_error.mp ((hhp.response lenient slots).error more hread)

end Httparse.Stable

/-! ## Heads -/

theorem parseRequestHead_complete (hhp : hp.Stable) {request : Request} (more : Bytes)
    (h : parseRequestHead hp data slots = .ok (some (stop, request))) :
    parseRequestHead hp (data ++ more) slots = .ok (some (stop, request)) := by
  unfold parseRequestHead at h
  split at h
  · cases h
  · cases h
  next raw hraw =>
    cases h
    obtain ⟨hle, hlong⟩ := hhp.parseRequest_complete more hraw
    unfold parseRequestHead
    rw [hlong]
    dsimp only
    rw [copyHeaders_append raw.fields raw.stop_le]

theorem parseRequestHead_error (hhp : hp.Stable) {error : RemoteProtocolError} (more : Bytes)
    (h : parseRequestHead hp data slots = .error error) :
    parseRequestHead hp (data ++ more) slots = .error error := by
  unfold parseRequestHead at h
  split at h
  next fault hraw =>
    cases h
    unfold parseRequestHead
    rw [hhp.parseRequest_error more hraw]
  · cases h
  · cases h

theorem gapAfter_append {stop : Nat} (hstop : stop ≤ data.length) (more : Bytes)
    {spans : List (Span × Span)} (start : Nat) (h : ∀ field ∈ spans, field.1.start ≤ data.length) :
    gapAfter (data ++ more) stop start spans = gapAfter data stop start spans := by
  induction spans generalizing start with
  | nil =>
    unfold gapAfter
    rw [Span.slice_append_left more hstop]
  | cons field spans ih =>
    unfold gapAfter
    rw [Span.slice_append_left more (h field (List.mem_cons_self ..)),
      ih _ fun other hother => h other (List.mem_cons_of_mem _ hother)]

theorem parseResponseHead_complete (hhp : hp.Stable) {lenient dropped : Bool} {response : Response}
    (more : Bytes) (h : parseResponseHead hp data slots lenient = .ok (some (stop, response, dropped))) :
    parseResponseHead hp (data ++ more) slots lenient = .ok (some (stop, response, dropped)) := by
  unfold parseResponseHead at h
  split at h
  · cases h
  · cases h
  next raw hraw =>
    split at h
    · cases h
    next status hstatus =>
      cases h
      obtain ⟨hle, hlong⟩ := hhp.parseResponse_complete more hraw
      have hspans : ∀ field ∈ raw.fields.spans, field.1.start ≤ data.length := by
        intro field hmem
        have hrange := raw.fields.inRange field hmem
        have hstop := raw.stop_le
        omega
      unfold parseResponseHead
      rw [hlong]
      dsimp only
      rw [hstatus, copyHeaders_append raw.fields raw.stop_le, List.take_append_of_le_length raw.stop_le]
      unfold droppedLines
      rw [gapAfter_append raw.stop_le more _ hspans]

theorem parseResponseHead_error (hhp : hp.Stable) {lenient : Bool} {error : RemoteProtocolError}
    (more : Bytes) (h : parseResponseHead hp data slots lenient = .error error) :
    parseResponseHead hp (data ++ more) slots lenient = .error error := by
  unfold parseResponseHead at h
  split at h
  next fault hraw =>
    cases h
    unfold parseResponseHead
    rw [hhp.parseResponse_error more hraw]
  · cases h
  next raw hraw =>
    split at h
    next hstatus =>
      cases h
      obtain ⟨hle, hlong⟩ := hhp.parseResponse_complete more hraw
      unfold parseResponseHead
      rw [hlong]
      dsimp only
      rw [hstatus]
    · cases h

/-! Empty lines before a start line are no head, and nothing is wrong with them. -/

theorem parseRequestHead_emptyLines (hhp : hp.Stable) (h : onlyEmptyLines data = true) :
    parseRequestHead hp data slots = .ok none := by
  unfold parseRequestHead
  rw [parsedAs_eq_none.mp (hhp.request_empty slots h)]

theorem parseResponseHead_emptyLines (hhp : hp.Stable) {lenient : Bool} (h : onlyEmptyLines data = true) :
    parseResponseHead hp data slots lenient = .ok none := by
  unfold parseResponseHead
  rw [parsedAs_eq_none.mp (hhp.response_empty lenient slots h)]

/-! ## Trailers -/

section Trailers

variable {limits : Limits} {client : Bool} {trailers : Headers}

theorem parseTrailers_complete (hhp : hp.Stable) (more : Bytes)
    (h : parseTrailers hp data limits.maxHeaderCount client = .ok (some (stop, trailers))) :
    parseTrailers hp (data ++ more) limits.maxHeaderCount client = .ok (some (stop, trailers)) := by
  obtain ⟨hends, hparses⟩ := (parseTrailers_iff hhp).mp h
  refine (parseTrailers_iff hhp).mpr ⟨hends.lengthen more, ?_⟩
  rw [List.take_append_of_le_length hends.stop_le]
  exact hparses

/-- Trailers that are wrong as far as they have come are not accepted later. -/
theorem parseTrailers_wrong (hhp : hp.Stable) {error : RemoteProtocolError} {more : Bytes}
    (hlimit : (data ++ more).length ≤ limits.maxHeadBytes)
    (h : parseTrailers hp data limits.maxHeaderCount client = .error error)
    (found : Nat × Headers) : parseTrailers hp (data ++ more) limits.maxHeaderCount client ≠ .ok (some found) := by
  intro hfound
  obtain ⟨stop, trailers⟩ := found
  obtain ⟨hends, hparses⟩ := (parseTrailers_iff hhp).mp hfound
  by_cases hle : stop ≤ data.length
  · rw [List.take_append_of_le_length hle] at hparses
    have hhere := (parseTrailers_iff hhp).mpr ⟨hends.shorten hle, hparses⟩
    rw [h] at hhere
    cases hhere
  · -- The section goes on after what has come.
    have hwhole : data ++ more = data ++ more.take (stop - data.length) ++ more.drop (stop - data.length) := by
      rw [List.append_assoc, List.take_append_drop]
    have htake : (data ++ more).take stop = data ++ more.take (stop - data.length) := by
      rw [List.take_append, List.take_of_length_le (by omega)]
    have hstop := hends.stop_le
    have hlength : (data ++ more.take (stop - data.length)).length = stop := by
      rw [← htake, List.length_take, Nat.min_eq_left hstop]
    have hsection : TrailerSection hp limits client (data ++ more.take (stop - data.length)) trailers := by
      refine ⟨?_, by omega, htake ▸ hparses⟩
      rw [hlength]
      rw [hwhole] at hends
      exact hends.shorten (by omega)
    have hmore : more.take (stop - data.length) ≠ [] := by
      intro hnil
      rw [hnil, List.append_nil] at hlength
      omega
    rw [hsection.waits hhp hmore] at h
    cases h

theorem parseTrailers_status {error : RemoteProtocolError}
    (h : parseTrailers hp data slots client = .error error) : error.suggestedStatusCode = some 400 := by
  unfold parseTrailers at h
  dsimp only at h
  split at h
  · cases h
    rfl
  · cases h
  · cases h

end Trailers

end H11r
