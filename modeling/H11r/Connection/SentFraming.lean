import H11r.Connection.Framed
import H11r.Connection.Persistence
import H11r.Connection.Turn

/-!
# A response head means what its sender writes

`send_response` decides on a framing from the fields it is given, with the rules
for a request, and then removes, adds and replaces fields. A client decides
again from the fields that reach it, with the rules for a response. The two
decisions are the same (`response_head_means_its_body`).

The argument follows the two steps that make the final fields. `Framed` sees to
the framing fields: what it leaves of them is `LeftFraming`, and a client reads
the framing off it. `announcePersistence` rewrites the Connection lines and
keeps every option that another field depends on.
-/

namespace H11r

/-! ## What the check of a sender looks at -/

namespace Fields

/-- The part of `check_send` that is not about framing fields. -/
structure ListsOk (fields : Fields) : Prop where
  nonempty : fields.emptyElements = false
  upgrade : fields.upgradeField = true → fields.upgrade = true
  unchunked : fields.teChunked = false
  te : fields.teField = true → fields.connectionTe = true

theorem checkSend_iff {fields : Fields} : fields.checkSend = .ok () ↔
    fields.ListsOk ∧ (fields.codings.any (·.empty)) = false ∧ fields.lengths ≤ 1 := by
  unfold checkSend
  constructor
  · intro h
    split_ifs at h with hempty hlengths hupgrade hchunked hte
    rw [Bool.or_eq_true, not_or, Bool.not_eq_true, Bool.not_eq_true] at hempty
    refine ⟨⟨hempty.1, ?_, by simpa using hchunked, ?_⟩, hempty.2, by omega⟩
    · simpa using hupgrade
    · simpa using hte
  · rintro ⟨hlists, hcodings, hlengths⟩
    have hupgrade : (fields.upgradeField && !fields.upgrade) = false := by
      cases hfield : fields.upgradeField with
      | false => rfl
      | true => rw [hlists.upgrade hfield]; rfl
    have hte : (fields.teField && !fields.connectionTe) = false := by
      cases hfield : fields.teField with
      | false => rfl
      | true => rw [hlists.te hfield]; rfl
    rw [hlists.nonempty, hcodings, hupgrade, hlists.unchunked, hte,
      if_neg (by decide), if_neg (by omega), if_neg (by decide), if_neg (by decide),
      if_neg (by decide)]

/-- The fields that the lists of a section depend on are the same in both. -/
theorem ListsOk.congr {headers headers' : Headers} (h : (scan headers).ListsOk)
    (hempty : ∀ field ∈ headers'.iter, emptyField field.1 field.2 = true → field ∈ headers.iter)
    (hupgrade : headers'.getAll (ascii "upgrade") = headers.getAll (ascii "upgrade"))
    (hte : headers'.getAll (ascii "te") = headers.getAll (ascii "te"))
    (hoption : ∀ option ∈ [ascii "upgrade", ascii "te"],
      hasToken headers (ascii "connection") option = true →
        hasToken headers' (ascii "connection") option = true) :
    (scan headers').ListsOk where
  nonempty := by
    have hbefore := h.nonempty
    rw [scan_emptyElements, List.any_eq_false] at hbefore ⊢
    intro field hmem hyes
    exact hbefore field (hempty field hmem hyes) hyes
  upgrade := by
    intro hfield
    rw [scan_upgradeField] at hfield
    unfold hasField at hfield
    rw [hupgrade] at hfield
    rw [scan_upgrade_eq_hasToken]
    apply hoption _ (by simp)
    rw [← scan_upgrade_eq_hasToken]
    apply h.upgrade
    rw [scan_upgradeField]
    exact hfield
  unchunked := by
    rw [scan_teChunked, hte, ← scan_teChunked]
    exact h.unchunked
  te := by
    intro hfield
    rw [scan_teField] at hfield
    unfold hasField at hfield
    rw [hte] at hfield
    rw [scan_connectionTe_eq_hasToken]
    apply hoption _ (by simp)
    rw [← scan_connectionTe_eq_hasToken]
    apply h.te
    rw [scan_teField]
    exact hfield

end Fields

/-! ## The Connection lines -/

theorem setConnectionOption_listsOk {headers : Headers} {option : Bytes} (hcomma : comma ∉ option)
    (htrim : trimOws option = option) (hne : option ≠ []) (hoption : isPersistenceOption option = true)
    (h : (Fields.scan headers).ListsOk) :
    (Fields.scan (setConnectionOption headers option)).ListsOk := by
  refine h.congr ?_ ?_ ?_ ?_
  · intro field hmem hyes
    rw [setConnectionOption_iter, List.mem_append, List.mem_singleton] at hmem
    rcases hmem with hold | rfl
    · exact (List.mem_filter.mp hold).1
    · have hempty : Fields.emptyField (ascii "Connection") (connectionValue headers option) = false := by
        rw [← connectionValue_nonempty headers hcomma htrim hne]
        rfl
      rw [hempty] at hyes
      cases hyes
  · rw [setConnectionOption_getAll, if_neg (by decide)]
  · rw [setConnectionOption_getAll, if_neg (by decide)]
  · intro kept hmem htoken
    simp only [List.mem_cons, List.not_mem_nil, or_false] at hmem
    rcases hmem with rfl | rfl
    · rw [setConnectionOption_keeps headers hcomma htrim (by decide) (by decide) hoption]
      exact htoken
    · rw [setConnectionOption_keeps headers hcomma htrim (by decide) (by decide) hoption]
      exact htoken

namespace Connection

variable {c c' : Connection} {response : Response} {framing : Framing} {headers : Headers}

theorem announcePersistence_getAll (c : Connection) (version : Version) (headers : Headers)
    {name : Bytes} (h : eqIgnoreAsciiCase (ascii "connection") name = false) :
    (c.announcePersistence version headers).getAll name = headers.getAll name := by
  have hset : ∀ option, (setConnectionOption headers option).getAll name = headers.getAll name := by
    intro option
    rw [setConnectionOption_getAll, h]
    rfl
  unfold announcePersistence
  split
  · exact hset _
  · split
    · exact hset _
    · rfl

theorem announcePersistence_listsOk (c : Connection) (version : Version)
    (h : (Fields.scan headers).ListsOk) :
    (Fields.scan (c.announcePersistence version headers)).ListsOk := by
  unfold announcePersistence
  split
  · exact setConnectionOption_listsOk (by decide) (by decide) (by decide) (by decide) h
  · split
    · exact setConnectionOption_listsOk (by decide) (by decide) (by decide) (by decide) h
    · exact h

/-! ## The framing fields -/

/-- What the framing fields of a final head say, and that they may be sent. -/
structure SaysFraming (c : Connection) (response : Response) (framing : Framing)
    (fields : Fields) : Prop where
  nonempty : fields.codings.any (·.empty) = false
  lengths : fields.lengths ≤ 1
  single : ¬(fields.codings.isSome = true ∧ fields.length.isSome = true)
  coding : fields.codings.isSome = true → c.isHttp11 response.httpVersion = true
  unframed : response.status.asU16 = 204 ∨ c.opensTunnel response.status = true →
    fields.hasFraming = false
  read : c.responseHasNoBody response.status = false →
    fields.framing response.httpVersion true = .ok framing

theorem scan_lengths_eq_zero (h : (Fields.scan headers).length = none) :
    (Fields.scan headers).lengths = 0 := by
  have hfield := Fields.scan_length_isSome headers
  rw [h] at hfield
  have hvalues : headers.getAll (ascii "content-length") = [] := by
    unfold hasField at hfield
    simpa using hfield.symm
  rw [Fields.scan_lengths, hvalues]
  rfl

/-- A response with content is neither a 204 nor the start of a tunnel. -/
theorem hasBody_status (h : c.responseHasNoBody response.status = false) :
    ¬(response.status.asU16 = 204 ∨ c.opensTunnel response.status = true) := by
  unfold responseHasNoBody at h
  simp only [Bool.or_eq_false_iff, beq_eq_false_iff_ne] at h
  rintro (hstatus | htunnel)
  · exact h.1.1.1 hstatus
  · rw [htunnel] at h
    exact absurd h.2 (by decide)

/-- A framing that can be written is read the same way by the rules for a
response. -/
theorem framing_response {fields : Fields} {version : Version} (hfields : fields.hasFraming = true)
    (h : fields.framing version false = .ok framing) : fields.framing version true = .ok framing := by
  unfold Fields.framing at h ⊢
  unfold Fields.hasFraming at hfields
  rcases hcodings : fields.codings with _ | codings
  · rcases hlength : fields.length with _ | _ | length
    · rw [hcodings, hlength] at hfields
      cases hfields
    · rw [hcodings, hlength] at h
      cases h
    · rw [hcodings, hlength] at h
      exact h
  · rcases hlength : fields.length with _ | length
    · rw [hcodings, hlength] at h
      dsimp only at h ⊢
      split_ifs at h ⊢ with hversion
      -- The rules for a request end at `chunked` alone, where both agree.
      unfold Codings.framing at h ⊢
      split_ifs at h ⊢ <;> simp_all
    · rw [hcodings, hlength] at h
      cases h

/-- A framing that is decided on rests on one framing field. -/
theorem framing_single {fields : Fields} {version : Version} {asResponse : Bool}
    (h : fields.framing version asResponse = .ok framing) :
    ¬(fields.codings.isSome = true ∧ fields.length.isSome = true) := by
  rintro ⟨hcodings, hlength⟩
  obtain ⟨codings, hcodings⟩ := Option.isSome_iff_exists.mp hcodings
  obtain ⟨length, hlength⟩ := Option.isSome_iff_exists.mp hlength
  unfold Fields.framing at h
  rw [hcodings, hlength] at h
  cases h

theorem readableFields_length (c : Connection) (response : Response) :
    (Fields.scan (c.readableFields response)).length = (Fields.scan response.headers).length := by
  rw [Fields.scan_length, readableFields_getAll c response _ (by decide), ← Fields.scan_length]

theorem readableFields_stripped (h : c.stripsTransferEncoding response = true) :
    (Fields.scan (c.readableFields response)).codings = none := by
  have hnone : (c.readableFields response).getAll (ascii "transfer-encoding") = [] := by
    unfold readableFields
    rw [if_pos h, getAll_eq, Headers.iter_retain]
    unfold valuesOf
    rw [List.filter_filter, List.map_eq_nil_iff, List.filter_eq_nil_iff]
    intro field _ hboth
    rw [Bool.and_eq_true] at hboth
    rw [hboth.1] at hboth
    cases hboth.2
  rw [Fields.scan_codings, hnone]
  rfl

/-- A response that does not state its framing is left without framing fields. -/
theorem readableFields_undeclared (hchecked : CodingChecked c response)
    (h : c.declaresFraming response = false) :
    (Fields.scan (c.readableFields response)).codings = none ∧
      (Fields.scan (c.readableFields response)).length = none := by
  unfold declaresFraming at h
  cases hstrips : c.stripsTransferEncoding response with
  | true =>
    refine ⟨readableFields_stripped hstrips, ?_⟩
    -- A length beside the coding would have failed the check of the coding.
    obtain ⟨framing, hframing⟩ := hchecked hstrips
    rw [readableFields_length]
    have hsingle := framing_single hframing
    unfold stripsTransferEncoding Fields.hasTransferEncoding at hstrips
    rw [Bool.and_eq_true] at hstrips
    cases hlength : (Fields.scan response.headers).length with
    | none => rfl
    | some length =>
      rw [hlength] at hsingle
      exact absurd ⟨hstrips.2, rfl⟩ hsingle
  | false =>
    rw [hstrips, Bool.not_false, Bool.and_true] at h
    unfold Fields.hasFraming at h
    rw [Bool.or_eq_false_iff, Option.isSome_eq_false_iff, Option.isSome_eq_false_iff,
      Option.isNone_iff_eq_none, Option.isNone_iff_eq_none] at h
    unfold readableFields
    rw [hstrips, if_neg (by decide)]
    exact h

theorem readableFields_declared (h : c.declaresFraming response = true) :
    c.readableFields response = response.headers ∧ c.stripsTransferEncoding response = false ∧
      (Fields.scan response.headers).hasFraming = true := by
  unfold declaresFraming at h
  rw [Bool.and_eq_true, Bool.not_eq_true'] at h
  unfold readableFields
  rw [h.2, if_neg (by decide)]
  exact ⟨rfl, rfl, h.1⟩

/-- A coding that is not taken out has an HTTP/1.1 peer. -/
theorem isHttp11_of_kept (h : c.stripsTransferEncoding response = false)
    (hcodings : (Fields.scan response.headers).codings.isSome = true) :
    c.isHttp11 response.httpVersion = true := by
  unfold stripsTransferEncoding Fields.hasTransferEncoding at h
  rw [hcodings, Bool.and_true, Bool.not_eq_false'] at h
  exact h

/-- A head without framing fields. -/
theorem saysFraming_of_none {fields : Fields} (hcodings : fields.codings = none)
    (hlength : fields.length = none) (hlengths : fields.lengths = 0)
    (hread : c.responseHasNoBody response.status = false → framing = .closeDelimited) :
    SaysFraming c response framing fields where
  nonempty := by
    rw [hcodings]
    rfl
  lengths := by omega
  single := by
    rw [hcodings]
    rintro ⟨h, _⟩
    cases h
  coding := by
    rw [hcodings]
    intro h
    cases h
  unframed := by
    intro _
    unfold Fields.hasFraming
    rw [hcodings, hlength]
    rfl
  read := by
    intro hbody
    unfold Fields.framing
    rw [hcodings, hlength, hread hbody]
    rfl

/-- A head whose sender has stated the framing itself. -/
theorem saysFraming_of_declared (hsend : (Fields.scan response.headers).checkSend = .ok ())
    (hunframed : ¬((response.status.asU16 = 204 ∨ c.opensTunnel response.status = true) ∧
      (Fields.scan response.headers).hasFraming = true))
    (hdeclared : c.declaresFraming response = true) {declared : Framing} {asResponse : Bool}
    (hframing : (Fields.scan response.headers).framing response.httpVersion asResponse = .ok declared)
    (hread : c.responseHasNoBody response.status = false →
      (Fields.scan response.headers).framing response.httpVersion true = .ok framing) :
    SaysFraming c response framing (Fields.scan (c.readableFields response)) := by
  obtain ⟨hsame, hkept, hfields⟩ := readableFields_declared hdeclared
  obtain ⟨_, hnonempty, hlengths⟩ := Fields.checkSend_iff.mp hsend
  rw [hsame]
  refine ⟨hnonempty, hlengths, framing_single hframing, isHttp11_of_kept hkept, ?_, hread⟩
  intro hstatus
  exact absurd ⟨hstatus, hfields⟩ hunframed

/-- Fields without a name, after one field of that name. -/
theorem push_getAll_of_none {name value other : Bytes} (hnone : hasField headers other = false)
    (hname : eqIgnoreAsciiCase name other = true) :
    (headers.push name value).getAll other = [value] := by
  have hvalues : headers.getAll other = [] := by
    unfold hasField at hnone
    simpa using hnone
  rw [push_getAll, hvalues, if_pos hname]
  rfl

/-- The length that a 205 is given. -/
theorem saysFraming_of_reset (hbody : c.responseHasNoBody response.status = false)
    (hcodings : (Fields.scan headers).codings = none)
    (hlength : (Fields.scan headers).length = none) :
    SaysFraming c response (.fixed 0)
      (Fields.scan (headers.push (ascii "Content-Length") (ascii "0"))) := by
  have hvalues : (headers.push (ascii "Content-Length") (ascii "0")).getAll (ascii "content-length") =
      [ascii "0"] := by
    refine push_getAll_of_none ?_ (by decide)
    rw [← Fields.scan_length_isSome, hlength]
    rfl
  have hcodings' : (Fields.scan (headers.push (ascii "Content-Length") (ascii "0"))).codings = none := by
    rw [← hcodings, Fields.scan_codings, push_getAll, if_neg (by decide), List.append_nil,
      ← Fields.scan_codings]
  have hlength' : (Fields.scan (headers.push (ascii "Content-Length") (ascii "0"))).length =
      some (.ok 0) := by
    rw [Fields.scan_length, hvalues]
    rfl
  have hlengths : (Fields.scan (headers.push (ascii "Content-Length") (ascii "0"))).lengths = 1 := by
    rw [Fields.scan_lengths, hvalues]
    decide
  refine ⟨by rw [hcodings']; rfl, by omega, ?_, ?_, ?_, ?_⟩
  · rw [hcodings']
    rintro ⟨h, _⟩
    cases h
  · rw [hcodings']
    intro h
    cases h
  · intro hstatus
    exact absurd hstatus (hasBody_status hbody)
  · intro _
    unfold Fields.framing
    rw [hcodings', hlength']

/-- What `Transfer-Encoding: chunked` says. -/
theorem read_chunked : Codings.new.read (ascii "chunked") =
    ⟨true, false, false, true, false, false⟩ := by
  decide +kernel

/-- The coding that a response to an HTTP/1.1 peer is given. -/
theorem saysFraming_of_chunked (hbody : c.responseHasNoBody response.status = false)
    (hhttp : c.isHttp11 response.httpVersion = true)
    (hcodings : (Fields.scan headers).codings = none)
    (hlength : (Fields.scan headers).length = none) :
    SaysFraming c response .chunked
      (Fields.scan (headers.push (ascii "Transfer-Encoding") (ascii "chunked"))) := by
  have hvalues : (headers.push (ascii "Transfer-Encoding") (ascii "chunked")).getAll
      (ascii "transfer-encoding") = [ascii "chunked"] := by
    refine push_getAll_of_none ?_ (by decide)
    rw [← Fields.scan_codings_isSome, hcodings]
    rfl
  have hcodings' : (Fields.scan (headers.push (ascii "Transfer-Encoding") (ascii "chunked"))).codings =
      some ⟨true, false, false, true, false, false⟩ := by
    rw [Fields.scan_codings, hvalues, ← read_chunked]
    rfl
  have hlength' : (Fields.scan (headers.push (ascii "Transfer-Encoding") (ascii "chunked"))).length =
      none := by
    rw [← hlength, Fields.scan_length, push_getAll, if_neg (by decide), List.append_nil,
      ← Fields.scan_length]
  have hlengths := scan_lengths_eq_zero hlength'
  refine ⟨by rw [hcodings']; rfl, by omega, ?_, fun _ => hhttp, ?_, ?_⟩
  · rw [hlength']
    rintro ⟨_, h⟩
    cases h
  · intro hstatus
    exact absurd hstatus (hasBody_status hbody)
  · intro _
    unfold isHttp11 at hhttp
    rw [Bool.and_eq_true, beq_iff_eq, beq_iff_eq] at hhttp
    unfold Fields.framing
    rw [hcodings', hlength', hhttp.2]
    rfl

/-- The decisions of `send_response` and the framing fields they leave. -/
theorem Framed.saysFraming (h : Framed c response framing headers)
    (hcoding : CodingChecked c response)
    (hchecked : ResponseChecked response (c.opensTunnel response.status)) :
    SaysFraming c response framing (Fields.scan headers) := by
  have hbare : c.declaresFraming response = false →
      (c.responseHasNoBody response.status = false → framing = .closeDelimited) →
        SaysFraming c response framing (Fields.scan (c.readableFields response)) := by
    intro hdeclared hread
    obtain ⟨hcodings, hlength⟩ := readableFields_undeclared hcoding hdeclared
    exact saysFraming_of_none hcodings hlength (scan_lengths_eq_zero hlength) hread
  cases h with
  | bodyless hbody hframing =>
    have hvacuous : ∀ {p : Prop}, c.responseHasNoBody response.status = false → p := by
      intro p hno
      rw [hbody] at hno
      cases hno
    cases hdeclared : c.declaresFraming response with
    | false => exact hbare hdeclared hvacuous
    | true =>
      obtain ⟨declared, hok⟩ := hframing hdeclared
      exact saysFraming_of_declared hchecked.send hchecked.unframed hdeclared hok hvacuous
  | resetLength hbody hstatus hdeclared =>
    obtain ⟨hcodings, hlength⟩ := readableFields_undeclared hcoding hdeclared
    exact saysFraming_of_reset hbody hcodings hlength
  | resetDeclared hbody hstatus hdeclared hframing =>
    exact saysFraming_of_declared hchecked.send hchecked.unframed hdeclared hframing fun _ =>
      framing_response (readableFields_declared hdeclared).2.2 hframing
  | chunked hbody hstatus hdeclared hhttp =>
    obtain ⟨hcodings, hlength⟩ := readableFields_undeclared hcoding hdeclared
    exact saysFraming_of_chunked hbody hhttp hcodings hlength
  | closeDelimited hbody hstatus hdeclared hhttp => exact hbare hdeclared fun _ => rfl
  | declared hbody hstatus hdeclared hframing =>
    exact saysFraming_of_declared hchecked.send hchecked.unframed hdeclared hframing fun _ =>
      framing_response (readableFields_declared hdeclared).2.2 hframing

/-- A response without content is planned as one of length zero. -/
theorem Framed.eq_zero (h : Framed c response framing headers)
    (hnone : c.responseHasNoBody response.status = true) : framing = .fixed 0 := by
  cases h with
  | bodyless | resetLength | resetDeclared => rfl
  | chunked hbody | closeDelimited hbody | declared hbody =>
    rw [hbody] at hnone
    cases hnone

/-! ## The lists -/

/-- No decision about the framing touches a list that `check_send` looks at. -/
theorem Framed.listsOk (h : Framed c response framing headers)
    (hlists : (Fields.scan response.headers).ListsOk) : (Fields.scan headers).ListsOk := by
  have hreadable : (Fields.scan (c.readableFields response)).ListsOk := by
    refine hlists.congr (fun field hmem _ => readableFields_subset hmem)
      (readableFields_getAll c response _ (by decide))
      (readableFields_getAll c response _ (by decide)) ?_
    intro option _ htoken
    unfold hasToken
    rw [readableFields_getAll c response _ (by decide)]
    exact htoken
  have hpush : ∀ name value, Fields.emptyField name value = false →
      (∀ other ∈ [ascii "upgrade", ascii "te", ascii "connection"],
        eqIgnoreAsciiCase name other = false) →
      (Fields.scan ((c.readableFields response).push name value)).ListsOk := by
    intro name value hempty hname
    have hkept : ∀ other ∈ [ascii "upgrade", ascii "te", ascii "connection"],
        ((c.readableFields response).push name value).getAll other =
          (c.readableFields response).getAll other := by
      intro other hmem
      rw [push_getAll, hname other hmem]
      exact List.append_nil _
    refine hreadable.congr ?_ (hkept _ (by simp)) (hkept _ (by simp)) ?_
    · intro field hmem hyes
      rw [Headers.iter_push, List.mem_append, List.mem_singleton] at hmem
      rcases hmem with hold | rfl
      · exact hold
      · rw [hempty] at hyes
        cases hyes
    · intro option _ htoken
      unfold hasToken
      rw [hkept _ (by simp)]
      exact htoken
  cases h with
  | bodyless | resetDeclared | closeDelimited | declared => exact hreadable
  | resetLength => exact hpush _ _ rfl (by decide)
  | chunked => exact hpush _ _ rfl (by decide)

/-! ## The head -/

/-- The fields that a response head is sent with. -/
def sentFields (c c' : Connection) (response : Response) (headers : Headers) : Headers :=
  if c.opensTunnel response.status then headers
  else c'.announcePersistence response.httpVersion headers

theorem sentFields_getAll (c c' : Connection) (response : Response) (headers : Headers)
    {name : Bytes} (h : eqIgnoreAsciiCase (ascii "connection") name = false) :
    (sentFields c c' response headers).getAll name = headers.getAll name := by
  unfold sentFields
  split
  · rfl
  · exact announcePersistence_getAll c' response.httpVersion headers h

theorem sentFields_listsOk (c c' : Connection) (response : Response)
    (h : (Fields.scan headers).ListsOk) :
    (Fields.scan (sentFields c c' response headers)).ListsOk := by
  unfold sentFields
  split
  · exact h
  · exact announcePersistence_listsOk c' response.httpVersion h

/-- What is said about persistence says nothing about framing. -/
theorem sentFields_saysFraming (c' : Connection)
    (h : SaysFraming c response framing (Fields.scan headers)) :
    SaysFraming c response framing (Fields.scan (sentFields c c' response headers)) := by
  have hcodings : (Fields.scan (sentFields c c' response headers)).codings =
      (Fields.scan headers).codings := by
    rw [Fields.scan_codings, sentFields_getAll c c' response headers (by decide),
      ← Fields.scan_codings]
  have hlength : (Fields.scan (sentFields c c' response headers)).length =
      (Fields.scan headers).length := by
    rw [Fields.scan_length, sentFields_getAll c c' response headers (by decide),
      ← Fields.scan_length]
  have hlengths : (Fields.scan (sentFields c c' response headers)).lengths =
      (Fields.scan headers).lengths := by
    rw [Fields.scan_lengths, sentFields_getAll c c' response headers (by decide),
      ← Fields.scan_lengths]
  obtain ⟨hnonempty, hsingleLength, hsingle, hcoding, hunframed, hread⟩ := h
  refine ⟨?_, ?_, ?_, ?_, ?_, ?_⟩
  · rw [hcodings]
    exact hnonempty
  · rw [hlengths]
    exact hsingleLength
  · rw [hcodings, hlength]
    exact hsingle
  · rw [hcodings]
    exact hcoding
  · unfold Fields.hasFraming at hunframed ⊢
    rw [hcodings, hlength]
    exact hunframed
  · unfold Fields.framing at hread ⊢
    rw [hcodings, hlength]
    exact hread

/-- A client that asked the same kind of request reads from the head the framing
that it says. -/
theorem SaysFraming.received {fields : Headers} (h : SaysFraming c response framing (Fields.scan fields))
    (hzero : c.responseHasNoBody response.status = true → framing = .fixed 0) {client : Connection}
    (hkind : client.cycle.requestKind = c.cycle.requestKind) :
    client.receivedFraming { response with headers := fields } = .ok framing := by
  have hbody : client.responseHasNoBody response.status = c.responseHasNoBody response.status := by
    unfold responseHasNoBody opensTunnel requestIs
    rw [hkind]
  unfold receivedFraming
  rw [show ({ response with headers := fields } : Response).status = response.status from rfl, hbody]
  split
  next hnone => rw [hzero hnone]
  next hsome =>
    rw [Bool.not_eq_true] at hsome
    exact h.read hsome

/-- On every connection, a response head that is sent passes the sender's own
check, has one framing field at most, a coding only between two HTTP/1.1 ends,
none at all where there is no content by status or a tunnel opens, and says to
a client that asked the same kind of request what the server goes on to write. -/
theorem response_head_means_its_body {bytes : Bytes}
    (h : sendResponse response c = (.ok bytes, c')) :
    ∃ framing headers fields, c.responseFraming response = .ok (framing, headers) ∧
      fields = sentFields c c' response headers ∧
      bytes = serializeResponse response.httpVersion response.status response.reason fields ∧
      (Fields.scan fields).checkSend = .ok () ∧
      ¬(hasField fields (ascii "transfer-encoding") = true ∧
        hasField fields (ascii "content-length") = true) ∧
      (hasField fields (ascii "transfer-encoding") = true →
        c.peerVersion = some .http11 ∧ response.httpVersion = .http11) ∧
      (response.status.asU16 = 204 ∨ c.opensTunnel response.status = true →
        hasFramingFields fields = false) ∧
      (c.opensTunnel response.status = false → c'.cycle.writer = some framing ∧
        ∀ client : Connection, client.cycle.requestKind = c.cycle.requestKind →
          client.receivedFraming { response with headers := fields } = .ok framing) := by
  obtain ⟨framing, headers, state, _, _, hchecked, hplan, _, hbytes, hc'⟩ := sendResponse_ok h
  obtain ⟨hcoding, hframed⟩ := responseFraming_framed hplan
  have hsays := sentFields_saysFraming c' (hframed.saysFraming hcoding hchecked)
  have hlists := sentFields_listsOk c c' response
    (hframed.listsOk (Fields.checkSend_iff.mp hchecked.send).1)
  refine ⟨framing, headers, _, hplan, rfl, hbytes, ?_, ?_, ?_, ?_, ?_⟩
  · exact Fields.checkSend_iff.mpr ⟨hlists, hsays.nonempty, hsays.lengths⟩
  · rw [← Fields.scan_codings_isSome, ← Fields.scan_length_isSome]
    exact hsays.single
  · intro hfield
    rw [← Fields.scan_codings_isSome] at hfield
    have hhttp := hsays.coding hfield
    unfold isHttp11 at hhttp
    rw [Bool.and_eq_true, beq_iff_eq, beq_iff_eq] at hhttp
    exact hhttp
  · intro hstatus
    unfold hasFramingFields
    rw [← Fields.scan_codings_isSome, ← Fields.scan_length_isSome]
    exact hsays.unframed hstatus
  · intro htunnel
    refine ⟨?_, ?_⟩
    · rw [hc']
      unfold sentResponse
      rw [htunnel]
      rfl
    · exact fun client hkind => hsays.received hframed.eq_zero hkind

/-- A response with no fields to an HTTP/1.1 request is chunked, and says so. -/
theorem plain_response_is_chunked :
    ∃ history c bytes c' fields, Run Reference.httparse anyCall .server .default history c ∧
      sendResponse plainOk c = (.ok bytes, c') ∧
      bytes = serializeResponse plainOk.httpVersion plainOk.status plainOk.reason fields ∧
      ∀ client : Connection, client.cycle.requestKind = c.cycle.requestKind →
        client.receivedFraming { plainOk with headers := fields } = .ok .chunked := by
  have hrun : Run Reference.httparse anyCall .server .default _ _ :=
    Lib.Run.trace_of_forall _ [.receiveData (plainGetHead .http11), .nextEvent] fun _ _ => trivial
  obtain ⟨bytes, c', hsent⟩ := Lib.Call.exists_ok (sendResponse plainOk) (Lib.trace
    (step Reference.httparse) (new .server .default)
    [.receiveData (plainGetHead .http11), .nextEvent]).2 (by decide +kernel)
  have hwriter : (sendResponse plainOk (Lib.trace (step Reference.httparse) (new .server .default)
      [.receiveData (plainGetHead .http11), .nextEvent]).2).2.cycle.writer = some .chunked := by
    decide +kernel
  obtain ⟨framing, headers, fields, _, _, hbytes, _, _, _, _, hread⟩ :=
    response_head_means_its_body hsent
  obtain ⟨hinstalled, hclient⟩ := hread (by decide +kernel)
  rw [hsent] at hwriter
  rw [hwriter] at hinstalled
  cases hinstalled
  exact ⟨_, _, bytes, c', fields, hrun, hsent, hbytes, hclient⟩

end Connection

end H11r
