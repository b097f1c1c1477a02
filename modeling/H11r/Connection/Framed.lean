import H11r.Connection.Local
import H11r.Wire.Options

/-!
# The head of a final response

`send_response` decides how the body will be framed and which fields say so.
`Framed c response framing headers` lists its decisions; `responseFraming_framed`
says the list is complete. What a decision does to the fields is little: the
coding of a chunked response to an HTTP/1.0 peer goes, one framing field may
come, and no Connection field is touched, so valid fields stay valid.
-/

namespace H11r

namespace Connection

variable {c c' : Connection} {response : Response}

/-- The fields of a response without a coding that its peer cannot read. -/
def readableFields (c : Connection) (response : Response) : Headers :=
  if c.stripsTransferEncoding response then
    response.headers.retain fun name _ => !eqIgnoreAsciiCase name (ascii "transfer-encoding")
  else response.headers

/-- The response states its framing in a way its peer can read. -/
def declaresFraming (c : Connection) (response : Response) : Bool :=
  (Fields.scan response.headers).hasFraming && !c.stripsTransferEncoding response

/-- The framing of a final response, and the fields it is sent with before the
persistence of the connection is stated. -/
inductive Framed (c : Connection) (response : Response) : Framing → Headers → Prop
  | bodyless (hbody : c.responseHasNoBody response.status = true)
      (hchecked : c.declaresFraming response = true →
        ∃ framing, (Fields.scan response.headers).framing response.httpVersion true = .ok framing) :
      Framed c response (.fixed 0) (c.readableFields response)
  | resetLength (hbody : c.responseHasNoBody response.status = false)
      (hstatus : response.status.asU16 = 205) (hdeclared : c.declaresFraming response = false) :
      Framed c response (.fixed 0)
        ((c.readableFields response).push (ascii "Content-Length") (ascii "0"))
  | resetDeclared (hbody : c.responseHasNoBody response.status = false)
      (hstatus : response.status.asU16 = 205) (hdeclared : c.declaresFraming response = true)
      (hframing : (Fields.scan response.headers).framing response.httpVersion false = .ok (.fixed 0)) :
      Framed c response (.fixed 0) (c.readableFields response)
  | chunked (hbody : c.responseHasNoBody response.status = false)
      (hstatus : response.status.asU16 ≠ 205) (hdeclared : c.declaresFraming response = false)
      (hhttp : c.isHttp11 response.httpVersion = true) :
      Framed c response .chunked
        ((c.readableFields response).push (ascii "Transfer-Encoding") (ascii "chunked"))
  | closeDelimited (hbody : c.responseHasNoBody response.status = false)
      (hstatus : response.status.asU16 ≠ 205) (hdeclared : c.declaresFraming response = false)
      (hhttp : c.isHttp11 response.httpVersion = false) :
      Framed c response .closeDelimited (c.readableFields response)
  | declared {framing : Framing} (hbody : c.responseHasNoBody response.status = false)
      (hstatus : response.status.asU16 ≠ 205) (hdeclared : c.declaresFraming response = true)
      (hframing : (Fields.scan response.headers).framing response.httpVersion false = .ok framing) :
      Framed c response framing (c.readableFields response)

/-- A coding that is taken out has been checked as for HTTP/1.1. -/
def CodingChecked (c : Connection) (response : Response) : Prop :=
  c.stripsTransferEncoding response = true → ∃ framing,
    (Fields.scan response.headers).framing .http11 (c.responseHasNoBody response.status) = .ok framing

/-- What `responseFraming` does once the coding has been seen to. -/
def framingPlan (c : Connection) (response : Response) (readable : Headers) :
    Except LocalProtocolError (Framing × Headers) := do
  let declaredFraming := toLocal ((Fields.scan response.headers).framing response.httpVersion
    (c.responseHasNoBody response.status))
  if c.responseHasNoBody response.status then
    if c.declaresFraming response then
      let _ ← declaredFraming
      pure (.fixed 0, readable)
    else pure (.fixed 0, readable)
  else if response.status.asU16 = 205 then
    if !c.declaresFraming response then
      pure (.fixed 0, readable.push (ascii "Content-Length") (ascii "0"))
    else do
      let framing ← declaredFraming
      if framing ≠ .fixed 0 then .error (localError "a 205 response cannot carry content")
      else pure (.fixed 0, readable)
  else if !c.declaresFraming response then
    if c.isHttp11 response.httpVersion then
      pure (.chunked, readable.push (ascii "Transfer-Encoding") (ascii "chunked"))
    else pure (.closeDelimited, readable)
  else do
    let framing ← declaredFraming
    pure (framing, readable)

theorem responseFraming_plan {plan : Framing × Headers}
    (h : c.responseFraming response = .ok plan) :
    CodingChecked c response ∧ c.framingPlan response (c.readableFields response) = .ok plan := by
  unfold responseFraming at h
  unfold CodingChecked readableFields
  cases hstrips : c.stripsTransferEncoding response with
  | false =>
    simp only [hstrips, Bool.false_eq_true, if_false] at h ⊢
    refine ⟨fun hyes => hyes.elim, ?_⟩
    rw [← h]
    unfold framingPlan declaresFraming
    rw [hstrips]
    rfl
  | true =>
    simp only [hstrips, if_true] at h ⊢
    cases hcheck : (Fields.scan response.headers).framing .http11
        (c.responseHasNoBody response.status) with
    | error error =>
      rw [hcheck] at h
      cases h
    | ok framing =>
      rw [hcheck] at h
      refine ⟨fun _ => ⟨framing, rfl⟩, ?_⟩
      rw [← h]
      unfold framingPlan declaresFraming
      rw [hstrips]
      rfl

theorem framingPlan_framed {framing : Framing} {headers : Headers}
    (h : c.framingPlan response (c.readableFields response) = .ok (framing, headers)) :
    Framed c response framing headers := by
  unfold framingPlan at h
  cases hbody : c.responseHasNoBody response.status with
  | true =>
    simp only [hbody, if_true] at h
    cases hdeclared : c.declaresFraming response with
    | false =>
      simp only [hdeclared, Bool.false_eq_true, if_false] at h
      cases h
      exact .bodyless hbody fun hyes => by rw [hdeclared] at hyes; cases hyes
    | true =>
      simp only [hdeclared, if_true] at h
      cases hframing : (Fields.scan response.headers).framing response.httpVersion true with
      | error error =>
        rw [hframing] at h
        cases h
      | ok declared =>
        rw [hframing] at h
        cases h
        exact .bodyless hbody fun _ => ⟨declared, hframing⟩
  | false =>
    simp only [hbody, Bool.false_eq_true, if_false] at h
    by_cases hstatus : response.status.asU16 = 205
    · rw [if_pos hstatus] at h
      cases hdeclared : c.declaresFraming response with
      | false =>
        simp only [hdeclared, Bool.not_false, if_true] at h
        cases h
        exact .resetLength hbody hstatus hdeclared
      | true =>
        simp only [hdeclared, Bool.not_true, Bool.false_eq_true, if_false] at h
        cases hframing : (Fields.scan response.headers).framing response.httpVersion false with
        | error error =>
          rw [hframing] at h
          cases h
        | ok declared =>
          rw [hframing] at h
          change (if declared ≠ .fixed 0 then _ else _) = _ at h
          split at h
          · cases h
          next hzero =>
            rw [Decidable.not_not] at hzero
            subst hzero
            cases h
            exact .resetDeclared hbody hstatus hdeclared hframing
    · rw [if_neg hstatus] at h
      cases hdeclared : c.declaresFraming response with
      | false =>
        simp only [hdeclared, Bool.not_false, if_true] at h
        cases hhttp : c.isHttp11 response.httpVersion with
        | true =>
          rw [hhttp] at h
          cases h
          exact .chunked hbody hstatus hdeclared hhttp
        | false =>
          rw [hhttp] at h
          cases h
          exact .closeDelimited hbody hstatus hdeclared hhttp
      | true =>
        simp only [hdeclared, Bool.not_true, Bool.false_eq_true, if_false] at h
        cases hframing : (Fields.scan response.headers).framing response.httpVersion false with
        | error error =>
          rw [hframing] at h
          cases h
        | ok declared =>
          rw [hframing] at h
          cases h
          exact .declared hbody hstatus hdeclared hframing

theorem responseFraming_framed {framing : Framing} {headers : Headers}
    (h : c.responseFraming response = .ok (framing, headers)) :
    CodingChecked c response ∧ Framed c response framing headers :=
  ⟨(responseFraming_plan h).1, framingPlan_framed (responseFraming_plan h).2⟩

/-! ## What happens to the fields -/

theorem validateHeaders_iff {headers : Headers} : validateHeaders headers = .ok () ↔
    ∀ field ∈ headers.iter, validName field.1 = true ∧ validValue field.2 = true := by
  rw [← Headers.isValid_iff]
  unfold validateHeaders
  split <;> simp_all

theorem readableFields_subset {field : Bytes × Bytes}
    (h : field ∈ (c.readableFields response).iter) : field ∈ response.headers.iter := by
  unfold readableFields at h
  split at h
  · rw [Headers.iter_retain] at h
    exact (List.mem_filter.mp h).1
  · exact h

/-- Fields that are valid to send stay so. -/
theorem Framed.valid {framing : Framing} {headers : Headers} (h : Framed c response framing headers)
    (hvalid : ∀ field ∈ response.headers.iter, validName field.1 = true ∧ validValue field.2 = true) :
    ∀ field ∈ headers.iter, validName field.1 = true ∧ validValue field.2 = true := by
  have hreadable : ∀ field ∈ (c.readableFields response).iter,
      validName field.1 = true ∧ validValue field.2 = true :=
    fun field hmem => hvalid field (readableFields_subset hmem)
  have hpush : ∀ name value : Bytes, validName name = true → validValue value = true →
      ∀ field ∈ ((c.readableFields response).push name value).iter,
        validName field.1 = true ∧ validValue field.2 = true := by
    intro name value hname hvalue field hmem
    rw [Headers.iter_push, List.mem_append, List.mem_singleton] at hmem
    rcases hmem with hold | rfl
    · exact hreadable field hold
    · exact ⟨hname, hvalue⟩
  cases h with
  | bodyless | resetDeclared | closeDelimited | declared => exact hreadable
  | resetLength => exact hpush _ _ (by decide) (by decide)
  | chunked => exact hpush _ _ (by decide) (by decide)

theorem push_getAll (headers : Headers) (name value other : Bytes) :
    (headers.push name value).getAll other =
      headers.getAll other ++ if eqIgnoreAsciiCase name other then [value] else [] := by
  rw [getAll_eq, Headers.iter_push, valuesOf_append, valuesOf_cons]
  rfl

/-- The fields of a name that is not the coding's are kept. -/
theorem readableFields_getAll (c : Connection) (response : Response) (name : Bytes)
    (h : eqIgnoreAsciiCase (ascii "transfer-encoding") name = false) :
    (c.readableFields response).getAll name = response.headers.getAll name := by
  unfold readableFields
  split
  · rw [getAll_eq, Headers.iter_retain, getAll_eq]
    unfold valuesOf
    rw [List.filter_filter]
    congr 1
    refine List.filter_congr fun field _ => ?_
    cases hfield : eqIgnoreAsciiCase field.1 name with
    | false => rfl
    | true =>
      have hother : eqIgnoreAsciiCase field.1 (ascii "transfer-encoding") = false := by
        rw [← Bool.not_eq_true]
        intro hcoding
        rw [eqIgnoreAsciiCase_left hcoding, h] at hfield
        cases hfield
      rw [hother]
      rfl
  · rfl

/-- No decision touches a Connection field. -/
theorem Framed.connection {framing : Framing} {headers : Headers}
    (h : Framed c response framing headers) :
    headers.getAll (ascii "connection") = response.headers.getAll (ascii "connection") := by
  have hreadable := readableFields_getAll c response (ascii "connection") (by decide)
  cases h with
  | bodyless | resetDeclared | closeDelimited | declared => exact hreadable
  | resetLength =>
    rw [push_getAll, if_neg (by decide), List.append_nil]
    exact hreadable
  | chunked =>
    rw [push_getAll, if_neg (by decide), List.append_nil]
    exact hreadable

end Connection

end H11r
