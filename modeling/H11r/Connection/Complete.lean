import H11r.Connection.Layers

/-!
# One-shot sending is streaming

`send_request_with_body` and `send_response_with_body` frame a whole message as
one write. They decide on `Content-Length` by themselves, pass over `send_data`
for an empty body, and stop after the head of a response that opens a tunnel.
`streamed` is what a caller does without them: the head, the body in one piece,
and the end of the message. The two write the same bytes and leave the same
connection, and they succeed together.

What has to be shown is what the short cut for an empty body leaves out. A piece
of no bytes writes nothing, keeps the framing and does not move the state
machine; it clears `waiting_for_continue`, and so does the end of the message.
-/

namespace H11r

/-- A field that states the framing of a message. -/
def IsFramingField (field : Bytes × Bytes) : Prop :=
  eqIgnoreAsciiCase field.1 (ascii "content-length") = true ∨
    eqIgnoreAsciiCase field.1 (ascii "transfer-encoding") = true

/-- No field states the framing of the message. -/
def Unframed (headers : Headers) : Prop := ∀ field ∈ headers.iter, ¬IsFramingField field

instance decidableIsFramingField (field : Bytes × Bytes) : Decidable (IsFramingField field) :=
  inferInstanceAs (Decidable (_ ∨ _))

instance decidableUnframed (headers : Headers) : Decidable (Unframed headers) :=
  inferInstanceAs (Decidable (∀ field ∈ headers.iter, ¬IsFramingField field))

/-- The fields with the length of a body stated last. -/
def Headers.withLength (headers : Headers) (body : Bytes) : Headers :=
  headers.push (ascii "Content-Length") (Connection.decimal body.length)

/-- The request that a caller with the whole body at hand would send. -/
def Request.withLength (request : Request) (body : Bytes) : Request :=
  if Unframed request.headers ∧
      (body ≠ [] ∨ request.method ∈ [Method.post, Method.put, Method.patch]) then
    { request with headers := request.headers.withLength body }
  else request

/-- The response that a caller with the whole body at hand would send; it says
its length unless it cannot have content. -/
def Response.withLength (response : Response) (c : Connection) (body : Bytes) : Response :=
  if Unframed response.headers ∧ c.responseHasNoBody response.status = false then
    { response with headers := response.headers.withLength body }
  else response

theorem hasFramingFields_eq_false_iff {headers : Headers} :
    hasFramingFields headers = false ↔ Unframed headers := by
  unfold hasFramingFields hasField Unframed IsFramingField Headers.getAll
  simp only [Bool.or_eq_false_iff, Bool.not_eq_false', List.isEmpty_iff, List.map_eq_nil_iff,
    List.filter_eq_nil_iff, not_or]
  constructor
  · intro h field hfield
    exact ⟨h.2 field hfield, h.1 field hfield⟩
  · intro h
    exact ⟨fun field hfield => (h field hfield).2, fun field hfield => (h field hfield).1⟩

theorem requestWithLength_eq (request : Request) (body : Bytes) :
    Connection.requestWithLength request body.length = request.withLength body := by
  unfold Connection.requestWithLength Request.withLength Headers.withLength
  have hcond : (([Method.post, Method.put, Method.patch].contains request.method = true ∨
      body.length ≠ 0) ∧ hasFramingFields request.headers = false) ↔
      (Unframed request.headers ∧
        (body ≠ [] ∨ request.method ∈ [Method.post, Method.put, Method.patch])) := by
    rw [hasFramingFields_eq_false_iff, List.contains_iff_mem, ne_eq, List.length_eq_zero_iff,
      and_comm, or_comm]
  by_cases h : Unframed request.headers ∧
      (body ≠ [] ∨ request.method ∈ [Method.post, Method.put, Method.patch])
  · rw [if_pos h, if_pos (hcond.mpr h)]
  · rw [if_neg h, if_neg (fun h' => h (hcond.mp h'))]

namespace Connection

open Lib (Call)

variable {c c' : Connection}

theorem responseWithLength_eq (response : Response) (body : Bytes) :
    c.responseWithLength response body.length = response.withLength c body := by
  unfold responseWithLength Response.withLength Headers.withLength
  by_cases h : Unframed response.headers ∧ c.responseHasNoBody response.status = false
  · rw [if_pos h, if_pos ⟨hasFramingFields_eq_false_iff.mpr h.1, h.2⟩]
  · rw [if_neg h, if_neg fun h' => h ⟨hasFramingFields_eq_false_iff.mp h'.1, h'.2⟩]

/-- The calls that stream a message whose head `head` sends. -/
def streamed (head : LocalCall Bytes) (body : Bytes) : LocalCall Bytes := do
  let before ← head
  let content ← sendData body
  let last ← endOfMessage Headers.new
  return before ++ content ++ last

theorem streamed_eq_ok {head : LocalCall Bytes} {body bytes : Bytes} :
    streamed head body c = (.ok bytes, c') ↔
      ∃ before c1 content c2 last, head c = (.ok before, c1) ∧
        sendData body c1 = (.ok content, c2) ∧ endOfMessage .new c2 = (.ok last, c') ∧
        bytes = before ++ content ++ last := by
  unfold streamed
  constructor
  · intro h
    obtain ⟨before, c1, hhead, h⟩ := Call.bind_eq_ok.mp h
    obtain ⟨content, c2, hdata, h⟩ := Call.bind_eq_ok.mp h
    obtain ⟨last, c3, hend, hlast⟩ := Call.bind_eq_ok.mp h
    cases hlast
    exact ⟨before, c1, content, c2, last, hhead, hdata, hend, rfl⟩
  · intro h
    obtain ⟨before, c1, content, c2, last, hhead, hdata, hend, rfl⟩ := h
    refine Call.bind_eq_ok.mpr ⟨before, c1, hhead, Call.bind_eq_ok.mpr ⟨content, c2, hdata, ?_⟩⟩
    exact Call.bind_eq_ok.mpr ⟨last, c', hend, rfl⟩

/-! ## A piece of no bytes -/

/-- The client has stopped waiting for a 100. -/
def stopsWaiting (c : Connection) : Connection :=
  c.mapCycle fun cycle => { cycle with waitingForContinue := false }

/-- Inside a message an empty piece is written as nothing. -/
theorem sendData_nil {framing : Framing} (hwriter : c.cycle.writer = some framing)
    (hstate : c.localState = .sendBody) : sendData [] c = (.ok [], c.stopsWaiting) := by
  obtain ⟨state, hdata⟩ := Option.isSome_iff_exists.mp (processEvent_insideBody _ _ hstate).1
  have hsame := (ConnectionState.bodyLaws.data _ _ _ hdata).1
  subst hsame
  have hframed : DataFramed framing 0 framing ([], []) := by
    cases framing with
    | fixed remaining => exact .fixed (Nat.zero_le remaining)
    | chunked => exact .emptyChunk
    | closeDelimited => exact .closeDelimited 0
  have hsent : sentData framing c.state c = c.stopsWaiting := by
    unfold sentData stopsWaiting mapCycle
    rw [← hwriter]
  unfold sendData
  rw [List.length_nil, Call.bind_of_ok (sendDataFraming_of hwriter hframed hdata), hsent]
  rfl

/-- The end of a message does not depend on whether the client waits. -/
theorem endOfMessage_stopsWaiting {trailers : Headers} {bytes : Bytes} :
    endOfMessage trailers c.stopsWaiting = (.ok bytes, c') ↔
      endOfMessage trailers c = (.ok bytes, c') := by
  constructor
  · intro h
    obtain ⟨framing, state, hvalid, hwriter, hframed, hstate, rfl⟩ := endOfMessage_ok h
    exact endOfMessage_of hvalid hwriter hframed hstate
  · intro h
    obtain ⟨framing, state, hvalid, hwriter, hframed, hstate, rfl⟩ := endOfMessage_ok h
    exact endOfMessage_of (c := c.stopsWaiting) hvalid hwriter hframed hstate

/-- What follows a head is the same in one call and in two. -/
theorem sendRest_streams {before body bytes : Bytes} {framing : Framing}
    (hwriter : c.cycle.writer = some framing) (hstate : c.localState = .sendBody) :
    (∃ parts, sendRest before body.length c = (.ok parts, c') ∧
        bytes = parts.1 ++ body ++ parts.2) ↔
      ∃ content c1 last, sendData body c = (.ok content, c1) ∧
        endOfMessage .new c1 = (.ok last, c') ∧ bytes = before ++ content ++ last := by
  have hopen : c.localState ≠ .switchedProtocol := by
    rw [hstate]
    nofun
  by_cases hbody : body = []
  · subst hbody
    rw [sendData_nil hwriter hstate]
    constructor
    · intro h
      obtain ⟨parts, hrest, rfl⟩ := h
      rcases sendRest_ok hrest with ⟨hswitched, _⟩ | ⟨last, _, _, hend, rfl⟩ |
        ⟨_, _, _, _, hlength, _⟩
      · exact absurd hswitched hopen
      · exact ⟨[], c.stopsWaiting, last, rfl, endOfMessage_stopsWaiting.mpr hend, rfl⟩
      · exact absurd rfl hlength
    · intro h
      obtain ⟨content, c1, last, hdata, hend, rfl⟩ := h
      cases hdata
      refine ⟨(before, last), ?_, rfl⟩
      unfold sendRest
      rw [Call.get_bind, if_neg hopen, List.length_nil]
      simp only [ne_eq, not_true_eq_false, if_false]
      rw [Call.pure_bind, Call.bind_of_ok (endOfMessage_stopsWaiting.mp hend), List.append_nil]
      rfl
  · have hlength : body.length ≠ 0 := fun h => hbody (List.length_eq_zero_iff.mp h)
    constructor
    · intro h
      obtain ⟨parts, hrest, rfl⟩ := h
      rcases sendRest_ok hrest with ⟨hswitched, _⟩ | ⟨_, _, hzero, _⟩ |
        ⟨around, c1, last, _, _, hdata, hend, rfl⟩
      · exact absurd hswitched hopen
      · exact absurd hzero hlength
      · refine ⟨around.1 ++ body ++ around.2, c1, last, ?_, hend, ?_⟩
        · unfold sendData
          rw [Call.bind_of_ok hdata]
          rfl
        · simp only [List.append_assoc]
    · intro h
      obtain ⟨content, c1, last, hdata, hend, rfl⟩ := h
      obtain ⟨around, hframing, rfl⟩ := sendData_ok hdata
      refine ⟨(before ++ around.1, around.2 ++ last), ?_, by simp only [List.append_assoc]⟩
      unfold sendRest
      rw [Call.get_bind, if_neg hopen, if_pos hlength, Call.bind_of_ok hframing]
      exact Call.bind_of_ok hend

/-! ## The head -/

/-- The head of a request opens its body. -/
theorem sendRequest_opens {request : Request} {bytes : Bytes}
    (h : sendRequest request c = (.ok bytes, c')) :
    (∃ framing, c'.cycle.writer = some framing) ∧ c'.localState = .sendBody := by
  obtain ⟨framing, upgrades, state, hrole, _, _, hstate, _, rfl⟩ := sendRequest_ok h
  have hbody := (ConnectionState.phaseLaws.own _ _ _ _ hstate).2.2.mpr rfl
  refine ⟨⟨framing, by rw [sentRequest_cycle]⟩, ?_⟩
  unfold localState
  rw [(sentRequest_sameOutside _ _ _ _ _).frame.role, hrole, sentRequest_state]
  exact ((ConnectionState.disableKeepAliveIf_samePhase _ _).body .client).mpr hbody

/-- The head of a final response opens its body, unless it opens a tunnel. -/
theorem sendResponse_opens {response : Response} {bytes : Bytes}
    (h : sendResponse response c = (.ok bytes, c'))
    (htunnel : c.opensTunnel response.status = false) :
    (∃ framing, c'.cycle.writer = some framing) ∧ c'.localState = .sendBody := by
  obtain ⟨framing, headers, state, hrole, _, _, _, hstate, _, rfl⟩ := sendResponse_ok h
  have hevent : c.finalResponseEvent response.status = .response := by
    unfold finalResponseEvent
    rw [htunnel]
    rfl
  rw [hevent] at hstate
  have hbody := (ConnectionState.phaseLaws.own _ _ _ _ hstate).2.2.mpr rfl
  refine ⟨⟨framing, by rw [sentResponse_cycle, htunnel]; rfl⟩, ?_⟩
  unfold localState
  rw [(sentResponse_sameOutside _ _ _ _).frame.role, hrole, sentResponse_state _ _ _ hrole]
  exact ((ConnectionState.disableKeepAliveIf_samePhase _ _).body .server).mpr hbody

/-- The head that opens a tunnel is the last thing its server sends. -/
theorem sendResponse_switches {response : Response} {bytes : Bytes}
    (h : sendResponse response c = (.ok bytes, c'))
    (htunnel : c.opensTunnel response.status = true) : c'.localState = .switchedProtocol := by
  have hkeeps : ∀ (reason : Bool) (s : ConnectionState), s.server = .switchedProtocol →
      (s.disableKeepAliveIf reason).server = .switchedProtocol := by
    decide +kernel
  obtain ⟨framing, headers, state, hrole, _, _, _, hstate, _, rfl⟩ := sendResponse_ok h
  have hevent : c.finalResponseEvent response.status = .protocolSwitch .connect := by
    unfold finalResponseEvent
    rw [htunnel]
    rfl
  rw [hevent] at hstate
  unfold localState
  rw [(sentResponse_sameOutside _ _ _ _).frame.role, hrole, sentResponse_state _ _ _ hrole]
  exact hkeeps _ _ (ConnectionState.processEvent_switched _ _ _ hstate)

theorem withLength_status (response : Response) (c : Connection) (body : Bytes) :
    (response.withLength c body).status = response.status := by
  rw [← responseWithLength_eq]
  exact responseWithLength_status c response body.length

/-- A response that opens a tunnel states no length. -/
theorem withLength_tunnel {response : Response} (body : Bytes)
    (htunnel : c.opensTunnel response.status = true) : response.withLength c body = response := by
  unfold Response.withLength responseHasNoBody
  rw [htunnel, Bool.or_true]
  exact if_neg fun h => nomatch h.2

theorem sendComplete_eq_ok {head : LocalCall Bytes} {length : Nat} {parts : Bytes × Bytes} :
    sendComplete head length c = (.ok parts, c') ↔
      ∃ before c1, head c = (.ok before, c1) ∧ sendRest before length c1 = (.ok parts, c') := by
  refine ⟨sendComplete_ok, fun h => ?_⟩
  obtain ⟨before, c1, hhead, hrest⟩ := h
  unfold sendComplete
  rw [Call.bind_of_ok hhead, hrest]

/-- A complete message whose head opens a body is streamed. -/
theorem sendComplete_streams {head : LocalCall Bytes} {body bytes : Bytes}
    (hopens : ∀ before c1, head c = (.ok before, c1) →
      (∃ framing, c1.cycle.writer = some framing) ∧ c1.localState = .sendBody) :
    (∃ parts, sendComplete head body.length c = (.ok parts, c') ∧
        bytes = parts.1 ++ body ++ parts.2) ↔ streamed head body c = (.ok bytes, c') := by
  rw [streamed_eq_ok]
  constructor
  · intro h
    obtain ⟨parts, hcomplete, hbytes⟩ := h
    obtain ⟨before, c1, hhead, hrest⟩ := sendComplete_eq_ok.mp hcomplete
    obtain ⟨⟨framing, hwriter⟩, hstate⟩ := hopens before c1 hhead
    obtain ⟨content, c2, last, hdata, hend, hlast⟩ :=
      (sendRest_streams hwriter hstate).mp ⟨parts, hrest, hbytes⟩
    exact ⟨before, c1, content, c2, last, hhead, hdata, hend, hlast⟩
  · intro h
    obtain ⟨before, c1, content, c2, last, hhead, hdata, hend, hlast⟩ := h
    obtain ⟨⟨framing, hwriter⟩, hstate⟩ := hopens before c1 hhead
    obtain ⟨parts, hrest, hbytes⟩ :=
      (sendRest_streams hwriter hstate).mpr ⟨content, c2, last, hdata, hend, hlast⟩
    exact ⟨parts, sendComplete_eq_ok.mpr ⟨before, c1, hhead, hrest⟩, hbytes⟩

theorem sendRequestWithBody_eq_ok {request : Request} {body bytes : Bytes} :
    sendRequestWithBody request body c = (.ok bytes, c') ↔
      ∃ parts, sendRequestWithBodyFraming request body.length c = (.ok parts, c') ∧
        bytes = parts.1 ++ body ++ parts.2 := by
  refine ⟨sendRequestWithBody_ok, fun h => ?_⟩
  obtain ⟨parts, hframing, rfl⟩ := h
  unfold sendRequestWithBody
  rw [Call.bind_of_ok hframing]
  rfl

theorem sendResponseWithBody_eq_ok {response : Response} {body bytes : Bytes} :
    sendResponseWithBody response body c = (.ok bytes, c') ↔
      ∃ parts, sendResponseWithBodyFraming response body.length c = (.ok parts, c') ∧
        bytes = parts.1 ++ body ++ parts.2 := by
  refine ⟨sendResponseWithBody_ok, fun h => ?_⟩
  obtain ⟨parts, hframing, rfl⟩ := h
  unfold sendResponseWithBody
  rw [Call.bind_of_ok hframing]
  rfl

/-- The head of a tunnel is the whole message, and there is no body. -/
theorem sendComplete_tunnels {response : Response} {body bytes : Bytes}
    (htunnel : c.opensTunnel response.status = true) :
    (∃ parts, sendComplete (sendResponse response) body.length c = (.ok parts, c') ∧
        bytes = parts.1 ++ body ++ parts.2) ↔
      body = [] ∧ sendResponse response c = (.ok bytes, c') := by
  constructor
  · intro h
    obtain ⟨parts, hcomplete, rfl⟩ := h
    obtain ⟨before, c1, hhead, hrest⟩ := sendComplete_eq_ok.mp hcomplete
    have hswitched := sendResponse_switches hhead htunnel
    rcases sendRest_ok hrest with ⟨_, hlength, rfl, rfl⟩ | ⟨_, hopen, _⟩ | ⟨_, _, _, hopen, _⟩
    · have hbody : body = [] := List.length_eq_zero_iff.mp hlength
      subst hbody
      refine ⟨rfl, ?_⟩
      rw [hhead, List.append_nil, List.append_nil]
    · exact absurd hswitched hopen
    · exact absurd hswitched hopen
  · intro h
    obtain ⟨rfl, hhead⟩ := h
    refine ⟨(bytes, []), sendComplete_eq_ok.mpr ⟨bytes, c', hhead, ?_⟩, ?_⟩
    · unfold sendRest
      rw [Call.get_bind, if_pos (sendResponse_switches hhead htunnel), Call.failIf_bind]
      rfl
    · rw [List.append_nil, List.append_nil]

/-- On every connection the one-shot methods return the bytes that the streaming
methods write one after the other, leave the connection they leave, and fail
where one of them fails, without a trace. A response that opens a tunnel is its
head alone. -/
theorem one_shot_is_streamed (c : Connection) (body : Bytes) :
    (∀ request : Request,
      (∀ bytes c', sendRequestWithBody request body c = (.ok bytes, c') ↔
        streamed (sendRequest (request.withLength body)) body c = (.ok bytes, c')) ∧
      (∀ error c', sendRequestWithBody request body c = (.error error, c') → c' = c)) ∧
    (∀ response : Response,
      (c.opensTunnel response.status = false →
        ∀ bytes c', sendResponseWithBody response body c = (.ok bytes, c') ↔
          streamed (sendResponse (response.withLength c body)) body c = (.ok bytes, c')) ∧
      (c.opensTunnel response.status = true →
        ∀ bytes c', sendResponseWithBody response body c = (.ok bytes, c') ↔
          body = [] ∧ sendResponse response c = (.ok bytes, c')) ∧
      (∀ error c', sendResponseWithBody response body c = (.error error, c') → c' = c)) := by
  refine ⟨fun request => ⟨fun bytes c' => ?_, fun error c' => ?_⟩,
    fun response => ⟨fun htunnel bytes c' => ?_, fun htunnel bytes c' => ?_, fun error c' => ?_⟩⟩
  · rw [sendRequestWithBody_eq_ok]
    unfold sendRequestWithBodyFraming
    rw [requestWithLength_eq]
    exact sendComplete_streams fun _ _ => sendRequest_opens
  · exact sendRequestWithBody_atomic request body c error c'
  · rw [sendResponseWithBody_eq_ok]
    unfold sendResponseWithBodyFraming
    rw [Call.get_bind, responseWithLength_eq]
    refine sendComplete_streams fun _ _ hhead => sendResponse_opens hhead ?_
    rw [withLength_status]
    exact htunnel
  · rw [sendResponseWithBody_eq_ok]
    unfold sendResponseWithBodyFraming
    rw [Call.get_bind, responseWithLength_eq, withLength_tunnel body htunnel]
    exact sendComplete_tunnels htunnel
  · exact sendResponseWithBody_atomic response body c error c'

/-- A POST with a body of two bytes. -/
theorem post_is_streamed :
    ∃ bytes c', sendRequestWithBody { plainGet .http11 with method := .post } (ascii "hi")
        (new .client .default) = (.ok bytes, c') ∧
      streamed (sendRequest (Request.withLength { plainGet .http11 with method := .post }
        (ascii "hi"))) (ascii "hi") (new .client .default) = (.ok bytes, c') := by
  obtain ⟨bytes, c', hok⟩ := Call.exists_ok
    (sendRequestWithBody { plainGet .http11 with method := .post } (ascii "hi"))
    (new .client .default) (by decide +kernel)
  exact ⟨bytes, c', hok, (((one_shot_is_streamed _ _).1 _).1 bytes c').mp hok⟩

end Connection

end H11r
