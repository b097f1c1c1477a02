import H11r.Connection.Arrive
import H11r.Connection.OneHead

/-!
# A response from the server to the client

A server that has received a request answers it, and the client that sent the
request gets the bytes of the answer in any pieces. The client works out for
itself where the body ends: from what the head says and from the kind of its own
request. `response_head_means_its_body` says that it comes to the framing the
server has chosen, so the body arrives as it was written.
-/

namespace H11r

open Lib (Call)

/-- While the response is outstanding, it is the server that ends this. -/
theorem ConnectionState.stays_asked : ∀ s : ConnectionState, s.client ≠ .idle → s.server = .sendResponse →
    s.disableKeepAlive.server = .sendResponse ∧
      ∀ event s', s.processEvent .client event = some s' → s'.server = .sendResponse := by
  decide +kernel

namespace Connection

variable {hp : Httparse} {c c' : Connection} {rest text after : Bytes}

/-! ## The client waits for the head -/

/-- A strict client that has made a request of this kind and waits for the head
of the response. -/
structure AwaitsResponse (kind : Option RequestKind) (limits : Limits) (c : Connection) : Prop where
  role : c.role = .client
  limits : c.limits = limits
  lenient : c.lenient = false
  before : c.BeforeHead
  peer : c.peerState = .sendResponse
  asking : c.Asking kind

variable {kind : Option RequestKind} {limits : Limits}

theorem AwaitsResponse.server (h : c.AwaitsResponse kind limits) : c.state.server = .sendResponse := by
  have hpeer := h.peer
  unfold peerState at hpeer
  rw [h.role] at hpeer
  exact hpeer

theorem LocalChange.stays_asked (h : LocalChange c c') (hrole : c.role = .client) (hbegun : c.state.client ≠ .idle)
    (hserver : c.state.server = .sendResponse) : c'.state.server = .sendResponse := by
  have hlaws := ConnectionState.stays_asked c.state hbegun hserver
  cases h with
  | request _ _ _ hstate => exact absurd (ConnectionState.reuseLaws.request _ _ _ hstate).client hbegun
  | informational hother => cases hrole.symm.trans hother
  | response hother => cases hrole.symm.trans hother
  | data hstate =>
    rw [hrole] at hstate
    exact hlaws.2 _ _ hstate
  | ends hstate =>
    rw [hrole] at hstate
    exact hlaws.2 _ _ hstate
  | closes hstate =>
    rw [hrole] at hstate
    exact hlaws.2 _ _ hstate

theorem AwaitsResponse.send {op : Op} (hop : op.sends = true) (h : c.AwaitsResponse kind limits) :
    (step hp op c).2.AwaitsResponse kind limits := by
  have hsame : SameOutside c (step hp op c).2 := step_sameOutside hop c
  have hframe := hsame.frame
  have hkept : (step hp op c).2.role = .client ∧ (step hp op c).2.state.client ≠ .idle ∧
      (step hp op c).2.state.server = .sendResponse := by
    refine Lib.preserve (P := fun c' => c'.role = .client ∧ c'.state.client ≠ .idle ∧
      c'.state.server = .sendResponse) ?_ (step_local hop c) ⟨h.role, h.asking.begun, h.server⟩
    rintro c1 c2 hchange ⟨hrole, hbegun, hserver⟩
    have hmoves : Moves .client c1.state c2.state := hchange.moves
    exact ⟨hchange.sameOutside.frame.role.trans hrole, Moves.begun hmoves hbegun, hchange.stays_asked hrole hbegun hserver⟩
  have hcycle : op ≠ .startNextCycle := by
    rintro rfl
    cases hop
  refine ⟨hframe.role.trans h.role, hframe.limits.trans h.limits, hframe.lenient.trans h.lenient,
    h.before.same (step_sends_decoder hp hop c), ?_, step_asking hcycle h.asking⟩
  unfold peerState
  rw [hkept.1]
  exact hkept.2.2

theorem AwaitsResponse.eof (h : c.AwaitsResponse kind limits) : c.recordEof.AwaitsResponse kind limits := by
  have hchange : Change c c.recordEof := .eof
  have hserver : c.recordEof.peerState = .sendResponse := by
    unfold recordEof peerState
    rw [disableKeepAliveIf_role, disableKeepAliveIf_state, h.role]
    unfold ConnectionState.disableKeepAliveIf
    split
    · exact (ConnectionState.stays_asked c.state h.asking.begun h.server).1
    · exact h.server
  refine ⟨(recordEof_decoder c).role.trans h.role, (recordEof_decoder c).limits.trans h.limits, ?_,
    h.before.same (recordEof_decoder c), hserver, hchange.asking h.asking⟩
  unfold recordEof
  rw [disableKeepAliveIf_eq]
  exact h.lenient

theorem AwaitsResponse.extend (h : c.AwaitsResponse kind limits) (data : Bytes) :
    AwaitsResponse kind limits { c with input := c.input.extend data } :=
  ⟨h.role, h.limits, h.lenient, h.before.extend data, h.peer, ⟨h.asking.kind, h.asking.begun⟩⟩

/-! ## The head comes -/

/-- A final response is accepted if its framing can be read. -/
theorem acceptResponse_of {response : Response} {framing : Framing} {state : ConnectionState}
    (hrole : c.role = .client) (hlocal : c.localState ≠ .idle) (hfinal : response.status.isInformational = false)
    (hstate : c.state.processEvent .server (c.finalResponseEvent response.status) = some state)
    (hframing : c.receivedFraming response = .ok framing) :
    acceptResponse response c = (.ok (.event (.response response)), acceptedFinal response framing state c) := by
  have hpeer : c.state.processEvent c.role.peer (c.finalResponseEvent response.status) = some state := by
    rw [hrole]
    exact hstate
  unfold acceptResponse
  rw [Call.get_bind, Call.failIf_bind, if_neg hlocal, if_neg (by rw [hfinal]; decide)]
  unfold acceptFinal
  rw [Call.get_bind, Call.bind_of_ok (advancePeer_of_some hpeer)]
  simp only [Call.modify_bind, Call.ofExcept_bind]
  unfold receivedFraming at hframing
  rw [hframing]
  rfl

/-- A response that opens no tunnel takes the client into its body. -/
theorem acceptedFinal_begins {response : Response} (framing : Framing) (hrole : c.role = .client)
    (hserver : c.state.server = .sendResponse) (hspent : c.cycle.chunkExtensionBytes = 0)
    (htunnel : c.opensTunnel response.status = false) : ∃ state,
      c.state.processEvent .server (c.finalResponseEvent response.status) = some state ∧
      Begins c.limits .client framing (acceptedFinal response framing state c) := by
  have hevent : c.finalResponseEvent response.status = .response := by
    unfold finalResponseEvent
    rw [htunnel]
    rfl
  have haccepts : ∀ s : ConnectionState, s.server = .sendResponse →
      (s.processEvent .server .response).isSome = true := by
    decide +kernel
  obtain ⟨state, hstate⟩ := Option.isSome_iff_exists.mp (haccepts c.state hserver)
  have hbody : state.state .server = .sendBody := (ConnectionState.phaseLaws.own _ _ _ _ hstate).2.2.mpr rfl
  rw [hevent]
  refine ⟨state, hstate, ?_, ?_, ?_, ?_, ?_⟩
  · unfold acceptedFinal countedFinal
    simp only [disableKeepAliveIf_eq]
    rfl
  · unfold acceptedFinal countedFinal
    simp only [disableKeepAliveIf_eq]
    exact hrole
  · have hrole' : (acceptedFinal response framing state c).role = .client := by
      unfold acceptedFinal countedFinal
      simp only [disableKeepAliveIf_eq]
      exact hrole
    unfold peerState
    rw [hrole', acceptedFinal_state]
    exact ConnectionState.disableKeepAliveIf_sendBody _ (ConnectionState.disableKeepAliveIf_sendBody _
      (ConnectionState.disableKeepAliveIf_sendBody _ hbody))
  · rw [acceptedFinal_cycle]
  · rw [acceptedFinal_cycle]
    exact hspent

/-- A head that is being read is reported as it is, or waited for. -/
theorem nextEventInner_head {polled : Polled} (hpeer : c.peerState = .sendResponse) (hreader : c.cycle.reader = .head)
    (h : readHead hp c = (.ok polled, c')) : nextEventInner hp c = (.ok polled, c') := by
  refine nextEventInner_reports ?_
  unfold dispatch
  rw [Call.get_bind]
  simp only [hpeer]
  unfold readBody
  rw [Call.get_bind]
  simp only [hreader]
  exact Call.bind_of_ok h

/-- A head that comes to a client is waited for, and when it has come the poll
does with it what the client accepts it as. -/
theorem AwaitsResponse.head {response : Response} {head more : Bytes} (hc : c.AwaitsResponse kind limits)
    (hreads : ReadsAs (fun data => parseResponseHead hp data limits.maxHeaderCount false) head
      (head.length, response, false))
    (hfits : head.length ≤ limits.maxHeadBytes) (htext : c.input.asSlice ++ rest = head ++ more)
    (heof : c.eof = true → rest = []) :
    (rest ≠ [] ∧ ∃ progress, nextEvent hp c = (.ok .needData,
        c.rescan progress c.cycle.reader c.cycle.chunkExtensionBytes) ∧
      (c.rescan progress c.cycle.reader c.cycle.chunkExtensionBytes).AwaitsResponse kind limits) ∨
    ((c.consumeSection head.length).input.asSlice ++ rest = more ∧
      ∀ event c', acceptResponse response (c.consumeSection head.length) = (.ok (.event event), c') →
        nextEvent hp c = (.ok (.event event), c')) := by
  have hread := readHead_response hp hc.role
  rw [hc.limits, hc.lenient] at hread
  have hfits' : head.length ≤ c.limits.maxHeadBytes := by
    rw [hc.limits]
    exact hfits
  obtain ⟨progress, hcomes⟩ := readSection_comes
    (fun parsed => do
      Call.modify (disableKeepAliveIf parsed.2.2)
      Call.modify (consumeSection parsed.1)
      acceptResponse parsed.2.1)
    hreads hfits' hc.before.notes htext heof
  rcases hcomes with ⟨hrest, hopen, hnotes, hwaits⟩ | ⟨later, hinput, hmore, haccepts⟩
  · -- The head is not complete.
    rw [← hread] at hwaits
    refine Or.inl ⟨hrest, progress, ?_, ⟨hc.role, hc.limits, hc.lenient, ⟨hc.before.reader, hc.before.spent, hnotes⟩,
      hc.peer, ⟨hc.asking.kind, hc.asking.begun⟩⟩⟩
    unfold nextEvent
    rw [nextEventInner_head hc.peer hc.before.reader hwaits]
  · refine Or.inr ⟨?_, fun event c' haccepted => ?_⟩
    · show (c.input.consume head.length).asSlice ++ rest = more
      rw [Buffer.asSlice_consume, hinput, List.drop_left, hmore]
    · rw [← hread, Call.modify_bind, Call.modify_bind] at haccepts
      change _ = acceptResponse response (c.consumeSection head.length) at haccepts
      rw [haccepted] at haccepts
      unfold nextEvent
      rw [nextEventInner_head hc.peer hc.before.reader haccepts]

/-- A poll of a client that waits for the head of a response. -/
theorem nextEvent_awaitsResponse {response : Response} {framing : Framing} {head more : Bytes}
    {r : Except RemoteProtocolError NextEvent} (hc : c.AwaitsResponse kind limits)
    (hreads : ReadsAs (fun data => parseResponseHead hp data limits.maxHeaderCount false) head
      (head.length, response, false))
    (hfits : head.length ≤ limits.maxHeadBytes) (hfinal : response.status.isInformational = false)
    (hmeans : ∀ client : Connection, client.cycle.requestKind = kind →
      client.opensTunnel response.status = false ∧ client.receivedFraming response = .ok framing)
    (htext : c.input.asSlice ++ rest = head ++ more) (heof : c.eof = true → rest = [])
    (hpoll : nextEvent hp c = (r, c')) :
    (r = .ok .needData ∧ rest ≠ [] ∧ c'.AwaitsResponse kind limits ∧ c'.input = c.input) ∨
      (r = .ok (.event (.response response)) ∧ Begins limits .client framing c' ∧
        c'.input.asSlice ++ rest = more) := by
  rcases hc.head hreads hfits htext heof with ⟨hrest, progress, hwaits, hc'⟩ | ⟨hmore, haccepts⟩
  · rw [hwaits] at hpoll
    cases hpoll
    exact Or.inl ⟨rfl, hrest, hc', rfl⟩
  · generalize hc1 : c.consumeSection head.length = c1 at haccepts hmore
    have hrole : c1.role = .client := by
      rw [← hc1]
      exact hc.role
    have hlocal : c1.localState ≠ .idle := by
      rw [← hc1]
      show c.state.state c.role ≠ .idle
      rw [hc.role]
      exact hc.asking.begun
    have hkind : c1.cycle.requestKind = kind := by
      rw [← hc1]
      exact hc.asking.kind
    obtain ⟨htunnel, hframing⟩ := hmeans c1 hkind
    obtain ⟨state, hstate, hbegins⟩ := acceptedFinal_begins framing hrole
      (by rw [← hc1]; exact hc.server) (by rw [← hc1]; exact hc.before.spent) htunnel
    rw [haccepts _ _ (acceptResponse_of hrole hlocal hfinal hstate hframing)] at hpoll
    cases hpoll
    have hlimits : c1.limits = limits := by
      rw [← hc1]
      exact hc.limits
    rw [hlimits] at hbegins
    refine Or.inr ⟨rfl, hbegins, ?_⟩
    rw [acceptedFinal_input]
    exact hmore

/-- The client knows what to do with all of the message. -/
theorem awaitsResponse_awaits {response : Response} {framing : Framing} {m : Message}
    (hreads : ReadsAs (fun data => parseResponseHead hp data limits.maxHeaderCount false) m.head
      (m.head.length, response, false))
    (hevent : m.event = .response response) (hfits : m.head.length ≤ limits.maxHeadBytes)
    (hfinal : response.status.isInformational = false)
    (hmeans : ∀ client : Connection, client.cycle.requestKind = kind →
      client.opensTunnel response.status = false ∧ client.receivedFraming response = .ok framing)
    (harrives : ∀ {c : Connection}, Begins limits .client framing c →
      Arrives hp c m.untilEof (m.body ++ after) m.items m.trailers after) :
    Awaits hp delivers (AwaitsResponse kind limits) m after where
  same := fun hop _ hc => hc.send hop
  extend := fun data hc => hc.extend data
  eof := fun hc => hc.eof
  poll := fun hc htext heof hpoll => by
    rcases nextEvent_awaitsResponse hc hreads hfits hfinal hmeans htext heof hpoll with
      ⟨rfl, hrest, hc', hinput⟩ | ⟨rfl, hbegins, hmore⟩
    · exact Or.inl ⟨rfl, hrest, hc', hinput⟩
    · refine Or.inr ⟨by rw [hevent], ?_⟩
      rw [hmore]
      exact harrives hbegins

/-! ## The answer to a request -/

/-- The method of the request that a call has sent. -/
def sentMethod : Op × Outcome → Option Method
  | (.sendRequest request, .bytes _) => some request.method
  | (.sendRequestWithBody request _, .bytes _) => some request.method
  | (.sendRequestWithBodyFraming request _, .around _ _) => some request.method
  | _ => none

theorem step_sentMethod {op : Op} {outcome : Outcome} {method : Method} (h : step hp op c = (outcome, c'))
    (hsent : sentMethod (op, outcome) = some method) : c'.Asking (some (.fromMethod method.asBytes)) := by
  have hlength : ∀ (request : Request) (length : Nat), (requestWithLength request length).method = request.method := by
    intro request length
    unfold requestWithLength
    split <;> rfl
  have hframing : ∀ {request : Request} {length : Nat} {parts : Bytes × Bytes},
      sendRequestWithBodyFraming request length c = (.ok parts, c') →
        c'.Asking (some (.fromMethod request.method.asBytes)) := by
    intro request length parts hcall
    obtain ⟨before, c1, hhead, hrest⟩ := sendRequestWithBodyFraming_ok hcall
    have hasking := sendRequest_asking hhead
    rw [hlength] at hasking
    exact Lib.preserve (fun _ _ hchange hc => hchange.asking hc) (sendRest_changes hrest).changes hasking
  cases op with
  | sendRequest request =>
    change Connection.outcome _ (sendRequest request c) = _ at h
    rcases hcall : sendRequest request c with ⟨error | bytes, c1⟩
    · rw [hcall] at h
      cases h
      cases hsent
    · rw [hcall] at h
      cases h
      cases hsent
      exact sendRequest_asking hcall
  | sendRequestWithBody request body =>
    change Connection.outcome _ (sendRequestWithBody request body c) = _ at h
    rcases hcall : sendRequestWithBody request body c with ⟨error | bytes, c1⟩
    · rw [hcall] at h
      cases h
      cases hsent
    · rw [hcall] at h
      cases h
      cases hsent
      obtain ⟨parts, hparts, _⟩ := sendRequestWithBody_ok hcall
      exact hframing hparts
  | sendRequestWithBodyFraming request length =>
    change Connection.outcome _ (sendRequestWithBodyFraming request length c) = _ at h
    rcases hcall : sendRequestWithBodyFraming request length c with ⟨error | parts, c1⟩
    · rw [hcall] at h
      cases h
      cases hsent
    · rw [hcall] at h
      cases h
      cases hsent
      exact hframing hcall
  | _ => cases hsent

/-- The fields of a response head are valid. -/
theorem Framed.sent_valid {response : Response} {framing : Framing} {headers : Headers}
    (hframed : Framed c response framing headers) (hchecked : HeadChecked response) (c' : Connection) :
    ∀ field ∈ (sentFields c c' response headers).iter, validField field := by
  have hvalid := hframed.valid (validateHeaders_iff.mp hchecked.headers)
  unfold sentFields
  split
  · exact hvalid
  · exact announcePersistence_valid _ _ hvalid

/-- A client that asked the same kind of request reads from the head the framing
that is written. -/
theorem Framed.means {response : Response} {framing : Framing} {headers : Headers}
    (hframed : Framed c response framing headers) (hcoding : CodingChecked c response)
    (hchecked : ResponseChecked response (c.opensTunnel response.status))
    (htunnel : c.opensTunnel response.status = false) (c' : Connection) {client : Connection}
    (hkind : client.cycle.requestKind = c.cycle.requestKind) : client.opensTunnel response.status = false ∧
      client.receivedFraming { response with headers := sentFields c c' response headers } = .ok framing := by
  have hsays := sentFields_saysFraming c' (hframed.saysFraming hcoding hchecked)
  refine ⟨?_, hsays.received hframed.eq_zero hkind⟩
  unfold opensTunnel requestIs at htunnel ⊢
  rw [hkind]
  exact htunnel

/-- The head of a response has the framing that is written, and a client that
asked the same kind of request reads it so. -/
theorem sendResponse_means {response : Response} {bytes : Bytes} (h : sendResponse response c = (.ok bytes, c'))
    (htunnel : c.opensTunnel response.status = false) : ∃ framing headers,
      Framed c response framing headers ∧ c'.cycle.writer = some framing ∧
      bytes = serializeResponse response.httpVersion response.status response.reason
        (sentFields c c' response headers) ∧
      (∀ field ∈ (sentFields c c' response headers).iter, validField field) ∧
      response.reason.all isLineValueByte = true ∧ response.status.isInformational = false ∧
      ∀ client : Connection, client.cycle.requestKind = c.cycle.requestKind →
        client.opensTunnel response.status = false ∧
        client.receivedFraming { response with headers := sentFields c c' response headers } = .ok framing := by
  obtain ⟨framing, headers, state, _, hfinal, hchecked, hplan, _, hbytes, hc'⟩ := sendResponse_ok h
  obtain ⟨hcoding, hframed⟩ := responseFraming_framed hplan
  refine ⟨framing, headers, hframed, ?_, hbytes, hframed.sent_valid hchecked.toHeadChecked c',
    validateReason_ok hchecked.reason, hfinal, fun _ => hframed.means hcoding hchecked htunnel c'⟩
  rw [hc']
  unfold sentResponse
  rw [htunnel]
  rfl

/-- What a client is to report of a response: its head with these fields, the
body, the trailers, and nothing else but that the server has closed. -/
def Reports (response : Response) (fields : Headers) (body : Bytes) (trailers : Headers)
    (events : List Event) : Prop :=
  ∃ headers datas received closes,
    events = .response { response with headers := headers } :: datas ++ .endOfMessage received :: closes ∧
    headers.iter = fields.iter ∧ (∀ event ∈ datas, event.Delivers) ∧ datas.flatMap Event.bytes = body ∧
    received.iter = trailers.iter ∧ ∀ event ∈ closes, event = .connectionClosed

/-- A strict client that has sent a request with this method, and has nothing yet
of the response to it. -/
structure Waits (hp : Httparse) (method : Method) (client : Connection) : Prop where
  role : client.role = .client
  asked : ∃ op outcome history c c', Reachable hp c ∧ step hp op c = (outcome, c') ∧
    sentMethod (op, outcome) = some method ∧ Lib.Run (step hp) staysInCycle c' history client
  strict : client.lenient = false
  peer : client.peerState = .sendResponse
  input : client.input.asSlice = []

/-- A server that has received this request, and whose cycle is not over. -/
def Serves (hp : Httparse) (request : Request) (server : Connection) : Prop :=
  ∃ history c c', nextEvent hp c = (.ok (.event (.request request)), c') ∧
    Lib.Run (step hp) staysInCycle c' history server

theorem Waits.asking {method : Method} (h : Waits hp method c) : c.Asking (some (.fromMethod method.asBytes)) := by
  obtain ⟨op, outcome, history, c1, c2, _, hstep, hsent, hrun⟩ := h.asked
  exact run_asking hrun (step_sentMethod hstep hsent)

theorem Serves.asking {request : Request} (h : Serves hp request c) :
    c.Asking (some (.fromMethod request.method.asBytes)) := by
  obtain ⟨history, c1, c2, hpoll, hrun⟩ := h
  exact run_asking hrun (nextEvent_asking hpoll)

theorem Waits.reachable {method : Method} (h : Waits hp method c) : Reachable hp c := by
  obtain ⟨op, outcome, history, c1, c2, hreach, hstep, _, hrun⟩ := h.asked
  have hsent := hreach.step op
  rw [hstep] at hsent
  exact hsent.run hrun

theorem Waits.awaits {method : Method} (h : Waits hp method c) :
    c.AwaitsResponse (some (.fromMethod method.asBytes)) c.limits := by
  refine ⟨h.role, rfl, h.strict, reachable_beforeHead h.reachable ?_ h.input, h.peer, h.asking⟩
  rw [h.peer]
  rfl

/-- A server that has received a request answers it with a response that opens no
tunnel, in any number of pieces and up to its end, while it receives and polls
as it likes. However the bytes come to the client that has sent the request,
and whatever that client sends and polls in between, no poll of it fails; and
when all of them have come, and the end of the input if the body has no other
end, polling comes to a rest, and then the client has reported the response
with its status, version and reason and the fields it was sent with, the body,
and the trailers, and nothing is left in its buffer. -/
theorem responses_round_trip (hhp : hp.Stable) (hread : hp.ReadsValid) {request : Request} {response : Response}
    {trailers : Headers} {client server s1 s2 s3 : Connection} {head last : Bytes} {written : List (Op × Outcome)}
    (hclient : Waits hp request.method client) (hserver : Serves hp request server)
    (hresponse : sendResponse response server = (.ok head, s1)) (htunnel : server.opensTunnel response.status = false)
    (hbody : Lib.Run (step hp) (writesBody hp) s1 written s2) (hend : endOfMessage trailers s2 = (.ok last, s3))
    (hfits : head.length ≤ client.limits.maxHeadBytes) : ∃ framing headers,
      Framed server response framing headers ∧
      ((sentFields server s1 response headers).iter.length ≤ client.limits.maxHeaderCount →
        (framing = .chunked → BodyFits client.limits (sentPieces written) trailers) →
        ∀ {history : List (Op × Outcome)} {c : Connection} {rest : Bytes},
          Lib.Run (step hp) delivers client history c →
          passedBytes history ++ rest = head ++ (outputOf written ++ last) → (c.eof = true → rest = []) →
          (∀ entry ∈ history, entry.2.isFailed = false) ∧
          (rest = [] → (framing = .closeDelimited → c.eof = true) →
            (∃ more next d, Lib.Run (step hp) polls c (more ++ [(.nextEvent, .polled next)]) d ∧ next.Rests) ∧
            ∀ before next, history = before ++ [(.nextEvent, .polled next)] → next.Rests →
              Reports response (sentFields server s1 response headers) (sentPieces written).flatten trailers
                (eventsOf history) ∧ c.trailingData.1 = [])) := by
  obtain ⟨framing, headers, hframed, hwriter, hbytes, hvalid, hreason, hfinal, hmeans⟩ :=
    sendResponse_means hresponse htunnel
  obtain ⟨hvalid', htext⟩ := message_written hwriter hbody hend
  refine ⟨framing, headers, hframed, fun hcount hbodyFits {history c rest} hrun hpassed heof => ?_⟩
  obtain ⟨items, received, hiter, hitems, harrives⟩ := htext.arrives hhp hread .client hvalid' hbodyFits
  obtain ⟨fields, hfields, hreads⟩ :=
    responseHead_readsAs hhp hread response.httpVersion response.status hreason hvalid hcount
  have hwritten : head = statusLineOf response.httpVersion response.status response.reason ++
      (sentFields server s1 response headers).iter.flatMap writeField ++ crlf := hbytes
  rw [← hwritten] at hreads
  -- The client has the fields in another buffer, and reads the same from them.
  have hmeans' : ∀ asker : Connection, asker.cycle.requestKind = some (.fromMethod request.method.asBytes) →
      asker.opensTunnel response.status = false ∧
        asker.receivedFraming { response with headers := fields } = .ok framing := by
    intro asker hkind
    obtain ⟨hplain, hreceived⟩ := hmeans asker (hkind.trans hserver.asking.kind.symm)
    refine ⟨hplain, ?_⟩
    unfold receivedFraming Fields.scan at hreceived ⊢
    rw [hfields]
    exact hreceived
  let m : Message :=
    { head := head, event := .response { response with headers := fields }, body := outputOf written ++ last,
      items := items, trailers := received, untilEof := framing == .closeDelimited }
  have hawaits : Awaits hp delivers (AwaitsResponse (some (.fromMethod request.method.asBytes)) client.limits) m [] :=
    awaitsResponse_awaits hreads rfl hfits hfinal hmeans' fun hbegins => harrives hbegins fun _ => rfl
  have hevent : m.event ≠ .connectionClosed := nofun
  have hall : ∀ c op, delivers c op → delivers c op := fun _ _ hop => hop
  have hstart : Trip hp (AwaitsResponse (some (.fromMethod request.method.asBytes)) client.limits) m []
      (head ++ (outputOf written ++ last)) [] client := by
    refine .head hclient.awaits ?_
    rw [hclient.input, List.append_nil]
    rfl
  obtain ⟨hgoes, htrip⟩ := run_trip hhp hawaits hevent hall hstart hrun hpassed heof
  refine ⟨hgoes, ?_⟩
  rintro rfl huntil
  refine ⟨htrip.rests hhp hawaits hevent (reachable_chunkOpen (hclient.reachable.run hrun)), ?_⟩
  rintro before next rfl hrests
  have hnone : passedBytes [((.nextEvent : Op), Outcome.polled next)] = [] := passedBytes_other _ nofun
  rw [passedBytes_append, hnone, List.append_nil, List.append_nil] at hpassed
  obtain ⟨⟨datas, closes, hlist, hdatas, hsplit, hcloses⟩, _, hleft⟩ := run_reports hhp hawaits hevent hall hstart hrun
    hpassed hrests fun hlast => huntil (beq_iff_eq.mp hlast)
  refine ⟨⟨fields, datas, received, closes, hlist, hfields, hdatas, ?_, hiter, hcloses⟩, hleft⟩
  rw [← splitAll_bytes, ← hsplit]
  exact hitems

/-! A request, and its answer in two pieces of which one is empty. -/

def askingClient : Connection := (sendRequest (plainGet .http11) (new .client .default)).2

def askedServer : Connection :=
  (Lib.trace (step Reference.httparse) (new .server .default) [.receiveData (plainGetHead .http11), .nextEvent]).2

def answeringServer : Connection := (sendResponse plainOk askedServer).2

def answerWritten : List (Op × Outcome) × Connection :=
  Lib.trace (step Reference.httparse) answeringServer [.sendData (ascii "hi"), .sendData []]

def answerTrailers : Headers := Headers.new.push (ascii "X-Sum") (ascii "2")

def answerText : Bytes :=
  match (sendResponse plainOk askedServer).1, (endOfMessage answerTrailers answerWritten.2).1 with
  | .ok head, .ok last => head ++ (outputOf answerWritten.1 ++ last)
  | _, _ => []

def answerRead : List (Op × Outcome) × Connection :=
  Lib.trace (step Reference.httparse) askingClient [.receiveData (answerText.take 20), .nextEvent,
    .receiveData (answerText.drop 20), .nextEvent, .nextEvent, .nextEvent]

/-- Whether a call was a poll that waits. -/
def waitsForMore : Outcome → Bool
  | .polled .needData => true
  | _ => false

theorem askingClient_waits : Waits Reference.httparse .get askingClient := by
  refine ⟨by decide +kernel, ?_, by decide +kernel, by decide +kernel, by decide +kernel⟩
  obtain ⟨bytes, c, hsent⟩ := Lib.Call.exists_ok (sendRequest (plainGet .http11)) (new .client .default)
    (by decide +kernel)
  have hstep : step Reference.httparse (.sendRequest (plainGet .http11)) (new .client .default) = (.bytes bytes, c) := by
    show outcome _ (sendRequest (plainGet .http11) (new .client .default)) = _
    rw [hsent]
    rfl
  have hclient : askingClient = c := congrArg Prod.snd hsent
  rw [hclient]
  exact ⟨_, _, [], _, c, ⟨.client, .default, [], .start⟩, hstep, rfl, .start⟩

/-- The request that a poll has returned. -/
def returnedRequest : Except RemoteProtocolError NextEvent → Option Request
  | .ok (.event (.request request)) => some request
  | _ => none

theorem askedServer_serves : ∃ request, request.method = .get ∧ Serves Reference.httparse request askedServer := by
  have hreturns : ((returnedRequest (nextEvent Reference.httparse (step Reference.httparse
      (.receiveData (plainGetHead .http11)) (new .server .default)).2).1).map (·.method)) = some .get := by
    decide +kernel
  have hlast : askedServer = (nextEvent Reference.httparse (step Reference.httparse
      (.receiveData (plainGetHead .http11)) (new .server .default)).2).2 := pollOutcome_snd _
  rw [hlast]
  rcases hpoll : nextEvent Reference.httparse (step Reference.httparse
    (.receiveData (plainGetHead .http11)) (new .server .default)).2 with ⟨r, c⟩
  rw [hpoll] at hreturns
  obtain ⟨request, hrequest, hmethod⟩ := Option.map_eq_some_iff.mp hreturns
  have hr : r = .ok (.event (.request request)) := by
    unfold returnedRequest at hrequest
    split at hrequest
    next heq =>
      cases hrequest
      exact heq
    next => cases hrequest
  subst hr
  exact ⟨request, hmethod, [], _, c, hpoll, .start⟩

/-- The client reports the response, although its head comes in two segments. -/
theorem plain_response_round_trips : ∃ headers history next c,
    Lib.Run (step Reference.httparse) delivers askingClient (history ++ [(.nextEvent, .polled next)]) c ∧
    Reports plainOk (sentFields askedServer answeringServer plainOk headers) (ascii "hi") answerTrailers
      (eventsOf (history ++ [(.nextEvent, .polled next)])) ∧ c.trailingData.1 = [] := by
  obtain ⟨request, hmethod, hserves⟩ := askedServer_serves
  have hwaits : Waits Reference.httparse request.method askingClient := hmethod ▸ askingClient_waits
  obtain ⟨head, s1, hresponse⟩ := Lib.Call.exists_ok (sendResponse plainOk) askedServer (by decide +kernel)
  have hs1 : answeringServer = s1 := congrArg Prod.snd hresponse
  subst hs1
  have hwrites : Lib.Permitted (step Reference.httparse) (writesBody Reference.httparse) answeringServer
      [.sendData (ascii "hi"), .sendData []] := ⟨Or.inl ⟨_, rfl⟩, Or.inl ⟨_, rfl⟩, trivial⟩
  have hbody : Lib.Run (step Reference.httparse) (writesBody Reference.httparse) answeringServer answerWritten.1
      answerWritten.2 := Lib.Run.trace _ _ hwrites
  obtain ⟨last, s3, hend⟩ := Lib.Call.exists_ok (endOfMessage answerTrailers) answerWritten.2 (by decide +kernel)
  have htext : answerText = head ++ (outputOf answerWritten.1 ++ last) := by
    unfold answerText
    rw [hresponse, hend]
  have hfits : head.length ≤ askingClient.limits.maxHeadBytes := by
    have hall : answerText.length ≤ askingClient.limits.maxHeadBytes := by decide +kernel
    rw [htext, List.length_append] at hall
    omega
  have htunnel : askedServer.opensTunnel plainOk.status = false := by decide +kernel
  have hpermitted : Lib.Permitted (step Reference.httparse) delivers askingClient
      [.receiveData (answerText.take 20), .nextEvent, .receiveData (answerText.drop 20), .nextEvent, .nextEvent,
        .nextEvent] :=
    ⟨Or.inr (Or.inr ⟨_, rfl⟩), Or.inr (Or.inl rfl), Or.inr (Or.inr ⟨_, rfl⟩), Or.inr (Or.inl rfl), Or.inr (Or.inl rfl),
      Or.inr (Or.inl rfl), trivial⟩
  have hreads : Lib.Run (step Reference.httparse) delivers askingClient answerRead.1 answerRead.2 :=
    Lib.Run.trace _ _ hpermitted
  have hrun := hreads.step .nextEvent (Or.inr (Or.inl rfl))
  obtain ⟨hpassed, hrests, hpieces⟩ : passedBytes answerRead.1 = answerText ∧
      waitsForMore (step Reference.httparse .nextEvent answerRead.2).1 = true ∧
      (sentPieces answerWritten.1).flatten = ascii "hi" := by
    decide +kernel
  have hlast : (step Reference.httparse .nextEvent answerRead.2).1 = .polled .needData := by
    unfold waitsForMore at hrests
    split at hrests
    next heq => exact heq
    next => cases hrests
  rw [hlast] at hrun
  have hall : passedBytes (answerRead.1 ++ [((.nextEvent : Op), Outcome.polled .needData)]) ++ [] =
      head ++ (outputOf answerWritten.1 ++ last) := by
    rw [List.append_nil, passedBytes_append, hpassed, ← htext]
    exact List.append_nil _
  obtain ⟨framing, headers, hframed, hreports⟩ := responses_round_trip Reference.stable Reference.readsValid hwaits
    hserves hresponse htunnel hbody hend hfits
  have hfields : (sentFields askedServer answeringServer plainOk headers).iter.length ≤
      askingClient.limits.maxHeaderCount ∧ framing = .chunked := by
    cases hframed with
    | chunked => exact ⟨by decide +kernel, rfl⟩
    | bodyless hnone => exact absurd hnone (by decide +kernel)
    | resetLength _ hstatus => exact absurd hstatus (by decide)
    | resetDeclared _ hstatus => exact absurd hstatus (by decide)
    | closeDelimited _ _ _ hhttp => exact absurd hhttp (by decide +kernel)
    | declared _ _ hdeclared => exact absurd hdeclared (by decide +kernel)
  obtain ⟨hcount, rfl⟩ := hfields
  have hbodyFits : BodyFits askingClient.limits (sentPieces answerWritten.1) answerTrailers :=
    ⟨by decide +kernel, by decide +kernel, by decide +kernel⟩
  obtain ⟨hreported, hleft⟩ := ((hreports hcount (fun _ => hbodyFits) hrun hall fun _ => rfl).2 rfl nofun).2
    _ _ rfl (Or.inl rfl)
  rw [hpieces] at hreported
  exact ⟨headers, _, _, _, hrun, hreported, hleft⟩

end Connection

end H11r
