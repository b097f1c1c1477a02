import H11r.Connection.Complete
import H11r.Connection.Persistence

/-!
# The one answer to a peer that broke the protocol

A failed poll poisons the client, and a server that has not answered yet may
still tell it why. The error can strike before any request, inside a body, on a
reused connection or with a switch under negotiation. A response with no fields
of its own goes out from all of these: its framing is the server's choice, the
poisoned client has turned the keep-alive flag off, and so the head says
`close` (`sendResponse_answers`).

From then on the server is past its answer, and stays there whatever is called
(`State.hasAnswered`, `run_hasAnswered`): it ends the message, closes, and
answers nothing else.
-/

namespace H11r

/-- The client is poisoned, and the server has sent the head of its answer. -/
def ConnectionState.hasAnswered (s : ConnectionState) : Bool :=
  s.client == .error && (s.server == .sendBody || s.server == .mustClose || s.server == .closed)

/-- No step of the state machine takes the answer back. -/
theorem Move.hasAnswered {s s' : ConnectionState} (h : Move .client s s')
    (hs : s.hasAnswered = true) : s'.hasAnswered = true := by
  have hevent : ∀ (role : Role) (event : StateEvent) (s s' : ConnectionState),
      s.processEvent role event = some s' → s.hasAnswered = true → s'.hasAnswered = true := by
    decide +kernel
  have hother : ∀ s : ConnectionState, s.hasAnswered = true →
      s.disableKeepAlive.hasAnswered = true ∧ (s.processError .client).hasAnswered = true := by
    decide +kernel
  cases h with
  | event h => exact hevent _ _ _ _ h hs
  | disable => exact (hother s hs).1
  | poison => exact (hother s hs).2

namespace ConnectionState

/-- What is left to a server that has answered a poisoned client. -/
structure LastLaws : Prop where
  /-- A server past its answer cannot answer, and ends its message for good. -/
  events : ∀ s : ConnectionState, s.hasAnswered = true →
      s.processEvent .server .response = none ∧
      s.processEvent .server .informationalResponse = none ∧
      s.processEvent .server (.protocolSwitch .connect) = none ∧
      s.processEvent .server (.protocolSwitch .upgrade) = none ∧
      ∀ s', s.processEvent .server .endOfMessage = some s' → s'.server = .mustClose
  disable : ∀ (reason : Bool) (s : ConnectionState),
      s.hasAnswered = true → s.keepAlive = false →
        (s.disableKeepAliveIf reason).hasAnswered = true ∧
          (s.disableKeepAliveIf reason).keepAlive = false
  poison : ∀ (role : Role) (s : ConnectionState),
      (s.processError role).keepAlive = false

theorem lastLaws : LastLaws where
  events := by decide +kernel
  disable := by decide +kernel
  poison := by decide +kernel

/-- A server that has not answered can, and keep-alive stays off. -/
theorem response_poisoned : ∀ s : ConnectionState, s.client = .error → s.keepAlive = false →
    s.server = .idle ∨ s.server = .sendResponse →
      ∃ s', s.processEvent .server .response = some s' ∧ s'.hasAnswered = true ∧
        s'.keepAlive = false := by
  have hall : ∀ s : ConnectionState, s.client = .error → s.keepAlive = false →
      s.server = .idle ∨ s.server = .sendResponse →
        (s.processEvent .server .response).any
          (fun s' => s'.hasAnswered && !s'.keepAlive) = true := by
    decide +kernel
  intro s hclient hflag hserver
  obtain ⟨s', hs', hboth⟩ := (Option.any_eq_true ..).mp (hall s hclient hflag hserver)
  rw [Bool.and_eq_true, Bool.not_eq_true'] at hboth
  exact ⟨s', hs', hboth.1, hboth.2⟩

end ConnectionState

namespace Connection

open Lib (Call)

variable {hp : Httparse} {c c' : Connection} {response : Response}

/-! ## The answer -/

/-- A final response that only says what went wrong. -/
structure ErrorAnswer (response : Response) : Prop where
  status : 400 ≤ response.status.asU16
  upgrade : response.status.asU16 ≠ 426
  fields : response.headers.iter = []
  reason : validateReason response.reason = .ok ()

theorem scan_nil {headers : Headers} (h : headers.iter = []) : Fields.scan headers = Fields.new := by
  unfold Fields.scan
  rw [h]
  rfl

theorem getAll_nil {headers : Headers} (h : headers.iter = []) (name : Bytes) :
    headers.getAll name = [] := by
  unfold Headers.getAll
  rw [h]
  rfl

theorem ErrorAnswer.checked (h : ErrorAnswer response) (connect : Bool) :
    ResponseChecked response connect := by
  have hscan := scan_nil h.fields
  refine { headers := ?_, reason := h.reason, send := ?_, upgrade := ?_, unframed := ?_ }
  · refine validateHeaders_iff.mpr fun field hfield => ?_
    rw [h.fields] at hfield
    cases hfield
  · rw [hscan]
    rfl
  · exact fun h426 => h.upgrade h426.1
  · intro hframed
    rw [hscan] at hframed
    cases hframed.2

/-- An error status never opens a tunnel. -/
theorem ErrorAnswer.noTunnel (h : ErrorAnswer response) (c : Connection) :
    c.opensTunnel response.status = false := by
  have hstatus := h.status
  have hsuccess : response.status.isSuccess = false := by
    unfold StatusCode.isSuccess
    simp only [Bool.and_eq_false_iff, decide_eq_false_iff_not]
    omega
  unfold opensTunnel
  rw [hsuccess, Bool.and_false]

/-- Without fields of its own a response is framed by the server, in a way that
can be ended at once. -/
theorem ErrorAnswer.framing (h : ErrorAnswer response) (c : Connection) :
    ∃ framing headers last, c.responseFraming response = .ok (framing, headers) ∧
      EndFramed framing .new last := by
  have hscan := scan_nil h.fields
  have hstatus : response.status.asU16 ≠ 205 := by
    have := h.status
    omega
  have hstrips : c.stripsTransferEncoding response = false := by
    unfold stripsTransferEncoding
    rw [hscan]
    exact Bool.and_false _
  unfold responseFraming
  simp only [hstrips, hscan]
  cases hbody : c.responseHasNoBody response.status with
  | true => exact ⟨.fixed 0, _, [], rfl, .fixed rfl⟩
  | false =>
    cases hhttp : c.isHttp11 response.httpVersion with
    | true => exact ⟨.chunked, _, _, by simp [hstatus]; rfl, .chunked _⟩
    | false => exact ⟨.closeDelimited, _, [], by simp [hstatus]; rfl, .closeDelimited rfl⟩

/-- The connection value of a head whose fields have no Connection line. -/
theorem connectionValue_alone {headers : Headers} (h : headers.getAll (ascii "connection") = [])
    (option : Bytes) : connectionValue headers option = option := by
  unfold connectionValue otherConnectionOptions
  rw [h]
  exact List.append_nil _

/-- The answer goes out from every state in which the server has not answered,
and its head says `close`. -/
theorem sendResponse_answers (hrole : c.role = .server) (hclient : c.state.client = .error)
    (hflag : c.state.keepAlive = false)
    (hlocal : c.localState = .idle ∨ c.localState = .sendResponse) (h : ErrorAnswer response) :
    ∃ headers last c', sendResponse response c =
        (.ok (serializeResponse response.httpVersion response.status response.reason headers), c') ∧
      (ascii "Connection", ascii "close") ∈ headers.iter ∧ c'.role = .server ∧
      c'.state.hasAnswered = true ∧ ∃ c'', endOfMessage .new c' = (.ok last, c'') := by
  have htunnel := h.noTunnel c
  have hfinal : response.status.isInformational = false := by
    have := h.status
    exact decide_eq_false (by omega)
  obtain ⟨framing, headers, last, hframing, hends⟩ := h.framing c
  have hevent : c.finalResponseEvent response.status = .response := by
    unfold finalResponseEvent
    rw [htunnel]
    rfl
  have hserver : c.state.server = .idle ∨ c.state.server = .sendResponse := by
    unfold localState at hlocal
    rw [hrole] at hlocal
    exact hlocal
  obtain ⟨state, hstate, hanswered, hoff⟩ :=
    ConnectionState.response_poisoned c.state hclient hflag hserver
  have hsent := sendResponse_of hrole hfinal (h.checked _) hframing (by rw [hevent]; exact hstate)
  obtain ⟨hanswered', hoff'⟩ := ConnectionState.lastLaws.disable
    (c.closesFor response framing state) state hanswered hoff
  rw [← sentResponse_state response framing state hrole] at hanswered' hoff'
  have hrole' : (sentResponse response framing state c).role = .server := by
    rw [(sentResponse_sameOutside _ _ _ _).frame.role]
    exact hrole
  -- The flag is off, so the option is written.
  have hannounced : (sentResponse response framing state c).announcePersistence
      response.httpVersion headers = setConnectionOption headers (ascii "close") := by
    unfold announcePersistence
    rw [hoff']
    rfl
  rw [htunnel, hannounced] at hsent
  refine ⟨_, last, _, hsent, ?_, hrole', hanswered', ?_⟩
  · have hnone : headers.getAll (ascii "connection") = [] := by
      rw [(responseFraming_framed hframing).2.connection]
      exact getAll_nil h.fields _
    simp only [Bool.false_eq_true, if_false]
    rw [setConnectionOption_iter, connectionValue_alone hnone]
    exact List.mem_append_right _ (List.mem_singleton.mpr rfl)
  · obtain ⟨⟨written, hwriter⟩, hopen⟩ := sendResponse_opens hsent htunnel
    have hsame : written = framing := by
      rw [sentResponse_cycle, htunnel] at hwriter
      exact (Option.some.inj hwriter).symm
    subst hsame
    obtain ⟨ended, hended⟩ := Option.isSome_iff_exists.mp (processEvent_insideBody _ _ hopen).2
    exact ⟨_, endOfMessage_of rfl hwriter hends hended⟩

/-! ## Everything after it -/

/-- The calls that would answer again. -/
def answersAgain : Op × Outcome → Bool
  | (.sendResponse _, .bytes _) | (.sendInformationalResponse _, .bytes _)
  | (.sendResponseWithBody _ _, .bytes _) | (.sendResponseWithBodyFraming _ _, .around _ _)
  | (.startNextCycle, .unit) => true
  | _ => false

theorem sendResponse_hasAnswered {bytes : Bytes} (hanswered : c.state.hasAnswered = true) :
    sendResponse response c ≠ (.ok bytes, c') := by
  intro h
  obtain ⟨_, _, state, _, _, _, _, hstate, _⟩ := sendResponse_ok h
  obtain ⟨hresponse, _, hconnect, _⟩ := ConnectionState.lastLaws.events _ hanswered
  unfold finalResponseEvent at hstate
  split at hstate
  · cases hconnect.symm.trans hstate
  · cases hresponse.symm.trans hstate

theorem sendInformationalResponse_hasAnswered {bytes : Bytes}
    (hanswered : c.state.hasAnswered = true) :
    sendInformationalResponse response c ≠ (.ok bytes, c') := by
  intro h
  obtain ⟨event, state, _, _, _, _, _, hevent, hstate, _⟩ := sendInformationalResponse_ok h
  obtain ⟨_, hinformational, _, hupgrade, _⟩ := ConnectionState.lastLaws.events _ hanswered
  rcases informationalEvent_cases hevent with rfl | ⟨rfl, _⟩
  · cases hinformational.symm.trans hstate
  · cases hupgrade.symm.trans hstate

theorem sendResponseWithBodyFraming_hasAnswered {length : Nat} {parts : Bytes × Bytes}
    (hanswered : c.state.hasAnswered = true) :
    sendResponseWithBodyFraming response length c ≠ (.ok parts, c') := by
  intro h
  obtain ⟨_, _, hhead, _⟩ := sendResponseWithBodyFraming_ok h
  exact sendResponse_hasAnswered hanswered hhead

/-- A call that is refused for every value is not a success. -/
theorem outcome_not_answersAgain {α : Type} {value : α → Outcome} {call : LocalCall α} {op : Op}
    (hrefused : ∀ error, answersAgain (op, .refused error) = false)
    (h : ∀ a c', call c ≠ (.ok a, c')) : answersAgain (op, (outcome value (call c)).1) = false := by
  rcases hcall : call c with ⟨error | a, c'⟩
  · exact hrefused error
  · exact absurd hcall (h a c')

theorem step_not_answersAgain (hp : Httparse) (op : Op) (hrole : c.role = .server)
    (hanswered : c.state.hasAnswered = true) :
    answersAgain (op, (step hp op c).1) = false := by
  cases op with
  | sendResponse response =>
    exact outcome_not_answersAgain (fun _ => rfl) fun _ _ => sendResponse_hasAnswered hanswered
  | sendInformationalResponse response =>
    exact outcome_not_answersAgain (fun _ => rfl) fun _ _ =>
      sendInformationalResponse_hasAnswered hanswered
  | sendResponseWithBody response body =>
    refine outcome_not_answersAgain (fun _ => rfl) fun _ _ h => ?_
    obtain ⟨_, hframing, _⟩ := sendResponseWithBody_ok h
    exact sendResponseWithBodyFraming_hasAnswered hanswered hframing
  | sendResponseWithBodyFraming response length =>
    exact outcome_not_answersAgain (fun _ => rfl) fun _ _ =>
      sendResponseWithBodyFraming_hasAnswered hanswered
  | startNextCycle =>
    have hclient : c.peerState = .error := by
      unfold ConnectionState.hasAnswered at hanswered
      rw [Bool.and_eq_true, beq_iff_eq] at hanswered
      unfold peerState
      rw [hrole]
      exact hanswered.1
    obtain ⟨error, hrefused⟩ := startNextCycle_poisoned hclient
    refine outcome_not_answersAgain (fun _ => rfl) fun _ _ h => ?_
    rw [hrefused] at h
    cases h
  | _ => rfl

/-- A server past its answer stays there, and answers nothing else. -/
theorem run_hasAnswered {after : List (Op × Outcome)} (h : Lib.Run (step hp) anyCall c after c')
    (hrole : c.role = .server) (hanswered : c.state.hasAnswered = true) :
    (c'.role = .server ∧ c'.state.hasAnswered = true) ∧
      ∀ entry ∈ after, answersAgain entry = false := by
  have hstep : ∀ (later : Connection) (op : Op),
      later.role = .server ∧ later.state.hasAnswered = true →
        (step hp op later).2.role = .server ∧ (step hp op later).2.state.hasAnswered = true := by
    intro later op hlater
    refine ⟨(step_role hp op later).trans hlater.1, ?_⟩
    have hquiet := step_not_answersAgain hp op hlater.1 hlater.2
    have hcycle : startsCycle (op, (step hp op later).1) = false := by
      cases hstarts : startsCycle (op, (step hp op later).1) with
      | false => rfl
      | true =>
        unfold startsCycle at hstarts
        split at hstarts
        next heq =>
          rw [heq] at hquiet
          cases hquiet
        next => cases hstarts
    have hmoves := step_moves hcycle
    rw [hlater.1] at hmoves
    exact Lib.preserve (P := fun s => s.hasAnswered = true)
      (fun _ _ hmove hs => hmove.hasAnswered hs) hmoves hlater.2
  constructor
  · exact Lib.Run.invariant (P := fun c => c.role = .server ∧ c.state.hasAnswered = true)
      ⟨hrole, hanswered⟩ (fun later op hlater _ => hstep later op hlater) h
  · exact Lib.Run.entries (P := fun c => c.role = .server ∧ c.state.hasAnswered = true)
      ⟨hrole, hanswered⟩ (fun later op hlater _ => hstep later op hlater)
      (fun later op hlater _ => step_not_answersAgain hp op hlater.1 hlater.2) h

/-- A failed poll turns the keep-alive flag off. -/
theorem nextEvent_failed_flag {error : RemoteProtocolError}
    (h : nextEvent hp c = (.error error, c')) : c'.state.keepAlive = false := by
  unfold nextEvent at h
  rcases hinner : nextEventInner hp c with ⟨failure | polled, c1⟩
  · rw [hinner] at h
    cases h
    exact ConnectionState.lastLaws.poison _ _
  · rw [hinner] at h
    cases polled <;> cases h

/-- In every run of a server and at every failed poll before its answer, an
error response without fields goes out and says `close`. Nothing that is called
later answers again or starts another cycle, and the end of the message leaves
the server with nothing to do but close. -/
theorem broken_peer_is_answered_once {limits : Limits} {history : List (Op × Outcome)}
    {error : RemoteProtocolError} (hrun : Run hp anyCall .server limits history c)
    (hpoll : nextEvent hp c = (.error error, c'))
    (hlocal : c'.localState = .idle ∨ c'.localState = .sendResponse)
    (hanswer : ErrorAnswer response) :
    ∃ headers last c1, sendResponse response c' =
        (.ok (serializeResponse response.httpVersion response.status response.reason headers), c1) ∧
      (ascii "Connection", ascii "close") ∈ headers.iter ∧
      (∃ c2, endOfMessage .new c1 = (.ok last, c2)) ∧
      ∀ after c2, Lib.Run (step hp) anyCall c1 after c2 →
        (∀ entry ∈ after, answersAgain entry = false) ∧
        ∀ trailers bytes c3, endOfMessage trailers c2 = (.ok bytes, c3) →
          c3.localState = .mustClose := by
  have hrole : c'.role = .server := by
    have hframe := nextEvent_frame hp c
    rw [hpoll] at hframe
    exact hframe.role.trans (run_role hrun)
  have hclient : c'.state.client = .error := by
    have hpeer := nextEvent_failed hpoll
    unfold peerState at hpeer
    rw [hrole] at hpeer
    exact hpeer
  obtain ⟨headers, last, c1, hsent, hclose, hrole1, hanswered, hends⟩ :=
    sendResponse_answers hrole hclient (nextEvent_failed_flag hpoll) hlocal hanswer
  refine ⟨headers, last, c1, hsent, hclose, hends, fun after c2 hafter => ?_⟩
  obtain ⟨⟨hrole2, hanswered2⟩, hentries⟩ := run_hasAnswered hafter hrole1 hanswered
  refine ⟨hentries, fun trailers bytes c3 hend => ?_⟩
  obtain ⟨_, state, _, _, _, hstate, rfl⟩ := endOfMessage_ok hend
  rw [hrole2] at hstate
  obtain ⟨_, _, _, _, hended⟩ := ConnectionState.lastLaws.events _ hanswered2
  change state.state c2.role = .mustClose
  rw [hrole2]
  exact hended state hstate

/-- A server answers a malformed request line. -/
theorem malformed_request_is_answered :
    ∃ history c error c' headers c1,
      Run Reference.httparse anyCall .server .default history c ∧
      nextEvent Reference.httparse c = (.error error, c') ∧
      sendResponse ⟨⟨400, by decide⟩, ascii "Bad Request", .new, .http11⟩ c' =
        (.ok (serializeResponse .http11 ⟨400, by decide⟩ (ascii "Bad Request") headers), c1) ∧
      (ascii "Connection", ascii "close") ∈ headers.iter := by
  have hrun : Run Reference.httparse anyCall .server .default _ _ :=
    Lib.Run.trace_of_forall _ [.receiveData (ascii "GET" ++ crlf ++ crlf)] fun _ _ => trivial
  have hfails : (nextEvent Reference.httparse (Lib.trace (step Reference.httparse)
      (new .server .default) [.receiveData (ascii "GET" ++ crlf ++ crlf)]).2).1.isOk = false ∧
      (nextEvent Reference.httparse (Lib.trace (step Reference.httparse) (new .server .default)
        [.receiveData (ascii "GET" ++ crlf ++ crlf)]).2).2.localState = .idle := by
    decide +kernel
  generalize hc : (Lib.trace (step Reference.httparse) (new .server .default)
    [.receiveData (ascii "GET" ++ crlf ++ crlf)]).2 = c at hrun hfails
  rcases hpoll : nextEvent Reference.httparse c with ⟨error | next, c'⟩
  · rw [hpoll] at hfails
    have hanswer : ErrorAnswer ⟨⟨400, by decide⟩, ascii "Bad Request", .new, .http11⟩ :=
      ⟨by decide, by decide, rfl, rfl⟩
    obtain ⟨headers, _, c1, hsent, hclose, _⟩ :=
      broken_peer_is_answered_once hrun hpoll (Or.inl hfails.2) hanswer
    exact ⟨_, c, error, c', headers, c1, hrun, hpoll, hsent, hclose⟩
  · rw [hpoll] at hfails
    cases hfails.1

end Connection

end H11r
