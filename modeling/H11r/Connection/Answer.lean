import H11r.Connection.Reuse
import H11r.Connection.Stream

/-!
# A response answers the request before it

On a client the server actor is expected to answer (`Answering`) from a
request head that went out until the response is complete. The decoder yields
a response head only then, and at a successful `send_request` the buffer is
empty, so whatever the decoder reads afterwards was passed in afterwards
(`Answered`).

Two guards of the source make this work together: `send_request` refuses a
non-empty buffer, and `accept_response` refuses a head while the client is
idle. The second is enough because an idle server actor means an idle client
(`ServerLeads`).
-/

namespace H11r

namespace ConnectionState

/-- The server is expected to answer, or is answering. -/
def answering (s : ConnectionState) : Bool := s.server == .sendResponse || s.server == .sendBody

/-- Nothing in the step makes the server answer a request. -/
def Quieter (s s' : ConnectionState) : Prop :=
  (s'.answering = true → s.answering = true) ∧
    (s'.server = .sendResponse → s.server = .sendResponse)

instance (s s' : ConnectionState) : Decidable (Quieter s s') := inferInstanceAs (Decidable (_ ∧ _))

theorem Quieter.refl (s : ConnectionState) : Quieter s s := ⟨id, id⟩

theorem Quieter.trans {s s' s'' : ConnectionState} (h : Quieter s s') (h' : Quieter s' s'') :
    Quieter s s'' :=
  ⟨fun ha => h.1 (h'.1 ha), fun ha => h.2 (h'.2 ha)⟩

/-- An event that begins a request, or a response nobody asked for. -/
def begins (s : ConnectionState) : StateEvent → Bool
  | .request _ => true
  | .response => s.server == .idle
  | _ => false

/-- What the steps of the state machine do to the answer that is expected. -/
structure AnswerLaws : Prop where
  event : ∀ (role : Role) (event : StateEvent) (s : ConnectionState),
      s.begins event = false → ∀ s', s.processEvent role event = some s' → Quieter s s'
  disable : ∀ s : ConnectionState, Quieter s s.disableKeepAlive
  /-- A final response is the end of the wait for one. -/
  final : ∀ event, event = .response ∨ event = .protocolSwitch .connect →
      ∀ (s s' : ConnectionState), s.processEvent .server event = some s' →
        s'.server ≠ .sendResponse
  /-- An answer comes from a server that was asked. -/
  asked : ∀ event, event = .informationalResponse ∨ event = .response ∨
        event = .protocolSwitch .upgrade ∨ event = .protocolSwitch .connect →
      ∀ s : ConnectionState, s.begins event = false → ∀ s', s.processEvent .server event = some s' →
        s.server = .sendResponse
  idle : ∀ s : ConnectionState, s.client = .idle ∧ s.server = .idle →
      s.disableKeepAlive.client = .idle ∧ s.disableKeepAlive.server = .idle

theorem answerLaws : AnswerLaws where
  event := by decide +kernel
  disable := by decide +kernel
  final := by decide +kernel
  asked := by decide +kernel
  idle := by decide +kernel

theorem disableKeepAliveIf_quieter (reason : Bool) (s : ConnectionState) :
    Quieter s (s.disableKeepAliveIf reason) := by
  cases reason with
  | false => exact .refl s
  | true => exact answerLaws.disable s

/-- A server that has begun nothing has no request to answer. -/
def serverLeads (s : ConnectionState) : Bool := s.server != .idle || s.client == .idle

theorem disableKeepAlive_serverLeads : ∀ s : ConnectionState, s.serverLeads = true →
    s.disableKeepAlive.serverLeads = true := by
  decide +kernel

end ConnectionState

namespace Connection

variable {hp : Httparse} {c c' : Connection}

/-! ## An idle server means an idle client -/

theorem move_serverLeads {s s' : ConnectionState} (h : Move .server s s')
    (hs : s.serverLeads = true) : s'.serverLeads = true := by
  have hevent : ∀ (role : Role) (event : StateEvent) (s : ConnectionState),
      s.serverLeads = true → ∀ s', s.processEvent role event = some s' →
        s'.serverLeads = true := by
    decide +kernel
  have herror : ∀ s : ConnectionState, (s.processError .server).serverLeads = true := by
    decide +kernel
  cases h with
  | event h => exact hevent _ _ s hs s' h
  | disable => exact ConnectionState.disableKeepAlive_serverLeads s hs
  | poison => exact herror s

/-- On a client, a server actor that has begun nothing has nothing to answer. -/
def ServerLeads (c : Connection) : Prop := c.role = .client → c.state.serverLeads = true

instance decidableServerLeads (c : Connection) : Decidable c.ServerLeads :=
  inferInstanceAs (Decidable (_ → _))

theorem step_serverLeads (op : Op) (hc : c.ServerLeads) : (step hp op c).2.ServerLeads := by
  intro hclient
  rw [step_role] at hclient
  cases hcycle : startsCycle (op, (step hp op c).1) with
  | false =>
    have hmoves := step_moves hcycle
    rw [hclient] at hmoves
    exact Lib.preserve (P := fun s => s.serverLeads = true) (fun _ _ => move_serverLeads) hmoves
      (hc hclient)
  | true =>
    obtain ⟨state, hstate, hafter⟩ := step_startsCycle hcycle
    rw [hafter, (ConnectionState.bodyLaws.cycle _ _ hstate).2.2.2]
    rfl

/-! ## What a call does to the expected answer -/

theorem disableKeepAliveIf_serverLeads {s : ConnectionState} (reason : Bool)
    (h : s.serverLeads = true) : (s.disableKeepAliveIf reason).serverLeads = true := by
  cases reason with
  | false => exact h
  | true => exact ConnectionState.disableKeepAlive_serverLeads s h

/-- A final response to a client that has sent something is not unasked for. -/
theorem final_not_begins {dropped : Bool} (hclient : c.role = .client)
    (hleads : c.state.serverLeads = true) (hlocal : (c.disableKeepAliveIf dropped).localState ≠ .idle)
    (status : StatusCode) :
    (c.state.disableKeepAliveIf dropped).begins (c.finalResponseEvent status) = false := by
  unfold finalResponseEvent
  split
  · rfl
  · have hdropped := disableKeepAliveIf_serverLeads dropped hleads
    unfold localState at hlocal
    rw [disableKeepAliveIf_role, disableKeepAliveIf_state, hclient] at hlocal
    have hclient : (c.state.disableKeepAliveIf dropped).client ≠ .idle := hlocal
    show ((c.state.disableKeepAliveIf dropped).server == .idle) = false
    rw [beq_eq_false_iff_ne]
    intro hserver
    unfold ConnectionState.serverLeads at hdropped
    rw [hserver] at hdropped
    exact hclient (by simpa using hdropped)

theorem Turn.quieter {polled : Option Polled} (h : Turn hp c (.ok polled) c')
    (hclient : c.role = .client) (hleads : c.state.serverLeads = true) :
    ConnectionState.Quieter c.state c'.state := by
  have hpeer : c.role.peer = .server := by
    rw [hclient]
    rfl
  cases h with
  | closed | paused | doneWaits | waits | sizeLine | dataEnd => exact .refl _
  | idleClosed _ _ _ _ hstate =>
    exact ConnectionState.answerLaws.event _ _ _ rfl _ hstate
  | doneClosed _ _ _ hstate => exact ConnectionState.answerLaws.event _ _ _ rfl _ hstate
  | request _ _ hrole =>
    rw [hclient] at hrole
    cases hrole
  | @informational stop response dropped event state _ _ _ _ _ _ hevent hstate =>
    rw [acceptedInformational_state]
    rw [disableKeepAliveIf_state] at hstate
    have hbegins : (c.state.disableKeepAliveIf dropped).begins event = false := by
      unfold informationalEvent at hevent
      split at hevent
      · cases hevent
        rfl
      · split at hevent <;> cases hevent
        rfl
    exact ((ConnectionState.disableKeepAliveIf_quieter _ _).trans
      (ConnectionState.answerLaws.event _ _ _ hbegins _ hstate)).trans
      (ConnectionState.disableKeepAliveIf_quieter _ _)
  | @final stop response dropped framing state _ _ _ _ hlocal _ hstate _ =>
    rw [acceptedFinal_state]
    rw [disableKeepAliveIf_state] at hstate
    have hbegins : (c.state.disableKeepAliveIf dropped).begins
        (c.finalResponseEvent response.status) = false :=
      final_not_begins hclient hleads hlocal _
    exact ((((ConnectionState.disableKeepAliveIf_quieter _ _).trans
      (ConnectionState.answerLaws.event _ _ _ hbegins _ hstate)).trans
      (ConnectionState.disableKeepAliveIf_quieter _ _)).trans
      (ConnectionState.disableKeepAliveIf_quieter _ _)).trans
      (ConnectionState.disableKeepAliveIf_quieter _ _)
  | payload _ _ _ hstate => exact ConnectionState.answerLaws.event _ _ _ rfl _ hstate
  | ends _ _ hstate => exact ConnectionState.answerLaws.event _ _ _ rfl _ hstate
  | trailers _ _ _ hstate => exact ConnectionState.answerLaws.event _ _ _ rfl _ hstate

theorem Turn.failed_quieter {error : RemoteProtocolError} (h : Turn hp c (.error error) c')
    (hclient : c.role = .client) :
    ConnectionState.Quieter c.state (c'.state.processError c'.role.peer) := by
  have hpoisoned : (c'.state.processError c'.role.peer).server = .error := by
    rw [h.frame.role, hclient]
    exact ConnectionState.processError_state .server c'.state
  constructor
  · intro hanswering
    unfold ConnectionState.answering at hanswering
    rw [hpoisoned] at hanswering
    cases hanswering
  · intro hserver
    rw [hpoisoned] at hserver
    cases hserver

/-- A poll never makes the server answer a request it was not asked. -/
theorem nextEvent_quieter (hclient : c.role = .client) (hleads : c.state.serverLeads = true) :
    ConnectionState.Quieter c.state (nextEvent hp c).2.state := by
  have hturns : ∀ {c c' r}, Turns hp c r c' → c.role = .client → c.state.serverLeads = true →
      match r with
      | .ok _ => ConnectionState.Quieter c.state c'.state
      | .error _ => ConnectionState.Quieter c.state (c'.state.processError c'.role.peer) := by
    intro c c' r h hclient hleads
    induction h with
    | @last _ _ r h =>
      cases r with
      | ok polled => exact h.quieter hclient hleads
      | error error => exact h.failed_quieter hclient
    | again h _ ih =>
      rw [← h.again_state] at hleads ⊢
      exact ih (h.frame.role.trans hclient) hleads
  unfold nextEvent
  rcases h : nextEventInner hp c with ⟨error | polled, c'⟩
  · exact hturns (nextEventInner_turns h) hclient hleads
  · have hafter : ConnectionState.Quieter c.state c'.state :=
      hturns (nextEventInner_turns h) hclient hleads
    cases polled <;> exact hafter

/-! ## The history of a client -/

/-- The call sent a request head. -/
def sendsRequestHead : Op × Outcome → Bool
  | (.sendRequest _, .bytes _) | (.sendRequestWithBody _ _, .bytes _)
  | (.sendRequestWithBodyFraming _ _, .around _ _) => true
  | _ => false

/-- The call decoded a final response head. -/
def decodesResponse : Op × Outcome → Bool
  | (.nextEvent, .polled (.event (.response _))) => true
  | _ => false

theorem nextEvent_of_decodesResponse {hp : Httparse} {c : Connection}
    (h : decodesResponse (.nextEvent, (step hp .nextEvent c).1) = true) :
    ∃ c' response, nextEvent hp c = (.ok (.event (.response response)), c') := by
  change decodesResponse (.nextEvent, (pollOutcome (nextEvent hp c)).1) = true at h
  generalize nextEvent hp c = result at h ⊢
  obtain ⟨error | next, c'⟩ := result
  · cases h
  · cases next with
    | event event =>
      cases event with
      | response response => exact ⟨c', response, rfl⟩
      | _ => cases h
    | _ => cases h

/-- The bytes that the calls of a history passed to `receive_data`. -/
def passedBytes (history : List (Op × Outcome)) : Bytes :=
  history.flatMap fun entry =>
    match entry with
    | (.receiveData data, .unit) => data
    | _ => []

theorem passedBytes_append (before after : List (Op × Outcome)) :
    passedBytes (before ++ after) = passedBytes before ++ passedBytes after :=
  List.flatMap_append

/-- A request head goes out with nothing in the buffer. -/
theorem step_sendsRequestHead {op : Op} (h : sendsRequestHead (op, (step hp op c).1) = true) :
    (step hp op c).2.input.asSlice = [] := by
  have hhead : ∀ {request bytes c1}, sendRequest request c = (.ok bytes, c1) →
      c.input.asSlice = [] := by
    intro request bytes c1 hok
    obtain ⟨_, _, _, _, hinput, _, _, _, _⟩ := sendRequest_ok hok
    exact hinput
  cases op with
  | sendRequest request =>
    rw [(step_sameOutside rfl c).input]
    change sendsRequestHead (_, (outcome _ (sendRequest request c)).1) = true at h
    rcases hcall : sendRequest request c with ⟨error | bytes, c'⟩
    · rw [hcall] at h
      cases h
    · exact hhead hcall
  | sendRequestWithBody request body =>
    rw [(step_sameOutside rfl c).input]
    change sendsRequestHead (_, (outcome _ (sendRequestWithBody request body c)).1) = true at h
    rcases hcall : sendRequestWithBody request body c with ⟨error | bytes, c'⟩
    · rw [hcall] at h
      cases h
    · obtain ⟨parts, hframing, _⟩ := sendRequestWithBody_ok hcall
      obtain ⟨before, c1, hok, _⟩ := sendRequestWithBodyFraming_ok hframing
      exact hhead hok
  | sendRequestWithBodyFraming request length =>
    rw [(step_sameOutside rfl c).input]
    change sendsRequestHead (_, (outcome _ (sendRequestWithBodyFraming request length c)).1) = true
      at h
    rcases hcall : sendRequestWithBodyFraming request length c with ⟨error | parts, c'⟩
    · rw [hcall] at h
      cases h
    · obtain ⟨before, c1, hok, _⟩ := sendRequestWithBodyFraming_ok hcall
      exact hhead hok
  | _ => cases h

/-- A call that sends no request head makes no server answer. -/
theorem step_quieter {op : Op} (hclient : c.role = .client) (hleads : c.state.serverLeads = true)
    (h : sendsRequestHead (op, (step hp op c).1) = false) :
    ConnectionState.Quieter c.state (step hp op c).2.state := by
  have hrefused : ∀ {α : Type} {value : α → Outcome} {call : LocalCall α},
      Lib.Call.Atomic call → (∀ a c', call c ≠ (.ok a, c')) →
      ConnectionState.Quieter c.state (outcome value (call c)).2.state := by
    intro α value call hatomic hfails
    rcases hcall : call c with ⟨error | a, c'⟩
    · have hsame : c' = c := hatomic _ _ _ hcall
      subst hsame
      exact .refl _
    · exact absurd hcall (hfails a c')
  have hserver : ∀ {response bytes c'}, sendResponse response c ≠ (.ok bytes, c') := by
    intro response bytes c' hok
    obtain ⟨_, _, _, hrole, _⟩ := sendResponse_ok hok
    rw [hclient] at hrole
    cases hrole
  cases op with
  | lenient => exact .refl _
  | receiveData data =>
    show ConnectionState.Quieter c.state (outcome _ (receiveData data c)).2.state
    rw [outcome_snd]
    unfold receiveData
    rw [Lib.Call.get_bind, Lib.Call.failIf_bind]
    split
    · exact .refl _
    · split
      · show ConnectionState.Quieter c.state (recordEof c).state
        unfold recordEof
        rw [disableKeepAliveIf_state]
        exact ConnectionState.disableKeepAliveIf_quieter _ _
      · exact .refl _
  | holdBodyData count =>
    show ConnectionState.Quieter c.state (holdBodyData count c).2.state
    unfold holdBodyData
    split <;> exact .refl _
  | nextEventInPlace count =>
    show ConnectionState.Quieter c.state (outcome _ (nextEventInPlace count c)).2.state
    rw [outcome_snd]
    rcases hcall : nextEventInPlace count c with ⟨r, c'⟩
    rcases nextEventInPlace_cases hcall with ⟨state, _, _, hstate, _, rfl⟩ | ⟨_, _, _, rfl⟩ |
      ⟨_, _, _, _, _, rfl⟩
    · exact ConnectionState.answerLaws.event _ _ _ rfl _ hstate
    · exact .refl _
    · rw [advancePayload_state]
      exact .refl _
  | nextEvent =>
    show ConnectionState.Quieter c.state (pollOutcome (nextEvent hp c)).2.state
    rw [pollOutcome_snd]
    exact nextEvent_quieter hclient hleads
  | startNextCycle =>
    show ConnectionState.Quieter c.state (outcome _ (startNextCycle c)).2.state
    rw [outcome_snd]
    rcases hcall : startNextCycle c with ⟨r, c'⟩
    rcases startNextCycle_cases hcall with ⟨state, _, hstate, rfl⟩ | ⟨_, _, _, _, _, rfl⟩ |
      ⟨_, _, rfl⟩
    · rw [(ConnectionState.bodyLaws.cycle _ _ hstate).2.2.2]
      constructor <;> intro hnew <;> cases hnew
    · exact ConnectionState.answerLaws.disable _
    · exact .refl _
  | sendRequest request =>
    refine hrefused (sendRequest_atomic request) fun a c' hok => ?_
    change sendsRequestHead (_, (outcome _ (sendRequest request c)).1) = false at h
    rw [hok] at h
    cases h
  | sendRequestWithBody request body =>
    refine hrefused (sendRequestWithBody_atomic request body) fun a c' hok => ?_
    change sendsRequestHead (_, (outcome _ (sendRequestWithBody request body c)).1) = false at h
    rw [hok] at h
    cases h
  | sendRequestWithBodyFraming request length =>
    refine hrefused (sendRequestWithBodyFraming_atomic request length) fun a c' hok => ?_
    change sendsRequestHead (_, (outcome _ (sendRequestWithBodyFraming request length c)).1) =
      false at h
    rw [hok] at h
    cases h
  | sendInformationalResponse response =>
    refine hrefused (sendInformationalResponse_atomic response) fun a c' hok => ?_
    obtain ⟨_, _, hrole, _⟩ := sendInformationalResponse_ok hok
    rw [hclient] at hrole
    cases hrole
  | sendResponse response => exact hrefused (sendResponse_atomic response) fun _ _ => hserver
  | sendResponseWithBody response body =>
    refine hrefused (sendResponseWithBody_atomic response body) fun a c' hok => ?_
    obtain ⟨parts, hframing, _⟩ := sendResponseWithBody_ok hok
    obtain ⟨_, _, hhead, _⟩ := sendResponseWithBodyFraming_ok hframing
    exact hserver hhead
  | sendResponseWithBodyFraming response length =>
    refine hrefused (sendResponseWithBodyFraming_atomic response length) fun a c' hok => ?_
    obtain ⟨_, _, hhead, _⟩ := sendResponseWithBodyFraming_ok hok
    exact hserver hhead
  | sendData data =>
    show ConnectionState.Quieter c.state (outcome _ (sendData data c)).2.state
    rcases hcall : sendData data c with ⟨error | bytes, c'⟩
    · rw [outcome_snd, sendData_atomic _ _ _ _ hcall]
      exact .refl _
    · obtain ⟨_, hframing, _⟩ := sendData_ok hcall
      obtain ⟨_, _, state, _, _, hstate, rfl⟩ := sendDataFraming_ok hframing
      exact ConnectionState.answerLaws.event _ _ _ rfl _ hstate
  | sendDataFraming length =>
    show ConnectionState.Quieter c.state (outcome _ (sendDataFraming length c)).2.state
    rcases hcall : sendDataFraming length c with ⟨error | bytes, c'⟩
    · rw [outcome_snd, sendDataFraming_atomic _ _ _ _ hcall]
      exact .refl _
    · obtain ⟨_, _, state, _, _, hstate, rfl⟩ := sendDataFraming_ok hcall
      exact ConnectionState.answerLaws.event _ _ _ rfl _ hstate
  | endOfMessage trailers =>
    show ConnectionState.Quieter c.state (outcome _ (endOfMessage trailers c)).2.state
    rcases hcall : endOfMessage trailers c with ⟨error | bytes, c'⟩
    · rw [outcome_snd, endOfMessage_atomic _ _ _ _ hcall]
      exact .refl _
    · obtain ⟨_, state, _, _, _, hstate, rfl⟩ := endOfMessage_ok hcall
      exact ConnectionState.answerLaws.event _ _ _ rfl _ hstate
  | close =>
    show ConnectionState.Quieter c.state (outcome _ (close c)).2.state
    rcases hcall : close c with ⟨error | u, c'⟩
    · rw [outcome_snd, close_atomic _ _ _ hcall]
      exact .refl _
    · obtain ⟨state, hstate, rfl⟩ := close_ok hcall
      exact ConnectionState.answerLaws.event _ _ _ rfl _ hstate

/-- A call adds what it passes in at the end of the buffer and takes from its
front. -/
theorem step_input (hp : Httparse) (op : Op) (c : Connection) : ∃ count,
    (step hp op c).2.input.asSlice =
      (c.input.asSlice ++ passedBytes [(op, (step hp op c).1)]).drop count := by
  cases op with
  | receiveData data =>
    change ∃ count, (outcome _ (receiveData data c)).2.input.asSlice =
      (c.input.asSlice ++ passedBytes [(_, (outcome _ (receiveData data c)).1)]).drop count
    rcases hcall : receiveData data c with ⟨error | u, c'⟩
    · refine ⟨0, ?_⟩
      have hsame : c' = c := receiveData_atomic _ _ _ _ hcall
      subst hsame
      exact (List.append_nil _).symm
    · refine ⟨0, ?_⟩
      have hafter := receiveData_ok hcall
      show c'.input.asSlice = c.input.asSlice ++ (data ++ [])
      rw [hafter.1, List.append_nil]
  | nextEvent =>
    change ∃ count, (pollOutcome (nextEvent hp c)).2.input.asSlice =
      (c.input.asSlice ++ passedBytes [(.nextEvent, (pollOutcome (nextEvent hp c)).1)]).drop count
    rw [pollOutcome_snd]
    rcases hcall : nextEvent hp c with ⟨r, c'⟩
    obtain ⟨count, ⟨_, hinput⟩, _, _⟩ := nextEvent_input hcall
    exact ⟨count, by rw [hinput]; exact congrArg _ (List.append_nil _).symm⟩
  | holdBodyData count =>
    refine ⟨0, ?_⟩
    show (holdBodyData count c).2.input.asSlice = _ ++ []
    unfold holdBodyData
    split <;> exact (List.append_nil _).symm
  | nextEventInPlace count =>
    refine ⟨0, ?_⟩
    show (outcome _ (nextEventInPlace count c)).2.input.asSlice = c.input.asSlice ++ []
    rw [outcome_snd, List.append_nil]
    rcases hcall : nextEventInPlace count c with ⟨r, c'⟩
    rcases nextEventInPlace_cases hcall with ⟨state, _, _, _, _, rfl⟩ | ⟨_, _, _, rfl⟩ |
      ⟨_, _, _, _, _, rfl⟩
    · show (c.advancePayload count).2.input.asSlice = _
      rw [advancePayload_input]
    · rfl
    · rw [advancePayload_input]
  | _ =>
    refine ⟨0, ?_⟩
    rw [(step_quiet rfl c).1]
    exact (List.append_nil _).symm

/-! ## Response heads -/

/-- A response head that a poll of a client decoded: where it stood in the
buffer, and that the server had been asked for it. -/
theorem nextEvent_head {event : Event} {response : Response} (hclient : c.role = .client)
    (hleads : c.state.serverLeads = true)
    (hevent : event = .informationalResponse response ∨ event = .response response)
    (h : nextEvent hp c = (.ok (.event event), c')) :
    c.state.server = .sendResponse ∧ ∃ stop dropped, stop ≤ c.input.asSlice.length ∧
      c'.input.asSlice = c.input.asSlice.drop stop ∧
      parseResponseHead hp c.headSection c.limits.maxHeaderCount c.lenient =
        .ok (some (stop, response, dropped)) := by
  unfold nextEvent at h
  rcases hinner : nextEventInner hp c with ⟨error | polled, c1⟩
  · rw [hinner] at h
    cases h
  rw [hinner] at h
  cases polled with
  | data => rcases hevent with rfl | rfl <;> cases h
  | needData => cases h
  | paused => cases h
  | event reported =>
    cases h
    obtain ⟨c2, _, _, hfirst, hturn⟩ := (nextEventInner_turns hinner).last_turn
    have hasked : ∀ {dropped event state}, (c.state.disableKeepAliveIf dropped).begins event = false →
        (event = .informationalResponse ∨ event = .response ∨
          event = .protocolSwitch .upgrade ∨ event = .protocolSwitch .connect) →
        (c.state.disableKeepAliveIf dropped).processEvent .server event = some state →
        c.state.server = .sendResponse := by
      intro dropped event state hbegins hkind hstate
      exact (ConnectionState.disableKeepAliveIf_quieter _ _).2
        (ConnectionState.answerLaws.asked _ hkind _ hbegins _ hstate)
    rcases hevent with rfl | rfl
    · cases hturn with
      | @informational stop _ dropped stateEvent state _ hreader _ hparse _ _ hstateEvent hstate =>
        rcases hfirst with rfl | ⟨chunk, hchunk⟩
        · rw [disableKeepAliveIf_state] at hstate
          have hkind : stateEvent = .informationalResponse ∨
              stateEvent = .protocolSwitch .upgrade := by
            unfold informationalEvent at hstateEvent
            split at hstateEvent
            · cases hstateEvent
              exact Or.inl rfl
            · split at hstateEvent <;> cases hstateEvent
              exact Or.inr rfl
          refine ⟨?_, stop, dropped,
            Nat.le_trans (parseResponseHead_le hparse) (headSection_le c2), ?_, hparse⟩
          · rcases hkind with rfl | rfl
            · exact hasked rfl (Or.inl rfl) hstate
            · exact hasked rfl (Or.inr (Or.inr (Or.inl rfl))) hstate
          · unfold acceptedInformational recordInformational
            simp only [disableKeepAliveIf_eq]
            split <;> exact Buffer.asSlice_consume _ _
        · rw [hreader] at hchunk
          cases hchunk
    · cases hturn with
      | @final stop _ dropped framing state _ hreader _ hparse hlocal _ hstate _ =>
        rcases hfirst with rfl | ⟨chunk, hchunk⟩
        · rw [disableKeepAliveIf_state] at hstate
          have hbegins := final_not_begins hclient hleads hlocal response.status
          refine ⟨hasked hbegins ?_ hstate, stop, dropped,
            Nat.le_trans (parseResponseHead_le hparse) (headSection_le c2), ?_, hparse⟩
          · unfold finalResponseEvent
            split
            · exact Or.inr (Or.inr (Or.inr rfl))
            · exact Or.inr (Or.inl rfl)
          · unfold acceptedFinal countedFinal
            simp only [disableKeepAliveIf_eq]
            exact Buffer.asSlice_consume _ _
        · rw [hreader] at hchunk
          cases hchunk

/-- After a final response the server is not expected to answer any more. -/
theorem nextEvent_response_server {response : Response}
    (h : nextEvent hp c = (.ok (.event (.response response)), c')) :
    c'.state.server ≠ .sendResponse := by
  unfold nextEvent at h
  rcases hinner : nextEventInner hp c with ⟨error | polled, c1⟩
  · rw [hinner] at h
    cases h
  rw [hinner] at h
  cases polled with
  | data => cases h
  | needData => cases h
  | paused => cases h
  | event reported =>
    cases h
    obtain ⟨c2, _, _, _, hturn⟩ := (nextEventInner_turns hinner).last_turn
    cases hturn with
    | @final _ _ _ _ _ _ _ _ _ _ _ hstate _ =>
      intro hserver
      rw [acceptedFinal_state] at hserver
      refine ConnectionState.answerLaws.final _ ?_ _ _ hstate
        ((ConnectionState.disableKeepAliveIf_quieter _ _).2
          ((ConnectionState.disableKeepAliveIf_quieter _ _).2
            ((ConnectionState.disableKeepAliveIf_quieter _ _).2 hserver)))
      unfold finalResponseEvent
      split
      · exact Or.inr rfl
      · exact Or.inl rfl

/-- While a client expects an answer, its history names the request, and the
buffer is the end of what was passed in since. -/
def Answered (history : List (Op × Outcome)) (c : Connection) : Prop :=
  c.state.answering = true → ∃ before request after earlier,
    history = before ++ request :: after ∧ sendsRequestHead request = true ∧
      (∀ entry ∈ after, sendsRequestHead entry = false ∧ startsCycle entry = false) ∧
      (c.state.server = .sendResponse → ∀ entry ∈ after, decodesResponse entry = false) ∧
      passedBytes after = earlier ++ c.input.asSlice

theorem step_answered {history : List (Op × Outcome)} {op : Op} (hclient : c.role = .client)
    (hleads : c.ServerLeads) (hc : Answered history c) :
    Answered (history ++ [(op, (step hp op c).1)]) (step hp op c).2 := by
  intro hanswering
  cases hsends : sendsRequestHead (op, (step hp op c).1) with
  | true =>
    refine ⟨history, _, [], [], rfl, hsends, ?_, ?_, ?_⟩
    · intro entry hmem
      cases hmem
    · intro _ entry hmem
      cases hmem
    · rw [step_sendsRequestHead hsends]
      rfl
  | false =>
    have hquieter := step_quieter hclient (hleads hclient) hsends
    obtain ⟨before, request, after, earlier, hhistory, hrequest, hafter, hresponse, hpassed⟩ :=
      hc (hquieter.1 hanswering)
    obtain ⟨count, hinput⟩ := step_input hp op c
    have hcycle : startsCycle (op, (step hp op c).1) = false := by
      rw [← Bool.not_eq_true]
      intro hstarts
      obtain ⟨state, hstate, hnew⟩ := step_startsCycle hstarts
      rw [hnew, (ConnectionState.bodyLaws.cycle _ _ hstate).2.2.2] at hanswering
      cases hanswering
    refine ⟨before, request, after ++ [(op, (step hp op c).1)],
      earlier ++ (c.input.asSlice ++ passedBytes [(op, (step hp op c).1)]).take count,
      ?_, hrequest, ?_, ?_, ?_⟩
    · rw [hhistory, List.append_assoc, List.cons_append]
    · intro entry hmem
      rcases List.mem_append.mp hmem with hold | hnew
      · exact hafter entry hold
      · rw [List.mem_singleton.mp hnew]
        exact ⟨hsends, hcycle⟩
    · intro hserver entry hmem
      rcases List.mem_append.mp hmem with hold | hnew
      · exact hresponse (hquieter.2 hserver) entry hold
      · rw [List.mem_singleton.mp hnew, ← Bool.not_eq_true]
        intro hdecodes
        cases op with
        | nextEvent =>
          change decodesResponse (_, (pollOutcome (nextEvent hp c)).1) = true at hdecodes
          change (pollOutcome (nextEvent hp c)).2.state.server = _ at hserver
          rcases hcall : nextEvent hp c with ⟨error | next, c'⟩
          · rw [hcall] at hdecodes
            cases hdecodes
          · rw [hcall] at hdecodes hserver
            cases next with
            | event event =>
              cases event with
              | response response => exact nextEvent_response_server hcall hserver
              | _ => cases hdecodes
            | _ => cases hdecodes
        | _ => cases hdecodes
    · rw [passedBytes_append, hpassed, hinput, List.append_assoc, List.append_assoc,
        List.take_append_drop]

/-- A head that is complete while the client is idle fails the connection. -/
theorem nextEvent_unasked {stop : Nat} {response : Response} {dropped : Bool}
    (hclient : c.role = .client) (hreading : c.Reading) (hpeer : c.peerState = .idle)
    (hlocal : c.localState = .idle) (hreader : c.cycle.reader = .head)
    (hdue : (sectionDue true c).1 = .ok true)
    (hparse : parseResponseHead hp c.headSection c.limits.maxHeaderCount c.lenient =
      .ok (some (stop, response, dropped))) :
    ∃ error c', nextEvent hp c = (.error error, c') := by
  obtain ⟨due, progress, hsection, _⟩ := sectionDue_cases true c
  rw [hsection] at hdue
  cases hdue
  have hidle : (consumeSection stop (disableKeepAliveIf dropped
      (c.rescan progress c.cycle.reader c.cycle.chunkExtensionBytes))).localState = .idle := by
    have hstate : c.state.client = .idle := by
      unfold localState at hlocal
      rw [hclient] at hlocal
      exact hlocal
    show ((disableKeepAliveIf dropped _).state.state (disableKeepAliveIf dropped _).role) = _
    rw [disableKeepAliveIf_state, disableKeepAliveIf_role]
    show (c.state.disableKeepAliveIf dropped).state c.role = _
    rw [hclient]
    have hserver : c.state.server = .idle := by
      unfold peerState at hpeer
      rw [hclient] at hpeer
      exact hpeer
    cases dropped with
    | false => exact hstate
    | true => exact (ConnectionState.answerLaws.idle _ ⟨hstate, hserver⟩).1
  have hhead : ∃ error c1, readHead hp c = (.error error, c1) := by
    unfold readHead
    rw [Lib.Call.bind_of_ok hsection, Lib.Call.get_bind]
    rw [if_neg (by decide), if_neg (by rw [show (c.rescan progress c.cycle.reader
      c.cycle.chunkExtensionBytes).role = c.role from rfl, hclient]; decide)]
    have hsame : parseResponseHead hp
        (c.rescan progress c.cycle.reader c.cycle.chunkExtensionBytes).headSection
        (c.rescan progress c.cycle.reader c.cycle.chunkExtensionBytes).limits.maxHeaderCount
        (c.rescan progress c.cycle.reader c.cycle.chunkExtensionBytes).lenient =
        .ok (some (stop, response, dropped)) := hparse
    rw [Lib.Call.ofExcept_bind, hsame]
    dsimp only
    rw [Lib.Call.modify_bind, Lib.Call.modify_bind]
    unfold acceptResponse
    rw [Lib.Call.get_bind, Lib.Call.failIf_bind, if_pos hidle]
    exact ⟨_, _, rfl⟩
  obtain ⟨error, c1, hhead⟩ := hhead
  have hdispatch : dispatch hp c = (.error error, c1) := by
    unfold dispatch
    rw [Lib.Call.get_bind]
    simp only [hpeer]
    rw [if_neg]
    · unfold readBody
      rw [Lib.Call.get_bind]
      simp only [hreader]
      exact Lib.Call.bind_of_error hhead
    · rcases hreading with ⟨_, hnot⟩ | hother | hother
      · exact hnot
      · rw [hpeer] at hother
        cases hother
      · rw [hpeer] at hother
        cases hother
  unfold nextEvent
  rw [nextEventInner_fails hdispatch]
  exact ⟨_, _, rfl⟩

/-- No call of the current cycle has sent a request. -/
def NothingAsked (history : List (Op × Outcome)) : Prop :=
  ∀ before after, history = before ++ after → (∀ entry ∈ after, startsCycle entry = false) →
    ∀ entry ∈ after, sendsRequestHead entry = false

theorem sendsRequestHead_not_startsCycle {entry : Op × Outcome}
    (h : sendsRequestHead entry = true) : startsCycle entry = false := by
  rcases entry with ⟨op, outcome⟩
  cases op <;> first | rfl | cases h

/-- On a client, a response head comes as an event only in answer to a request
of the same cycle: all of its bytes were passed in after the request went out,
and no other final response came since. A head that is complete before anything
was asked fails the connection. -/
theorem response_answers_its_request {limits : Limits} {history : List (Op × Outcome)}
    (hrun : Run hp anyCall .client limits history c) :
    (∀ c' event response, nextEvent hp c = (.ok (.event event), c') →
      (event = .informationalResponse response ∨ event = .response response) →
      ∃ before request after earlier head dropped,
        history = before ++ request :: after ∧ sendsRequestHead request = true ∧
        (∀ entry ∈ after, sendsRequestHead entry = false ∧ startsCycle entry = false ∧
          decodesResponse entry = false) ∧
        c.input.asSlice = head ++ c'.input.asSlice ∧
        passedBytes after = earlier ++ head ++ c'.input.asSlice ∧
        parseResponseHead hp c.headSection c.limits.maxHeaderCount c.lenient =
          .ok (some (head.length, response, dropped))) ∧
    (NothingAsked history → ∀ stop response dropped, c.Reading → c.cycle.reader = .head →
      (sectionDue true c).1 = .ok true →
      parseResponseHead hp c.headSection c.limits.maxHeaderCount c.lenient =
        .ok (some (stop, response, dropped)) →
      ∃ error c', nextEvent hp c = (.error error, c')) := by
  have hclient : c.role = .client := run_role hrun
  have hleads : c.ServerLeads := by
    refine Lib.Run.invariant (P := ServerLeads) (fun _ => rfl) (fun s op hs _ => ?_) hrun
    exact step_serverLeads op hs
  have hanswered : Answered history c := by
    refine (Lib.Run.invariant_history
      (P := fun history c => (c.role = .client ∧ c.ServerLeads) ∧ Answered history c)
      ⟨⟨rfl, fun _ => rfl⟩, fun h => by cases h⟩ ?_ hrun).2
    rintro history s op ⟨⟨hrole, hs⟩, hans⟩ _
    exact ⟨⟨(step_role hp op s).trans hrole, step_serverLeads op hs⟩, step_answered hrole hs hans⟩
  constructor
  · intro c' event response hpoll hevent
    obtain ⟨hserver, stop, dropped, hle, hinput, hparse⟩ :=
      nextEvent_head hclient (hleads hclient) hevent hpoll
    have hanswering : c.state.answering = true := by
      unfold ConnectionState.answering
      rw [hserver]
      rfl
    obtain ⟨before, request, after, earlier, hhistory, hrequest, hafter, hresponse, hpassed⟩ :=
      hanswered hanswering
    have hsplit : c.input.asSlice = c.input.asSlice.take stop ++ c'.input.asSlice := by
      rw [hinput, List.take_append_drop]
    refine ⟨before, request, after, earlier, c.input.asSlice.take stop, dropped, hhistory, hrequest,
      ?_, hsplit, ?_, ?_⟩
    · intro entry hmem
      exact ⟨(hafter entry hmem).1, (hafter entry hmem).2, hresponse hserver entry hmem⟩
    · rw [List.append_assoc, ← hsplit]
      exact hpassed
    · rw [List.length_take, Nat.min_eq_left hle]
      exact hparse
  · intro hnothing stop response dropped hreading hreader hdue hparse
    have hnot : c.state.answering = false := by
      rw [← Bool.not_eq_true]
      intro hanswering
      obtain ⟨before, request, after, _, hhistory, hrequest, hafter, _⟩ := hanswered hanswering
      have hsame : ∀ entry ∈ request :: after, startsCycle entry = false := by
        intro entry hmem
        rcases List.mem_cons.mp hmem with rfl | hold
        · exact sendsRequestHead_not_startsCycle hrequest
        · exact (hafter entry hold).2
      have hnone := hnothing before (request :: after) hhistory hsame request (List.mem_cons_self ..)
      rw [hrequest] at hnone
      cases hnone
    have hserver : c.peerState = c.state.server := by
      unfold peerState
      rw [hclient]
      rfl
    have hpeer : c.peerState = .idle := by
      unfold ConnectionState.answering at hnot
      rcases hreading with ⟨hidle, _⟩ | hother | hother
      · exact hidle
      · rw [← hserver, hother] at hnot
        cases hnot
      · rw [← hserver, hother] at hnot
        cases hnot
    have hlocal : c.localState = .idle := by
      have hlead := hleads hclient
      unfold ConnectionState.serverLeads at hlead
      rw [← hserver, hpeer] at hlead
      have hidle : c.state.client = .idle := by simpa using hlead
      unfold localState
      rw [hclient]
      exact hidle
    exact nextEvent_unasked hclient hreading hpeer hlocal hreader hdue hparse

/-- A client that has sent a request and got the head of its response. -/
theorem plain_response_answers_its_request :
    ∃ history c c' response, Run Reference.httparse anyCall .client .default history c ∧
      nextEvent Reference.httparse c = (.ok (.event (.response response)), c') ∧
      ∃ before request after earlier head, history = before ++ request :: after ∧
        sendsRequestHead request = true ∧ passedBytes after = earlier ++ head ++ c'.input.asSlice := by
  have hrun : Run Reference.httparse anyCall .client .default _ _ :=
    Lib.Run.trace_of_forall _ [.sendRequest (plainGet .http11),
      .receiveData (ascii "HTTP/1.1 200 OK\r\nContent-Length: 0\r\n\r\n")] fun _ _ => trivial
  have hdecodes : decodesResponse (.nextEvent, (step Reference.httparse .nextEvent
      (Lib.trace (step Reference.httparse) (new .client .default) [.sendRequest (plainGet .http11),
        .receiveData (ascii "HTTP/1.1 200 OK\r\nContent-Length: 0\r\n\r\n")]).2).1) = true := by
    decide +kernel
  obtain ⟨c', response, hpoll⟩ := nextEvent_of_decodesResponse hdecodes
  obtain ⟨before, request, after, earlier, head, _, hhistory, hrequest, _, _, hpassed, _⟩ :=
    (response_answers_its_request hrun).1 c' _ response hpoll (Or.inr rfl)
  exact ⟨_, _, c', response, hrun, hpoll, before, request, after, earlier, head, hhistory, hrequest,
    hpassed⟩

end Connection

end H11r
