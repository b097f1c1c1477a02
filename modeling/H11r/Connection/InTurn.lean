import H11r.Connection.RequestTrip

/-!
# A server that answers in turn

The actors of a server that gets requests stay `Orderly`: as long as the server
ends nothing it can go on to the next request, and once it has it can not. In
front of a request it sends nothing but an answer (`step_unasked`), so one that
waits until it is asked goes on waiting, unless it closes.
-/

namespace H11r

open Lib (Call)

namespace ConnectionState

/-- No other exchange comes after this one. -/
def isLast (s : ConnectionState) : Bool :=
  !s.keepAlive || s.server == .mustClose || s.server == .closed || s.server == .error ||
    s.server == .switchedProtocol

/-- The exchange can be followed by another, or it is the last one. -/
def Orderly (s : ConnectionState) : Prop := s.persists = true ∨ s.isLast = true

theorem orderly_server : ∀ s : ConnectionState, s.Orderly → s.client ≠ .idle → ∀ event s',
    s.processEvent .server event = some s' → s'.Orderly := by
  have hlaw : ∀ s : ConnectionState, (s.persists || s.isLast) = true → s.client ≠ .idle →
    ∀ event s',
      s.processEvent .server event = some s' → (s'.persists || s'.isLast) = true := by
    decide +kernel
  intro s hs hclient event s' hstate
  exact Bool.or_eq_true_iff.mp (hlaw s (Bool.or_eq_true_iff.mpr hs) hclient event s' hstate)

/-- The events of a client that is in its message, or behind it. -/
theorem orderly_client : ∀ s : ConnectionState, s.Orderly → ∀ event,
    event = .data ∨ event = .endOfMessage ∨ event = .connectionClosed → ∀ s',
      s.processEvent .client event = some s' → s'.Orderly := by
  have hlaw : ∀ s : ConnectionState, s.isLast = true → ∀ event s',
      s.processEvent .client event = some s' → s'.isLast = true := by
    decide +kernel
  intro s hs event hevent s' hstate
  rcases hs with hs | hs
  · exact Or.inl (persistLaws.client s hs event hevent s' hstate)
  · exact Or.inr (hlaw s hs event s' hstate)

/-- Only an idle client sends a request. -/
theorem request_idle : ∀ (proposals : SwitchProposals) (s s' : ConnectionState),
    s.processEvent .client (.request proposals) = some s' → s.client = .idle := by
  decide +kernel

theorem isLast_disable : ∀ s : ConnectionState, s.disableKeepAlive.isLast = true := by
  decide +kernel

theorem orderly_disable {s : ConnectionState} (reason : Bool) (hs : s.Orderly) :
    (s.disableKeepAliveIf reason).Orderly := by
  cases reason with
  | false => exact hs
  | true => exact Or.inr (isLast_disable s)

theorem isLast_error : ∀ s : ConnectionState, ∀ role, (s.processError role).isLast = true := by
  decide +kernel

/-- A server that has not been asked can begin to answer, or close, and that is
all. -/
theorem new_server : ∀ event, event ≠ .response → event ≠ .connectionClosed →
    new.processEvent .server event = none := by
  decide +kernel

theorem new_closed : ∀ role s', new.processEvent role .connectionClosed = some s' → ∀ actor,
    s'.state actor = .mustClose ∨ s'.state actor = .closed := by
  decide +kernel

end ConnectionState

namespace Connection

variable {hp : Httparse} {c c' : Connection} {rest : Bytes} {limits : Limits}

/-! ## The actors -/

/-- What a turn of the decoder does once there is a request. -/
theorem Turn.orderly {r : Except RemoteProtocolError (Option Polled)} (h : Turn hp c r c')
    (hrole : c.role = .server)
    (hasked : c.state.client ≠ .idle) (hc : c.state.Orderly) : c'.state.Orderly := by
  have hpeer : c.peerState = c.state.client := by
    unfold peerState
    rw [hrole]
    rfl
  have hevent : ∀ {event : StateEvent} {state : ConnectionState},
      event = .data ∨ event = .endOfMessage ∨ event = .connectionClosed →
      c.state.processEvent c.role.peer event = some state → state.Orderly := by
    intro event state hevent hstate
    rw [hrole] at hstate
    exact ConnectionState.orderly_client _ hc event hevent state hstate
  cases h with
  | closed | paused | doneWaits | poisoned | waits | fails | requestRejected | trailersRejected
  | sizeLine | dataEnd =>
    exact hc
  | idleClosed hidle => exact absurd (hpeer.symm.trans hidle) hasked
  | doneClosed _ _ _ hstate => exact hevent (Or.inr (Or.inr rfl)) hstate
  | request _ _ _ _ _ _ hstate =>
    exact absurd (ConnectionState.request_idle _ _ _ hstate) hasked
  | informational _ _ hclient | final _ _ hclient | finalFaulty _ _ hclient
  | responseRejected _ _ hclient =>
    rw [hrole] at hclient
    cases hclient
  | payload _ _ _ hstate => exact hevent (Or.inl rfl) hstate
  | payloadRejected =>
    rw [advancePayload_state]
    exact hc
  | ends _ _ hstate => exact hevent (Or.inr (Or.inl rfl)) hstate
  | trailers _ _ _ hstate => exact hevent (Or.inr (Or.inl rfl)) hstate

theorem nextEvent_orderly (hp : Httparse) (hrole : c.role = .server)
    (hasked : c.state.client ≠ .idle)
    (hc : c.state.Orderly) : (nextEvent hp c).2.state.Orderly := by
  unfold nextEvent
  rcases hinner : nextEventInner hp c with ⟨error | polled, c'⟩
  · exact Or.inr (ConnectionState.isLast_error _ _)
  · obtain ⟨c1, hstate, hframe, _, hturn⟩ := (nextEventInner_turns hinner).last_turn
    have hkept : c'.state.Orderly := by
      refine hturn.orderly (hframe.role.trans hrole) ?_ ?_
      · rw [hstate]
        exact hasked
      · rw [hstate]
        exact hc
    cases polled <;> exact hkept

theorem LocalChange.orderly (h : LocalChange c c') (hrole : c.role = .server)
    (hc : c.state.client ≠ .idle ∧ c.state.Orderly) :
    c'.state.client ≠ .idle ∧ c'.state.Orderly := by
  have hmoves : Moves .client c.state c'.state := h.moves
  have hbegun : c'.state.client ≠ .idle := Moves.begun hmoves hc.1
  have hevent : ∀ {event : StateEvent} {state : ConnectionState},
    c.state.processEvent c.role event = some state →
      state.Orderly := by
    intro event state hstate
    rw [hrole] at hstate
    exact ConnectionState.orderly_server _ hc.2 hc.1 event state hstate
  refine ⟨hbegun, ?_⟩
  cases h with
  | request hclient =>
    rw [hrole] at hclient
    cases hclient
  | informational _ _ hstate =>
    rw [recordInformational_state]
    rw [← hrole] at hstate
    exact hevent hstate
  | response _ _ hstate =>
    rw [sentResponse_state _ _ _ hrole]
    rw [← hrole] at hstate
    exact ConnectionState.orderly_disable _ (hevent hstate)
  | data hstate => exact hevent hstate
  | ends hstate => exact hevent hstate
  | closes hstate => exact hevent hstate

/-- A peer that closes is closed. -/
theorem peerState_closed {state : ConnectionState}
    (h : c.state.processEvent c.role.peer .connectionClosed = some state) :
    state.state c.role.peer = .closed := by
  have hlaw := processEvent_connectionClosed c.role.peer c.state
  rw [h] at hlaw
  split at hlaw
  · exact Option.some.inj hlaw
  · cases hlaw

theorem nextEvent_closes (h : nextEvent hp c = (.ok (.event .connectionClosed), c')) :
    c'.peerState = .closed := by
  have hinner : nextEventInner hp c = (.ok (.event .connectionClosed), c') := by
    rcases nextEvent_event h with ⟨_, _, _, hdata⟩ | hinner
    · cases hdata
    · exact hinner
  obtain ⟨c1, _, _, _, hlast⟩ := (nextEventInner_turns hinner).last_turn
  cases hlast with
  | closed hpeer => exact hpeer
  | idleClosed _ _ _ _ hstate => exact peerState_closed (c := c1) hstate
  | doneClosed _ _ _ hstate => exact peerState_closed (c := c1) hstate

/-! ## In front of a request -/

/-- The calls that begin an answer. -/
def Op.answers : Op → Bool
  | .sendResponse _ | .sendResponseWithBody _ _ | .sendResponseWithBodyFraming _ _ => true
  | _ => false

/-- A server that has not been asked sends nothing but an answer. -/
theorem step_unasked {op : Op} (hop : op.sends = true) (hanswers : op.answers = false)
    (hclose : op ≠ .close)
    (hrole : c.role = .server) (hstate : c.state = .new) : (step hp op c).2 = c := by
  have hrefused : ∀ {α : Type} {value : α → Outcome} {call : LocalCall α}, Call.Atomic call →
      (∀ a c', call c ≠ (.ok a, c')) → (outcome value (call c)).2 = c := by
    intro α value call hatomic hnot
    rcases hcall : call c with ⟨error | a, c'⟩
    · exact hatomic _ _ _ hcall
    · exact absurd hcall (hnot a c')
  have hnone : ∀ event, event ≠ .response → event ≠ .connectionClosed → ∀ state,
      c.state.processEvent c.role event ≠ some state := by
    intro event hresponse hclosed state hsome
    rw [hrole, hstate, ConnectionState.new_server event hresponse hclosed] at hsome
    cases hsome
  have hrequest : ∀ request bytes c', sendRequest request c ≠ (.ok bytes, c') := by
    intro request bytes c' hcall
    obtain ⟨_, _, _, hclient, _⟩ := sendRequest_ok hcall
    rw [hrole] at hclient
    cases hclient
  have hframing : ∀ request length parts c',
      sendRequestWithBodyFraming request length c ≠ (.ok parts, c') := by
    intro request length parts c' hcall
    obtain ⟨_, _, hhead, _⟩ := sendRequestWithBodyFraming_ok hcall
    exact hrequest _ _ _ hhead
  have hdata : ∀ length around c', sendDataFraming length c ≠ (.ok around, c') := by
    intro length around c' hcall
    obtain ⟨_, _, state, _, _, hsome, _⟩ := sendDataFraming_ok hcall
    exact hnone .data nofun nofun state hsome
  cases op with
  | lenient | receiveData | holdBodyData | nextEventInPlace | nextEvent | startNextCycle =>
    cases hop
  | sendResponse | sendResponseWithBody | sendResponseWithBodyFraming => cases hanswers
  | close => exact absurd rfl hclose
  | sendRequest request => exact hrefused (sendRequest_atomic _) (hrequest _)
  | sendInformationalResponse response =>
    refine hrefused (sendInformationalResponse_atomic _) fun bytes c' hcall => ?_
    obtain ⟨event, state, _, _, _, _, _, hevent, hsome, _⟩ := sendInformationalResponse_ok hcall
    rw [← hrole] at hsome
    unfold informationalEvent at hevent
    split_ifs at hevent <;> cases hevent
    · exact hnone .informationalResponse nofun nofun state hsome
    · exact hnone (.protocolSwitch .upgrade) nofun nofun state hsome
  | sendRequestWithBody request body =>
    refine hrefused (sendRequestWithBody_atomic _ _) fun bytes c' hcall => ?_
    obtain ⟨parts, hparts, _⟩ := sendRequestWithBody_ok hcall
    exact hframing _ _ _ _ hparts
  | sendRequestWithBodyFraming request length =>
    exact hrefused (sendRequestWithBodyFraming_atomic _ _) (hframing _ _)
  | sendData data =>
    refine hrefused (sendData_atomic _) fun bytes c' hcall => ?_
    obtain ⟨around, hparts, _⟩ := sendData_ok hcall
    exact hdata _ _ _ hparts
  | sendDataFraming length => exact hrefused (sendDataFraming_atomic _) (hdata _)
  | endOfMessage trailers =>
    refine hrefused (endOfMessage_atomic _) fun bytes c' hcall => ?_
    obtain ⟨_, state, _, _, _, hsome, _⟩ := endOfMessage_ok hcall
    exact hnone .endOfMessage nofun nofun state hsome

/-- What the caller may do while a request is expected: nothing is answered
before it has been asked. -/
def answersInTurn (c : Connection) (op : Op) : Prop :=
  delivers c op ∧ (c.peerState = .idle → op.answers = false)

/-- A call that leaves the server waiting for a request. -/
def keepsWaiting (c : Connection) (op : Op) : Prop :=
  c.peerState = .idle → op.answers = false ∧ op ≠ .close

theorem AwaitsRequest.send {op : Op} (hop : op.sends = true) (hwaits : keepsWaiting c op)
    (h : c.AwaitsRequest limits) : (step hp op c).2.AwaitsRequest limits := by
  rw [step_unasked hop (hwaits h.peer).1 (hwaits h.peer).2 h.role h.new]
  exact h

/-- Both sides have closed, or are to close: no other message comes. -/
structure Stopped (c : Connection) : Prop where
  each : ∀ actor, c.state.state actor = .mustClose ∨ c.state.state actor = .closed

/-- A server that closes before a request takes no more of them. -/
theorem AwaitsRequest.close (hp : Httparse) (h : c.AwaitsRequest limits) : ∃ state,
    step hp .close c = (.unit, sentClose state c) ∧ (sentClose state c).Stopped := by
  have hlocal : c.localState = .idle := by
    unfold localState
    rw [h.new, h.role]
    rfl
  have hclosable : closable c.localState = true := by
    rw [hlocal]
    rfl
  obtain ⟨c', hcall, _⟩ := close_iff.mpr hclosable
  obtain ⟨state, hstate, rfl⟩ := close_ok hcall
  refine ⟨state, ?_, ?_⟩
  · show outcome _ (Connection.close c) = _
    rw [hcall]
    rfl
  · rw [h.new] at hstate
    exact ⟨fun actor => ConnectionState.new_closed _ state hstate actor⟩

/-- A poll of a server that waits for a request and has got nothing. -/
theorem AwaitsRequest.nothing (hhp : hp.Stable) (h : c.AwaitsRequest limits)
    (hinput : c.input.asSlice = []) :
    ∃ c', c'.input.asSlice = [] ∧
    ((nextEvent hp c = (.ok .needData, c') ∧ c'.AwaitsRequest limits) ∨
      (nextEvent hp c = (.ok (.event .connectionClosed), c') ∧ c'.Stopped)) := by
  have hempty : onlyEmptyLines c.input.asSlice = true := by
    rw [hinput]
    rfl
  cases heof : c.eof with
  | true =>
    have hidle : c.state.state c.role.peer = .idle := h.peer
    obtain ⟨state, hstate⟩ := processEvent_closed (Or.inl hidle)
    have hdispatch : dispatch hp c = (.ok (some (.event .connectionClosed)),
        { c with input := c.input.consume c.input.asSlice.length, state := state }) := by
      unfold dispatch
      rw [Call.get_bind]
      simp only [h.peer]
      rw [if_pos ⟨heof, by rw [hinput]; exact Nat.zero_le _, hempty⟩, Call.modify_bind]
      have hcloses : peerClosed { c with input := c.input.consume c.input.asSlice.length } =
          (.ok (.event .connectionClosed),
            { c with input := c.input.consume c.input.asSlice.length, state := state }) :=
              peerClosed_eq hstate
      exact Call.bind_of_ok hcloses
    have hpoll : nextEvent hp c = (.ok (.event .connectionClosed),
        { c with input := c.input.consume c.input.asSlice.length, state := state }) := by
      unfold nextEvent
      rw [nextEventInner_reports hdispatch]
    rw [h.new] at hstate
    refine ⟨_, ?_, Or.inr ⟨hpoll, ⟨fun actor => ConnectionState.new_closed _ state hstate actor⟩⟩⟩
    show (c.input.consume c.input.asSlice.length).asSlice = []
    rw [Buffer.asSlice_consume, List.drop_length]
  | false =>
    obtain ⟨progress, hnotes, hwaits⟩ := readSection_nothing
      (fun data => parseRequestHead hp data c.limits.maxHeaderCount)
      (fun parsed : Nat × Request => do
        Call.modify (consumeSection parsed.1)
        acceptRequest parsed.2)
      (parseRequestHead_emptyLines hhp rfl) h.before.notes hinput heof
    rw [← readHead_request hp h.role] at hwaits
    have hopen : ¬(c.eof = true ∧ c.input.asSlice.length ≤ c.limits.maxHeadBytes ∧
        onlyEmptyLines c.input.asSlice = true) := by
      intro hclosed
      rw [heof] at hclosed
      cases hclosed.1
    have hpoll : nextEvent hp c =
        (.ok .needData, c.rescan progress c.cycle.reader c.cycle.chunkExtensionBytes) := by
      unfold nextEvent
      rw [nextEventInner_idle h.peer h.before.reader hopen hwaits]
    refine ⟨c.rescan progress c.cycle.reader c.cycle.chunkExtensionBytes, hinput,
      Or.inl ⟨hpoll, ?_⟩⟩
    exact ⟨h.role, h.limits, ⟨h.before.reader, h.before.spent, hnotes⟩, h.peer, h.persists⟩

end Connection

end H11r
