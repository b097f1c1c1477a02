import H11r.Connection.Layers
import H11r.Lib.Monitor

/-!
# A listener

A caller sees the peer as a sequence of events, some from `next_event` and some
from `next_event_in_place`. `Listener` is a monitor that knows nothing but these
and which requests have been sent: it expects a head, then exactly the body the
head announces, then the end, and nothing after a switch, a close or a failure.
What does not come in that order stops it.

`Attends` ties its notes to the connection: what has been heard says in which
state the peer's actor is and what its reader expects. What the other actor does
may tell the peer to close or let it follow a switch, and no listener can tell
(`State.follows`, `Unheard`).
-/

namespace H11r

open Connection (Op Outcome)

/-- How far the peer's message of the cycle has come. -/
inductive Heard where
  | head
  | fixed (remaining : Nat)
  | chunked (inChunk : Bool)
  | closeDelimited
  | complete
  | switched
  | closed
  | failed
  deriving DecidableEq, Repr

namespace Heard

/-- A body with the given framing is to come. -/
def ofFraming : Framing → Heard
  | .fixed size => .fixed size
  | .chunked => .chunked false
  | .closeDelimited => .closeDelimited

/-- The final response to a request of the given kind. -/
def answer (kind : RequestKind) (response : Response) : Option Heard :=
  if response.status.isInformational = true then none
  else if kind = .connect ∧ response.status.isSuccess = true then some .switched
  else if response.status.asU16 = 204 ∨ response.status.asU16 = 304 ∨ kind =
    .head then some (.fixed 0)
  else
    match (Fields.scan response.headers).framing response.httpVersion true with
    | .ok framing => some (.ofFraming framing)
    | .error _ => none

/-- A piece of body of `length` bytes. -/
def data (length : Nat) (chunkStart chunkEnd : Bool) : Heard → Option Heard
  | .fixed remaining =>
    if length ≤ remaining ∧ chunkStart = false ∧ chunkEnd = false then
      some (.fixed (remaining - length))
    else none
  | .chunked inChunk => if chunkStart = !inChunk then some (.chunked !chunkEnd) else none
  | .closeDelimited =>
    if chunkStart = false ∧ chunkEnd = false then some .closeDelimited else none
  | _ => none

/-- The end of the message, with trailers only after chunks. -/
def endOfMessage (trailers : Headers) : Heard → Option Heard
  | .fixed 0 | .closeDelimited => if trailers.isEmpty then some .complete else none
  | .chunked false => some .complete
  | _ => none

/-- The peer may close here. -/
def mayClose : Heard → Bool
  | .head | .complete | .closed => true
  | _ => false

/-- A poll may ask for more here. -/
def mayWait : Heard → Bool
  | .switched | .closed | .failed => false
  | _ => true

/-- A poll may leave received bytes alone here. -/
def mayPause : Heard → Bool
  | .head | .complete | .switched => true
  | _ => false

/-- A poll may fail here. -/
def mayFail : Heard → Bool
  | .complete | .switched | .closed => false
  | _ => true

end Heard

/-- What a caller has heard in the current cycle, and which request it is about. -/
structure Listener where
  kind : Option RequestKind
  heard : Heard
  deriving DecidableEq, Repr

namespace Listener

def new : Listener := ⟨none, .head⟩

def request (request : Request) (l : Listener) : Option Listener :=
  match l.heard, (Fields.scan request.headers).framing request.httpVersion false with
  | .head, .ok framing =>
    some ⟨some (RequestKind.fromMethod request.method.asBytes), .ofFraming framing⟩
  | _, _ => none

/-- A 1xx response; after a 101 nothing of HTTP is left. -/
def informationalResponse (response : Response) (l : Listener) : Option Listener :=
  match l.heard, l.kind with
  | .head, some _ =>
    if response.status.isInformational = false then none
    else if response.status.asU16 = 101 then some { l with heard := .switched }
    else some l
  | _, _ => none

def response (response : Response) (l : Listener) : Option Listener :=
  match l.heard, l.kind with
  | .head, some kind => (Heard.answer kind response).map fun heard => { l with heard := heard }
  | _, _ => none

def data (length : Nat) (chunkStart chunkEnd : Bool) (l : Listener) : Option Listener :=
  if length = 0 then none
  else (l.heard.data length chunkStart chunkEnd).map fun heard => { l with heard := heard }

/-- Takes an event that the peer of `role` can cause. -/
def event (role : Role) (l : Listener) : Event → Option Listener
  | .request request => if role = .server then l.request request else none
  | .informationalResponse response =>
    if role = .client then l.informationalResponse response else none
  | .response response => if role = .client then l.response response else none
  | .data data chunkStart chunkEnd => l.data data.length chunkStart chunkEnd
  | .endOfMessage trailers =>
    (l.heard.endOfMessage trailers).map fun heard => { l with heard := heard }
  | .connectionClosed => if l.heard.mayClose then some { l with heard := .closed } else none

/-- The request that a client sends opens the cycle. -/
def asks (request : Request) (l : Listener) : Option Listener :=
  if l = .new then some ⟨some (RequestKind.fromMethod request.method.asBytes), .head⟩ else none

/-- What a call of a connection in the given role tells its caller. -/
def hear (role : Role) (l : Listener) : Op × Outcome → Option Listener
  | (.nextEvent, .polled (.event event)) => l.event role event
  | (.nextEvent, .polled .needData) => if l.heard.mayWait then some l else none
  | (.nextEvent, .polled .paused) => if l.heard.mayPause then some l else none
  | (.nextEvent, .failed _) => if l.heard.mayFail then some { l with heard := .failed } else none
  | (.nextEventInPlace count, .flags chunkStart chunkEnd) => l.data count chunkStart chunkEnd
  | (.sendRequest request, .bytes _) | (.sendRequestWithBody request _, .bytes _)
  | (.sendRequestWithBodyFraming request _, .around _ _) => l.asks request
  | (.startNextCycle, .unit) => if l.heard = .complete then some .new else none
  | _ => some l

end Listener

/-! ## What the other actor does -/

/-- The states an actor may be put in by what the other one does. -/
def State.follows : State → State → Bool
  | .idle, later => later == .idle || later == .sendResponse || later == .mustClose
  | .done, later => later == .done || later == .mightSwitchProtocol || later == .switchedProtocol ||
    later == .mustClose
  | .mightSwitchProtocol, later => later == .mightSwitchProtocol || later == .done ||
    later == .switchedProtocol || later == .mustClose
  | state, later => later == state

theorem State.follows_refl (state : State) : state.follows state = true := by
  cases state <;> rfl

theorem State.follows_trans : ∀ {first second third : State}, first.follows second = true →
    second.follows third = true → first.follows third = true := by
  decide +kernel

/-- The server is asked nothing that it was not asked before. -/
structure NotAsked (s s' : ConnectionState) : Prop where
  idle : s'.server = .idle → s.server = .idle
  asked : s'.server = .sendResponse → s.server = .sendResponse

instance decidableNotAsked (s s' : ConnectionState) : Decidable (NotAsked s s') :=
  decidable_of_iff ((s'.server = .idle → s.server = .idle) ∧
      (s'.server = .sendResponse → s.server = .sendResponse))
        ⟨fun h => ⟨h.1, h.2⟩, fun h => ⟨h.1, h.2⟩⟩

theorem NotAsked.refl (s : ConnectionState) : NotAsked s s := ⟨id, id⟩

theorem NotAsked.trans {s s' s'' : ConnectionState} (h : NotAsked s s') (h' : NotAsked s' s'') :
    NotAsked s s'' :=
  ⟨fun hidle => h.idle (h'.idle hidle), fun hasked => h.asked (h'.asked hasked)⟩

namespace ConnectionState

/-- What the steps of the state machine do to an actor that does not make them,
and to one that does. -/
structure HeardLaws : Prop where
  other : ∀ (role : Role) (event : StateEvent) (s s' : ConnectionState),
      s.processEvent role.peer event = some s' → (s.state role).follows (s'.state role) = true
  disable : ∀ (role : Role) (s : ConnectionState),
      (s.state role).follows (s.disableKeepAlive.state role) = true
  notAsked : ∀ (role : Role) (event : StateEvent) (s s' : ConnectionState),
      s.processEvent role event = some s' → event.isRequest = false → NotAsked s s'
  disableNotAsked : ∀ s : ConnectionState, NotAsked s s.disableKeepAlive
  poison : ∀ (role : Role) (s : ConnectionState), NotAsked s (s.processError role)
  asks : ∀ (proposals : SwitchProposals) (s s' : ConnectionState),
      s.processEvent .client (.request proposals) = some s' →
        s.client = .idle ∧ s.server = .idle ∧ s'.client = .sendBody ∧ s'.server = .sendResponse
  informs : ∀ s s' : ConnectionState, s.processEvent .server .informationalResponse = some s' →
      s.server = .sendResponse ∧ s'.server = .sendResponse
  switches : ∀ (kind : SwitchKind) (s s' : ConnectionState),
      s.processEvent .server (.protocolSwitch kind) = some s' →
        s.server = .sendResponse ∧ s'.server = .switchedProtocol
  responds : ∀ s s' : ConnectionState, s.processEvent .server .response = some s' →
      (s.server = .idle ∨ s.server = .sendResponse) ∧ s'.server = .sendBody
  ends : ∀ (role : Role) (s s' : ConnectionState), s.processEvent role .endOfMessage = some s' →
      s.state role = .sendBody ∧ State.done.follows (s'.state role) = true
  closes : ∀ (role : Role) (s s' : ConnectionState),
      s.processEvent role .connectionClosed = some s' → s'.state role = .closed
  idle : ∀ s : ConnectionState, s.server = .idle → s.client = .idle →
      s.disableKeepAlive.client = .idle

theorem heardLaws : HeardLaws where
  other := by decide +kernel
  disable := by decide +kernel
  notAsked := by decide +kernel
  disableNotAsked := by decide +kernel
  poison := by decide +kernel
  asks := by decide +kernel
  informs := by decide +kernel
  switches := fun kind => by cases kind <;> decide +kernel
  responds := by decide +kernel
  idle := by decide +kernel
  ends := by decide +kernel
  closes := by decide +kernel

theorem disableIf_follows (role : Role) (reason : Bool) (s : ConnectionState) :
    (s.state role).follows ((s.disableKeepAliveIf reason).state role) = true := by
  cases reason with
  | false => exact State.follows_refl _
  | true => exact heardLaws.disable role s

theorem disableIf_notAsked (reason : Bool) (s : ConnectionState) :
    NotAsked s (s.disableKeepAliveIf reason) := by
  cases reason with
  | false => exact .refl s
  | true => exact heardLaws.disableNotAsked s

end ConnectionState

/-! ## What a listener knows -/

/-- The body that a reader in it has announced. -/
def Reader.heard : Reader → Heard
  | .head => .head
  | .fixed remaining => .fixed remaining
  | .chunked (.data _ first) => .chunked !first
  | .chunked _ => .chunked false
  | .closeDelimited => .closeDelimited

/-- What has been heard of a peer in the given state, read by the given reader. -/
def Heard.Describes (heard : Heard) (peer : State) (reader : Reader) : Prop :=
  match peer with
  | .idle | .sendResponse => heard = .head
  | .sendBody => heard = reader.heard
  | .done | .mightSwitchProtocol => heard = .complete
  | .mustClose => heard = .head ∨ heard = .complete
  | .switchedProtocol => heard = .complete ∨ heard = .switched
  | .closed => heard = .closed
  | .error => heard = .failed

/-- No listener can tell what the other actor has done to the peer. -/
theorem Heard.Describes.follows {heard : Heard} {peer later : State} {reader : Reader}
    (h : heard.Describes peer reader) (hlater : peer.follows later = true) :
    heard.Describes later reader := by
  cases peer <;> cases later <;> first | exact h | exact Or.inl h | exact Or.inr h | cases hlater

/-- Readers that have announced the same are told apart by no listener. -/
theorem Heard.Describes.reread {heard : Heard} {peer : State} {reader reader' : Reader}
    (h : heard.Describes peer reader) (hsame : reader'.heard = reader.heard) :
    heard.Describes peer reader' := by
  cases peer with
  | sendBody => exact Eq.trans h hsame.symm
  | _ => exact h

theorem reader_heard (framing : Framing) : (reader framing).heard = .ofFraming framing := by
  cases framing <;> rfl

namespace Connection

open Lib (Call)

variable {hp : Httparse} {c c' : Connection} {l : Listener}

/-- The notes of a listener are those of the connection. -/
structure Attends (l : Listener) (c : Connection) : Prop where
  kind : c.cycle.requestKind = l.kind
  heard : l.heard.Describes c.peerState c.cycle.reader
  unasked : c.state.server = .idle → l.kind = none
  asked : c.state.server = .sendResponse → l.kind ≠ none

/-- A change of which no listener hears. -/
structure Unheard (c c' : Connection) : Prop where
  role : c'.role = c.role
  kind : c'.cycle.requestKind = c.cycle.requestKind
  reader : c'.cycle.reader = c.cycle.reader
  peer : c.peerState.follows c'.peerState = true
  server : NotAsked c.state c'.state

theorem Unheard.refl (c : Connection) : Unheard c c :=
  ⟨rfl, rfl, rfl, State.follows_refl _, .refl _⟩

theorem Unheard.trans {c'' : Connection} (h : Unheard c c') (h' : Unheard c' c'') : Unheard c c'' :=
  ⟨h'.role.trans h.role, h'.kind.trans h.kind, h'.reader.trans h.reader,
    State.follows_trans h.peer h'.peer, h.server.trans h'.server⟩

theorem Unheard.attends (h : Unheard c c') (hl : Attends l c) : Attends l c' := by
  refine ⟨h.kind.trans hl.kind, ?_, fun hidle => hl.unasked (h.server.idle hidle),
    fun hasked => hl.asked (h.server.asked hasked)⟩
  rw [h.reader]
  exact hl.heard.follows h.peer

/-- An event of the local actor, and the reasons to close that come with it. -/
theorem Unheard.event {event : StateEvent} {state : ConnectionState} (reason : Bool)
    (hstate : c.state.processEvent c.role event = some state) (hevent : event.isRequest = false)
    (hrole : c'.role = c.role) (hkind : c'.cycle.requestKind = c.cycle.requestKind)
    (hreader : c'.cycle.reader = c.cycle.reader)
    (hafter : c'.state = state.disableKeepAliveIf reason) : Unheard c c' := by
  refine ⟨hrole, hkind, hreader, ?_, ?_⟩
  · have hother : c.role = c.role.peer.peer := by cases c.role <;> rfl
    rw [hother] at hstate
    have hfirst := ConnectionState.heardLaws.other _ _ _ _ hstate
    unfold peerState
    rw [hrole, hafter]
    exact State.follows_trans hfirst (ConnectionState.disableIf_follows _ _ _)
  · rw [hafter]
    exact (ConnectionState.heardLaws.notAsked _ _ _ _ hstate hevent).trans
      (ConnectionState.disableIf_notAsked _ _)

theorem disableKeepAliveIf_unheard (reason : Bool) (c : Connection) :
    Unheard c (c.disableKeepAliveIf reason) := by
  rw [disableKeepAliveIf_eq]
  exact ⟨rfl, rfl, rfl, ConnectionState.disableIf_follows _ _ _,
    ConnectionState.disableIf_notAsked _ _⟩

/-! ## Calls of which no listener hears -/

theorem sendInformationalResponse_unheard {response : Response} {bytes : Bytes}
    (h : sendInformationalResponse response c = (.ok bytes, c')) : Unheard c c' := by
  obtain ⟨event, state, hrole, _, _, _, _, hevent, hstate, _, rfl⟩ := sendInformationalResponse_ok h
  obtain ⟨_, hreader, hkind, _⟩ :=
    recordInformational_cycle response.status { c with state := state }
  rw [← hrole] at hstate
  refine Unheard.event false hstate ?_ ?_ hkind hreader (recordInformational_state _ _)
  · rcases informationalEvent_cases hevent with rfl | ⟨rfl, _⟩ <;> rfl
  · unfold recordInformational
    split <;> rfl

theorem sendResponse_unheard {response : Response} {bytes : Bytes}
    (h : sendResponse response c = (.ok bytes, c')) : Unheard c c' := by
  obtain ⟨framing, headers, state, hrole, _, _, _, hstate, _, rfl⟩ := sendResponse_ok h
  have hafter := sentResponse_state response framing state hrole
  rw [← hrole] at hstate
  refine Unheard.event _ hstate ?_ (sentResponse_sameOutside _ _ _ _).frame.role
    (by rw [sentResponse_cycle]) (by rw [sentResponse_cycle]) hafter
  unfold finalResponseEvent
  split <;> rfl

theorem sendDataFraming_unheard {length : Nat} {around : Bytes × Bytes}
    (h : sendDataFraming length c = (.ok around, c')) : Unheard c c' := by
  obtain ⟨_, _, state, _, _, hstate, rfl⟩ := sendDataFraming_ok h
  exact .event false hstate rfl rfl rfl rfl rfl

theorem endOfMessage_unheard {trailers : Headers} {bytes : Bytes}
    (h : endOfMessage trailers c = (.ok bytes, c')) : Unheard c c' := by
  obtain ⟨_, state, _, _, _, hstate, rfl⟩ := endOfMessage_ok h
  exact .event false hstate rfl rfl rfl rfl rfl

theorem close_unheard {u : Unit} (h : close c = (.ok u, c')) : Unheard c c' := by
  obtain ⟨state, hstate, rfl⟩ := close_ok h
  exact .event false hstate rfl rfl rfl rfl rfl

theorem sendRest_unheard {before : Bytes} {length : Nat} {parts : Bytes × Bytes}
    (h : sendRest before length c = (.ok parts, c')) : Unheard c c' := by
  rcases sendRest_ok h with ⟨_, _, _, rfl⟩ | ⟨last, _, _, hend, _⟩ |
    ⟨around, c1, last, _, _, hdata, hend, _⟩
  · exact .refl c'
  · exact endOfMessage_unheard hend
  · exact (sendDataFraming_unheard hdata).trans (endOfMessage_unheard hend)

/-- A method that fails leaves the connection as it was. -/
theorem outcome_unheard {α : Type} {value : α → Outcome} {call : LocalCall α}
    (hatomic : Call.Atomic call) (hok : ∀ a c', call c = (.ok a, c') → Unheard c c') :
    Unheard c (outcome value (call c)).2 := by
  rcases hcall : call c with ⟨error | a, c'⟩
  · have hsame : c' = c := hatomic _ _ _ hcall
    subst hsame
    exact .refl c'
  · exact hok a c' hcall

theorem receiveData_unheard (data : Bytes) : Unheard c (receiveData data c).2 := by
  unfold receiveData
  rw [Call.get_bind, Call.failIf_bind]
  split
  · exact .refl c
  · split
    · have heof : Unheard c { c with eof := true } := ⟨rfl, rfl, rfl, State.follows_refl _, .refl _⟩
      exact heof.trans (disableKeepAliveIf_unheard _ _)
    · exact ⟨rfl, rfl, rfl, State.follows_refl _, .refl _⟩

/-- The calls that a listener takes notice of. -/
def Op.tells : Op → Bool
  | .nextEvent | .nextEventInPlace _ | .startNextCycle | .sendRequest _ | .sendRequestWithBody _ _
  | .sendRequestWithBodyFraming _ _ => true
  | _ => false

theorem step_unheard {op : Op} (hop : op.tells = false) : Unheard c (step hp op c).2 := by
  cases op with
  | nextEvent | nextEventInPlace | startNextCycle | sendRequest | sendRequestWithBody
  | sendRequestWithBodyFraming => cases hop
  | lenient => exact ⟨rfl, rfl, rfl, State.follows_refl _, .refl _⟩
  | receiveData data =>
    show Unheard c (outcome _ (receiveData data c)).2
    rw [outcome_snd]
    exact receiveData_unheard data
  | holdBodyData count =>
    show Unheard c (holdBodyData count c).2
    unfold holdBodyData
    split
    · exact ⟨rfl, rfl, rfl, State.follows_refl _, .refl _⟩
    · exact .refl c
  | sendInformationalResponse response =>
    exact outcome_unheard (sendInformationalResponse_atomic _) fun _ _ h =>
      sendInformationalResponse_unheard h
  | sendResponse response =>
    exact outcome_unheard (sendResponse_atomic _) fun _ _ h => sendResponse_unheard h
  | sendResponseWithBody response body =>
    refine outcome_unheard (sendResponseWithBody_atomic _ _) fun _ _ h => ?_
    obtain ⟨parts, hframing, _⟩ := sendResponseWithBody_ok h
    obtain ⟨before, c1, hhead, hrest⟩ := sendResponseWithBodyFraming_ok hframing
    exact (sendResponse_unheard hhead).trans (sendRest_unheard hrest)
  | sendResponseWithBodyFraming response length =>
    refine outcome_unheard (sendResponseWithBodyFraming_atomic _ _) fun _ _ h => ?_
    obtain ⟨before, c1, hhead, hrest⟩ := sendResponseWithBodyFraming_ok h
    exact (sendResponse_unheard hhead).trans (sendRest_unheard hrest)
  | sendData data =>
    refine outcome_unheard (sendData_atomic _) fun _ _ h => ?_
    obtain ⟨around, hframing, _⟩ := sendData_ok h
    exact sendDataFraming_unheard hframing
  | sendDataFraming length =>
    exact outcome_unheard (sendDataFraming_atomic _) fun _ _ h => sendDataFraming_unheard h
  | endOfMessage trailers =>
    exact outcome_unheard (endOfMessage_atomic _) fun _ _ h => endOfMessage_unheard h
  | close => exact outcome_unheard close_atomic fun _ _ h => close_unheard h

/-! ## Calls that open and end a cycle -/

/-- The request of the cycle is sent when nothing has been heard of it. -/
theorem sendRequest_heard {request request' : Request} {bytes : Bytes}
    (h : sendRequest request c = (.ok bytes, c')) (hmethod : request.method = request'.method)
    (hl : Attends l c) : ∃ l', l.asks request' = some l' ∧ Attends l' c' := by
  obtain ⟨framing, upgrades, state, hrole, _, _, hstate, _, rfl⟩ := sendRequest_ok h
  obtain ⟨_, hidle, _, hserver⟩ := ConnectionState.heardLaws.asks _ _ _ hstate
  have hpeer : c.peerState = .idle := by
    unfold peerState
    rw [hrole]
    exact hidle
  have hhead : l.heard = .head := by
    have hheard := hl.heard
    rw [hpeer] at hheard
    exact hheard
  have hnew : l = .new := by
    cases l
    exact (Listener.mk.injEq ..).mpr ⟨hl.unasked hidle, hhead⟩
  have hfollows := ConnectionState.disableIf_follows .server
    (!(Fields.scan request.headers).persistent request.httpVersion) state
  rw [← sentRequest_state request framing upgrades state c] at hfollows
  have hafter : (sentRequest request framing upgrades state c).state.server = .sendResponse := by
    change state.server.follows _ = true at hfollows
    rw [hserver] at hfollows
    exact eq_of_beq hfollows
  refine ⟨_, if_pos hnew, ?_, ?_, ?_, nofun⟩
  · rw [sentRequest_cycle, hmethod]
  · unfold peerState
    rw [(sentRequest_sameOutside _ _ _ _ _).frame.role, hrole]
    show Heard.Describes _ (sentRequest request framing upgrades state c).state.server _
    rw [hafter]
    rfl
  · intro hidle
    rw [hafter] at hidle
    cases hidle

theorem requestWithLength_method (request : Request) (length : Nat) :
    (requestWithLength request length).method = request.method := by
  unfold requestWithLength
  split <;> rfl

theorem sendRequestWithBodyFraming_heard {request : Request} {length : Nat} {parts : Bytes × Bytes}
    (h : sendRequestWithBodyFraming request length c = (.ok parts, c')) (hl : Attends l c) :
    ∃ l', l.asks request = some l' ∧ Attends l' c' := by
  obtain ⟨before, c1, hhead, hrest⟩ := sendRequestWithBodyFraming_ok h
  obtain ⟨l', hasks, hl'⟩ := sendRequest_heard hhead (requestWithLength_method _ _) hl
  exact ⟨l', hasks, (sendRest_unheard hrest).attends hl'⟩

/-- A cycle begins when the message of the last one is complete. -/
theorem startNextCycle_heard (hl : Attends l c) :
    ∃ l', l.hear c.role (.startNextCycle, (step hp .startNextCycle c).1) = some l' ∧
      Attends l' (step hp .startNextCycle c).2 := by
  change ∃ l', l.hear c.role (.startNextCycle, (outcome _ (startNextCycle c)).1) = some l' ∧
    Attends l' (outcome _ (startNextCycle c)).2
  rcases hcall : startNextCycle c with ⟨r, c'⟩
  rcases startNextCycle_cases hcall with ⟨state, rfl, hstate, rfl⟩ | ⟨_, rfl, _, _, _, rfl⟩ |
    ⟨_, rfl, rfl⟩
  · obtain ⟨hclient, hserver, _, hfresh⟩ := ConnectionState.bodyLaws.cycle _ _ hstate
    have hpeer : c.peerState = .done := by
      unfold peerState
      cases c.role
      · exact hserver
      · exact hclient
    have hcomplete : l.heard = .complete := by
      have hheard := hl.heard
      rw [hpeer] at hheard
      exact hheard
    refine ⟨_, if_pos hcomplete, rfl, ?_, fun _ => rfl, ?_⟩
    · subst hfresh
      show Heard.Describes .head (ConnectionState.new.state c.role.peer) _
      cases c.role <;> rfl
    · subst hfresh
      nofun
  · exact ⟨l, rfl, (disableKeepAliveIf_unheard true c).attends hl⟩
  · exact ⟨l, rfl, hl⟩

end Connection

end H11r
