import H11r.Connection.Arrive
import H11r.Connection.OneHead
import H11r.Connection.Switch
import H11r.Wire.HostFirst

/-!
# A request from the client to the server

A request that a client was allowed to send is one that a server accepts: with
the Host field in front it has the same target, framing and options. While the
server waits for it, its state is that of an exchange that nothing has ended
(`persists`), and it stays so when the request neither closes the connection nor
proposes to switch.
-/

namespace H11r

open Lib (Call)

namespace ConnectionState

/-- An exchange that can be followed by another: the connection is kept alive, no
switch is pending, and the server has not spoken out of turn. -/
def persists (s : ConnectionState) : Bool :=
  s.keepAlive && s.proposals == .none &&
    match s.client, s.server with
    | .idle, .idle => true
    | .sendBody, .sendResponse | .sendBody, .sendBody | .sendBody, .done => true
    | .done, .sendResponse | .done, .sendBody | .done, .done => true
    | .closed, .sendResponse | .closed, .sendBody | .closed, .mustClose => true
    | _, _ => false

structure PersistLaws : Prop where
  /-- A request that proposes nothing is accepted where none is under way. -/
  request : ∀ s : ConnectionState, s.persists = true → s.client = .idle →
    (s.processEvent .client (.request .none)).isSome = true ∧
      ∀ s', s.processEvent .client (.request .none) = some s' → s'.persists = true
  /-- What the client does with its message changes nothing about that. -/
  client : ∀ s : ConnectionState, s.persists = true → ∀ event,
    event = .data ∨ event = .endOfMessage ∨ event = .connectionClosed →
      ∀ s', s.processEvent .client event = some s' → s'.persists = true
  /-- Nor does the server, once there is a request, if it does not end the
  connection. -/
  server : ∀ s : ConnectionState, s.persists = true → s.client ≠ .idle → ∀ event s',
    s.processEvent .server event = some s' → s'.keepAlive = true → s'.server ≠ .closed →
      s'.persists = true
  next : ∀ s : ConnectionState, s.persists = true → s.client = .done → s.server = .done →
    s.startNextCycle = some .new

theorem persists_idle : ∀ s : ConnectionState, s.persists = true → s.client = .idle → s = .new := by
  decide +kernel

/-- A new exchange begins with any request. -/
theorem new_request : ∀ proposals,
      (new.processEvent .client (.request proposals)).isSome = true := by
  decide +kernel

theorem persistLaws : PersistLaws where
  request := by decide +kernel
  client := by decide +kernel
  server := by decide +kernel
  next := by decide +kernel

end ConnectionState

/-- A request that a server accepts. -/
structure Accepts (request : Request) (framing : Framing) : Prop where
  target : validRequestTarget request.method.asBytes request.target = true
  host : (Fields.scan request.headers).hostValid request.httpVersion = true
  framed : (Fields.scan request.headers).framing request.httpVersion false = .ok framing
  content : contentForbidden request.method framing = false

/-- What a connection has noted of the request of its cycle. -/
structure Notes (c : Connection) (request : Request) (framing : Framing) : Prop where
  kind : c.cycle.requestKind = some (.fromMethod request.method.asBytes)
  upgrades : c.cycle.upgradeProposals =
    Connection.offeredUpgrades request (Fields.scan request.headers)
  continues : c.cycle.continueBeforeUpgrade =
    ((Fields.scan request.headers).expectsContinue request.httpVersion framing &&
      !(Connection.offeredUpgrades request (Fields.scan request.headers)).isEmpty)

/-- A request that proposes neither a tunnel nor an upgrade. -/
def Request.proposesNothing (request : Request) : Prop :=
  request.method ≠ .connect ∧
    (request.httpVersion = .http11 → (upgradeProtocols request.headers).getD [] = [])

namespace Connection

variable {hp : Httparse} {c c' : Connection} {rest text after : Bytes} {limits : Limits}
  {framing : Framing}

/-! ## What the client sends is what the server accepts -/

theorem validateRequest_host {request : Request} {fields : Fields}
    (h : validateRequest request fields = .ok ()) :
    fields.hostValid .http11 = true := by
  obtain ⟨htarget, hheaders, hsend⟩ := validateRequest_ok h
  cases hhost : fields.hostValid .http11 with
  | true => rfl
  | false =>
    unfold validateRequest at h
    rw [htarget, hheaders, hsend, hhost] at h
    cases h

/-- An Upgrade field that is sent is announced in Connection, so that the receiver
sees the same offer. -/
theorem offeredUpgrades_sent {request : Request} {framing : Framing} {upgrades : List Bytes}
    (h : RequestChecked request framing upgrades) :
    offeredUpgrades request (Fields.scan request.headers) = upgrades := by
  obtain ⟨_, _, hsend⟩ := validateRequest_ok h.valid
  obtain ⟨offered, hoffered, hsome, hupgrades⟩ := h.offers
  unfold offeredUpgrades
  rw [hupgrades, hoffered]
  by_cases hhttp : request.httpVersion = .http11
  · by_cases hupgrade : (Fields.scan request.headers).upgrade = true
    · rw [if_pos ⟨hhttp, hupgrade⟩, if_pos hhttp]
      rfl
    · rw [if_neg fun hboth => hupgrade hboth.2, if_pos hhttp]
      -- Without the option there is no Upgrade field.
      by_contra hne
      have hfield : (Fields.scan request.headers).upgradeField = true := by
        rw [Fields.scan_upgradeField]
        exact upgradeProtocols_field hoffered fun hnil => hne hnil.symm
      exact hupgrade (checkSend_upgrade hsend hfield)
  · rw [if_neg fun hboth => hhttp hboth.1, if_neg hhttp]

/-- The head of a request is its fields with Host in front, and a server that gets
these fields accepts it and notes what the client has. -/
theorem sendRequest_means {request : Request} {bytes : Bytes}
    (h : sendRequest request c = (.ok bytes, c')) :
    ∃ framing, c'.cycle.writer = some framing ∧ framing ≠ .closeDelimited ∧
      (Fields.scan request.headers).framing request.httpVersion false = .ok framing ∧
      bytes = requestLine request.method.asBytes request.target request.httpVersion ++
        (hostFirst request.headers.iter (Fields.scan request.headers).hostAt).flatMap writeField ++
          crlf ∧
      request.target ≠ [] ∧ request.target.all isAsciiGraphic = true ∧
      (∀ field ∈ hostFirst request.headers.iter (Fields.scan request.headers).hostAt,
        validField field) ∧
      ∀ headers : Headers,
        headers.iter = hostFirst request.headers.iter (Fields.scan request.headers).hostAt →
        Accepts { request with headers := headers } framing ∧
        Notes c' { request with headers := headers } framing ∧
        offeredUpgrades { request with headers := headers } (Fields.scan headers) =
          offeredUpgrades request (Fields.scan request.headers) ∧
        (Fields.scan headers).persistent request.httpVersion =
          (Fields.scan request.headers).persistent request.httpVersion := by
  obtain ⟨framing, upgrades, state, _, _, hchecked, _, hbytes, rfl⟩ := sendRequest_ok h
  obtain ⟨htarget, hheaders, _⟩ := validateRequest_ok hchecked.valid
  have hhost := validateRequest_host hchecked.valid
  have hone : (Fields.scan request.headers).hosts = 1 := by
    unfold Fields.hostValid at hhost
    split at hhost
    · cases hhost
    next hhosts => exact hhosts
    · cases hhost
  have htarget' : request.target ≠ [] := by
    intro hnil
    unfold validRequestTarget at htarget
    rw [hnil] at htarget
    cases htarget
  have hvalid : ∀ field ∈ hostFirst request.headers.iter (Fields.scan request.headers).hostAt,
      validField field :=
    fun field hmem => validateHeaders_iff.mp hheaders field ((hostFirst_perm _ _).mem_iff.mp hmem)
  refine ⟨framing, by rw [sentRequest_cycle], ?_, hchecked.framed, hbytes, htarget',
    validRequestTarget_graphic htarget, hvalid, fun headers hiter => ?_⟩
  · intro hclose
    have hframed := hchecked.framed
    rw [hclose] at hframed
    exact framing_ne_closeDelimited hframed
  · have hsame : ∀ name, headers.getAll name = request.headers.getAll name := by
      intro name
      rw [getAll_eq, getAll_eq, hiter]
      exact valuesOf_hostFirst hone name
    obtain ⟨hframing, hhosts, hpersists, hupgrade, hcontinue⟩ := Fields.scan_congr hsame
    have hoffers : offeredUpgrades { request with headers := headers } (Fields.scan headers) =
        offeredUpgrades request (Fields.scan request.headers) := by
      unfold offeredUpgrades
      rw [hupgrade]
      dsimp only
      rw [upgradeProtocols_congr hsame]
    refine ⟨⟨htarget, ?_, ?_, hchecked.content⟩, ⟨?_, ?_, ?_⟩, hoffers, hpersists _⟩
    · show (Fields.scan headers).hostValid request.httpVersion = true
      rw [hhosts]
      unfold Fields.hostValid at hhost ⊢
      rw [hone] at hhost ⊢
      exact hhost
    · show (Fields.scan headers).framing request.httpVersion false = .ok framing
      rw [hframing]
      exact hchecked.framed
    · rw [sentRequest_cycle]
    · rw [sentRequest_cycle, hoffers, offeredUpgrades_sent hchecked]
    · show _ = ((Fields.scan headers).expectsContinue request.httpVersion framing && _)
      rw [sentRequest_cycle, hoffers, offeredUpgrades_sent hchecked, hcontinue]

/-! ## The server waits for the head -/

/-- A server that waits for the head of a request. -/
structure AwaitsRequest (limits : Limits) (c : Connection) : Prop where
  role : c.role = .server
  limits : c.limits = limits
  before : c.BeforeHead
  peer : c.peerState = .idle
  persists : c.state.persists = true

theorem AwaitsRequest.client (h : c.AwaitsRequest limits) : c.state.client = .idle := by
  have hpeer := h.peer
  unfold peerState at hpeer
  rw [h.role] at hpeer
  exact hpeer

theorem AwaitsRequest.new (h : c.AwaitsRequest limits) : c.state = .new :=
  ConnectionState.persists_idle _ h.persists h.client

theorem AwaitsRequest.extend (h : c.AwaitsRequest limits) (data : Bytes) :
    AwaitsRequest limits { c with input := c.input.extend data } :=
  ⟨h.role, h.limits, h.before.extend data, h.peer, h.persists⟩

/-- On a server the end of the input is only noted. -/
theorem recordEof_server (hrole : c.role = .server) : c.recordEof = { c with eof := true } := by
  unfold recordEof
  rw [hrole]
  rfl

theorem AwaitsRequest.eof (h : c.AwaitsRequest limits) : c.recordEof.AwaitsRequest limits := by
  have hbefore := h.before.same (recordEof_decoder c)
  rw [recordEof_server h.role] at hbefore ⊢
  exact ⟨h.role, h.limits, hbefore, h.peer, h.persists⟩

/-! ## The head comes -/

theorem acceptRequest_of {request : Request} {state : ConnectionState} (h : Accepts request framing)
    (hrole : c.role = .server)
    (hstate : c.state.processEvent .client (requestEvent request.method
      (offeredUpgrades request (Fields.scan request.headers))) = some state) :
    acceptRequest request c =
      (.ok (.event (.request request)), acceptedRequest request framing state c) := by
  have hpeer : c.state.processEvent c.role.peer
      (requestEvent request.method (offeredUpgrades request (Fields.scan request.headers))) =
          some state := by
    rw [hrole]
    exact hstate
  unfold acceptRequest
  simp only [Call.failIf_bind, Call.ofExcept_bind]
  rw [if_neg (by rw [h.target]; decide), if_neg (by rw [h.host]; decide)]
  rw [h.framed]
  dsimp only
  rw [if_neg (by rw [h.content]; decide), Call.bind_of_ok (advancePeer_of_some hpeer)]
  rfl

/-- An accepted request takes the server before its body. -/
theorem acceptedRequest_begins {request : Request} {state : ConnectionState}
    (hrole : c.role = .server)
    (hspent : c.cycle.chunkExtensionBytes = 0)
    (hstate : c.state.processEvent .client (requestEvent request.method
      (offeredUpgrades request (Fields.scan request.headers))) = some state) :
    Begins c.limits .server framing (acceptedRequest request framing state c) ∧
      Notes (acceptedRequest request framing state c) request framing := by
  have hbody : state.state .client = .sendBody :=
    (ConnectionState.phaseLaws.own _ _ _ _ hstate).2.2.mpr rfl
  have hrole' : (acceptedRequest request framing state c).role = .server := by
    unfold acceptedRequest recordRequest
    rw [disableKeepAliveIf_eq]
    exact hrole
  refine ⟨⟨?_, hrole', ?_, ?_, ?_⟩, ⟨?_, ?_, ?_⟩⟩
  · unfold acceptedRequest recordRequest
    rw [disableKeepAliveIf_eq]
    rfl
  · unfold peerState
    rw [hrole', acceptedRequest_state]
    exact ConnectionState.disableKeepAliveIf_sendBody _ hbody
  · rw [acceptedRequest_cycle]
  · rw [acceptedRequest_cycle]
    exact hspent
  all_goals rw [acceptedRequest_cycle]

/-- Unless the input ends in front of it, a head that is waited for is read. -/
theorem nextEventInner_idle (hpeer : c.peerState = .idle) (hreader : c.cycle.reader = .head)
    (hlines : ¬(c.eof = true ∧ c.input.asSlice.length ≤ c.limits.maxHeadBytes ∧
      onlyEmptyLines c.input.asSlice = true))
    {polled : Polled} {c' : Connection} (h : readHead hp c = (.ok polled, c')) :
    nextEventInner hp c = (.ok polled, c') := by
  refine nextEventInner_reports ?_
  unfold dispatch
  rw [Call.get_bind]
  simp only [hpeer]
  rw [if_neg hlines]
  unfold readBody
  rw [Call.get_bind]
  simp only [hreader]
  exact Call.bind_of_ok h

/-- A poll of a server that waits for the head of a request. -/
theorem nextEvent_awaitsRequest {request : Request} {head more : Bytes}
    {r : Except RemoteProtocolError NextEvent}
    (hhp : hp.Stable) (hc : c.AwaitsRequest limits)
    (hreads : ReadsAs (fun data => parseRequestHead hp data limits.maxHeaderCount) head
      (head.length, request))
    (hfits : head.length ≤ limits.maxHeadBytes) (haccepts : Accepts request framing)
    (htext : c.input.asSlice ++ rest = head ++ more) (heof : c.eof = true → rest = [])
    (hpoll : nextEvent hp c = (r, c')) :
    (r = .ok .needData ∧ rest ≠ [] ∧ c'.AwaitsRequest limits ∧ c'.input = c.input) ∨
      (r = .ok (.event (.request request)) ∧ Begins limits .server framing c' ∧
        Notes c' request framing ∧
        c'.input.asSlice ++ rest = more ∧ c'.cycle.writer = c.cycle.writer ∧ ∃ state,
          ConnectionState.new.processEvent .client (requestEvent request.method
            (offeredUpgrades request (Fields.scan request.headers))) = some state ∧
          c'.state = state.disableKeepAliveIf
            !((Fields.scan request.headers).persistent request.httpVersion)) := by
  have hread := readHead_request hp hc.role
  rw [hc.limits] at hread
  have hfits' : head.length ≤ c.limits.maxHeadBytes := by
    rw [hc.limits]
    exact hfits
  -- There is a head, so these are not empty lines before a clean close.
  have hlines : ¬(c.eof = true ∧ c.input.asSlice.length ≤ c.limits.maxHeadBytes ∧
      onlyEmptyLines c.input.asSlice = true) := by
    rintro ⟨hclosed, _, hlines⟩
    rw [heof hclosed, List.append_nil] at htext
    have hnone : parseRequestHead hp c.input.asSlice limits.maxHeaderCount = .ok none :=
      parseRequestHead_emptyLines hhp hlines
    have hsome := hreads.whole more
    rw [← htext, hnone] at hsome
    cases hsome
  have hreports : ∀ {polled : Polled} {c' : Connection}, readHead hp c = (.ok polled, c') →
      nextEventInner hp c = (.ok polled, c') := nextEventInner_idle hc.peer hc.before.reader hlines
  obtain ⟨progress, hcomes⟩ := readSection_comes
    (fun parsed => do
      Call.modify (consumeSection parsed.1)
      acceptRequest parsed.2)
    hreads hfits' hc.before.notes htext heof
  rcases hcomes with ⟨hrest, hopen, hnotes, hwaits⟩ | ⟨later, hinput, hmore, haccepted⟩
  · rw [← hread] at hwaits
    unfold nextEvent at hpoll
    rw [hreports hwaits] at hpoll
    cases hpoll
    exact Or.inl ⟨rfl, hrest,
      ⟨hc.role, hc.limits, ⟨hc.before.reader, hc.before.spent, hnotes⟩, hc.peer,
      hc.persists⟩, rfl⟩
  · generalize hc1 :
      (c.rescan progress c.cycle.reader c.cycle.chunkExtensionBytes).consumeSection head.length = c1
    have hrole : c1.role = .server := by
      rw [← hc1]
      exact hc.role
    have hnew : c1.state = .new := by
      rw [← hc1]
      exact hc.new
    obtain ⟨state, hstate⟩ := Option.isSome_iff_exists.mp (ConnectionState.new_request
      ⟨request.method == .connect,
        !(offeredUpgrades request (Fields.scan request.headers)).isEmpty⟩)
    have hstate' : c1.state.processEvent .client (requestEvent request.method
        (offeredUpgrades request (Fields.scan request.headers))) = some state := by
      rw [hnew]
      exact hstate
    obtain ⟨hbegins, hnoted⟩ := @acceptedRequest_begins c1 framing request state hrole
      (by rw [← hc1]; exact hc.before.spent) hstate'
    rw [← hread, Call.modify_bind] at haccepted
    change _ = acceptRequest request
      ((c.rescan progress c.cycle.reader c.cycle.chunkExtensionBytes).consumeSection
      head.length) at haccepted
    rw [hc1, acceptRequest_of haccepts hrole hstate'] at haccepted
    unfold nextEvent at hpoll
    rw [hreports haccepted] at hpoll
    cases hpoll
    have hlimits : c1.limits = limits := by
      rw [← hc1]
      exact hc.limits
    rw [hlimits] at hbegins
    refine Or.inr ⟨rfl, hbegins, hnoted, ?_, ?_, state, hstate, acceptedRequest_state _ _ _ _⟩
    · rw [acceptedRequest_input, ← hc1]
      show (c.input.consume head.length).asSlice ++ rest = more
      rw [Buffer.asSlice_consume, hinput, List.drop_left, hmore]
    · rw [acceptedRequest_cycle, ← hc1]
      rfl

end Connection

end H11r
