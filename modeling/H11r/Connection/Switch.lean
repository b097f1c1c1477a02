import H11r.Connection.Layers
import H11r.Wire.Scan

/-!
# Protocol switches are negotiated

A server switches protocols after a CONNECT it accepts or a 101 it sends, and
the client follows when its request is complete. What makes the switch valid is
spread over two calls of two methods, and on the way from one to the other it
is kept in four fields of `Cycle` and `ConnectionState`.

`Exchange` is the history of the current cycle as its heads: what the request
was, which responses have been sent or received in which order, and whether the
request has ended. `Recorded` says what the fields of the cycle mean in terms of
it, `Settled` what the states of the actors do, and both are kept by every call.
-/

namespace H11r

/-! ## The exchange of a cycle -/

/-- The heads of the current cycle, and whether its request has ended. -/
structure Exchange where
  request : Option Request
  heads : List Response
  requestEnded : Bool

namespace Exchange

open Connection (Op Outcome)

def new : Exchange := ⟨none, [], false⟩

def asked (x : Exchange) (request : Request) : Exchange := { x with request := some request }

def answered (x : Exchange) (response : Response) : Exchange :=
  { x with heads := x.heads ++ [response] }

/-- The message of `actor` has ended. -/
def ended (x : Exchange) (actor : Role) : Exchange :=
  match actor with
  | .client => { x with requestEnded := true }
  | .server => x

/-- What an event of the peer of `role` adds. -/
def hear (role : Role) (x : Exchange) : Event → Exchange
  | .request request => x.asked request
  | .informationalResponse response | .response response => x.answered response
  | .endOfMessage _ => x.ended role.peer
  | .data _ _ _ | .connectionClosed => x

/-- What a call of a connection in the given role adds. -/
def note (role : Role) (x : Exchange) : Op × Outcome → Exchange
  | (.sendRequest request, .bytes _) => x.asked request
  | (.sendRequestWithBody request body, .bytes _) =>
    (x.asked (Connection.requestWithLength request body.length)).ended .client
  | (.sendRequestWithBodyFraming request length, .around _ _) =>
    (x.asked (Connection.requestWithLength request length)).ended .client
  | (.sendInformationalResponse response, .bytes _) | (.sendResponse response, .bytes _)
  | (.sendResponseWithBody response _, .bytes _)
  | (.sendResponseWithBodyFraming response _, .around _ _) => x.answered response
  | (.endOfMessage _, .bytes _) => x.ended role
  | (.nextEvent, .polled (.event event)) => x.hear role event
  | (.startNextCycle, .unit) => .new
  | _ => x

/-- The exchange of the cycle that a history ends in. -/
def ofHistory (role : Role) (history : List (Op × Outcome)) : Exchange :=
  history.foldl (note role) .new

end Exchange

/-- The request offers these protocols: it is HTTP/1.1, its Connection field has
the `upgrade` option and its Upgrade field lists them. -/
structure Offers (request : Request) (offered : List Bytes) : Prop where
  version : request.httpVersion = .http11
  option : hasToken request.headers (ascii "connection") (ascii "upgrade") = true
  listed : upgradeProtocols request.headers = some offered

/-- The request has content and waits for a 100 before it sends it. -/
def Request.ExpectsContinue (request : Request) : Prop :=
  ∃ framing, (Fields.scan request.headers).framing request.httpVersion false = .ok framing ∧
    (Fields.scan request.headers).expectsContinue request.httpVersion framing = true

/-- A response that selects among the offered protocols. -/
structure Selects (response : Response) (offered : List Bytes) : Prop where
  status : response.status.asU16 = 101
  version : response.httpVersion = .http11
  option : hasToken response.headers (ascii "connection") (ascii "upgrade") = true
  listed : ∃ selected, upgradeProtocols response.headers = some selected ∧ selected ≠ [] ∧
    ∀ protocol ∈ selected, ∃ offer ∈ offered, protocolMatches offer protocol = true

namespace Exchange

/-- The request is a CONNECT, and the server's last head accepts it. -/
def Tunnels (x : Exchange) : Prop :=
  ∃ request earlier response, x.request = some request ∧ request.method = .connect ∧
    x.heads = earlier ++ [response] ∧ response.status.isSuccess = true

/-- The request offers protocols, and the server's last head selects among them,
after a 100 if the request waited for one. -/
def Upgrades (x : Exchange) : Prop :=
  ∃ request offered earlier response, x.request = some request ∧ Offers request offered ∧
    x.heads = earlier ++ [response] ∧ Selects response offered ∧
    (request.ExpectsContinue → ∃ continue_ ∈ earlier, continue_.status.asU16 = 100)

end Exchange

/-! ## What the fields of a connection mean -/

/-- A request and an answer to its expectation, as the cycle has them. -/
def Recorded (x : Exchange) (cycle : Cycle) : Prop :=
  (cycle.requestKind = none ∧ cycle.upgradeProposals = []) ∨
    ∃ request, x.request = some request ∧
      cycle.requestKind = some (RequestKind.fromMethod request.method.asBytes) ∧
      (cycle.upgradeProposals ≠ [] → Offers request cycle.upgradeProposals ∧
        (cycle.continueBeforeUpgrade = false → request.ExpectsContinue →
          ∃ continue_ ∈ x.heads, continue_.status.asU16 = 100))

/-- The states of a client whose request has ended on the way to a switch. -/
def State.pastRequest : State → Bool
  | .done | .mightSwitchProtocol | .switchedProtocol => true
  | _ => false

/-- The actors have switched, or are about to, for a reason. -/
structure Settled (x : Exchange) (s : ConnectionState) : Prop where
  server : s.server = .switchedProtocol → x.Tunnels ∨ x.Upgrades
  client : s.client = .switchedProtocol → s.server = .switchedProtocol
  ended : s.client.pastRequest = true → x.requestEnded = true

/-- A change of the actors that switches nothing and ends no request. -/
structure NoSwitch (s s' : ConnectionState) : Prop where
  server : s'.server = .switchedProtocol → s.server = .switchedProtocol
  client : (s.client = .switchedProtocol → s.server = .switchedProtocol) →
    s'.client = .switchedProtocol → s'.server = .switchedProtocol
  ended : s'.client.pastRequest = true → s.client.pastRequest = true

instance decidableNoSwitch (s s' : ConnectionState) : Decidable (NoSwitch s s') :=
  decidable_of_iff ((s'.server = .switchedProtocol → s.server = .switchedProtocol) ∧
      ((s.client = .switchedProtocol → s.server = .switchedProtocol) →
        s'.client = .switchedProtocol → s'.server = .switchedProtocol) ∧
      (s'.client.pastRequest = true → s.client.pastRequest = true))
    ⟨fun h => ⟨h.1, h.2.1, h.2.2⟩, fun h => ⟨h.1, h.2, h.3⟩⟩

/-- The events that switch the server. -/
def StateEvent.switches : StateEvent → Bool
  | .protocolSwitch _ => true
  | _ => false

namespace ConnectionState

/-- Which steps of the state machine switch an actor. -/
structure SwitchLaws : Prop where
  /-- Only a switch event switches the server, and only the end of the request
  takes the client past it. -/
  event : ∀ (role : Role) (event : StateEvent) (s s' : ConnectionState),
      s.processEvent role event = some s' → event.switches = false →
        ¬(role = .client ∧ event = .endOfMessage) → NoSwitch s s'
  /-- The client follows only a server that has switched, and does not end its
  request by it. -/
  follows : ∀ (s : ConnectionState),
      (s.client = .switchedProtocol → s.server = .switchedProtocol) →
        ∀ event ∈ [StateEvent.protocolSwitch .connect, .protocolSwitch .upgrade],
          ∀ s', s.processEvent .server event = some s' →
            (s'.client = .switchedProtocol → s'.server = .switchedProtocol) ∧
            (s'.client.pastRequest = true → s.client.pastRequest = true)
  /-- The end of the request lets the client follow a server that has switched. -/
  ends : ∀ (s : ConnectionState),
      (s.client = .switchedProtocol → s.server = .switchedProtocol) →
        ∀ s', s.processEvent .client .endOfMessage = some s' →
          (s'.client = .switchedProtocol → s'.server = .switchedProtocol) ∧
          (s'.server = .switchedProtocol → s.server = .switchedProtocol)
  disable : ∀ s : ConnectionState, NoSwitch s s.disableKeepAlive
  /-- Poisoning a server that has not switched, or any client. -/
  poison : ∀ (role : Role) (s : ConnectionState),
      s.state role ≠ .switchedProtocol → NoSwitch s (s.processError role)

theorem switchLaws : SwitchLaws where
  event := by decide +kernel
  follows := by decide +kernel
  ends := by decide +kernel
  disable := by decide +kernel
  poison := by decide +kernel

theorem disableKeepAliveIf_noSwitch (reason : Bool) (s : ConnectionState) :
    NoSwitch s (s.disableKeepAliveIf reason) := by
  cases reason with
  | false => exact ⟨id, id, id⟩
  | true => exact switchLaws.disable s

end ConnectionState

theorem NoSwitch.settled {x : Exchange} {s s' : ConnectionState} (h : NoSwitch s s')
    (hs : Settled x s) : Settled x s' :=
  ⟨fun hserver => hs.server (h.server hserver), h.client hs.client,
    fun hended => hs.ended (h.ended hended)⟩

theorem NoSwitch.trans {s s' s'' : ConnectionState} (h : NoSwitch s s') (h' : NoSwitch s' s'') :
    NoSwitch s s'' :=
  ⟨fun hserver => h.server (h'.server hserver), fun hs => h'.client (h.client hs),
    fun hended => h.ended (h'.ended hended)⟩

theorem Settled.disableIf {x : Exchange} {s : ConnectionState} (reason : Bool) (h : Settled x s) :
    Settled x (s.disableKeepAliveIf reason) :=
  (ConnectionState.disableKeepAliveIf_noSwitch reason s).settled h

/-- A request finds nothing switched, and leaves nothing switched. -/
theorem Settled.request {x : Exchange} {s s' : ConnectionState} {method : Method}
    {upgrades : List Bytes}
    (hstate : s.processEvent .client (requestEvent method upgrades) = some s') : Settled x s' := by
  have hrequest : ∀ (proposals : SwitchProposals) (s s' : ConnectionState),
      s.processEvent .client (.request proposals) = some s' →
        s'.client = .sendBody ∧ s'.server = .sendResponse := by
    decide +kernel
  obtain ⟨hclient, hserver⟩ := hrequest _ _ _ hstate
  refine ⟨fun h => ?_, fun h => ?_, fun h => ?_⟩
  · cases hserver.symm.trans h
  · cases hclient.symm.trans h
  · rw [hclient] at h
    cases h

namespace Connection

open Lib (Call)

variable {hp : Httparse} {c c' : Connection} {x : Exchange}

/-- The heads of the cycle and its fields tell the same story. -/
structure Noted (x : Exchange) (c : Connection) : Prop where
  recorded : Recorded x c.cycle
  settled : Settled x c.state

/-- A change that says nothing of a head or of the end of a request. -/
theorem Noted.quiet (h : Noted x c) (hstate : NoSwitch c.state c'.state)
    (hkind : c'.cycle.requestKind = c.cycle.requestKind)
    (hupgrades : c'.cycle.upgradeProposals = c.cycle.upgradeProposals)
    (hcontinue : c'.cycle.continueBeforeUpgrade = c.cycle.continueBeforeUpgrade) : Noted x c' := by
  refine ⟨?_, hstate.settled h.settled⟩
  unfold Recorded
  rw [hkind, hupgrades, hcontinue]
  exact h.recorded

/-- A change that also drops the offers of the request. -/
theorem Noted.forgets (h : Noted x c) (hstate : NoSwitch c.state c'.state)
    (hkind : c'.cycle.requestKind = c.cycle.requestKind)
    (hupgrades : c'.cycle.upgradeProposals = []) : Noted x c' := by
  refine ⟨?_, hstate.settled h.settled⟩
  unfold Recorded
  rw [hkind, hupgrades]
  rcases h.recorded with ⟨hnone, _⟩ | ⟨request, hrequest, hrecorded, _⟩
  · exact Or.inl ⟨hnone, rfl⟩
  · exact Or.inr ⟨request, hrequest, hrecorded, fun hne => absurd rfl hne⟩

/-! ## Requests -/

/-- A request that may be sent with an Upgrade field has the option for it. -/
theorem checkSend_upgrade {fields : Fields} (h : fields.checkSend = .ok ())
    (hfield : fields.upgradeField = true) : fields.upgrade = true := by
  unfold Fields.checkSend at h
  cases hupgrade : fields.upgrade with
  | true => rfl
  | false =>
    rw [hfield, hupgrade] at h
    split at h
    · cases h
    · split at h
      · cases h
      · cases h

theorem upgradeProtocols_field {headers : Headers} {offered : List Bytes}
    (h : upgradeProtocols headers = some offered) (hne : offered ≠ []) :
    hasField headers (ascii "upgrade") = true := by
  unfold upgradeProtocols at h
  cases hfield : hasField headers (ascii "upgrade") with
  | true => rfl
  | false =>
    have hnone : headers.getAll (ascii "upgrade") = [] := by
      unfold hasField at hfield
      simpa using hfield
    rw [hnone, hfield] at h
    cases h
    exact absurd rfl hne

theorem requestChecked_offers {request : Request} {framing : Framing} {upgrades : List Bytes}
    (h : RequestChecked request framing upgrades) (hne : upgrades ≠ []) :
    Offers request upgrades := by
  obtain ⟨offered, hoffered, _, hupgrades⟩ := h.offers
  split at hupgrades
  next hversion =>
    subst hupgrades
    refine ⟨hversion, ?_, hoffered⟩
    rw [← Fields.scan_upgrade_eq_hasToken]
    refine checkSend_upgrade (validateRequest_ok h.valid).2.2 ?_
    rw [Fields.scan_upgradeField]
    exact upgradeProtocols_field hoffered hne
  next => exact absurd hupgrades hne

theorem offeredUpgrades_offers {request : Request}
    (hne : offeredUpgrades request (Fields.scan request.headers) ≠ []) :
    Offers request (offeredUpgrades request (Fields.scan request.headers)) := by
  unfold offeredUpgrades at hne ⊢
  by_cases h : request.httpVersion = .http11 ∧ (Fields.scan request.headers).upgrade = true
  · rw [if_pos h] at hne ⊢
    refine ⟨h.1, ?_, ?_⟩
    · rw [← Fields.scan_upgrade_eq_hasToken]
      exact h.2
    · cases hlist : upgradeProtocols request.headers with
      | none =>
        rw [hlist] at hne
        exact absurd rfl hne
      | some offered => rfl
  · rw [if_neg h] at hne
    exact absurd rfl hne

/-- A recorded request: its kind, its offer, and its expectation. -/
theorem Recorded.request {cycle : Cycle} {request : Request} {framing : Framing}
    {upgrades : List Bytes}
    (hframing : (Fields.scan request.headers).framing request.httpVersion false = .ok framing)
    (hoffers : upgrades ≠ [] → Offers request upgrades)
    (hkind : cycle.requestKind = some (RequestKind.fromMethod request.method.asBytes))
    (hupgrades : cycle.upgradeProposals = upgrades)
    (hcontinue : cycle.continueBeforeUpgrade =
      ((Fields.scan request.headers).expectsContinue request.httpVersion framing &&
        !upgrades.isEmpty)) : Recorded (x.asked request) cycle := by
  refine Or.inr ⟨request, rfl, hkind, fun hne => ?_⟩
  rw [hupgrades] at hne ⊢
  refine ⟨hoffers hne, fun hclear hexpects => ?_⟩
  obtain ⟨framing', hframing', hexpect⟩ := hexpects
  rw [hframing] at hframing'
  cases hframing'
  rw [hcontinue, hexpect] at hclear
  cases upgrades with
  | nil => exact absurd rfl hne
  | cons => cases hclear

/-! ## Responses -/

/-- A server event finds a server that has not switched. -/
theorem processEvent_unswitched {s s' : ConnectionState} {event : StateEvent}
    (h : s.processEvent .server event = some s') : s.server ≠ .switchedProtocol := by
  have hown := ConnectionState.phaseLaws.own _ _ _ _ h
  intro hswitched
  cases hinside : event.insideBody with
  | true => cases hswitched.symm.trans (hown.1.mpr hinside)
  | false =>
    have hhead := hown.2.1 hinside
    change s.server.readsHead = true at hhead
    rw [hswitched] at hhead
    cases hhead

/-- A 101 that `valid_upgrade_response` accepts selects among what is recorded. -/
theorem validUpgradeResponse_selects {response : Response}
    (hstatus : response.status.asU16 = 101)
    (h : c.validUpgradeResponse response.httpVersion response.headers = true) :
    Selects response c.cycle.upgradeProposals := by
  unfold validUpgradeResponse at h
  rw [Bool.and_eq_true, Bool.and_eq_true, beq_iff_eq] at h
  obtain ⟨⟨hversion, hoption⟩, hlist⟩ := h
  obtain ⟨selected, hselected, hall⟩ := (Option.any_eq_true ..).mp hlist
  rw [Bool.and_eq_true, List.all_eq_true] at hall
  refine ⟨hstatus, hversion, hoption, selected, hselected, ?_, fun protocol hmem => ?_⟩
  · intro hnone
    rw [hnone] at hall
    cases hall.1
  · exact List.any_eq_true.mp (hall.2 protocol hmem)

theorem informationalEvent_status {status : StatusCode} {version : Version} {headers : Headers}
    (h : c.informationalEvent status version headers = some (.protocolSwitch .upgrade)) :
    status.asU16 = 101 := by
  unfold informationalEvent at h
  split at h
  · cases h
  next hstatus => exact Decidable.not_not.mp hstatus

/-- The 1xx heads, and the switch that one of them can make. -/
theorem Noted.informational {response : Response} {event : StateEvent}
    {s state : ConnectionState} (h : Noted x c)
    (hevent : c.informationalEvent response.status response.httpVersion response.headers =
      some event)
    (hbefore : NoSwitch c.state s) (hstate : s.processEvent .server event = some state)
    (hafter : NoSwitch state c'.state) (hkind : c'.cycle.requestKind = c.cycle.requestKind)
    (hupgrades : c'.cycle.upgradeProposals = c.cycle.upgradeProposals)
    (hcontinue : response.status.asU16 = 100 ∨
      c'.cycle.continueBeforeUpgrade = c.cycle.continueBeforeUpgrade) :
    Noted (x.answered response) c' := by
  have hsettled := hbefore.settled h.settled
  refine ⟨?_, hafter.settled ?_⟩
  · unfold Recorded
    rw [hkind, hupgrades]
    rcases h.recorded with hnone | ⟨request, hrequest, hrecorded, hoffers⟩
    · exact Or.inl hnone
    · refine Or.inr ⟨request, hrequest, hrecorded, fun hne => ⟨(hoffers hne).1, fun hclear hexpects => ?_⟩⟩
      rcases hcontinue with hcontinue | hcontinue
      · exact ⟨response, List.mem_append_right _ (List.mem_singleton_self _), hcontinue⟩
      · rw [hcontinue] at hclear
        obtain ⟨earlier, hmem, hearlier⟩ := (hoffers hne).2 hclear hexpects
        exact ⟨earlier, List.mem_append_left _ hmem, hearlier⟩
  · rcases informationalEvent_cases hevent with rfl | ⟨rfl, hclear, hvalid⟩
    · have hno := ConnectionState.switchLaws.event _ _ _ _ hstate rfl nofun
      refine ⟨fun hserver => ?_, hno.client hsettled.client, fun hended =>
        hsettled.ended (hno.ended hended)⟩
      exact absurd (hno.server hserver) (processEvent_unswitched hstate)
    · obtain ⟨hclient, hended⟩ := ConnectionState.switchLaws.follows _ hsettled.client _
        (by simp) _ hstate
      refine ⟨fun _ => Or.inr ?_, hclient, fun hpast => hsettled.ended (hended hpast)⟩
      have hne := validUpgradeResponse_offered hvalid
      rcases h.recorded with ⟨_, hnone⟩ | ⟨request, hrequest, _, hoffers⟩
      · exact absurd hnone hne
      · exact ⟨request, c.cycle.upgradeProposals, x.heads, response, hrequest, (hoffers hne).1, rfl,
          validUpgradeResponse_selects (informationalEvent_status hevent) hvalid,
          (hoffers hne).2 hclear⟩

theorem fromMethod_connect {method : Method}
    (h : RequestKind.fromMethod method.asBytes = .connect) : method = .connect := by
  unfold RequestKind.fromMethod at h
  split at h
  · cases h
  · split at h
    next hconnect =>
      cases method
      rw [beq_iff_eq] at hconnect
      cases hconnect
      rfl
    next => cases h

/-- The final heads, and the tunnel that one of them can open. -/
theorem Noted.final {response : Response} {status : StatusCode} {s state : ConnectionState}
    (h : Noted x c) (hstatus : response.status = status) (hbefore : NoSwitch c.state s)
    (hstate : s.processEvent .server (c.finalResponseEvent status) = some state)
    (hafter : NoSwitch state c'.state) (hkind : c'.cycle.requestKind = c.cycle.requestKind)
    (hupgrades : c'.cycle.upgradeProposals = []) : Noted (x.answered response) c' := by
  have hsettled := hbefore.settled h.settled
  refine ⟨?_, hafter.settled ?_⟩
  · unfold Recorded
    rw [hkind, hupgrades]
    rcases h.recorded with ⟨hnone, _⟩ | ⟨request, hrequest, hrecorded, _⟩
    · exact Or.inl ⟨hnone, rfl⟩
    · exact Or.inr ⟨request, hrequest, hrecorded, fun hne => absurd rfl hne⟩
  · unfold finalResponseEvent at hstate
    split at hstate
    next htunnel =>
      obtain ⟨hclient, hended⟩ := ConnectionState.switchLaws.follows _ hsettled.client _
        (by simp) _ hstate
      refine ⟨fun _ => Or.inl ?_, hclient, fun hpast => hsettled.ended (hended hpast)⟩
      unfold opensTunnel requestIs at htunnel
      rw [Bool.and_eq_true, beq_iff_eq] at htunnel
      rcases h.recorded with ⟨hnone, _⟩ | ⟨request, hrequest, hrecorded, _⟩
      · cases hnone.symm.trans htunnel.1
      · have hconnect := Option.some.inj (hrecorded.symm.trans htunnel.1)
        exact ⟨request, x.heads, response, hrequest, fromMethod_connect hconnect, rfl,
          by rw [hstatus]; exact htunnel.2⟩
    next =>
      have hno := ConnectionState.switchLaws.event _ _ _ _ hstate rfl nofun
      refine ⟨fun hserver => ?_, hno.client hsettled.client, fun hended =>
        hsettled.ended (hno.ended hended)⟩
      exact absurd (hno.server hserver) (processEvent_unswitched hstate)

/-- The end of a message. -/
theorem Noted.ends {actor : Role} (h : Noted x c)
    (hstate : c.state.processEvent actor .endOfMessage = some c'.state)
    (hkind : c'.cycle.requestKind = c.cycle.requestKind)
    (hupgrades : c'.cycle.upgradeProposals = c.cycle.upgradeProposals)
    (hcontinue : c'.cycle.continueBeforeUpgrade = c.cycle.continueBeforeUpgrade) :
    Noted (x.ended actor) c' := by
  cases actor with
  | server =>
    exact h.quiet (ConnectionState.switchLaws.event _ _ _ _ hstate rfl nofun) hkind hupgrades
      hcontinue
  | client =>
    obtain ⟨hclient, hserver⟩ :=
      ConnectionState.switchLaws.ends _ h.settled.client _ hstate
    refine ⟨?_, ⟨fun hswitched => h.settled.server (hserver hswitched), hclient, fun _ => rfl⟩⟩
    unfold Recorded
    rw [hkind, hupgrades, hcontinue]
    exact h.recorded

/-! ## The calls of the local side -/

theorem sendRequest_noted {request : Request} {bytes : Bytes}
    (hok : sendRequest request c = (.ok bytes, c')) : Noted (x.asked request) c' := by
  obtain ⟨framing, upgrades, state, _, _, hchecked, hstate, _, rfl⟩ := sendRequest_ok hok
  refine ⟨?_, ?_⟩
  · rw [sentRequest_cycle]
    exact Recorded.request hchecked.framed (requestChecked_offers hchecked) rfl rfl rfl
  · rw [sentRequest_state]
    exact Settled.disableIf _ (.request hstate)

theorem recordInformational_continue (status : StatusCode) (c : Connection) :
    status.asU16 = 100 ∨ (recordInformational status c).cycle.continueBeforeUpgrade =
      c.cycle.continueBeforeUpgrade := by
  unfold recordInformational
  split
  next h => exact Or.inl h
  next => exact Or.inr rfl

theorem sendInformationalResponse_noted {response : Response} {bytes : Bytes} (h : Noted x c)
    (hok : sendInformationalResponse response c = (.ok bytes, c')) :
    Noted (x.answered response) c' := by
  obtain ⟨event, state, _, _, _, _, _, hevent, hstate, _, rfl⟩ := sendInformationalResponse_ok hok
  obtain ⟨_, _, hkind, hupgrades⟩ :=
    recordInformational_cycle response.status { c with state := state }
  refine h.informational hevent ⟨id, id, id⟩ hstate ?_ hkind hupgrades
    (recordInformational_continue _ _)
  rw [recordInformational_state]
  exact ⟨id, id, id⟩

theorem sendResponse_noted {response response' : Response} {bytes : Bytes} (h : Noted x c)
    (hstatus : response'.status = response.status)
    (hok : sendResponse response c = (.ok bytes, c')) : Noted (x.answered response') c' := by
  obtain ⟨framing, headers, state, hrole, _, _, _, hstate, _, rfl⟩ := sendResponse_ok hok
  refine h.final hstatus ⟨id, id, id⟩ hstate ?_ (by rw [sentResponse_cycle])
    (by rw [sentResponse_cycle])
  rw [sentResponse_state _ _ _ hrole]
  exact ConnectionState.disableKeepAliveIf_noSwitch _ _

theorem sendDataFraming_noted {length : Nat} {around : Bytes × Bytes} (h : Noted x c)
    (hok : sendDataFraming length c = (.ok around, c')) : Noted x c' := by
  obtain ⟨_, _, state, _, _, hstate, rfl⟩ := sendDataFraming_ok hok
  have hsame := (ConnectionState.bodyLaws.data _ _ _ hstate).1
  subst hsame
  exact h.quiet ⟨id, id, id⟩ rfl rfl rfl

theorem endOfMessage_noted {trailers : Headers} {bytes : Bytes} (h : Noted x c)
    (hok : endOfMessage trailers c = (.ok bytes, c')) : Noted (x.ended c.role) c' := by
  obtain ⟨_, state, _, _, _, hstate, rfl⟩ := endOfMessage_ok hok
  have hended : Noted (x.ended c.role) (sentEnd state c) := h.ends hstate rfl rfl rfl
  exact hended

theorem close_noted {u : Unit} (h : Noted x c) (hok : close c = (.ok u, c')) : Noted x c' := by
  obtain ⟨state, hstate, rfl⟩ := close_ok hok
  exact h.quiet (ConnectionState.switchLaws.event _ _ _ _ hstate rfl (by simp)) rfl rfl rfl

theorem sendRest_noted {before : Bytes} {length : Nat} {parts : Bytes × Bytes} (h : Noted x c)
    (hok : sendRest before length c = (.ok parts, c')) :
    (c.localState = .switchedProtocol ∧ Noted x c') ∨ Noted (x.ended c.role) c' := by
  rcases sendRest_ok hok with ⟨hswitched, _, _, rfl⟩ | ⟨last, _, _, hend, _⟩ |
    ⟨around, c1, last, _, _, hdata, hend, _⟩
  · exact Or.inl ⟨hswitched, h⟩
  · exact Or.inr (endOfMessage_noted h hend)
  · have hlast := endOfMessage_noted (sendDataFraming_noted h hdata) hend
    have hrole : c1.role = c.role := by
      obtain ⟨_, _, _, _, _, _, rfl⟩ := sendDataFraming_ok hdata
      rfl
    rw [hrole] at hlast
    exact Or.inr hlast

theorem sendRequestWithBodyFraming_noted {request : Request} {length : Nat}
    {parts : Bytes × Bytes}
    (hok : sendRequestWithBodyFraming request length c = (.ok parts, c')) :
    Noted ((x.asked (requestWithLength request length)).ended .client) c' := by
  obtain ⟨before, c1, hhead, hrest⟩ := sendRequestWithBodyFraming_ok hok
  obtain ⟨_, _, state, hrole, _, _, hstate, _, hc1⟩ := sendRequest_ok hhead
  have hrole1 : c1.role = .client := by
    rw [hc1, (sentRequest_sameOutside _ _ _ _ _).frame.role]
    exact hrole
  rcases sendRest_noted (x := x.asked _) (sendRequest_noted hhead) hrest with ⟨hswitched, _⟩ | hended
  · -- The head of a request leaves a client that sends its body.
    have hwriter := (ConnectionState.phaseLaws.own _ _ _ _ hstate).2.2.mpr rfl
    have hbody : c1.localState = .sendBody := by
      unfold localState
      rw [hrole1, hc1, sentRequest_state]
      exact ((ConnectionState.disableKeepAliveIf_samePhase _ _).body .client).mpr hwriter
    cases hbody.symm.trans hswitched
  · rw [hrole1] at hended
    exact hended

theorem sendResponseWithBodyFraming_noted {response : Response} {length : Nat}
    {parts : Bytes × Bytes} (h : Noted x c)
    (hok : sendResponseWithBodyFraming response length c = (.ok parts, c')) :
    Noted (x.answered response) c' := by
  obtain ⟨before, c1, hhead, hrest⟩ := sendResponseWithBodyFraming_ok hok
  obtain ⟨_, _, _, hrole, _, _, _, _, _, hc1⟩ := sendResponse_ok hhead
  have hrole1 : c1.role = .server := by
    rw [hc1, (sentResponse_sameOutside _ _ _ _).frame.role]
    exact hrole
  have hanswered : Noted (x.answered response) c1 :=
    sendResponse_noted h (responseWithLength_status _ _ _).symm hhead
  rcases sendRest_noted hanswered hrest with ⟨_, hsame⟩ | hended
  · exact hsame
  · rw [hrole1] at hended
    exact hended

/-! ## Polls -/

/-- What one turn of the decoder adds to the exchange. -/
def hearPolled (c : Connection) (x : Exchange) : Option Polled → Exchange
  | some (.event event) => x.hear c.role event
  | _ => x

theorem advancePayload_notes (count : Nat) (c : Connection) :
    (c.advancePayload count).2.cycle.requestKind = c.cycle.requestKind ∧
      (c.advancePayload count).2.cycle.upgradeProposals = c.cycle.upgradeProposals ∧
      (c.advancePayload count).2.cycle.continueBeforeUpgrade = c.cycle.continueBeforeUpgrade := by
  unfold advancePayload
  split <;> exact ⟨rfl, rfl, rfl⟩

theorem Turn.noted {polled : Option Polled} (h : Turn hp c (.ok polled) c') (hc : Noted x c) :
    Noted (c.hearPolled x polled) c' := by
  cases h with
  | closed | paused | doneWaits | waits | sizeLine | dataEnd =>
    exact hc.quiet ⟨id, id, id⟩ rfl rfl rfl
  | idleClosed _ _ _ _ hstate =>
    exact hc.quiet (ConnectionState.switchLaws.event _ _ _ _ hstate rfl (by simp)) rfl rfl rfl
  | doneClosed _ _ _ hstate =>
    exact hc.quiet (ConnectionState.switchLaws.event _ _ _ _ hstate rfl (by simp)) rfl rfl rfl
  | request _ _ _ _ hframing _ hstate =>
    refine ⟨?_, ?_⟩
    · rw [acceptedRequest_cycle]
      exact Recorded.request hframing offeredUpgrades_offers rfl rfl rfl
    · rw [acceptedRequest_state]
      exact Settled.disableIf _ (.request hstate)
  | @informational stop response dropped event state _ _ _ _ _ _ hevent hstate =>
    rw [disableKeepAliveIf_state] at hstate
    have hnotes : (acceptedInformational response state
        ((c.disableKeepAliveIf dropped).consumeSection stop)).cycle =
        (recordInformational response.status
          { c with state := state, cycle := { c.cycle with progress := .new } }).cycle := by
      unfold acceptedInformational recordInformational
      simp only [disableKeepAliveIf_eq]
      split <;> rfl
    obtain ⟨_, _, hkind, hupgrades⟩ := recordInformational_cycle response.status
      { c with state := state, cycle := { c.cycle with progress := .new } }
    have hcontinue := recordInformational_continue response.status
      { c with state := state, cycle := { c.cycle with progress := .new } }
    rw [← hnotes] at hkind hupgrades hcontinue
    refine hc.informational hevent (ConnectionState.disableKeepAliveIf_noSwitch _ _) hstate ?_ hkind
      hupgrades hcontinue
    rw [acceptedInformational_state]
    exact ConnectionState.disableKeepAliveIf_noSwitch _ _
  | @final stop response dropped framing state _ _ _ _ _ _ hstate _ =>
    rw [disableKeepAliveIf_state] at hstate
    have hcycle : ((c.disableKeepAliveIf dropped).consumeSection stop).cycle =
        { c.cycle with progress := .new } := by
      cases dropped <;> rfl
    refine hc.final rfl (ConnectionState.disableKeepAliveIf_noSwitch _ _) hstate ?_
      (by rw [acceptedFinal_cycle, hcycle]) (by rw [acceptedFinal_cycle])
    rw [acceptedFinal_state]
    have hfirst := ConnectionState.disableKeepAliveIf_noSwitch
      (!(Fields.scan response.headers).persistent response.httpVersion) state
    exact (hfirst.trans (ConnectionState.disableKeepAliveIf_noSwitch _ _)).trans
      (ConnectionState.disableKeepAliveIf_noSwitch _ _)
  | payload _ _ _ hstate =>
    have hsame := (ConnectionState.bodyLaws.data _ _ _ hstate).1
    subst hsame
    obtain ⟨hkind, hupgrades, hcontinue⟩ := advancePayload_notes c.input.asSlice.length c
    exact hc.quiet ⟨id, id, id⟩ hkind hupgrades hcontinue
  | @ends state _ _ hstate =>
    have hended : Noted (x.ended c.role.peer) (finishedPeer state c) := hc.ends hstate rfl rfl rfl
    exact hended
  | @trailers stop _ state _ _ _ hstate =>
    have hended : Noted (x.ended c.role.peer) (finishedPeer state (c.consumeSection stop)) :=
      hc.ends hstate rfl rfl rfl
    exact hended

/-- A turn that fails switches nothing, and neither does the poisoning. -/
theorem Turn.failed_noted {error : RemoteProtocolError} (h : Turn hp c (.error error) c')
    (hc : Noted x c) : Noted x { c' with state := c'.state.processError c'.role.peer } := by
  have hpeer : c.peerState ≠ .switchedProtocol := by
    rcases h.failed_peer with (⟨h, _⟩ | h | h) | h <;> rw [h] <;> nofun
  have hrole := h.frame.role
  -- What the turn itself leaves, before the peer is poisoned.
  have hpoison : NoSwitch c.state c'.state → c'.state.state c.role.peer ≠ .switchedProtocol →
      NoSwitch c.state (c'.state.processError c'.role.peer) := by
    intro hturn hstill
    rw [hrole]
    exact hturn.trans (ConnectionState.switchLaws.poison _ _ hstill)
  cases h with
  | poisoned | fails | requestRejected | trailersRejected =>
    exact hc.quiet (hpoison ⟨id, id, id⟩ hpeer) rfl rfl rfl
  | @finalFaulty _ stop response dropped state _ _ hclient _ hstate hbody =>
    rw [disableKeepAliveIf_state] at hstate
    have hnotunnel : c.opensTunnel response.status = false := by
      unfold responseHasNoBody at hbody
      rw [Bool.or_eq_false_iff] at hbody
      exact hbody.2
    have hevent : c.finalResponseEvent response.status = .response := by
      unfold finalResponseEvent
      rw [hnotunnel]
      rfl
    rw [hevent] at hstate
    have hcycle : (countedFinal response state
        ((c.disableKeepAliveIf dropped).consumeSection stop)).cycle.requestKind =
          c.cycle.requestKind ∧ (countedFinal response state
        ((c.disableKeepAliveIf dropped).consumeSection stop)).cycle.upgradeProposals = [] := by
      unfold countedFinal
      simp only [disableKeepAliveIf_eq]
      exact ⟨rfl, rfl⟩
    refine hc.forgets (hpoison ?_ ?_) hcycle.1 hcycle.2
    · rw [countedFinal_state]
      exact ((ConnectionState.disableKeepAliveIf_noSwitch dropped c.state).trans
        (ConnectionState.switchLaws.event _ _ _ _ hstate rfl nofun)).trans
        (ConnectionState.disableKeepAliveIf_noSwitch _ _)
    · rw [countedFinal_state, hclient]
      have hsends := (ConnectionState.phaseLaws.own _ _ _ _ hstate).2.2.mpr rfl
      have hstill := ((ConnectionState.disableKeepAliveIf_samePhase
        (!(Fields.scan response.headers).persistent response.httpVersion) state).body .server).mpr
          hsends
      intro hswitched
      cases hstill.symm.trans hswitched
  | @responseRejected _ stop response dropped _ _ hclient =>
    have hstate : ((c.disableKeepAliveIf dropped).consumeSection stop).state =
        c.state.disableKeepAliveIf dropped := by
      cases dropped <;> rfl
    have hno := ConnectionState.disableKeepAliveIf_noSwitch dropped c.state
    refine hc.quiet (hpoison (by rw [hstate]; exact hno) ?_) ?_ ?_ ?_
    · rw [hstate]
      unfold peerState at hpeer
      rw [hclient] at hpeer ⊢
      exact fun hswitched => hpeer (hno.server hswitched)
    all_goals cases dropped <;> rfl
  | payloadRejected =>
    obtain ⟨hkind, hupgrades, hcontinue⟩ := advancePayload_notes c.input.asSlice.length c
    have hstate := advancePayload_state c.input.asSlice.length c
    refine hc.quiet (hpoison ?_ ?_) hkind hupgrades hcontinue
    · rw [hstate]
      exact ⟨id, id, id⟩
    · rw [hstate]
      exact hpeer

/-- A poll adds to the exchange what it reports. -/
theorem nextEvent_noted (hc : Noted x c) :
    Noted (x.note c.role (.nextEvent, (step hp .nextEvent c).1)) (step hp .nextEvent c).2 := by
  have hturns : ∀ {c c' r}, Turns hp c r c' → Noted x c →
      match r with
      | .ok polled => Noted (c.hearPolled x (some polled)) c'
      | .error _ => Noted x { c' with state := c'.state.processError c'.role.peer } := by
    intro c c' r h
    induction h with
    | @last c c' r h =>
      intro hc
      cases r with
      | ok polled => exact h.noted hc
      | error error => exact h.failed_noted hc
    | @again c c' c'' r h _ ih =>
      intro hc
      have hnext := ih (h.noted hc)
      cases r with
      | ok polled =>
        change Noted (c'.hearPolled x (some polled)) c'' at hnext
        unfold hearPolled at hnext ⊢
        rw [h.frame.role] at hnext
        exact hnext
      | error error => exact hnext
  change Noted (x.note c.role (.nextEvent, (pollOutcome (nextEvent hp c)).1))
    (pollOutcome (nextEvent hp c)).2
  unfold nextEvent
  rcases hinner : nextEventInner hp c with ⟨error | polled, c1⟩
  · exact hturns (nextEventInner_turns hinner) hc
  · have hheard : Noted (c.hearPolled x (some polled)) c1 :=
      hturns (nextEventInner_turns hinner) hc
    cases polled with
    | event event => exact hheard
    | data count chunkStart chunkEnd => exact hheard.quiet ⟨id, id, id⟩ rfl rfl rfl
    | needData => exact hheard
    | paused => exact hheard

/-! ## Whole runs -/

/-- A method that fails leaves the connection, and adds no head. -/
theorem outcome_noted {α : Type} {value : α → Outcome} {call : LocalCall α} {op : Op}
    (hatomic : Call.Atomic call) (h : Noted x c)
    (hrefused : ∀ error, x.note c.role (op, .refused error) = x)
    (hok : ∀ a c', call c = (.ok a, c') → Noted (x.note c.role (op, value a)) c') :
    Noted (x.note c.role (op, (outcome value (call c)).1)) (outcome value (call c)).2 := by
  rcases hcall : call c with ⟨error | a, c'⟩
  · have hsame : c' = c := hatomic _ _ _ hcall
    subst hsame
    change Noted (x.note c'.role (op, .refused error)) c'
    rw [hrefused]
    exact h
  · exact hok a c' hcall

theorem receiveData_noted (data : Bytes) (h : Noted x c) : Noted x (receiveData data c).2 := by
  unfold receiveData
  rw [Call.get_bind, Call.failIf_bind]
  split
  · exact h
  · split
    · change Noted x c.recordEof
      unfold recordEof
      rw [disableKeepAliveIf_eq]
      exact h.quiet (ConnectionState.disableKeepAliveIf_noSwitch _ _) rfl rfl rfl
    · exact h.quiet ⟨id, id, id⟩ rfl rfl rfl

theorem nextEventInPlace_noted (count : Nat) (h : Noted x c) :
    Noted x (nextEventInPlace count c).2 := by
  obtain ⟨hkind, hupgrades, hcontinue⟩ := advancePayload_notes count c
  rcases hcall : nextEventInPlace count c with ⟨r, c'⟩
  rcases nextEventInPlace_cases hcall with ⟨state, _, _, hstate, _, rfl⟩ | ⟨_, _, _, rfl⟩ |
    ⟨_, _, _, _, _, rfl⟩
  · have hsame := (ConnectionState.bodyLaws.data _ _ _ hstate).1
    subst hsame
    exact h.quiet ⟨id, id, id⟩ hkind hupgrades hcontinue
  · exact h
  · refine h.quiet ?_ hkind hupgrades hcontinue
    rw [advancePayload_state]
    exact ⟨id, id, id⟩

/-- Only `start_next_cycle` forgets the exchange, with the cycle. -/
theorem startNextCycle_noted (h : Noted x c) :
    Noted (x.note c.role (.startNextCycle, (step hp .startNextCycle c).1))
      (step hp .startNextCycle c).2 := by
  have hfresh : ∀ s s' : ConnectionState, s.startNextCycle = some s' →
      s'.server ≠ .switchedProtocol ∧ s'.client ≠ .switchedProtocol ∧
        s'.client.pastRequest = false := by
    decide +kernel
  change Noted (x.note c.role (.startNextCycle, (outcome _ (startNextCycle c)).1))
    (outcome _ (startNextCycle c)).2
  rcases hcall : startNextCycle c with ⟨r, c'⟩
  rcases startNextCycle_cases hcall with ⟨state, rfl, hstate, rfl⟩ | ⟨_, rfl, _, _, _, rfl⟩ |
    ⟨_, rfl, rfl⟩
  · obtain ⟨hserver, hclient, hpast⟩ := hfresh _ _ hstate
    refine ⟨Or.inl ⟨rfl, rfl⟩, ⟨fun hs => absurd hs hserver, fun hs => absurd hs hclient, ?_⟩⟩
    intro hended
    cases hpast.symm.trans hended
  · exact h.quiet (ConnectionState.switchLaws.disable _) rfl rfl rfl
  · exact h

theorem step_noted (op : Op) (h : Noted x c) :
    Noted (x.note c.role (op, (step hp op c).1)) (step hp op c).2 := by
  cases op with
  | lenient => exact h.quiet ⟨id, id, id⟩ rfl rfl rfl
  | receiveData data =>
    change Noted (x.note c.role (.receiveData data, _)) (outcome _ (receiveData data c)).2
    rw [outcome_snd]
    exact receiveData_noted data h
  | holdBodyData count =>
    change Noted x (holdBodyData count c).2
    unfold holdBodyData
    split
    · exact h.quiet ⟨id, id, id⟩ rfl rfl rfl
    · exact h
  | nextEventInPlace count =>
    change Noted (x.note c.role (.nextEventInPlace count, _)) (outcome _ (nextEventInPlace count c)).2
    rw [outcome_snd]
    exact nextEventInPlace_noted count h
  | nextEvent => exact nextEvent_noted h
  | startNextCycle => exact startNextCycle_noted h
  | sendRequest request =>
    exact outcome_noted (sendRequest_atomic _) h (fun _ => rfl) fun _ _ hok => sendRequest_noted hok
  | sendInformationalResponse response =>
    exact outcome_noted (sendInformationalResponse_atomic _) h (fun _ => rfl) fun _ _ hok =>
      sendInformationalResponse_noted h hok
  | sendResponse response =>
    exact outcome_noted (sendResponse_atomic _) h (fun _ => rfl) fun _ _ hok =>
      sendResponse_noted h rfl hok
  | sendRequestWithBody request body =>
    refine outcome_noted (sendRequestWithBody_atomic _ _) h (fun _ => rfl) fun _ _ hok => ?_
    obtain ⟨parts, hframing, _⟩ := sendRequestWithBody_ok hok
    exact sendRequestWithBodyFraming_noted hframing
  | sendRequestWithBodyFraming request length =>
    exact outcome_noted (sendRequestWithBodyFraming_atomic _ _) h (fun _ => rfl) fun _ _ hok =>
      sendRequestWithBodyFraming_noted hok
  | sendResponseWithBody response body =>
    refine outcome_noted (sendResponseWithBody_atomic _ _) h (fun _ => rfl) fun _ _ hok => ?_
    obtain ⟨parts, hframing, _⟩ := sendResponseWithBody_ok hok
    exact sendResponseWithBodyFraming_noted h hframing
  | sendResponseWithBodyFraming response length =>
    exact outcome_noted (sendResponseWithBodyFraming_atomic _ _) h (fun _ => rfl) fun _ _ hok =>
      sendResponseWithBodyFraming_noted h hok
  | sendData data =>
    refine outcome_noted (sendData_atomic _) h (fun _ => rfl) fun _ _ hok => ?_
    obtain ⟨around, hframing, _⟩ := sendData_ok hok
    exact sendDataFraming_noted h hframing
  | sendDataFraming length =>
    exact outcome_noted (sendDataFraming_atomic _) h (fun _ => rfl) fun _ _ hok =>
      sendDataFraming_noted h hok
  | endOfMessage trailers =>
    exact outcome_noted (endOfMessage_atomic _) h (fun _ => rfl) fun _ _ hok =>
      endOfMessage_noted h hok
  | close =>
    exact outcome_noted close_atomic h (fun _ => rfl) fun _ _ hok => close_noted h hok

theorem run_noted {allowed : Connection → Op → Prop} {role : Role} {limits : Limits}
    {history : List (Op × Outcome)} (h : Run hp allowed role limits history c) :
    Noted (Exchange.ofHistory role history) c := by
  have hboth : c.role = role ∧ Noted (Exchange.ofHistory role history) c := by
    refine Lib.Run.invariant_history (P := fun history c =>
      c.role = role ∧ Noted (Exchange.ofHistory role history) c) ?_ ?_ h
    · exact ⟨rfl, Or.inl ⟨rfl, rfl⟩, ⟨nofun, nofun, nofun⟩⟩
    · intro history c op hc _
      obtain ⟨hrole, hnoted⟩ := hc
      refine ⟨(step_role hp op c).trans hrole, ?_⟩
      have hnext : Noted ((Exchange.ofHistory role history).note c.role (op, (step hp op c).1))
          (step hp op c).2 := step_noted op hnoted
      rw [hrole] at hnext
      unfold Exchange.ofHistory at hnext ⊢
      rw [List.foldl_append]
      exact hnext
  exact hboth.2

/-- In every run a server that has switched protocols has accepted a CONNECT or
selected among the protocols the request of this cycle offers, after the 100
that request waited for; and a client has switched only after its server, with
its request ended. -/
theorem switch_is_negotiated {role : Role} {limits : Limits} {history : List (Op × Outcome)}
    (h : Run hp anyCall role limits history c) :
    (c.state.server = .switchedProtocol →
      (Exchange.ofHistory role history).Tunnels ∨ (Exchange.ofHistory role history).Upgrades) ∧
    (c.state.client = .switchedProtocol →
      c.state.server = .switchedProtocol ∧
        (Exchange.ofHistory role history).requestEnded = true) := by
  have hsettled := (run_noted h).settled
  refine ⟨hsettled.server, fun hclient => ⟨hsettled.client hclient, hsettled.ended ?_⟩⟩
  rw [hclient]
  rfl

/-- A client whose CONNECT is answered by a 200. -/
theorem connect_switches :
    ∃ history c, Run Reference.httparse anyCall .client .default history c ∧
      c.state.client = .switchedProtocol ∧ c.state.server = .switchedProtocol ∧
      (Exchange.ofHistory .client history).requestEnded = true ∧
      ((Exchange.ofHistory .client history).Tunnels ∨
        (Exchange.ofHistory .client history).Upgrades) := by
  have hrun : Run Reference.httparse anyCall .client .default _ _ :=
    Lib.Run.trace_of_forall _ [.sendRequest plainConnect, .endOfMessage .new,
      .receiveData (serializeResponse .http11 ⟨200, by decide⟩ (ascii "OK") .new), .nextEvent]
      fun _ _ => trivial
  have hclient : (Lib.trace (step Reference.httparse) (new .client .default)
      [.sendRequest plainConnect, .endOfMessage .new,
        .receiveData (serializeResponse .http11 ⟨200, by decide⟩ (ascii "OK") .new),
        .nextEvent]).2.state.client = .switchedProtocol := by decide +kernel
  obtain ⟨hswitched, hfollows⟩ := switch_is_negotiated hrun
  obtain ⟨hserver, hended⟩ := hfollows hclient
  exact ⟨_, _, hrun, hclient, hserver, hended, hswitched hserver⟩

end Connection

end H11r
