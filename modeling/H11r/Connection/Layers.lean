import H11r.Connection.Terminal

/-!
# The message layer and the state layer

The framing of the message that is being sent, the reader of the one that is
being received and the notes about the request live in `Cycle`; the actors live
in `ConnectionState`. No type ties the two together, and the methods update
them one after the other. `Agrees` is what ties them: a writer exactly while
the local actor sends a body, a body reader exactly while the peer sends one,
and proposals that are the recorded request's.

Every event moves its own actor in a way its kind alone decides
(`phaseLaws.own`) and leaves the other actor's part alone
(`phaseLaws.other`), and turning keep-alive off leaves both alone
(`SamePhase`). So an event keeps the agreement when its method updates the
cycle as the kind of the event demands (`Agrees.local`, `Agrees.peer`).
-/

namespace H11r

/-- The states of a peer whose next bytes are a head, or nothing. -/
def State.readsHead : State → Bool
  | .idle | .sendResponse | .done | .mightSwitchProtocol | .mustClose | .closed => true
  | _ => false

/-- The events after which their actor sends a body. -/
def StateEvent.opensBody : StateEvent → Bool
  | .request _ | .response | .data => true
  | _ => false

/-- The events an actor reports in the middle of its body. -/
def StateEvent.insideBody : StateEvent → Bool
  | .data | .endOfMessage => true
  | _ => false

def StateEvent.isRequest : StateEvent → Bool
  | .request _ => true
  | _ => false

/-- Both actors are in the same part of their messages, and the server is asked
the same. -/
structure SamePhase (s s' : ConnectionState) : Prop where
  body : ∀ actor, s'.state actor = .sendBody ↔ s.state actor = .sendBody
  head : ∀ actor, (s'.state actor).readsHead = true → (s.state actor).readsHead = true
  asks : s'.server = .sendResponse → s.server = .sendResponse ∧ s'.proposals = s.proposals

instance decidableSamePhase (s s' : ConnectionState) : Decidable (SamePhase s s') :=
  decidable_of_iff ((∀ actor, s'.state actor = .sendBody ↔ s.state actor = .sendBody) ∧
      (∀ actor, (s'.state actor).readsHead = true → (s.state actor).readsHead = true) ∧
      (s'.server = .sendResponse → s.server = .sendResponse ∧ s'.proposals = s.proposals))
    ⟨fun h => ⟨h.1, h.2.1, h.2.2⟩, fun h => ⟨h.1, h.2, h.3⟩⟩

theorem SamePhase.refl (s : ConnectionState) : SamePhase s s :=
  ⟨fun _ => Iff.rfl, fun _ h => h, fun h => ⟨h, rfl⟩⟩

theorem SamePhase.trans {s s' s'' : ConnectionState} (h : SamePhase s s') (h' : SamePhase s' s'') :
    SamePhase s s'' := by
  refine ⟨fun actor => (h'.body actor).trans (h.body actor),
    fun actor hhead => h.head actor (h'.head actor hhead), fun hserver => ?_⟩
  obtain ⟨hmiddle, hproposals⟩ := h'.asks hserver
  obtain ⟨hfirst, hbefore⟩ := h.asks hmiddle
  exact ⟨hfirst, hproposals.trans hbefore⟩

namespace ConnectionState

/-- What the steps of the state machine do to the parts of the messages. -/
structure PhaseLaws : Prop where
  disable : ∀ s : ConnectionState, SamePhase s s.disableKeepAlive
  /-- Where an event finds and leaves its own actor. -/
  own : ∀ (role : Role) (event : StateEvent) (s s' : ConnectionState),
      s.processEvent role event = some s' →
        (s.state role = .sendBody ↔ event.insideBody = true) ∧
        (event.insideBody = false → (s.state role).readsHead = true) ∧
        (s'.state role = .sendBody ↔ event.opensBody = true)
  /-- An event leaves the other actor in the same part of its message. -/
  other : ∀ (role : Role) (event : StateEvent) (s s' : ConnectionState),
      s.processEvent role event = some s' →
        (s'.state role.peer = .sendBody ↔ s.state role.peer = .sendBody) ∧
        ((s'.state role.peer).readsHead = true → (s.state role.peer).readsHead = true)
  /-- Only a request changes what the server is asked. -/
  asks : ∀ (role : Role) (event : StateEvent) (s s' : ConnectionState),
      s.processEvent role event = some s' → event.isRequest = false →
        s'.server = .sendResponse → s.server = .sendResponse ∧ s'.proposals = s.proposals
  proposes : ∀ (proposals : SwitchProposals) (s s' : ConnectionState),
      s.processEvent .client (.request proposals) = some s' →
        s.server = .idle ∧ s'.proposals = proposals

theorem phaseLaws : PhaseLaws where
  disable := by decide +kernel
  own := by decide +kernel
  other := by decide +kernel
  asks := by decide +kernel
  proposes := by decide +kernel

theorem disableKeepAliveIf_samePhase (reason : Bool) (s : ConnectionState) :
    SamePhase s (s.disableKeepAliveIf reason) := by
  cases reason with
  | false => exact .refl s
  | true => exact phaseLaws.disable s

theorem processEvent_switched : ∀ (kind : SwitchKind) (s s' : ConnectionState),
    s.processEvent .server (.protocolSwitch kind) = some s' → s'.server = .switchedProtocol := by
  intro kind
  cases kind <;> decide +kernel

end ConnectionState

/-- Poisoning the peer leaves the local actor's part alone. -/
theorem ConnectionState.processError_agrees : ∀ (role : Role) (s : ConnectionState),
    ((s.processError role.peer).state role = .sendBody ↔ s.state role = .sendBody) ∧
    ((s.processError role.peer).server = .sendResponse →
      s.server = .sendResponse ∧ (s.processError role.peer).proposals = s.proposals) := by
  decide +kernel

/-- The server is asked for the switches that the recorded request proposes. -/
def Asked (s : ConnectionState) (cycle : Cycle) : Prop :=
  s.server = .sendResponse →
    (s.proposals.connect = true ↔ cycle.requestKind = some .connect) ∧
    (s.proposals.upgrade = true ↔ cycle.upgradeProposals ≠ [])

/-- The notes of the cycle are those of the actors. -/
structure Agrees (role : Role) (s : ConnectionState) (cycle : Cycle) : Prop where
  writer : cycle.writer.isSome = true ↔ s.state role = .sendBody
  body : s.state role.peer = .sendBody → cycle.reader ≠ .head
  head : (s.state role.peer).readsHead = true → cycle.reader = .head
  asked : Asked s cycle

/-! ## Events keep the agreement -/

section Agrees

variable {role : Role} {s s' : ConnectionState} {cycle cycle' : Cycle} {event : StateEvent}

theorem Asked.of_asks (h : Asked s cycle)
    (hasks : s'.server = .sendResponse → s.server = .sendResponse ∧ s'.proposals = s.proposals)
    (hsame : s'.server = .sendResponse → cycle'.requestKind = cycle.requestKind ∧
      cycle'.upgradeProposals = cycle.upgradeProposals) : Asked s' cycle' := by
  intro hserver
  obtain ⟨hbefore, hproposals⟩ := hasks hserver
  obtain ⟨hkind, hupgrades⟩ := hsame hserver
  rw [hproposals, hkind, hupgrades]
  exact h hbefore

theorem Asked.request {method : Method} {upgrades : List Bytes}
    (h : s.processEvent .client (requestEvent method upgrades) = some s')
    (hkind : cycle'.requestKind = some (RequestKind.fromMethod method.asBytes))
    (hupgrades : cycle'.upgradeProposals = upgrades) : Asked s' cycle' := by
  intro _
  rw [(ConnectionState.phaseLaws.proposes _ _ _ h).2, hkind, hupgrades]
  constructor
  · show (method == .connect) = true ↔ _
    have hmethod : method = .connect ↔ method.asBytes = ascii "CONNECT" := by
      constructor
      · intro h
        rw [h]
        rfl
      · intro h
        cases method
        cases h
        rfl
    rw [beq_iff_eq, hmethod, Option.some.injEq]
    unfold RequestKind.fromMethod
    by_cases hhead : method.asBytes = ascii "HEAD"
    · rw [if_pos (by rw [hhead]; rfl), hhead]
      decide
    · rw [if_neg (by simpa using hhead)]
      by_cases hconnect : method.asBytes = ascii "CONNECT"
      · rw [if_pos (by rw [hconnect]; rfl)]
        exact ⟨fun _ => rfl, fun _ => hconnect⟩
      · rw [if_neg (by simpa using hconnect)]
        exact ⟨fun h => absurd h hconnect, nofun⟩
  · show (!upgrades.isEmpty) = true ↔ _
    cases upgrades <;> simp

/-- Nothing is asked of a server that sends its response. -/
theorem Asked.answered (h : s.processEvent .server event = some s')
    (hevent : event.opensBody = true) : Asked s' cycle' := by
  intro hserver
  have hbody := ((ConnectionState.phaseLaws.own _ _ _ _ h).2.2.mpr hevent)
  cases hbody.symm.trans hserver

theorem Agrees.samePhase (h : Agrees role s cycle) (hs : SamePhase s s') : Agrees role s' cycle :=
  ⟨h.writer.trans (hs.body role).symm, fun hbody => h.body ((hs.body _).mp hbody),
    fun hhead => h.head (hs.head _ hhead), h.asked.of_asks hs.asks fun _ => ⟨rfl, rfl⟩⟩

/-- An event of the local actor, after which there is a writer exactly when the
actor sends a body. -/
theorem Agrees.local (h : Agrees role s cycle) (hevent : s.processEvent role event = some s')
    (hwriter : cycle'.writer.isSome = event.opensBody) (hreader : cycle'.reader = cycle.reader)
    (hasked : Asked s' cycle') : Agrees role s' cycle' := by
  have hown := ConnectionState.phaseLaws.own _ _ _ _ hevent
  have hother := ConnectionState.phaseLaws.other _ _ _ _ hevent
  refine ⟨?_, fun hbody => ?_, fun hhead => ?_, hasked⟩
  · rw [hwriter]
    exact hown.2.2.symm
  · rw [hreader]
    exact h.body (hother.1.mp hbody)
  · rw [hreader]
    exact h.head (hother.2 hhead)

/-- An event of the peer, after which there is a body reader when the peer sends
a body, and the head reader when its message is over. -/
theorem Agrees.peer (h : Agrees role s cycle) (hevent : s.processEvent role.peer event = some s')
    (hwriter : cycle'.writer = cycle.writer)
    (hbody : event.opensBody = true → cycle'.reader ≠ .head)
    (hhead : (s'.state role.peer).readsHead = true → cycle'.reader = .head)
    (hasked : Asked s' cycle') : Agrees role s' cycle' := by
  have hown := ConnectionState.phaseLaws.own _ _ _ _ hevent
  have hother := ConnectionState.phaseLaws.other _ _ _ _ hevent
  rw [show role.peer.peer = role by cases role <;> rfl] at hother
  refine ⟨?_, fun hsends => hbody (hown.2.2.mp hsends), hhead, hasked⟩
  rw [hwriter, h.writer]
  exact hother.1.symm

/-- A poisoned peer is read no more. -/
theorem Agrees.poison (hwriter : cycle.writer.isSome = true ↔ s.state role = .sendBody)
    (hasked : Asked s cycle) : Agrees role (s.processError role.peer) cycle := by
  have hlocal := ConnectionState.processError_agrees role s
  have hpeer := ConnectionState.processError_state role.peer s
  refine ⟨hwriter.trans hlocal.1.symm, fun hbody => ?_, fun hhead => ?_,
    hasked.of_asks hlocal.2 fun _ => ⟨rfl, rfl⟩⟩
  · cases hpeer.symm.trans hbody
  · rw [hpeer] at hhead
    cases hhead

/-- Notes that differ in how far a message has been read. -/
theorem Agrees.reread (h : Agrees role s cycle) (hwriter : cycle'.writer = cycle.writer)
    (hreader : cycle'.reader = .head ↔ cycle.reader = .head)
    (hkind : cycle'.requestKind = cycle.requestKind)
    (hupgrades : cycle'.upgradeProposals = cycle.upgradeProposals) : Agrees role s cycle' := by
  refine ⟨?_, fun hbody hhead => h.body hbody (hreader.mp hhead),
    fun hhead => hreader.mpr (h.head hhead), h.asked.of_asks (fun hs => ⟨hs, rfl⟩)
      fun _ => ⟨hkind, hupgrades⟩⟩
  rw [hwriter]
  exact h.writer

end Agrees

namespace Connection

variable {hp : Httparse} {c c' : Connection}

/-- The notes a connection keeps about its messages are those of its actors. -/
def LayersAgree (c : Connection) : Prop := Agrees c.role c.state c.cycle

theorem reader_ne_head (framing : Framing) : reader framing ≠ .head := by
  cases framing <;> nofun

/-! ## Every change keeps the agreement -/

theorem informationalEvent_cases {status : StatusCode} {version : Version} {headers : Headers}
    {event : StateEvent} (h : c.informationalEvent status version headers = some event) :
    event = .informationalResponse ∨ (event = .protocolSwitch .upgrade ∧
      c.cycle.continueBeforeUpgrade = false ∧ c.validUpgradeResponse version headers = true) := by
  unfold informationalEvent at h
  split at h
  · cases h
    exact Or.inl rfl
  · split at h
    next hupgrade =>
      cases h
      rw [Bool.and_eq_true, Bool.not_eq_true'] at hupgrade
      exact Or.inr ⟨rfl, hupgrade⟩
    next => cases h

theorem recordInformational_cycle (status : StatusCode) (c : Connection) :
    (recordInformational status c).cycle.writer = c.cycle.writer ∧
      (recordInformational status c).cycle.reader = c.cycle.reader ∧
      (recordInformational status c).cycle.requestKind = c.cycle.requestKind ∧
      (recordInformational status c).cycle.upgradeProposals = c.cycle.upgradeProposals := by
  unfold recordInformational
  split <;> exact ⟨rfl, rfl, rfl, rfl⟩

theorem LocalChange.layersAgree (h : LocalChange c c') (hc : c.LayersAgree) : c'.LayersAgree := by
  unfold LayersAgree at hc ⊢
  rw [h.sameOutside.frame.role]
  cases h with
  | @request request framing upgrades state hrole _ hchecked hstate =>
    rw [sentRequest_state, sentRequest_cycle]
    refine Agrees.samePhase ?_ (ConnectionState.disableKeepAliveIf_samePhase _ state)
    rw [hrole] at hc ⊢
    exact hc.local hstate rfl rfl (.request hstate rfl rfl)
  | @informational response event state hrole hevent hstate =>
    obtain ⟨hwriter, hreader, hkind, hupgrades⟩ :=
      recordInformational_cycle response.status { c with state := state }
    rw [recordInformational_state]
    rw [← hrole] at hstate
    have hbefore := ConnectionState.phaseLaws.own _ _ _ _ hstate
    have hkinds : event.opensBody = false ∧ event.insideBody = false ∧ event.isRequest = false := by
      rcases informationalEvent_cases hevent with rfl | ⟨rfl, _⟩ <;> exact ⟨rfl, rfl, rfl⟩
    refine hc.local hstate ?_ hreader (hc.asked.of_asks
      (ConnectionState.phaseLaws.asks _ _ _ _ hstate hkinds.2.2) fun _ => ⟨hkind, hupgrades⟩)
    rw [hwriter, hkinds.1, Bool.eq_false_iff]
    intro hsome
    rw [hbefore.1.mp (hc.writer.mp hsome)] at hkinds
    cases hkinds.2.1
  | @response response framing _ state hrole _ hstate =>
    rw [sentResponse_state _ _ _ hrole]
    refine Agrees.samePhase ?_ (ConnectionState.disableKeepAliveIf_samePhase _ state)
    rw [sentResponse_cycle]
    rw [hrole] at hc ⊢
    unfold finalResponseEvent at hstate
    split at hstate
    next htunnel =>
      rw [if_pos htunnel]
      refine hc.local hstate rfl rfl fun hserver => ?_
      have hsame := ConnectionState.processEvent_switched _ _ _ hstate
      cases hserver.symm.trans hsame
    next htunnel =>
      rw [if_neg htunnel]
      exact hc.local hstate rfl rfl (.answered hstate rfl)
  | @data writer state hstate =>
    refine hc.local hstate rfl rfl (hc.asked.of_asks
      (ConnectionState.phaseLaws.asks _ _ _ _ hstate rfl) fun _ => ⟨rfl, rfl⟩)
  | @ends state hstate =>
    exact hc.local hstate rfl rfl (hc.asked.of_asks
      (ConnectionState.phaseLaws.asks _ _ _ _ hstate rfl) fun _ => ⟨rfl, rfl⟩)
  | @closes state hstate =>
    exact hc.local hstate rfl rfl (hc.asked.of_asks
      (ConnectionState.phaseLaws.asks _ _ _ _ hstate rfl) fun _ => ⟨rfl, rfl⟩)

theorem SameReader.head_iff {old new : Reader} (h : SameReader old new) :
    new = .head ↔ old = .head := by
  rcases h with rfl | ⟨_, _, rfl, rfl⟩
  · exact Iff.rfl
  · exact ⟨nofun, nofun⟩

theorem advancePayload_cycle (count : Nat) (c : Connection) :
    (c.advancePayload count).2.cycle.writer = c.cycle.writer ∧
      ((c.advancePayload count).2.cycle.reader = .head ↔ c.cycle.reader = .head) ∧
      (c.advancePayload count).2.cycle.requestKind = c.cycle.requestKind ∧
      (c.advancePayload count).2.cycle.upgradeProposals = c.cycle.upgradeProposals := by
  unfold advancePayload
  split
  next h => exact ⟨rfl, ⟨nofun, fun hhead => by rw [h] at hhead; cases hhead⟩, rfl, rfl⟩
  next h => exact ⟨rfl, ⟨nofun, fun hhead => by rw [h] at hhead; cases hhead⟩, rfl, rfl⟩
  next => exact ⟨rfl, Iff.rfl, rfl, rfl⟩

theorem advancePayload_agrees {s : ConnectionState} (count : Nat)
    (h : Agrees c.role s c.cycle) : Agrees c.role s (c.advancePayload count).2.cycle := by
  obtain ⟨hwriter, hreader, hkind, hupgrades⟩ := advancePayload_cycle count c
  exact h.reread hwriter hreader hkind hupgrades

theorem Change.layersAgree (h : Change c c') (hc : c.LayersAgree) : c'.LayersAgree := by
  cases h with
  | lenient => exact hc
  | received => exact hc
  | eof =>
    unfold recordEof LayersAgree
    rw [disableKeepAliveIf_eq]
    exact Agrees.samePhase hc (ConnectionState.disableKeepAliveIf_samePhase _ _)
  | hold => exact hc
  | @inPlace count state _ hstate =>
    unfold LayersAgree
    have hsame := (ConnectionState.bodyLaws.data _ _ _ hstate).1
    subst hsame
    have hread := advancePayload_agrees count hc
    show Agrees (c.advancePayload _).2.role c.state _
    rw [advancePayload_role]
    exact hread.reread rfl Iff.rfl rfl rfl
  | inPlaceRefused =>
    unfold LayersAgree
    rw [advancePayload_role, advancePayload_state]
    exact advancePayload_agrees _ hc
  | «local» h => exact h.layersAgree hc

theorem new_agrees (role : Role) : Agrees role .new .new := by
  cases role <;> exact ⟨⟨nofun, nofun⟩, nofun, fun _ => rfl, nofun⟩

theorem CycleChange.layersAgree (h : CycleChange c c') (hc : c.LayersAgree) : c'.LayersAgree := by
  cases h with
  | started hstate =>
    rw [startNextCycle_new hstate]
    exact new_agrees c.role
  | refused => exact Agrees.samePhase hc (ConnectionState.phaseLaws.disable _)

/-- A peer event that neither opens nor ends a body leaves the head reader. -/
theorem LayersAgree.outside {event : StateEvent} {state : ConnectionState} (hc : c.LayersAgree)
    (hstate : c.state.processEvent c.role.peer event = some state)
    (hopens : event.opensBody = false) (hinside : event.insideBody = false)
    (hrequest : event.isRequest = false) : Agrees c.role state c.cycle := by
  have hown := ConnectionState.phaseLaws.own _ _ _ _ hstate
  refine Agrees.peer hc hstate rfl (fun h => ?_) (fun _ => hc.head (hown.2.1 hinside))
    (hc.asked.of_asks (ConnectionState.phaseLaws.asks _ _ _ _ hstate hrequest)
      fun _ => ⟨rfl, rfl⟩)
  rw [hopens] at h
  cases h

/-- The end of the peer's message brings the head reader back. -/
theorem LayersAgree.ends {state : ConnectionState} {cycle : Cycle}
    (hc : Agrees c.role c.state cycle)
    (hstate : c.state.processEvent c.role.peer .endOfMessage = some state) :
    Agrees c.role state { cycle with reader := .head } :=
  Agrees.peer hc hstate rfl nofun (fun _ => rfl)
    (hc.asked.of_asks (ConnectionState.phaseLaws.asks _ _ _ _ hstate rfl) fun _ => ⟨rfl, rfl⟩)

theorem Turn.layersAgree {polled : Option Polled} (h : Turn hp c (.ok polled) c')
    (hc : c.LayersAgree) : c'.LayersAgree := by
  have hrole := h.frame.role
  cases h with
  | closed | paused | doneWaits => exact hc
  | idleClosed _ _ _ _ hstate => exact hc.outside hstate rfl rfl rfl
  | doneClosed _ _ _ hstate => exact hc.outside hstate rfl rfl rfl
  | waits _ _ hreader => exact Agrees.reread hc rfl hreader.head_iff rfl rfl
  | @request stop request framing state _ _ hserver _ _ _ hstate =>
    unfold LayersAgree at hc ⊢
    rw [hrole, acceptedRequest_state]
    refine Agrees.samePhase ?_ (ConnectionState.disableKeepAliveIf_samePhase _ state)
    rw [acceptedRequest_cycle]
    rw [hserver] at hc ⊢
    refine Agrees.peer hc hstate rfl (fun _ => reader_ne_head framing) (fun hhead => ?_)
      (.request hstate rfl rfl)
    have hbody := (ConnectionState.phaseLaws.own _ _ _ _ hstate).2.2.mpr rfl
    change (state.state .client).readsHead = true at hhead
    rw [hbody] at hhead
    cases hhead
  | @informational stop response dropped event state _ hreader hclient _ _ _ hevent hstate =>
    unfold LayersAgree at hc ⊢
    rw [hrole, acceptedInformational_state]
    refine Agrees.samePhase ?_ (ConnectionState.disableKeepAliveIf_samePhase _ state)
    obtain ⟨hwriter, hreader', hkind, hupgrades⟩ := recordInformational_cycle response.status
      (disableKeepAliveIf (isFaulty ((Fields.scan response.headers).framing response.httpVersion
        true)) { (c.disableKeepAliveIf dropped).consumeSection stop with state := state })
    rw [disableKeepAliveIf_state] at hstate
    have hbefore : LayersAgree { c with state := c.state.disableKeepAliveIf dropped } :=
      Agrees.samePhase hc (ConnectionState.disableKeepAliveIf_samePhase _ _)
    have hpeer : c.role.peer = .server := by
      rw [hclient]
      rfl
    have hkinds : event.opensBody = false ∧ event.insideBody = false ∧ event.isRequest = false := by
      rcases informationalEvent_cases hevent with rfl | ⟨rfl, _⟩ <;> exact ⟨rfl, rfl, rfl⟩
    rw [← hpeer] at hstate
    have hafter := hbefore.outside hstate hkinds.1 hkinds.2.1 hkinds.2.2
    refine Agrees.reread hafter ?_ ?_ ?_ ?_
    · show (recordInformational _ _).cycle.writer = _
      rw [hwriter, disableKeepAliveIf_cycle]
      show (c.disableKeepAliveIf dropped).cycle.writer = _
      rw [disableKeepAliveIf_cycle]
    · show (recordInformational _ _).cycle.reader = _ ↔ _
      rw [hreader', disableKeepAliveIf_cycle]
      show (c.disableKeepAliveIf dropped).cycle.reader = _ ↔ _
      rw [disableKeepAliveIf_cycle]
    · show (recordInformational _ _).cycle.requestKind = _
      rw [hkind, disableKeepAliveIf_cycle]
      show (c.disableKeepAliveIf dropped).cycle.requestKind = _
      rw [disableKeepAliveIf_cycle]
    · show (recordInformational _ _).cycle.upgradeProposals = _
      rw [hupgrades, disableKeepAliveIf_cycle]
      show (c.disableKeepAliveIf dropped).cycle.upgradeProposals = _
      rw [disableKeepAliveIf_cycle]
  | @final stop response dropped framing state _ hreader hclient _ _ _ hstate _ =>
    unfold LayersAgree at hc ⊢
    rw [hrole, acceptedFinal_state, acceptedFinal_cycle]
    refine Agrees.samePhase ?_ (((ConnectionState.disableKeepAliveIf_samePhase _ state).trans
      (ConnectionState.disableKeepAliveIf_samePhase _ _)).trans
      (ConnectionState.disableKeepAliveIf_samePhase _ _))
    have hcycle : ((c.disableKeepAliveIf dropped).consumeSection stop).cycle =
        { c.cycle with progress := .new } := by
      cases dropped <;> rfl
    rw [hcycle]
    rw [disableKeepAliveIf_state] at hstate
    have hbefore : Agrees c.role (c.state.disableKeepAliveIf dropped) c.cycle :=
      Agrees.samePhase hc (ConnectionState.disableKeepAliveIf_samePhase _ _)
    rw [hclient] at hbefore ⊢
    have hown := ConnectionState.phaseLaws.own _ _ _ _ hstate
    unfold finalResponseEvent at hstate hown
    split at hstate
    next htunnel =>
      -- A tunnel has no reader: nothing is asked of the notes once the server has switched.
      have hswitched : state.server = .switchedProtocol :=
        ConnectionState.processEvent_switched _ _ _ hstate
      refine Agrees.peer hbefore hstate rfl nofun (fun hhead => ?_) (fun hserver => ?_)
      · change state.server.readsHead = true at hhead
        rw [hswitched] at hhead
        cases hhead
      · cases hserver.symm.trans hswitched
    next htunnel =>
      have hbody : state.server = .sendBody :=
        (ConnectionState.phaseLaws.own _ _ _ _ hstate).2.2.mpr rfl
      refine Agrees.peer hbefore hstate rfl (fun _ => reader_ne_head framing) (fun hhead => ?_)
        (.answered hstate rfl)
      change state.server.readsHead = true at hhead
      rw [hbody] at hhead
      cases hhead
  | payload _ _ _ hstate =>
    have hsame := (ConnectionState.bodyLaws.data _ _ _ hstate).1
    subst hsame
    unfold LayersAgree at hc ⊢
    rw [hrole]
    exact (advancePayload_agrees _ hc).reread rfl Iff.rfl rfl rfl
  | ends _ _ hstate => exact LayersAgree.ends (c := c) hc hstate
  | trailers _ _ _ hstate =>
    have hread : Agrees c.role c.state { c.cycle with progress := .new } :=
      Agrees.reread hc rfl Iff.rfl rfl rfl
    exact LayersAgree.ends (c := c) hread hstate
  | @sizeLine scanned stop size extensionBytes _ hreader =>
    refine Agrees.reread hc rfl ⟨fun h => ?_, fun h => ?_⟩ rfl rfl
    · change (if size = 0 then Reader.chunked .trailers else .chunked (.data size true)) = .head at h
      split at h <;> cases h
    · rw [hreader] at h
      cases h
  | dataEnd _ hreader =>
    refine Agrees.reread hc rfl ⟨nofun, fun h => ?_⟩ rfl rfl
    rw [hreader] at h
    cases h

/-- A turn that fails leaves a connection whose peer is poisoned, and the local
side as it was. -/
theorem Turn.failed_layersAgree {error : RemoteProtocolError} (h : Turn hp c (.error error) c')
    (hc : c.LayersAgree) :
    LayersAgree { c' with state := c'.state.processError c'.role.peer } := by
  have hrole := h.frame.role
  have hpoison : ∀ {cycle : Cycle}, Agrees c'.role c'.state cycle →
      Agrees c'.role (c'.state.processError c'.role.peer) cycle :=
    fun h => .poison h.writer h.asked
  unfold LayersAgree at hc ⊢
  cases h with
  | poisoned => exact hpoison hc
  | fails _ hreader => exact hpoison (hc.reread rfl hreader.head_iff rfl rfl)
  | requestRejected => exact hpoison (hc.reread rfl Iff.rfl rfl rfl)
  | @finalFaulty _ stop response dropped state _ _ hclient _ hstate =>
    -- The response has been counted: the server sends its body, and nothing is asked of it.
    rw [disableKeepAliveIf_state] at hstate
    have hbefore : Agrees c.role (c.state.disableKeepAliveIf dropped) c.cycle :=
      hc.samePhase (ConnectionState.disableKeepAliveIf_samePhase _ _)
    have hother := ConnectionState.phaseLaws.other _ _ _ _ hstate
    have hcounted := ConnectionState.disableKeepAliveIf_samePhase
      (!(Fields.scan response.headers).persistent response.httpVersion) state
    have hwriter : (countedFinal response state
        ((c.disableKeepAliveIf dropped).consumeSection stop)).cycle.writer = c.cycle.writer := by
      unfold countedFinal
      simp only [disableKeepAliveIf_eq]
      rfl
    refine .poison ?_ fun hserver => ?_
    · show (countedFinal _ _ _).cycle.writer.isSome = true ↔ _
      rw [hwriter, hrole, countedFinal_state, hcounted.body]
      rw [hclient] at hbefore ⊢
      exact hbefore.writer.trans hother.1.symm
    · rw [countedFinal_state] at hserver
      have hasked := (hcounted.asks hserver).1
      unfold finalResponseEvent at hstate
      split at hstate
      · cases hasked.symm.trans (ConnectionState.processEvent_switched _ _ _ hstate)
      · cases hasked.symm.trans ((ConnectionState.phaseLaws.own _ _ _ _ hstate).2.2.mpr rfl)
  | @responseRejected _ stop response dropped =>
    have hstate : ((c.disableKeepAliveIf dropped).consumeSection stop).state =
        c.state.disableKeepAliveIf dropped := by
      cases dropped <;> rfl
    have hcycle : ((c.disableKeepAliveIf dropped).consumeSection stop).cycle =
        { c.cycle with progress := .new } := by
      cases dropped <;> rfl
    refine hpoison ?_
    rw [hrole, hstate, hcycle]
    exact (hc.samePhase (ConnectionState.disableKeepAliveIf_samePhase _ _)).reread rfl Iff.rfl rfl rfl
  | payloadRejected =>
    refine hpoison ?_
    rw [hrole, advancePayload_state]
    exact advancePayload_agrees _ hc
  | trailersRejected => exact hpoison (hc.reread rfl Iff.rfl rfl rfl)

theorem PollChange.layersAgree (h : PollChange hp c c') (hc : c.LayersAgree) : c'.LayersAgree := by
  cases h with
  | turn h => exact h.layersAgree hc
  | taken => exact hc
  | failed h => exact h.failed_layersAgree hc

theorem run_layersAgree {allowed : Connection → Op → Prop} {role : Role} {limits : Limits}
    {history : List (Op × Outcome)} (h : Run hp allowed role limits history c) : c.LayersAgree := by
  have hnew : (new role limits).LayersAgree := new_agrees role
  exact Lib.Run.invariant hnew (fun _ op hc _ => step_preserve (fun _ _ => Change.layersAgree)
    (fun _ _ => CycleChange.layersAgree) (fun _ _ => PollChange.layersAgree) op hc) h

/-! ## No event of a matched branch is rejected -/

theorem processEvent_insideBody : ∀ (role : Role) (s : ConnectionState),
    s.state role = .sendBody →
      (s.processEvent role .data).isSome = true ∧
      (s.processEvent role .endOfMessage).isSome = true := by
  decide +kernel

theorem processEvent_proposed : ∀ (s : ConnectionState), s.server = .sendResponse →
    ∀ dropped : Bool,
      (s.proposals.contains .connect = true →
        ((s.disableKeepAliveIf dropped).processEvent .server (.protocolSwitch .connect)).isSome =
          true) ∧
      (s.proposals.contains .upgrade = true →
        ((s.disableKeepAliveIf dropped).processEvent .server (.protocolSwitch .upgrade)).isSome =
          true) := by
  decide +kernel

/-- The tail calls of `next_event_inner` within one poll. -/
abbrev TailCalls (hp : Httparse) : Connection → Connection → Prop :=
  Relation.ReflTransGen fun c c' => dispatch hp c = (.ok none, c')

theorem TailCalls.layersAgree (h : TailCalls hp c c') (hc : c.LayersAgree) : c'.LayersAgree :=
  Lib.preserve (P := LayersAgree) (fun _ _ h hc => (dispatch_turn h).layersAgree hc) h hc

/-- Where the decoder takes a body branch, the peer sends a body. -/
theorem LayersAgree.reading_body (hc : c.LayersAgree) (hreading : c.Reading)
    (hreader : c.cycle.reader ≠ .head) : c.peerState = .sendBody := by
  have hhead : c.peerState.readsHead = true → c.cycle.reader = .head := hc.head
  rcases hreading with ⟨hpeer, _⟩ | hpeer | hpeer
  · rw [hpeer] at hhead
    exact absurd (hhead rfl) hreader
  · rw [hpeer] at hhead
    exact absurd (hhead rfl) hreader
  · exact hpeer

/-- A valid answer to an upgrade selects something, so something was offered. -/
theorem validUpgradeResponse_offered {version : Version} {headers : Headers}
    (h : c.validUpgradeResponse version headers = true) : c.cycle.upgradeProposals ≠ [] := by
  intro hnone
  unfold validUpgradeResponse at h
  rw [Bool.and_eq_true] at h
  obtain ⟨selected, _, hselected⟩ := (Option.any_eq_true ..).mp h.2
  rw [hnone] at hselected
  cases selected with
  | nil => cases hselected
  | cons first rest =>
    rw [Bool.and_eq_true, List.all_cons] at hselected
    simp at hselected

/-- In every reachable connection the writer, the reader and the notes about the
request are those of the actors' states, and no branch of the writer or reader
and no accepted switch is rejected by the state machine. -/
theorem layers_never_disagree {role : Role} {limits : Limits} {history : List (Op × Outcome)}
    (h : Run hp anyCall role limits history c) :
    (c.cycle.writer.isSome = true ↔ c.localState = .sendBody) ∧
    (c.peerState = .sendBody → c.cycle.reader ≠ .head) ∧
    (c.peerState = .idle ∨ c.peerState = .sendResponse ∨ c.peerState = .done ∨
      c.peerState = .mightSwitchProtocol ∨ c.peerState = .mustClose ∨ c.peerState = .closed →
        c.cycle.reader = .head) ∧
    (c.state.server = .sendResponse →
      (c.state.proposals.connect = true ↔ c.cycle.requestKind = some .connect) ∧
      (c.state.proposals.upgrade = true ↔ c.cycle.upgradeProposals ≠ [])) ∧
    (∀ framing, c.cycle.writer = some framing →
      (c.state.processEvent c.role .data).isSome = true ∧
      (c.state.processEvent c.role .endOfMessage).isSome = true) ∧
    (∀ c1, TailCalls hp c c1 → c1.Reading → c1.cycle.reader ≠ .head →
      (c1.state.processEvent c1.role.peer .data).isSome = true ∧
      (c1.state.processEvent c1.role.peer .endOfMessage).isSome = true) ∧
    (c.state.server = .sendResponse → ∀ (kind : SwitchKind) (dropped : Bool),
      (∀ status, c.finalResponseEvent status = .protocolSwitch kind →
        ((c.state.disableKeepAliveIf dropped).processEvent .server (.protocolSwitch kind)).isSome =
          true) ∧
      (∀ status version headers,
        c.informationalEvent status version headers = some (.protocolSwitch kind) →
        ((c.state.disableKeepAliveIf dropped).processEvent .server (.protocolSwitch kind)).isSome =
          true)) := by
  have hc := run_layersAgree h
  refine ⟨hc.writer, hc.body, fun hpeer => hc.head ?_, hc.asked, fun framing hwriter => ?_,
    fun c1 htail hreading hreader => ?_, fun hserver kind dropped => ⟨fun status hevent => ?_,
      fun status version headers hevent => ?_⟩⟩
  · change c.peerState.readsHead = true
    rcases hpeer with h | h | h | h | h | h <;> rw [h] <;> rfl
  · exact processEvent_insideBody _ _ (hc.writer.mp (by rw [hwriter]; rfl))
  · exact processEvent_insideBody _ _ ((htail.layersAgree hc).reading_body hreading hreader)
  · unfold finalResponseEvent at hevent
    split at hevent
    next htunnel =>
      cases hevent
      have hconnect : c.cycle.requestKind = some .connect := by
        unfold opensTunnel requestIs at htunnel
        rw [Bool.and_eq_true, beq_iff_eq] at htunnel
        exact htunnel.1
      exact (processEvent_proposed _ hserver dropped).1 ((hc.asked hserver).1.mpr hconnect)
    next => cases hevent
  · rcases informationalEvent_cases hevent with hkind | ⟨hkind, _, hvalid⟩
    · cases hkind
    · cases hkind
      exact (processEvent_proposed _ hserver dropped).2
        ((hc.asked hserver).2.mpr (validUpgradeResponse_offered hvalid))

/-- A client that has sent the head of a request for a tunnel. -/
theorem connect_layers_agree :
    ∃ history c, Run Reference.httparse anyCall .client .default history c ∧
      c.state.server = .sendResponse ∧ c.cycle.requestKind = some .connect ∧
      ((c.state.disableKeepAliveIf false).processEvent .server (.protocolSwitch .connect)).isSome =
        true := by
  have hrun : Run Reference.httparse anyCall .client .default _ _ :=
    Lib.Run.trace_of_forall _ [.sendRequest plainConnect] fun _ _ => trivial
  have hstate : (Lib.trace (step Reference.httparse) (new .client .default)
      [.sendRequest plainConnect]).2.state.server = .sendResponse := by decide +kernel
  obtain ⟨_, _, _, _, _, _, hswitch⟩ := layers_never_disagree hrun
  exact ⟨_, _, hrun, hstate, by decide +kernel,
    (hswitch hstate .connect false).1 ⟨200, by decide⟩ (by decide +kernel)⟩

end Connection

end H11r
