import H11r.Connection.Coming
import H11r.Connection.RequestTrip

/-!
# The actors in an exchange

A request settles three things for both ends: its kind, the upgrades it offers,
and whether it keeps the connection (`Question`). How far the request and the
answer are then says what the two actors are (`during`), whichever of the two
came first. So two ends that have seen the same of an exchange agree on the
actors, although one of them sends what the other one receives.
-/

namespace H11r

open Lib (Call)

/-- How far the server is with its answer. -/
inductive Reply where
  | pending
  | begun
  | ended
  | switched
  deriving DecidableEq, Repr

namespace Reply

def server : Reply → State
  | .pending => .sendResponse
  | .begun => .sendBody
  | .ended => .done
  | .switched => .switchedProtocol

/-- A final response declines what has been proposed. -/
def declines : Reply → Bool
  | .begun | .ended => true
  | _ => false

end Reply

instance decidableForallReply {p : Reply → Prop} [∀ reply, Decidable (p reply)] :
    Decidable (∀ reply, p reply) :=
  decidable_of_iff ((p .pending ∧ p .begun) ∧ p .ended ∧ p .switched)
    ⟨fun h reply => by
      obtain ⟨⟨h1, h2⟩, h3, h4⟩ := h
      cases reply <;> assumption,
     fun h => ⟨⟨h _, h _⟩, h _, h _⟩⟩

namespace ConnectionState

/-- The actors in an exchange, as far as it has come. -/
def during (keep : Bool) (proposals : SwitchProposals) (ended : Bool) (reply : Reply) :
    ConnectionState :=
  stabilize ⟨if ended then .done else .sendBody, reply.server, keep,
    if reply.declines then .none else proposals⟩

/-- What the events of an exchange do to the actors. -/
structure DuringLaws : Prop where
  disable : ∀ keep proposals ended reply reason,
    (during keep proposals ended reply).disableKeepAliveIf reason =
      during (keep && !reason) proposals ended reply
  ends : ∀ keep proposals reply,
    (during keep proposals false reply).processEvent .client .endOfMessage =
    some (during keep proposals true reply)
  informational : ∀ keep proposals ended,
    (during keep proposals ended .pending).processEvent .server .informationalResponse =
      some (during keep proposals ended .pending)
  response : ∀ keep proposals ended,
    (during keep proposals ended .pending).processEvent .server .response =
    some (during (keep && !proposals.connect) proposals ended .begun)
  ended : ∀ keep proposals ended,
    (during keep proposals ended .begun).processEvent .server .endOfMessage =
    some (during keep proposals ended .ended)
  connects : ∀ keep proposals ended,
    (during keep proposals ended .pending).processEvent .server (.protocolSwitch .connect) =
      if proposals.connect then some (during keep proposals ended .switched) else none
  upgrades : ∀ keep proposals ended,
    (during keep proposals ended .pending).processEvent .server (.protocolSwitch .upgrade) =
      if proposals.upgrade then some (during keep proposals ended .switched) else none
  next : ∀ keep proposals ended reply s',
    (during keep proposals ended reply).startNextCycle = some s' →
    ended = true ∧ reply = .ended ∧ s' = .new

theorem duringLaws : DuringLaws where
  disable := by decide +kernel
  ends := by decide +kernel
  informational := by decide +kernel
  response := by decide +kernel
  ended := by decide +kernel
  connects := by decide +kernel
  upgrades := by decide +kernel
  next := by decide +kernel

/-- A request begins an exchange. -/
theorem request_during : ∀ proposals,
    new.processEvent .client (.request proposals) =
      some (during true proposals false .pending) := by
  decide +kernel

/-- What can be read off the actors. -/
structure DuringViews : Prop where
  keepAlive : ∀ keep proposals ended reply, (during keep proposals ended reply).keepAlive = keep
  begun : ∀ keep proposals ended reply, (during keep proposals ended reply).client ≠ .idle
  client : ∀ keep proposals ended reply, (during keep proposals ended reply).client = .sendBody ↔
    ended = false
  server : ∀ keep proposals ended reply,
    reply ≠ .ended → (during keep proposals ended reply).server = reply.server
  through : ∀ keep proposals reply,
    Connection.through (during keep proposals true reply).client = true
  switched : ∀ keep keep' proposals, proposals ≠ .none →
    (during keep proposals true .switched).client = .switchedProtocol ∧
    (during keep' proposals true .switched).client = .switchedProtocol

theorem duringViews : DuringViews where
  keepAlive := by decide +kernel
  begun := by decide +kernel
  client := by decide +kernel
  server := by decide +kernel
  through := by decide +kernel
  switched := by decide +kernel

/-- Once there is a request the client sends no other head, and once it is
answered the server does not. -/
theorem during_headless : ∀ keep proposals ended reply,
    (∀ others, (during keep proposals ended reply).processEvent .client (.request others) = none) ∧
    (reply ≠ .pending →
      (during keep proposals ended reply).processEvent .server .informationalResponse = none ∧
      (during keep proposals ended reply).processEvent .server .response = none ∧
      (during keep proposals ended reply).processEvent .server (.protocolSwitch .connect) = none ∧
      (during keep proposals ended reply).processEvent .server (.protocolSwitch .upgrade) =
        none) := by
  decide +kernel

end ConnectionState

/-- What a request settles for both ends. -/
structure Question where
  kind : RequestKind
  upgrades : List Bytes
  keep : Bool

namespace Question

def proposals (q : Question) : SwitchProposals := ⟨q.kind == .connect, !q.upgrades.isEmpty⟩

/-- The question that a request asks. -/
def of (request : Request) : Question where
  kind := .fromMethod request.method.asBytes
  upgrades := Connection.offeredUpgrades request (Fields.scan request.headers)
  keep := (Fields.scan request.headers).persistent request.httpVersion

theorem of_event (request : Request) :
    requestEvent request.method (Connection.offeredUpgrades request (Fields.scan request.headers)) =
      .request (of request).proposals := by
  have hmethod : (request.method == .connect) =
      (RequestKind.fromMethod request.method.asBytes == .connect) := by
    have hstate : ConnectionState.processEvent _ .client (requestEvent request.method []) =
        some _ :=
      ConnectionState.request_during ⟨request.method == .connect, false⟩
    have hasked : Asked _ { Cycle.new with
        requestKind := some (RequestKind.fromMethod request.method.asBytes) } :=
      .request hstate rfl rfl
    obtain ⟨hconnect, _⟩ := hasked (ConnectionState.duringViews.server _ _ _ _ nofun)
    rw [(ConnectionState.phaseLaws.proposes _ _ _ hstate).2] at hconnect
    rw [Bool.eq_iff_iff, hconnect, beq_iff_eq, Option.some.injEq]
  unfold requestEvent proposals
  rw [hmethod]
  rfl

end Question

namespace Connection

variable {hp : Httparse} {c c' : Connection} {q : Question} {continues : Bool}

/-- What a connection knows of the question until it is answered. -/
structure Remembers (q : Question) (continues : Bool) (c : Connection) : Prop where
  kind : c.cycle.requestKind = some q.kind
  upgrades : c.cycle.upgradeProposals = q.upgrades
  continues : c.cycle.continueBeforeUpgrade = continues

/-! ## What a poll does to the actors -/

theorem advancePayload_remembers (count : Nat) (hc : c.Remembers q continues) :
    (c.advancePayload count).2.Remembers q continues := by
  unfold advancePayload
  split <;> exact ⟨hc.kind, hc.upgrades, hc.continues⟩

/-- A turn that reads no head leaves the notes about the request alone. -/
theorem Turn.remembers {r : Except RemoteProtocolError (Option Polled)} (h : Turn hp c r c')
    (hbegins : c.peerState.begins = false) (hc : c.Remembers q continues) :
    c'.Remembers q continues := by
  have hnot : ∀ {reason : Bool} {event : StateEvent} {state : ConnectionState} {p : Prop},
      (c.disableKeepAliveIf reason).state.processEvent c.role.peer event = some state →
      event.insideBody = false → event ≠ .connectionClosed → p := by
    intro reason event state p hstate hinside hclosed
    have hyes := ConnectionState.processEvent_begins _ _ _ _ hstate hinside hclosed
    rw [disableKeepAliveIf_state] at hyes
    have hmoves : Moves c.role.peer c.state (c.state.disableKeepAliveIf reason) :=
      disableKeepAliveIf_moves reason _
    have hpeer : c.peerState.begins = true := hmoves.begins c.role.peer hyes
    rw [hbegins] at hpeer
    cases hpeer
  cases h with
  | request _ _ hrole _ _ _ hstate =>
    have hpeer : c.role.peer = .client := by
      rw [hrole]
      rfl
    rw [← hpeer] at hstate
    exact @hnot false _ _ _ hstate rfl nofun
  | informational _ _ hrole _ _ _ hevent hstate =>
    rw [← Role.peer, ← hrole] at hstate
    rcases informationalEvent_cases hevent with rfl | ⟨rfl, _⟩
    · exact hnot hstate rfl nofun
    · exact hnot hstate rfl nofun
  | @final _ response _ _ _ _ _ hrole _ _ _ hstate =>
    rw [← Role.peer, ← hrole] at hstate
    unfold finalResponseEvent at hstate
    split at hstate
    · exact hnot hstate rfl nofun
    · exact hnot hstate rfl nofun
  | @finalFaulty _ _ response _ _ _ _ hrole _ hstate =>
    rw [← Role.peer, ← hrole] at hstate
    unfold finalResponseEvent at hstate
    split at hstate
    · exact hnot hstate rfl nofun
    · exact hnot hstate rfl nofun
  | @responseRejected _ _ _ dropped =>
    cases dropped <;> exact ⟨hc.kind, hc.upgrades, hc.continues⟩
  | payload =>
    have htaken := advancePayload_remembers c.input.asSlice.length hc
    exact ⟨htaken.kind, htaken.upgrades, htaken.continues⟩
  | payloadRejected => exact advancePayload_remembers _ hc
  | _ => exact ⟨hc.kind, hc.upgrades, hc.continues⟩

/-- So does a poll that comes where there is no head to read. -/
theorem nextEvent_remembers (hp : Httparse) (hbegins : c.peerState.begins = false)
    (hc : c.Remembers q continues) :
    (nextEvent hp c).2.Remembers q continues := by
  refine (Lib.preserve
    (P := fun c' => c'.role = c.role ∧ c'.peerState.begins = false ∧ c'.Remembers q continues) ?_
    nextEvent_changes ⟨rfl, hbegins, hc⟩).2.2
  rintro c1 c2 h ⟨hrole, hbegins, hc⟩
  have hmoves : Moves c1.role.peer c1.state c2.state := h.moves
  refine ⟨h.frame.role.trans hrole, ?_, ?_⟩
  · rw [Bool.eq_false_iff]
    intro hyes
    unfold peerState at hyes hbegins
    rw [h.frame.role] at hyes
    rw [hmoves.begins _ hyes] at hbegins
    cases hbegins
  · cases h with
    | turn h => exact h.remembers hbegins hc
    | taken => exact ⟨hc.kind, hc.upgrades, hc.continues⟩
    | failed h =>
      have hkept := h.remembers hbegins hc
      exact ⟨hkept.kind, hkept.upgrades, hkept.continues⟩

/-- A poll inside a message leaves the actors as they are, or brings the peer to
the end of it. -/
theorem nextEvent_inside_state {next : NextEvent} (h : nextEvent hp c = (.ok next, c'))
    (hpeer : c.peerState = .sendBody) :
    c'.state = c.state ∨ c.state.processEvent c.role.peer .endOfMessage = some c'.state := by
  have hpolled : ∃ polled c1, nextEventInner hp c = (.ok polled, c1) ∧ c'.state = c1.state := by
    unfold nextEvent at h
    rcases hinner : nextEventInner hp c with ⟨error | polled, c1⟩
    · rw [hinner] at h
      cases h
    · rw [hinner] at h
      refine ⟨polled, c1, rfl, ?_⟩
      cases polled <;> cases h <;> rfl
  obtain ⟨polled, c2, hinner, hsame⟩ := hpolled
  obtain ⟨c1, hstate, hframe, _, hturn⟩ := (nextEventInner_turns hinner).last_turn
  have hbody : c1.state.state c1.role.peer = .sendBody := by
    rw [hstate, hframe.role]
    exact hpeer
  have hhead : ∀ {reason : Bool} {event : StateEvent} {state : ConnectionState} {p : Prop},
    event.insideBody = false →
      (c1.state.disableKeepAliveIf reason).processEvent c1.role.peer event = some state → p := by
    intro reason event state p hinside hevent
    have hown := (ConnectionState.phaseLaws.own _ _ _ _ hevent).1.mp
      (ConnectionState.disableKeepAliveIf_sendBody reason hbody)
    rw [hinside] at hown
    cases hown
  rw [hsame, ← hstate, ← hframe.role]
  generalize hr : (Except.ok polled : Except RemoteProtocolError Polled).map some = r at hturn
  cases hturn with
  | poisoned | fails | requestRejected | finalFaulty | responseRejected | payloadRejected
  | trailersRejected =>
    cases hr
  | closed | paused | doneWaits | waits | sizeLine | dataEnd => exact Or.inl rfl
  | idleClosed _ _ _ _ hevent => exact @hhead false _ _ _ rfl hevent
  | doneClosed _ _ _ hevent => exact @hhead false _ _ _ rfl hevent
  | request _ _ hrole _ _ _ hevent => exact @hhead false _ _ _ rfl (by rw [hrole]; exact hevent)
  | informational _ _ hrole _ _ _ hsays hevent =>
    rw [disableKeepAliveIf_state, ← Role.peer, ← hrole] at hevent
    rcases informationalEvent_cases hsays with rfl | ⟨rfl, _⟩
    · exact hhead rfl hevent
    · exact hhead rfl hevent
  | final _ _ hrole _ _ _ hevent =>
    rw [disableKeepAliveIf_state, ← Role.peer, ← hrole] at hevent
    unfold finalResponseEvent at hevent
    split at hevent
    · exact hhead rfl hevent
    · exact hhead rfl hevent
  | payload _ _ _ hevent =>
    refine Or.inl ?_
    show _ = c1.state
    exact (ConnectionState.bodyLaws.data _ _ _ hevent).1
  | ends _ _ hevent => exact Or.inr hevent
  | trailers _ _ _ hevent => exact Or.inr hevent

/-- Behind a message a poll changes nothing until the input ends. -/
theorem nextEvent_still (hp : Httparse) (hover : c.Over) (heof : c.eof = false) :
    (nextEvent hp c).2 = c := by
  have hrests : ∀ {polled : Polled}, dispatch hp c = (.ok (some polled), c) →
      (∀ count chunkStart chunkEnd, polled ≠ .data count chunkStart chunkEnd) →
          (nextEvent hp c).2 = c := by
    intro polled hdispatch hdata
    unfold nextEvent
    rw [nextEventInner_reports hdispatch]
    cases polled with
    | data count chunkStart chunkEnd => exact absurd rfl (hdata count chunkStart chunkEnd)
    | _ => rfl
  have hdone : c.peerState = .done ∨ c.peerState = .mustClose → (nextEvent hp c).2 = c := by
    intro hpeer
    by_cases hinput : c.input.asSlice = []
    · refine @hrests .needData ?_ nofun
      unfold dispatch
      rw [Call.get_bind]
      rcases hpeer with hpeer | hpeer
      all_goals
        simp only [hpeer]
        rw [if_neg (fun hsome => hsome hinput), heof, if_neg (by decide)]
        rfl
    · refine @hrests .paused ?_ nofun
      unfold dispatch
      rw [Call.get_bind]
      rcases hpeer with hpeer | hpeer
      all_goals
        simp only [hpeer]
        rw [if_pos hinput]
        rfl
  have hthrough := hover.through
  cases hpeer : c.peerState with
  | idle | sendResponse | sendBody =>
    rw [hpeer] at hthrough
    cases hthrough
  | done => exact hdone (Or.inl hpeer)
  | mustClose => exact hdone (Or.inr hpeer)
  | error => exact absurd hpeer hover.fine
  | mightSwitchProtocol | switchedProtocol =>
    refine @hrests .paused ?_ nofun
    unfold dispatch
    rw [Call.get_bind]
    simp only [hpeer]
    rfl
  | closed =>
    refine @hrests (.event .connectionClosed) ?_ nofun
    unfold dispatch
    rw [Call.get_bind]
    simp only [hpeer]
    rfl

/-- A poll that does not fail keeps the decoder in its message, or takes it to the
end of it. -/
theorem Reads.poll_state {limits : Limits} {untilEof ended ended' : Bool} {writer : Option Framing}
    {text text' later : Bytes} {next : NextEvent}
    (h : Reads hp limits c untilEof writer text later ended)
    (hpoll : nextEvent hp c = (.ok next, c')) (heof : c.eof = false)
    (h' : Reads hp limits c' untilEof writer text' later ended') :
    (ended' = ended ∧ c'.state = c.state) ∨ (ended = false ∧ ended' = true ∧
      c.state.processEvent c.role.peer .endOfMessage = some c'.state) := by
  have hrole : c'.role = c.role := by
    have hframe := (nextEvent_frame hp c).role
    rw [hpoll] at hframe
    exact hframe
  cases h with
  | inside h =>
    have hpeer := h.peer
    rcases nextEvent_inside_state hpoll hpeer with hsame | hends
    · cases h' with
      | inside => exact Or.inl ⟨rfl, hsame⟩
      | behind h' =>
        have hthrough := h'.isOver.through
        unfold peerState at hthrough hpeer
        rw [hrole, hsame, hpeer] at hthrough
        cases hthrough
    · cases h' with
      | inside h' =>
        have hthrough := processEvent_endOfMessage _ _ _ hends
        have hbody := h'.peer
        unfold peerState at hbody
        rw [hrole] at hbody
        rw [hbody] at hthrough
        cases hthrough
      | behind => exact Or.inr ⟨rfl, rfl, hends⟩
  | behind h =>
    have hstill := nextEvent_still hp h.isOver heof
    rw [hpoll] at hstill
    have hsame : c' = c := hstill
    subst hsame
    cases h' with
    | inside h' =>
      have hthrough := h.isOver.through
      rw [h'.peer] at hthrough
      cases hthrough
    | behind => exact Or.inl ⟨rfl, rfl⟩

end Connection

end H11r
