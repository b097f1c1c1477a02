import H11r.Connection.Lifecycle
import H11r.Wire.Reference

/-!
# A refused call changes nothing

Every send method is atomic on its own (`Connection/Local.lean`). What is left
is `next_event_in_place`, which moves the decoder before it reports the data to
the state machine: it is atomic only where the state machine cannot refuse.
That is so when the peer is sending its body as long as bytes are held
(`HeldInBody`), and a caller that hands held bytes over before it polls keeps
it so.
-/

namespace H11r

namespace ConnectionState

/-- What the steps of the state machine do to an actor inside its body, and where a
cycle starts. -/
structure BodyLaws : Prop where
  /-- Nothing the other actor does takes an actor out of its body. -/
  other : ∀ (role : Role) (event : StateEvent) (s : ConnectionState),
      s.state role.peer = .sendBody → ∀ s', s.processEvent role event = some s' →
        s'.state role.peer = .sendBody
  data : ∀ (role : Role) (s s' : ConnectionState),
      s.processEvent role .data = some s' → s' = s ∧ s.state role = .sendBody
  disable : ∀ (role : Role) (s : ConnectionState),
      s.state role = .sendBody → s.disableKeepAlive.state role = .sendBody
  /-- A new cycle starts from two finished messages. -/
  cycle : ∀ (s s' : ConnectionState), s.startNextCycle = some s' →
      s.client = .done ∧ s.server = .done ∧ s.keepAlive = true ∧ s' = new

theorem bodyLaws : BodyLaws where
  other := by decide +kernel
  data := by decide +kernel
  disable := by decide +kernel
  cycle := by decide +kernel

theorem disableKeepAliveIf_sendBody {role : Role} {s : ConnectionState} (reason : Bool)
    (h : s.state role = .sendBody) : (s.disableKeepAliveIf reason).state role = .sendBody := by
  cases reason with
  | false => exact h
  | true => exact bodyLaws.disable role s h

end ConnectionState

namespace Connection

open Lib (Call)

variable {hp : Httparse} {c c' : Connection}

/-- Bytes are held only while the peer sends its body. -/
def HeldInBody (c : Connection) : Prop := c.held ≠ 0 → c.peerState = .sendBody

theorem LocalChange.peer_sendBody (h : LocalChange c c') (hpeer : c.peerState = .sendBody) :
    c'.peerState = .sendBody := by
  have hrole := h.sameOutside.frame.role
  unfold peerState at hpeer ⊢
  rw [hrole]
  cases h with
  | request hclient _ _ hstate =>
    rw [hclient] at hpeer ⊢
    rw [sentRequest_state]
    exact ConnectionState.disableKeepAliveIf_sendBody _
      (ConnectionState.bodyLaws.other .client _ _ hpeer _ hstate)
  | informational hserver _ hstate =>
    rw [hserver] at hpeer ⊢
    rw [recordInformational_state]
    exact ConnectionState.bodyLaws.other .server _ _ hpeer _ hstate
  | response hserver _ hstate =>
    rw [sentResponse_state _ _ _ hserver]
    rw [hserver] at hpeer ⊢
    exact ConnectionState.disableKeepAliveIf_sendBody _
      (ConnectionState.bodyLaws.other .server _ _ hpeer _ hstate)
  | data hstate => exact ConnectionState.bodyLaws.other _ _ _ hpeer _ hstate
  | ends hstate => exact ConnectionState.bodyLaws.other _ _ _ hpeer _ hstate
  | closes hstate => exact ConnectionState.bodyLaws.other _ _ _ hpeer _ hstate

theorem canHold_peer {count : Nat} (h : c.canHold count = true) : c.peerState = .sendBody := by
  unfold canHold at h
  simp only [Bool.and_eq_true] at h
  cases hpayload : c.payloadRemaining with
  | none =>
    rw [hpayload] at h
    exact absurd h.2 (by simp)
  | some remaining =>
    unfold payloadRemaining at hpayload
    split at hpayload
    · cases hpayload
    next hpeer => exact Decidable.not_not.mp hpeer

theorem Change.heldInBody (h : Change c c') (hc : c.HeldInBody) : c'.HeldInBody := by
  intro hheld
  cases h with
  | lenient => exact hc hheld
  | received => exact hc hheld
  | eof =>
    unfold recordEof at hheld ⊢
    rw [disableKeepAliveIf_held] at hheld
    have hpeer := hc hheld
    unfold peerState at hpeer ⊢
    rw [disableKeepAliveIf_role, disableKeepAliveIf_state]
    exact ConnectionState.disableKeepAliveIf_sendBody _ hpeer
  | hold hold => exact canHold_peer (c := c) hold
  | inPlace hcount hstate =>
    obtain ⟨rfl, hpeer⟩ := ConnectionState.bodyLaws.data _ _ _ hstate
    show c.state.state (c.advancePayload _).2.role.peer = .sendBody
    rw [advancePayload_role]
    exact hpeer
  | inPlaceRefused =>
    rw [(advancePayload_frame _ c).held] at hheld
    have hpeer := hc hheld
    unfold peerState at hpeer ⊢
    rw [advancePayload_role, advancePayload_state]
    exact hpeer
  | «local» h =>
    rw [h.sameOutside.frame.held] at hheld
    exact h.peer_sendBody (hc hheld)

theorem CycleChange.heldInBody (h : CycleChange c c') (hc : c.HeldInBody) : c'.HeldInBody := by
  intro hheld
  cases h with
  | started hstate =>
    have hdone := ConnectionState.bodyLaws.cycle _ _ hstate
    have hpeer := hc hheld
    unfold peerState at hpeer
    cases hrole : c.role <;> rw [hrole] at hpeer
    · have hserver : c.state.server = .sendBody := hpeer
      rw [hdone.2.1] at hserver
      cases hserver
    · have hclient : c.state.client = .sendBody := hpeer
      rw [hdone.1] at hclient
      cases hclient
  | refused hrole hpeer =>
    rw [hc hheld] at hpeer
    cases hpeer

/-- Polling does not touch what is held. -/
theorem nextEvent_frame (hp : Httparse) (c : Connection) : SameFrame c (nextEvent hp c).2 :=
  Lib.preserve (P := SameFrame c) (fun _ _ h hc => hc.trans h.frame) nextEvent_changes (.refl c)

theorem step_heldInBody {op : Op} (hc : c.HeldInBody) (hop : c.handsOverFirst op) :
    (step hp op c).2.HeldInBody := by
  by_cases hpoll : op = .nextEvent
  · subst hpoll
    intro hheld
    change (pollOutcome (nextEvent hp c)).2.held ≠ 0 at hheld
    rw [pollOutcome_snd, (nextEvent_frame hp c).held] at hheld
    exact absurd hop hheld
  · exact step_preserve_unpolled (fun _ _ => Change.heldInBody) (fun _ _ => CycleChange.heldInBody)
      hpoll hc

/-- The connection after a refused call: as before, except that a client which
will not be reused has taken note of it. -/
def refusedFrom (op : Op) (c : Connection) : Connection :=
  match op with
  | .startNextCycle =>
    if c.role = .client ∧ c.peerState = .done ∧ c.input.asSlice ≠ [] then c.disableKeepAlive else c
  | _ => c

theorem outcome_refused {α : Type} {value : α → Outcome} {call : LocalCall α}
    {error : LocalProtocolError} (hvalue : ∀ a, value a ≠ .refused error)
    (hatomic : Call.Atomic call) (h : (outcome value (call c)).1 = .refused error) :
    (outcome value (call c)).2 = c := by
  rcases hcall : call c with ⟨failure | a, c'⟩
  · exact hatomic _ _ _ hcall
  · rw [hcall] at h
    exact absurd h (hvalue a)

theorem receiveData_atomic (data : Bytes) : Call.Atomic (receiveData data) := by
  unfold receiveData
  refine .bind_left .get fun c => .bind_left (.failIf _ _) fun _ => ?_
  split
  · exact (Call.Total.modify _).atomic
  · exact (Call.Total.modify _).atomic

/-- With the peer in its body the state machine takes the data that
`next_event_in_place` reports. -/
theorem nextEventInPlace_refused {count : Nat} {error : LocalProtocolError} (hc : c.HeldInBody)
    (h : nextEventInPlace count c = (.error error, c')) : c' = c := by
  rcases nextEventInPlace_cases h with ⟨_, _, _, _, hr, _⟩ | ⟨_, _, _, hsame⟩ |
    ⟨_, hzero, hle, hstate, _, _⟩
  · cases hr
  · exact hsame
  · have hpeer : c.state.state c.role.peer = .sendBody := hc (by omega)
    unfold ConnectionState.processEvent at hstate
    rw [if_pos ⟨rfl, hpeer⟩] at hstate
    cases hstate

/-- A refused call that sends changes nothing. -/
theorem step_sends_refused {op : Op} (hop : op.sends = true) {error : LocalProtocolError}
    (h : (step hp op c).1 = .refused error) : (step hp op c).2 = c := by
  cases op with
  | lenient | receiveData | holdBodyData | nextEventInPlace | nextEvent | startNextCycle => cases hop
  | sendRequest => exact outcome_refused (by simp) (sendRequest_atomic _) h
  | sendInformationalResponse => exact outcome_refused (by simp) (sendInformationalResponse_atomic _) h
  | sendResponse => exact outcome_refused (by simp) (sendResponse_atomic _) h
  | sendRequestWithBody => exact outcome_refused (by simp) (sendRequestWithBody_atomic _ _) h
  | sendRequestWithBodyFraming => exact outcome_refused (by simp) (sendRequestWithBodyFraming_atomic _ _) h
  | sendResponseWithBody => exact outcome_refused (by simp) (sendResponseWithBody_atomic _ _) h
  | sendResponseWithBodyFraming => exact outcome_refused (by simp) (sendResponseWithBodyFraming_atomic _ _) h
  | sendData => exact outcome_refused (by simp) (sendData_atomic _) h
  | sendDataFraming => exact outcome_refused (by simp) (sendDataFraming_atomic _) h
  | endOfMessage => exact outcome_refused (by simp) (endOfMessage_atomic _) h
  | close => exact outcome_refused (by simp) close_atomic h

/-- A call that returns a `LocalProtocolError` leaves the connection as it was,
except that a client whose `start_next_cycle` finds bytes after the response
will not be reused. -/
theorem refused_call_changes_nothing {role : Role} {limits : Limits}
    {history : List (Op × Outcome)} (hrun : Run hp handsOverFirst role limits history c) {op : Op}
    {error : LocalProtocolError} (h : (step hp op c).1 = .refused error) :
    (step hp op c).2 = refusedFrom op c := by
  have hheld : c.HeldInBody :=
    Lib.Run.invariant (P := HeldInBody) (fun hheld => absurd rfl hheld)
      (fun _ _ hs hop => step_heldInBody hs hop) hrun
  cases op with
  | lenient => cases h
  | holdBodyData => cases h
  | nextEvent =>
    change (pollOutcome (nextEvent hp c)).1 = _ at h
    rcases hpoll : nextEvent hp c with ⟨_ | _, _⟩ <;> rw [hpoll] at h <;> cases h
  | receiveData data => exact outcome_refused (by simp) (receiveData_atomic data) h
  | nextEventInPlace count =>
    change (outcome _ (nextEventInPlace count c)).1 = _ at h
    change (outcome _ (nextEventInPlace count c)).2 = c
    rcases hcall : nextEventInPlace count c with ⟨failure | flags, c'⟩
    · exact nextEventInPlace_refused hheld hcall
    · rw [hcall] at h
      cases h
  | startNextCycle =>
    change (outcome _ (startNextCycle c)).1 = _ at h
    change (outcome _ (startNextCycle c)).2 = _
    rw [outcome_snd]
    unfold startNextCycle refusedFrom at *
    dsimp only
    split
    next => rfl
    next hbytes =>
      rw [if_neg hbytes] at h
      cases hstate : c.state.startNextCycle with
      | none => rfl
      | some state =>
        rw [hstate] at h
        cases h
  | _ => exact step_sends_refused rfl h

/-- A server that has just read a request has no body to send yet. -/
theorem refused_sendData_changes_nothing :
    ∃ history c error, Run Reference.httparse handsOverFirst .server .default history c ∧
      (step Reference.httparse (.sendData (ascii "x")) c).1 = .refused error ∧
      (step Reference.httparse (.sendData (ascii "x")) c).2 = c := by
  have hpermitted : Lib.Permitted (step Reference.httparse) handsOverFirst (new .server .default)
      [.receiveData (plainGetHead .http11), .nextEvent] := by
    refine ⟨trivial, ?_, trivial⟩
    show Connection.held _ = 0
    decide +kernel
  have hrun : Run Reference.httparse handsOverFirst .server .default _ _ :=
    Lib.Run.trace _ _ hpermitted
  have hwriter : (Lib.trace (step Reference.httparse) (new .server .default)
      [.receiveData (plainGetHead .http11), .nextEvent]).2.cycle.writer = none := by
    decide +kernel
  have hrefused : (step Reference.httparse (.sendData (ascii "x"))
      (Lib.trace (step Reference.httparse) (new .server .default)
        [.receiveData (plainGetHead .http11), .nextEvent]).2).1 =
      .refused (localError "no message body is being sent") := by
    show (outcome Outcome.bytes (sendData _ _)).1 = _
    rw [sendData, Call.bind_of_error (e := localError "no message body is being sent")]
    · rfl
    · rw [sendDataFraming, Call.get_bind, hwriter]
      rfl
  exact ⟨_, _, _, hrun, hrefused, refused_call_changes_nothing hrun hrefused⟩

end Connection

end H11r
