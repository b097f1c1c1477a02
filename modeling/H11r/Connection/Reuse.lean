import H11r.Connection.Lifecycle
import H11r.Wire.Reference

/-!
# Reuse that is off stays off

`keep_alive()` reads a flag and the two actors. Once it answers `false` no call
can make it answer `true` again (`Move.reuseOff`): the flag is set only by
`start_next_cycle`, which asks for it, and an actor never leaves one of the
states that end reuse.

What a connection that is not reusable can still do is start a request, if both
of its actors are idle. `IdleReuse` says when they can be: only on a client
that got the server's EOF between two exchanges. There `record_eof` clears the
flag and nothing that `send_request` looks at.
-/

namespace H11r

open Connection (stopsReuse)

namespace ConnectionState

/-- HTTP cannot go on after the current exchange. -/
def ReuseOff (s : ConnectionState) : Prop :=
  s.keepAlive = false ∨ stopsReuse s.client = true ∨ stopsReuse s.server = true

instance (s : ConnectionState) : Decidable s.ReuseOff :=
  inferInstanceAs (Decidable (_ ∨ _))

/-- Neither actor has begun a message. -/
structure Fresh (s : ConnectionState) : Prop where
  client : s.client = .idle
  server : s.server = .idle

instance (s : ConnectionState) : Decidable s.Fresh :=
  decidable_of_iff (s.client = .idle ∧ s.server = .idle)
    ⟨fun h => ⟨h.1, h.2⟩, fun h => ⟨h.client, h.server⟩⟩

/-- What the steps of the state machine do to reuse and to actors that have begun
nothing. -/
structure ReuseLaws : Prop where
  disable : ∀ s : ConnectionState, s.disableKeepAlive.ReuseOff
  cycle : ∀ s : ConnectionState, s.ReuseOff →
      s.startNextCycle = none
  /-- An event always leaves an actor that has begun something. -/
  event : ∀ (role : Role) (event : StateEvent) (s s' : ConnectionState),
      s.processEvent role event = some s' → ¬s'.Fresh
  poison : ∀ (role : Role) (s : ConnectionState),
      ¬(s.processError role).Fresh
  fresh : ∀ s : ConnectionState, s.disableKeepAlive.Fresh → s.Fresh
  /-- A request is the first event of an exchange. -/
  request : ∀ (s : ConnectionState) (proposals : SwitchProposals)
      (s' : ConnectionState), s.processEvent .client (.request proposals) = some s' → s.Fresh

theorem reuseLaws : ReuseLaws where
  disable := by decide +kernel
  cycle := by decide +kernel
  event := by decide +kernel
  poison := by decide +kernel
  fresh := by decide +kernel
  request := by decide +kernel

theorem new_not_reuseOff : ¬new.ReuseOff := by decide

theorem disableKeepAliveIf_not_fresh {reason : Bool} {s : ConnectionState} (h : ¬s.Fresh) :
    ¬(s.disableKeepAliveIf reason).Fresh := by
  cases reason with
  | false => exact h
  | true => exact fun hfresh => h (reuseLaws.fresh s hfresh)

end ConnectionState

/-- No step of the state machine brings reuse back. -/
theorem Move.reuseOff {peer : Role} {s s' : ConnectionState} (h : Move peer s s') (hoff : s.ReuseOff) :
    s'.ReuseOff := by
  have hevent : ∀ (role : Role) (event : StateEvent) (s : ConnectionState), s.ReuseOff →
      ∀ s', s.processEvent role event = some s' → s'.ReuseOff := by
    decide +kernel
  have herror : ∀ (role : Role) (s : ConnectionState), (s.processError role).ReuseOff := by
    decide +kernel
  cases h with
  | event h => exact hevent _ _ s hoff s' h
  | disable => exact ConnectionState.reuseLaws.disable s
  | poison => exact herror _ s

namespace Connection

/-- A call of a method that sends a request head. -/
def Op.sendsRequest : Op → Bool
  | .sendRequest _ | .sendRequestWithBody _ _ | .sendRequestWithBodyFraming _ _ => true
  | _ => false

/-- An entry of a history that begins a request or resets the exchange. -/
def beginsRequest : Op × Outcome → Bool
  | (.sendRequest _, .bytes _) | (.sendRequestWithBody _ _, .bytes _)
  | (.sendRequestWithBodyFraming _ _, .around _ _) => true
  | (.nextEvent, .polled (.event (.request _))) => true
  | (.startNextCycle, .unit) => true
  | _ => false

/-- A request is sent on a client that got EOF while both actors were idle. -/
def sendsAfterIdleEof (c : Connection) (op : Op) : Prop :=
  op.sendsRequest = true ∧ c.role = .client ∧ c.eof = true ∧ c.localState = .idle ∧
    c.peerState = .idle

instance decidableSendsAfterIdleEof (c : Connection) (op : Op) : Decidable (c.sendsAfterIdleEof op) :=
  inferInstanceAs (Decidable (_ ∧ _))

/-- Two idle actors are not reusable only on a client that got EOF. -/
def IdleReuse (c : Connection) : Prop :=
  c.state.Fresh → c.state.keepAlive = false → c.role = .client ∧ c.eof = true

instance decidableIdleReuse (c : Connection) : Decidable c.IdleReuse :=
  inferInstanceAs (Decidable (_ → _ → _ ∧ _))

variable {hp : Httparse} {c c' : Connection}

theorem keepAlive_eq_false : c.keepAlive = false ↔ c.state.ReuseOff := by
  unfold keepAlive localState peerState ConnectionState.ReuseOff
  cases c.role with
  | client =>
    show (c.state.keepAlive && !stopsReuse c.state.client && !stopsReuse c.state.server) = false ↔ _
    simp only [Bool.and_eq_false_iff, Bool.not_eq_false', or_assoc]
  | server =>
    show (c.state.keepAlive && !stopsReuse c.state.server && !stopsReuse c.state.client) = false ↔ _
    simp only [Bool.and_eq_false_iff, Bool.not_eq_false', or_assoc]
    rw [or_comm (a := stopsReuse c.state.server = true)]

theorem Change.reuseOff (h : Change c c') (hoff : c.state.ReuseOff) : c'.state.ReuseOff :=
  Lib.preserve (P := ConnectionState.ReuseOff) (fun _ _ => Move.reuseOff)
    (h.moves : Moves c.role.peer _ _) hoff

theorem CycleChange.reuseOff (h : CycleChange c c') (hoff : c.state.ReuseOff) :
    c'.state.ReuseOff := by
  cases h with
  | started hstate =>
    rw [ConnectionState.reuseLaws.cycle _ hoff] at hstate
    cases hstate
  | refused => exact ConnectionState.reuseLaws.disable _

theorem PollChange.reuseOff (h : PollChange hp c c') (hoff : c.state.ReuseOff) :
    c'.state.ReuseOff :=
  Lib.preserve (P := ConnectionState.ReuseOff) (fun _ _ => Move.reuseOff) h.moves hoff

theorem idleReuse_of_not_fresh (h : ¬c.state.Fresh) : c.IdleReuse :=
  fun hfresh => absurd hfresh h

theorem LocalChange.not_fresh (h : LocalChange c c') : ¬c'.state.Fresh := by
  cases h with
  | request _ _ _ hstate =>
    rw [sentRequest_state]
    exact ConnectionState.disableKeepAliveIf_not_fresh
      (ConnectionState.reuseLaws.event _ _ _ _ hstate)
  | informational _ _ hstate =>
    rw [recordInformational_state]
    exact ConnectionState.reuseLaws.event _ _ _ _ hstate
  | response hrole _ hstate =>
    rw [sentResponse_state _ _ _ hrole]
    exact ConnectionState.disableKeepAliveIf_not_fresh
      (ConnectionState.reuseLaws.event _ _ _ _ hstate)
  | data hstate => exact ConnectionState.reuseLaws.event _ _ _ _ hstate
  | ends hstate => exact ConnectionState.reuseLaws.event _ _ _ _ hstate
  | closes hstate => exact ConnectionState.reuseLaws.event _ _ _ _ hstate

theorem Change.idleReuse (h : Change c c') (hc : c.IdleReuse) : c'.IdleReuse := by
  cases h with
  | lenient | received | hold => exact hc
  | eof =>
    intro hfresh hflag
    cases hrole : c.role with
    | client =>
      unfold recordEof
      rw [disableKeepAliveIf_role, disableKeepAliveIf_eof]
      exact ⟨hrole, rfl⟩
    | server =>
      unfold recordEof at hfresh hflag ⊢
      rw [hrole] at hfresh hflag ⊢
      exact absurd (hc hfresh hflag).1 (by rw [hrole]; decide)
  | inPlace _ hstate =>
    exact idleReuse_of_not_fresh (ConnectionState.reuseLaws.event _ _ _ _ hstate)
  | inPlaceRefused =>
    unfold IdleReuse
    rw [advancePayload_state, (advancePayload_frame _ c).role, (advancePayload_frame _ c).eof]
    exact hc
  | «local» h => exact idleReuse_of_not_fresh h.not_fresh

theorem CycleChange.idleReuse (h : CycleChange c c') : c'.IdleReuse := by
  cases h with
  | started hstate =>
    intro _ hflag
    unfold ConnectionState.startNextCycle at hstate
    split at hstate
    · cases hstate
    · cases hstate
      cases hflag
  | refused hrole hpeer =>
    have hserver : c.state.server = .done := by
      unfold peerState at hpeer
      rw [hrole] at hpeer
      exact hpeer
    refine idleReuse_of_not_fresh fun hfresh => ?_
    have hidle := (ConnectionState.reuseLaws.fresh _ hfresh).2
    rw [hserver] at hidle
    cases hidle

/-- A turn that succeeds leaves the actors alone or advances one. -/
theorem Turn.fresh {polled : Option Polled} (h : Turn hp c (.ok polled) c') :
    c'.state = c.state ∨ ¬c'.state.Fresh := by
  cases h with
  | closed | paused | doneWaits | waits | sizeLine | dataEnd => exact Or.inl rfl
  | idleClosed _ _ _ _ hstate =>
    exact Or.inr (ConnectionState.reuseLaws.event _ _ _ _ hstate)
  | doneClosed _ _ _ hstate =>
    exact Or.inr (ConnectionState.reuseLaws.event _ _ _ _ hstate)
  | request _ _ _ _ _ _ hstate =>
    rw [acceptedRequest_state]
    exact Or.inr (ConnectionState.disableKeepAliveIf_not_fresh
      (ConnectionState.reuseLaws.event _ _ _ _ hstate))
  | informational _ _ _ _ _ _ _ hstate =>
    rw [acceptedInformational_state]
    exact Or.inr (ConnectionState.disableKeepAliveIf_not_fresh
      (ConnectionState.reuseLaws.event _ _ _ _ hstate))
  | final _ _ _ _ _ _ hstate _ =>
    rw [acceptedFinal_state]
    refine Or.inr (ConnectionState.disableKeepAliveIf_not_fresh
      (ConnectionState.disableKeepAliveIf_not_fresh
        (ConnectionState.disableKeepAliveIf_not_fresh ?_)))
    exact ConnectionState.reuseLaws.event _ _ _ _ hstate
  | payload _ _ _ hstate => exact Or.inr (ConnectionState.reuseLaws.event _ _ _ _ hstate)
  | ends _ _ hstate => exact Or.inr (ConnectionState.reuseLaws.event _ _ _ _ hstate)
  | trailers _ _ _ hstate => exact Or.inr (ConnectionState.reuseLaws.event _ _ _ _ hstate)

theorem PollChange.idleReuse (h : PollChange hp c c') (hc : c.IdleReuse) : c'.IdleReuse := by
  cases h with
  | turn h =>
    rcases h.fresh with hsame | hfresh
    · unfold IdleReuse
      rw [hsame, h.frame.role, h.frame.eof]
      exact hc
    · exact idleReuse_of_not_fresh hfresh
  | taken => exact hc
  | failed h => exact idleReuse_of_not_fresh (ConnectionState.reuseLaws.poison _ _)

theorem step_idleReuse (op : Op) (hc : c.IdleReuse) : (step hp op c).2.IdleReuse :=
  step_preserve (fun _ _ => Change.idleReuse) (fun _ _ h _ => h.idleReuse)
    (fun _ _ => PollChange.idleReuse) op hc

theorem step_reuseOff (op : Op) (hc : c.state.ReuseOff) : (step hp op c).2.state.ReuseOff :=
  step_preserve (P := fun c => c.state.ReuseOff) (fun _ _ => Change.reuseOff)
    (fun _ _ => CycleChange.reuseOff) (fun _ _ => PollChange.reuseOff) op hc

theorem reachable_idleReuse (h : Reachable hp c) : c.IdleReuse := by
  obtain ⟨role, limits, history, hrun⟩ := h
  refine Lib.Run.invariant (P := IdleReuse) ?_ (fun s op hs _ => ?_) hrun
  · intro _ hflag
    cases hflag
  · exact step_idleReuse op hs

/-! ## No further request -/

/-- A request head goes out only on a client whose actors are both idle. -/
theorem sendRequest_fresh {request : Request} {bytes : Bytes}
    (h : sendRequest request c = (.ok bytes, c')) : c.role = .client ∧ c.state.Fresh := by
  obtain ⟨_, _, _, hrole, _, _, hstate, _, _⟩ := sendRequest_ok h
  exact ⟨hrole, ConnectionState.reuseLaws.request _ _ _ hstate⟩

/-- A request head comes in only on a server whose actors are both idle. -/
theorem nextEvent_request {request : Request}
    (h : nextEvent hp c = (.ok (.event (.request request)), c')) :
    c.role = .server ∧ c.state.Fresh := by
  unfold nextEvent at h
  rcases hinner : nextEventInner hp c with ⟨error | polled, c1⟩
  · rw [hinner] at h
    cases h
  · rw [hinner] at h
    cases polled with
    | event event =>
      cases h
      obtain ⟨c2, hstate, hframe, _, hturn⟩ := (nextEventInner_turns hinner).last_turn
      cases hturn with
      | request _ _ hrole _ _ _ hevent =>
        rw [← hframe.role, ← hstate]
        exact ⟨hrole, ConnectionState.reuseLaws.request _ _ _ hevent⟩
    | data => cases h
    | needData => cases h
    | paused => cases h

/-- What a call that begins a request, or resets the exchange, needs. -/
theorem step_beginsRequest {op : Op} (h : beginsRequest (op, (step hp op c).1) = true) :
    ¬c.state.ReuseOff ∨
      c.state.Fresh ∧ (c.role = .server ∨ (op.sendsRequest = true ∧ c.role = .client)) := by
  cases op with
  | sendRequest request =>
    change beginsRequest (_, (outcome _ (sendRequest request c)).1) = true at h
    rcases hcall : sendRequest request c with ⟨error | bytes, c'⟩
    · rw [hcall] at h
      cases h
    · obtain ⟨hrole, hfresh⟩ := sendRequest_fresh hcall
      exact Or.inr ⟨hfresh, Or.inr ⟨rfl, hrole⟩⟩
  | sendRequestWithBody request body =>
    change beginsRequest (_, (outcome _ (sendRequestWithBody request body c)).1) = true at h
    rcases hcall : sendRequestWithBody request body c with ⟨error | bytes, c'⟩
    · rw [hcall] at h
      cases h
    · obtain ⟨parts, hframing, _⟩ := sendRequestWithBody_ok hcall
      obtain ⟨before, c1, hhead, _⟩ := sendRequestWithBodyFraming_ok hframing
      obtain ⟨hrole, hfresh⟩ := sendRequest_fresh hhead
      exact Or.inr ⟨hfresh, Or.inr ⟨rfl, hrole⟩⟩
  | sendRequestWithBodyFraming request length =>
    change beginsRequest (_, (outcome _ (sendRequestWithBodyFraming request length c)).1) = true at h
    rcases hcall : sendRequestWithBodyFraming request length c with ⟨error | parts, c'⟩
    · rw [hcall] at h
      cases h
    · obtain ⟨before, c1, hhead, _⟩ := sendRequestWithBodyFraming_ok hcall
      obtain ⟨hrole, hfresh⟩ := sendRequest_fresh hhead
      exact Or.inr ⟨hfresh, Or.inr ⟨rfl, hrole⟩⟩
  | nextEvent =>
    change beginsRequest (_, (pollOutcome (nextEvent hp c)).1) = true at h
    rcases hcall : nextEvent hp c with ⟨error | next, c'⟩
    · rw [hcall] at h
      cases h
    · rw [hcall] at h
      cases next with
      | event event =>
        cases event with
        | request request =>
          obtain ⟨hrole, hfresh⟩ := nextEvent_request hcall
          exact Or.inr ⟨hfresh, Or.inl hrole⟩
        | _ => cases h
      | needData => cases h
      | paused => cases h
  | startNextCycle =>
    change beginsRequest (_, (outcome _ (startNextCycle c)).1) = true at h
    left
    intro hoff
    unfold startNextCycle at h
    rw [ConnectionState.reuseLaws.cycle _ hoff] at h
    split at h
    · cases h
    · cases h
  | lenient => cases h
  | holdBodyData => cases h
  | receiveData => cases h
  | nextEventInPlace => cases h
  | sendInformationalResponse => cases h
  | sendResponse => cases h
  | sendResponseWithBody => cases h
  | sendResponseWithBodyFraming => cases h
  | sendData => cases h
  | sendDataFraming => cases h
  | endOfMessage => cases h
  | close => cases h

/-- After `keep_alive()` has answered `false`, no request begins and no cycle
is started, as long as no request is sent on an idle client that got EOF. -/
theorem reuse_off_begins_no_request {before after : List (Op × Outcome)}
    {role : Role} {limits : Limits} (hbefore : Run hp anyCall role limits before c)
    (hoff : c.keepAlive = false)
    (hafter : Lib.Run (step hp) (fun c op => ¬c.sendsAfterIdleEof op) c after c') :
    ∀ entry ∈ after, beginsRequest entry = false := by
  refine Lib.Run.entries (P := fun c => c.state.ReuseOff ∧ c.IdleReuse)
    ⟨keepAlive_eq_false.mp hoff, reachable_idleReuse ⟨role, limits, before, hbefore⟩⟩ ?_ ?_ hafter
  · rintro c op ⟨hc, hidle⟩ _
    exact ⟨step_reuseOff op hc, step_idleReuse op hidle⟩
  · rintro c op ⟨hc, hidle⟩ hallowed
    rw [← Bool.not_eq_true]
    intro hbegins
    rcases step_beginsRequest hbegins with hon | ⟨hfresh, hwho⟩
    · exact hon hc
    · -- Two idle actors leave only the flag as what turned reuse off.
      have hflag : c.state.keepAlive = false := by
        rcases hc with hflag | hclient | hserver
        · exact hflag
        · rw [hfresh.1] at hclient
          cases hclient
        · rw [hfresh.2] at hserver
          cases hserver
      obtain ⟨hrole, heof⟩ := hidle hfresh hflag
      rcases hwho with hserver | ⟨hsends, _⟩
      · rw [hrole] at hserver
        cases hserver
      · refine hallowed ⟨hsends, hrole, heof, ?_, ?_⟩
        · unfold localState
          rw [hrole]
          exact hfresh.1
        · unfold peerState
          rw [hrole]
          exact hfresh.2

/-- An HTTP/1.0 request turns reuse off on the server, and neither another poll
nor a reset of the cycle begins a request after it. -/
theorem reuse_off_after_http10 :
    ∃ before after c c', Run Reference.httparse anyCall .server .default before c ∧
      c.keepAlive = false ∧ after.length = 3 ∧
      Lib.Run (step Reference.httparse) (fun c op => ¬c.sendsAfterIdleEof op) c after c' ∧
      ∀ entry ∈ after, beginsRequest entry = false := by
  have hbefore : Run Reference.httparse anyCall .server .default _ _ :=
    Lib.Run.trace_of_forall _ [.receiveData (plainGetHead .http10), .nextEvent] fun _ _ => trivial
  have hafter : Lib.Run (step Reference.httparse) (fun c op => ¬c.sendsAfterIdleEof op) _ _ _ :=
    Lib.Run.trace (Lib.trace (step Reference.httparse) (new .server .default)
      [.receiveData (plainGetHead .http10), .nextEvent]).2 [.nextEvent, .nextEvent, .startNextCycle]
      ⟨(fun h => by cases h.1), (fun h => by cases h.1), (fun h => by cases h.1), trivial⟩
  exact ⟨_, _, _, _, hbefore, by decide +kernel, rfl, hafter,
    reuse_off_begins_no_request hbefore (by decide +kernel) hafter⟩

/-- A client that has got EOF between two exchanges, its actors both idle,
reports that the connection is not reusable and still sends a request. -/
theorem idle_client_sends_after_eof :
    ¬∀ (hp : Httparse) (role : Role) (limits : Limits) (before after : List (Op × Outcome))
      (c c' : Connection), Run hp anyCall role limits before c → c.keepAlive = false →
      Lib.Run (step hp) anyCall c after c' → ∀ entry ∈ after, beginsRequest entry = false := by
  intro h
  have hbefore : Run Reference.httparse anyCall .client .default _ _ :=
    Lib.Run.trace_of_forall _ [.receiveData []] fun _ _ => trivial
  have hafter : Lib.Run (step Reference.httparse) anyCall _ _ _ :=
    Lib.Run.trace_of_forall (Lib.trace (step Reference.httparse) (new .client .default)
      [.receiveData []]).2 [.sendRequest (plainGet .http11)] fun _ _ => trivial
  have hentry := h _ _ _ _ _ _ _ hbefore (by decide +kernel) hafter _ (List.mem_singleton_self _)
  revert hentry
  decide +kernel

end Connection

end H11r
