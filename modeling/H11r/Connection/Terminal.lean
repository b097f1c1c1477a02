import H11r.Connection.Answer

/-!
# States that no later call takes back

An actor that is poisoned, switched, told to close or closed never takes part
in another exchange, whatever is called afterwards. Three things could bring
one back: an event of the state machine, the poisoning of the other actor, and
the reset of a finished cycle. `State.stays` says where an actor may go from
such a state, every `Move` keeps to it (`Move.stays`, `poison_stays`), and the
decoder poisons only a peer from which it still expects something
(`Turn.failed_peer`), so a run keeps to it too (`run_stays`).

The last section asks what is left to the local actor when the peer has been
poisoned. A request that waits for the decision on a switch is the one state
that `close` then refuses.
-/

namespace H11r

/-- Where an actor may be found later, when it has been in the first state. -/
def State.stays : State → State → Bool
  | .error, later => later == .error
  | .switchedProtocol, later => later == .switchedProtocol
  | .closed, later => later == .closed
  | .mustClose, later => later == .mustClose || later == .closed
  | _, _ => true

theorem State.stays_refl (state : State) : state.stays state = true := by
  cases state <;> rfl

theorem State.stays_trans : ∀ {first second third : State}, first.stays second = true →
    second.stays third = true → first.stays third = true := by
  decide +kernel

/-- No step of the state machine, the poisoning of the other actor included,
brings an actor back. -/
theorem Move.stays {actor : Role} {s s' : ConnectionState} (h : Move actor.peer s s') :
    (s.state actor).stays (s'.state actor) = true := by
  have hevent : ∀ (role : Role) (event : StateEvent) (s s' : ConnectionState),
      s.processEvent role event = some s' →
        ∀ actor : Role, (s.state actor).stays (s'.state actor) = true := by
    decide +kernel
  have hdisable : ∀ (s : ConnectionState) (actor : Role),
      (s.state actor).stays (s.disableKeepAlive.state actor) = true := by
    decide +kernel
  have hpoison : ∀ (actor : Role) (s : ConnectionState),
      (s.state actor).stays ((s.processError actor.peer).state actor) = true := by
    decide +kernel
  cases h with
  | event h => exact hevent _ _ s s' h actor
  | disable => exact hdisable s actor
  | poison => exact hpoison actor s

theorem Moves.stays {actor : Role} {s s' : ConnectionState} (h : Moves actor.peer s s') :
    (s.state actor).stays (s'.state actor) = true :=
  Lib.preserve (P := fun later => (s.state actor).stays (later.state actor) = true)
    (fun _ _ hmove hstays => State.stays_trans hstays hmove.stays) h (State.stays_refl _)

namespace Connection

variable {hp : Httparse} {c c' : Connection}

/-! ## One call -/

/-- The decoder fails only where it still expects something of the peer, or
where it has failed before. -/
theorem Turn.failed_peer {error : RemoteProtocolError} (h : Turn hp c (.error error) c') :
    c.Reading ∨ c.peerState = .error := by
  cases h with
  | poisoned hpeer => exact Or.inr hpeer
  | fails hreading | requestRejected hreading | finalFaulty hreading | responseRejected hreading
  | payloadRejected hreading | trailersRejected hreading => exact Or.inl hreading

theorem Reading.stays (h : c.Reading) (later : State) : c.peerState.stays later = true := by
  rcases h with ⟨h, _⟩ | h | h <;> rw [h] <;> rfl

theorem PollChange.stays (h : PollChange hp c c') (actor : Role) :
    (c.state.state actor).stays (c'.state.state actor) = true := by
  cases h with
  | turn h => exact Moves.stays h.moves
  | taken => exact State.stays_refl _
  | @failed c1 error h =>
    by_cases hactor : actor = c.role.peer
    · subst hactor
      rcases h.failed_peer with hreading | hpeer
      · exact hreading.stays _
      · have herror : (c1.state.processError c1.role.peer).state c.role.peer = .error := by
          rw [h.frame.role]
          exact ConnectionState.processError_state _ _
        show c.peerState.stays _ = true
        rw [hpeer, herror]
        rfl
    · have hother : actor.peer = c1.role.peer := by
        rw [h.frame.role]
        revert hactor
        cases actor <;> cases c.role <;> decide
      have hpoison : Move actor.peer c1.state (c1.state.processError c1.role.peer) := by
        rw [hother]
        exact .poison
      exact Moves.stays (h.moves.tail hpoison)

/-- No call brings an actor back. -/
theorem step_stays (hp : Httparse) (op : Op) (c : Connection) (actor : Role) :
    (c.state.state actor).stays ((step hp op c).2.state.state actor) = true := by
  refine step_preserve (P := fun c' => (c.state.state actor).stays (c'.state.state actor) = true)
    (fun _ _ h hc => State.stays_trans hc (Moves.stays h.moves)) (fun c1 c2 h hc => ?_)
    (fun _ _ h hc => State.stays_trans hc (h.stays actor)) op (State.stays_refl _)
  cases h with
  | started hstate =>
    obtain ⟨hclient, hserver, _⟩ := ConnectionState.bodyLaws.cycle _ _ hstate
    have hdone : c1.state.state actor = .done := by
      cases actor
      · exact hclient
      · exact hserver
    refine State.stays_trans hc ?_
    rw [hdone]
    rfl
  | refused =>
    have hdisable : Move actor.peer c1.state c1.state.disableKeepAlive := .disable
    exact State.stays_trans hc hdisable.stays

/-- The poisoned peer is never heard again, and its bytes stay in the buffer. -/
structure Dead (c : Connection) (entry : Op × Outcome) (c' : Connection) : Prop where
  poll : entry.1 = .nextEvent → ∃ error, entry.2 = .failed error
  cycle : entry.1 = .startNextCycle → ∃ error, entry.2 = .refused error
  input : c'.input.asSlice = c.input.asSlice ++ passedBytes [entry]
  held : c'.held = c.held

theorem nextEvent_poisoned (hpeer : c.peerState = .error) : ∃ error, nextEvent hp c =
    (.error error, { c with state := c.state.processError c.role.peer }) := by
  have hdispatch : dispatch hp c = (.error (remoteError "peer state is ERROR" none), c) := by
    unfold dispatch
    rw [Lib.Call.get_bind]
    simp only [hpeer]
    rfl
  unfold nextEvent
  rw [nextEventInner_fails hdispatch]
  exact ⟨_, rfl⟩

theorem payloadRemaining_poisoned (hpeer : c.peerState = .error) : c.payloadRemaining = none := by
  unfold payloadRemaining
  rw [if_pos (by rw [hpeer]; decide)]

theorem startNextCycle_poisoned (hpeer : c.peerState = .error) :
    ∃ error, startNextCycle c = (.error error, c) := by
  unfold startNextCycle
  rw [if_neg (by rw [hpeer]; simp)]
  cases hstate : c.state.startNextCycle with
  | none => exact ⟨_, rfl⟩
  | some state =>
    obtain ⟨hclient, hserver, _⟩ := ConnectionState.bodyLaws.cycle _ _ hstate
    unfold peerState at hpeer
    cases hrole : c.role with
    | client =>
      rw [hrole] at hpeer
      cases hserver.symm.trans hpeer
    | server =>
      rw [hrole] at hpeer
      cases hclient.symm.trans hpeer

/-- Only `receive_data` passes bytes in. -/
theorem passedBytes_other {op : Op} (outcome : Outcome) (h : ∀ data, op ≠ .receiveData data) :
    passedBytes [(op, outcome)] = [] := by
  cases op with
  | receiveData data => exact absurd rfl (h data)
  | _ => rfl

theorem step_poisoned (hp : Httparse) (op : Op) (hpeer : c.peerState = .error) :
    Dead c (op, (step hp op c).1) (step hp op c).2 := by
  have hquiet : op.quiet = true → op ≠ .startNextCycle →
      Dead c (op, (step hp op c).1) (step hp op c).2 := by
    intro hop hcycle
    have hsame : (step hp op c).2.input = c.input ∧ (step hp op c).2.held = c.held :=
      step_quiet hop c
    obtain ⟨hinput, hheld⟩ := hsame
    refine ⟨fun h => ?_, fun h => absurd h hcycle, ?_, hheld⟩
    · subst h
      cases hop
    · rw [hinput, passedBytes_other _ (fun data h => by subst h; cases hop), List.append_nil]
  cases op with
  | receiveData data =>
    refine ⟨nofun, nofun, ?_, ?_⟩
    · change (outcome _ (receiveData data c)).2.input.asSlice =
        c.input.asSlice ++ passedBytes [(_, (outcome _ (receiveData data c)).1)]
      rcases hcall : receiveData data c with ⟨error | u, c'⟩
      · rw [receiveData_atomic _ _ _ _ hcall]
        exact (List.append_nil _).symm
      · show c'.input.asSlice = c.input.asSlice ++ (data ++ [])
        rw [(receiveData_ok hcall).1, List.append_nil]
    · change (outcome _ (receiveData data c)).2.held = c.held
      rw [outcome_snd]
      rcases hcall : receiveData data c with ⟨error | u, c'⟩
      · rw [receiveData_atomic _ _ _ _ hcall]
      · exact (receiveData_ok hcall).2
  | holdBodyData count =>
    have hrefused : holdBodyData count c = (false, c) := by
      unfold holdBodyData
      rw [if_neg]
      unfold canHold
      rw [payloadRemaining_poisoned hpeer]
      simp
    refine ⟨nofun, nofun, ?_, ?_⟩
    · show (holdBodyData count c).2.input.asSlice = c.input.asSlice ++ []
      rw [hrefused, List.append_nil]
    · show (holdBodyData count c).2.held = c.held
      rw [hrefused]
  | nextEventInPlace count =>
    have hsame : (nextEventInPlace count c).2.input = c.input ∧
        (nextEventInPlace count c).2.held = c.held := by
      rcases hcall : nextEventInPlace count c with ⟨r, c'⟩
      rcases nextEventInPlace_cases hcall with ⟨state, _, _, hstate, _, _⟩ | ⟨_, _, _, rfl⟩ |
        ⟨_, _, _, _, _, rfl⟩
      · have hbody : c.peerState = .sendBody := (ConnectionState.bodyLaws.data _ _ _ hstate).2
        rw [hpeer] at hbody
        cases hbody
      · exact ⟨rfl, rfl⟩
      · exact ⟨advancePayload_input _ _, advancePayload_held _ _⟩
    refine ⟨nofun, nofun, ?_, ?_⟩
    · rw [passedBytes_other _ (fun data h => by cases h), List.append_nil]
      show (outcome _ (nextEventInPlace count c)).2.input.asSlice = c.input.asSlice
      rw [outcome_snd, hsame.1]
    · show (outcome _ (nextEventInPlace count c)).2.held = c.held
      rw [outcome_snd]
      exact hsame.2
  | nextEvent =>
    obtain ⟨error, hpoll⟩ : ∃ error, nextEvent hp c =
        (.error error, { c with state := c.state.processError c.role.peer }) :=
      nextEvent_poisoned hpeer
    have hstep : step hp .nextEvent c =
        (.failed error, { c with state := c.state.processError c.role.peer }) := by
      show pollOutcome (nextEvent hp c) = _
      rw [hpoll]
      rfl
    rw [hstep]
    exact ⟨fun _ => ⟨error, rfl⟩, nofun, (List.append_nil _).symm, rfl⟩
  | startNextCycle =>
    obtain ⟨error, hrefused⟩ := startNextCycle_poisoned hpeer
    have hstep : step hp .startNextCycle c = (.refused error, c) := by
      show outcome _ (startNextCycle c) = _
      rw [hrefused]
      rfl
    rw [hstep]
    exact ⟨nofun, fun _ => ⟨error, rfl⟩, (List.append_nil _).symm, rfl⟩
  | _ => exact hquiet rfl (by simp)

/-! ## Whole runs -/

/-- A failed poll leaves a poisoned peer. -/
theorem nextEvent_failed {error : RemoteProtocolError} (h : nextEvent hp c = (.error error, c')) :
    c'.peerState = .error := by
  unfold nextEvent at h
  rcases hinner : nextEventInner hp c with ⟨failure | polled, c1⟩
  · rw [hinner] at h
    cases h
    exact ConnectionState.processError_state _ _
  · rw [hinner] at h
    cases polled <;> cases h

theorem run_stays {after : List (Op × Outcome)} (h : Lib.Run (step hp) anyCall c after c')
    (actor : Role) : (c.state.state actor).stays (c'.state.state actor) = true :=
  Lib.Run.invariant (P := fun later => (c.state.state actor).stays (later.state.state actor) = true)
    (State.stays_refl _) (fun later op hc _ => State.stays_trans hc (step_stays hp op later actor)) h

theorem run_peerState {after : List (Op × Outcome)} (h : Lib.Run (step hp) anyCall c after c')
    (hpeer : c.peerState = .error) : c'.peerState = .error := by
  have hrole : c'.role = c.role := Lib.Run.invariant (P := fun later => later.role = c.role) rfl
    (fun later op hc _ => (step_role hp op later).trans hc) h
  have hstays := run_stays h c.role.peer
  unfold peerState at hpeer ⊢
  rw [hpeer] at hstays
  rw [hrole]
  exact beq_iff_eq.mp hstays

/-- Once a poll has failed the peer is poisoned. -/
theorem run_failed {role : Role} {limits : Limits} {history : List (Op × Outcome)}
    (h : Run hp anyCall role limits history c) {error : RemoteProtocolError}
    (hfailed : (.nextEvent, .failed error) ∈ history) : c.peerState = .error := by
  revert hfailed
  refine Lib.Run.invariant_history (P := fun history c =>
    (.nextEvent, .failed error) ∈ history → c.peerState = .error) (fun h => by cases h) ?_ h
  intro history c op hc _ hmem
  have hone : Lib.Run (step hp) anyCall c [(op, (step hp op c).1)] (step hp op c).2 :=
    .step op .start trivial
  rcases List.mem_append.mp hmem with hbefore | hlast
  · exact run_peerState hone (hc hbefore)
  · have hentry := List.mem_singleton.mp hlast
    rcases hpoll : nextEvent hp c with ⟨failure | next, c'⟩
    · cases op with
      | nextEvent =>
        show (pollOutcome (nextEvent hp c)).2.peerState = .error
        rw [hpoll]
        exact nextEvent_failed hpoll
      | _ => cases hentry
    · cases op with
      | nextEvent =>
        change _ = (_, (pollOutcome (nextEvent hp c)).1) at hentry
        rw [hpoll] at hentry
        cases hentry
      | _ => cases hentry

theorem run_dead {after : List (Op × Outcome)} (h : Lib.Run (step hp) anyCall c after c')
    (hpeer : c.peerState = .error) :
    (∀ entry ∈ after, (entry.1 = .nextEvent → ∃ error, entry.2 = .failed error) ∧
      (entry.1 = .startNextCycle → ∃ error, entry.2 = .refused error)) ∧
      c'.input.asSlice = c.input.asSlice ++ passedBytes after ∧ c'.held = c.held := by
  induction h with
  | start => exact ⟨by simp, (List.append_nil _).symm, rfl⟩
  | @step history later op hrun _ ih =>
    obtain ⟨hentries, hinput, hheld⟩ := ih
    have hdead := step_poisoned hp op (run_peerState hrun hpeer)
    refine ⟨fun entry hmem => ?_, ?_, hdead.held.trans hheld⟩
    · rcases List.mem_append.mp hmem with hold | hnew
      · exact hentries entry hold
      · rw [List.mem_singleton.mp hnew]
        exact ⟨hdead.poll, hdead.cycle⟩
    · rw [hdead.input, hinput, passedBytes_append, List.append_assoc]

/-- Peer errors and terminal states are permanent: whatever is called later, a
failed poll is followed by failed polls only, no byte leaves the buffer or the
caller's hands and no cycle starts; an actor that is poisoned, switched, closed
or told to close stays so; and a connection that is not reusable stays so. -/
theorem terminal_states_stay {role : Role} {limits : Limits} {before after : List (Op × Outcome)}
    (hbefore : Run hp anyCall role limits before c)
    (hafter : Lib.Run (step hp) anyCall c after c') :
    (∀ error, (.nextEvent, .failed error) ∈ before →
      (∀ entry ∈ after, (entry.1 = .nextEvent → ∃ error, entry.2 = .failed error) ∧
        (entry.1 = .startNextCycle → ∃ error, entry.2 = .refused error)) ∧
      c'.input.asSlice = c.input.asSlice ++ passedBytes after ∧ c'.held = c.held) ∧
    (∀ actor, (c.state.state actor = .error → c'.state.state actor = .error) ∧
      (c.state.state actor = .switchedProtocol → c'.state.state actor = .switchedProtocol) ∧
      (c.state.state actor = .closed → c'.state.state actor = .closed) ∧
      (c.state.state actor = .mustClose →
        c'.state.state actor = .mustClose ∨ c'.state.state actor = .closed)) ∧
    (c.keepAlive = false → c'.keepAlive = false) := by
  refine ⟨fun error hfailed => run_dead hafter (run_failed hbefore hfailed), fun actor => ?_,
    fun hoff => ?_⟩
  · have hstays := run_stays hafter actor
    refine ⟨fun h => ?_, fun h => ?_, fun h => ?_, fun h => ?_⟩
    all_goals rw [h] at hstays
    · exact beq_iff_eq.mp hstays
    · exact beq_iff_eq.mp hstays
    · exact beq_iff_eq.mp hstays
    · rcases Bool.or_eq_true_iff.mp hstays with hsame | hclosed
      · exact Or.inl (beq_iff_eq.mp hsame)
      · exact Or.inr (beq_iff_eq.mp hclosed)
  · rw [keepAlive_eq_false] at hoff ⊢
    exact Lib.Run.invariant (P := fun later => later.state.ReuseOff) hoff
      (fun later op hc _ => step_reuseOff op hc) hafter

/-- The call failed. -/
def Outcome.isFailed : Outcome → Bool
  | .failed _ => true
  | _ => false

theorem Outcome.exists_failed {outcome : Outcome} (h : outcome.isFailed = true) :
    ∃ error, outcome = .failed error := by
  cases outcome with
  | failed error => exact ⟨error, rfl⟩
  | _ => cases h

/-- A request line that is none, then polls, more bytes and a reset. -/
theorem malformed_request_stays_failed :
    ∃ before after c c' error, Run Reference.httparse anyCall .server .default before c ∧
      (.nextEvent, .failed error) ∈ before ∧
      Lib.Run (step Reference.httparse) anyCall c after c' ∧ after.length = 4 ∧
      (∀ entry ∈ after, (entry.1 = .nextEvent → ∃ error, entry.2 = .failed error) ∧
        (entry.1 = .startNextCycle → ∃ error, entry.2 = .refused error)) ∧
      c'.input.asSlice = c.input.asSlice ++ passedBytes after := by
  have hbefore : Run Reference.httparse anyCall .server .default _ _ :=
    Lib.Run.trace_of_forall _ [.receiveData (ascii "GET\r\n\r\n"), .nextEvent] fun _ _ => trivial
  have hafter : Lib.Run (step Reference.httparse) anyCall _ _ _ :=
    Lib.Run.trace_of_forall (Lib.trace (step Reference.httparse) (new .server .default)
      [.receiveData (ascii "GET\r\n\r\n"), .nextEvent]).2
      [.nextEvent, .receiveData (plainGetHead .http11), .nextEvent, .startNextCycle] fun _ _ => trivial
  obtain ⟨error, herror⟩ : ∃ error, (step Reference.httparse .nextEvent
      (step Reference.httparse (.receiveData (ascii "GET\r\n\r\n")) (new .server .default)).2).1 =
        .failed error :=
    Outcome.exists_failed (by decide +kernel)
  have hfailed : (.nextEvent, .failed error) ∈ (Lib.trace (step Reference.httparse)
      (new .server .default) [.receiveData (ascii "GET\r\n\r\n"), .nextEvent]).1 := by
    rw [← herror]
    exact List.mem_cons_of_mem _ (List.mem_singleton_self _)
  obtain ⟨hentries, hinput, _⟩ := (terminal_states_stay hbefore hafter).1 error hfailed
  exact ⟨_, _, _, _, error, hbefore, hfailed, hafter, rfl, hentries, hinput⟩

/-! ## What is left to the local actor -/

/-- Where the other actor can be poisoned only, an actor is not. -/
theorem move_unpoisoned {actor : Role} {s s' : ConnectionState} (h : Move actor.peer s s')
    (hs : s.state actor ≠ .error) : s'.state actor ≠ .error := by
  have hevent : ∀ (role : Role) (event : StateEvent) (s s' : ConnectionState),
      s.processEvent role event = some s' →
        ∀ actor : Role, s.state actor ≠ .error → s'.state actor ≠ .error := by
    decide +kernel
  have hdisable : ∀ (actor : Role) (s : ConnectionState), s.state actor ≠ .error →
      s.disableKeepAlive.state actor ≠ .error := by
    decide +kernel
  have hpoison : ∀ (actor : Role) (s : ConnectionState), s.state actor ≠ .error →
      (s.processError actor.peer).state actor ≠ .error := by
    decide +kernel
  cases h with
  | event h => exact hevent _ _ s s' h actor hs
  | disable => exact hdisable actor s hs
  | poison => exact hpoison actor s hs

/-- The states in which `close` is accepted. -/
def closable : State → Bool
  | .idle | .done | .mustClose | .closed => true
  | _ => false

/-- Closing is refused or closes. -/
theorem processEvent_connectionClosed : ∀ (role : Role) (s : ConnectionState),
    ((s.processEvent role .connectionClosed).map fun s' => s'.state role) =
      if closable (s.state role) = true then some .closed else none := by
  decide +kernel

theorem close_iff : (∃ c', close c = (.ok (), c') ∧ c'.localState = .closed) ↔
    closable c.localState = true := by
  have hlocal := processEvent_connectionClosed c.role c.state
  change _ = if closable c.localState = true then _ else _ at hlocal
  constructor
  · rintro ⟨c', hclose, _⟩
    obtain ⟨state, hstate, _⟩ := close_ok hclose
    rw [hstate] at hlocal
    by_cases hclosable : closable c.localState = true
    · exact hclosable
    · rw [if_neg hclosable] at hlocal
      cases hlocal
  · intro h
    rw [if_pos h] at hlocal
    obtain ⟨state, hstate, hclosed⟩ := Option.map_eq_some_iff.mp hlocal
    refine ⟨sentClose state c, ?_, hclosed⟩
    have hadvance : advanceLocal .connectionClosed c = (.ok (), { c with state := state }) := by
      unfold advanceLocal
      rw [hstate]
    unfold close
    rw [Lib.Call.bind_of_ok hadvance]
    rfl

/-- A request for a tunnel. -/
def plainConnect : Request :=
  ⟨.connect, ascii "a:80", Headers.new.push (ascii "Host") (ascii "a:80"), .http11⟩

end Connection

end H11r
