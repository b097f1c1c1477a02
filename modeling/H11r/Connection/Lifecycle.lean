import H11r.Connection.Run

/-!
# The state machine along a run

What the changes of a connection mean for the actors: each is a sequence of
`Move`s of `ConnectionState`, so a property of the actors that every move
preserves is an invariant of every run. The moves range over a finite type,
and such a property is checked by trying them all.

`SameFrame` is the other half: what the decoder and the send methods leave
alone.
-/

namespace H11r

/-- One step of the state machine within a cycle; only the peer can be poisoned. -/
inductive Move (peer : Role) : ConnectionState → ConnectionState → Prop
  | event {s s' : ConnectionState} {role : Role} {event : StateEvent}
      (h : s.processEvent role event = some s') : Move peer s s'
  | disable {s : ConnectionState} : Move peer s s.disableKeepAlive
  | poison {s : ConnectionState} : Move peer s (s.processError peer)

abbrev Moves (peer : Role) : ConnectionState → ConnectionState → Prop :=
  Relation.ReflTransGen (Move peer)

theorem ConnectionState.processError_state : ∀ (role : Role) (s : ConnectionState),
    (s.processError role).state role = .error := by
  decide +kernel

namespace Connection

variable {hp : Httparse} {c c' : Connection}

theorem disableKeepAliveIf_moves {peer : Role} (reason : Bool) (s : ConnectionState) :
    Moves peer s (s.disableKeepAliveIf reason) := by
  cases reason
  · exact .refl
  · exact .single .disable

theorem LocalChange.moves {peer : Role} (h : LocalChange c c') : Moves peer c.state c'.state := by
  cases h with
  | request _ _ _ hstate =>
    rw [sentRequest_state]
    exact .head (.event hstate) (disableKeepAliveIf_moves _ _)
  | informational _ _ hstate =>
    rw [recordInformational_state]
    exact .single (.event hstate)
  | response hrole _ hstate =>
    rw [sentResponse_state _ _ _ hrole]
    exact .head (.event hstate) (disableKeepAliveIf_moves _ _)
  | data hstate => exact .single (.event hstate)
  | ends hstate => exact .single (.event hstate)
  | closes hstate => exact .single (.event hstate)

theorem Change.moves {peer : Role} (h : Change c c') : Moves peer c.state c'.state := by
  cases h with
  | lenient => exact .refl
  | received => exact .refl
  | eof =>
    unfold recordEof
    rw [disableKeepAliveIf_state]
    exact disableKeepAliveIf_moves _ _
  | hold => exact .refl
  | inPlace _ hstate => exact .single (.event hstate)
  | inPlaceRefused => rw [advancePayload_state]
  | «local» h => exact h.moves

theorem Turn.moves {peer : Role} {r : Except RemoteProtocolError (Option Polled)}
    (h : Turn hp c r c') : Moves peer c.state c'.state := by
  cases h with
  | closed | paused | doneWaits | poisoned | waits | fails | requestRejected | trailersRejected
  | sizeLine | dataEnd => exact .refl
  | idleClosed _ _ _ _ hstate => exact .single (.event hstate)
  | doneClosed _ _ _ hstate => exact .single (.event hstate)
  | request _ _ _ _ _ _ hstate =>
    rw [acceptedRequest_state]
    exact .head (.event hstate) (disableKeepAliveIf_moves _ _)
  | @informational _ _ dropped _ state _ _ _ _ _ _ _ hstate =>
    rw [acceptedInformational_state]
    have hdropped : Moves peer _ _ := disableKeepAliveIf_moves dropped c.state
    rw [disableKeepAliveIf_state] at hstate
    exact (hdropped.tail (.event hstate)).trans (disableKeepAliveIf_moves _ _)
  | @final _ _ dropped _ state _ _ _ _ _ _ hstate _ =>
    rw [acceptedFinal_state]
    have hdropped : Moves peer _ _ := disableKeepAliveIf_moves dropped c.state
    rw [disableKeepAliveIf_state] at hstate
    exact (((hdropped.tail (.event hstate)).trans (disableKeepAliveIf_moves _ _)).trans
      (disableKeepAliveIf_moves _ _)).trans (disableKeepAliveIf_moves _ _)
  | @finalFaulty _ _ _ dropped state _ _ _ _ hstate =>
    rw [countedFinal_state]
    have hdropped : Moves peer _ _ := disableKeepAliveIf_moves dropped c.state
    rw [disableKeepAliveIf_state] at hstate
    exact (hdropped.tail (.event hstate)).trans (disableKeepAliveIf_moves _ _)
  | responseRejected =>
    unfold consumeSection mapCycle
    rw [disableKeepAliveIf_state]
    exact disableKeepAliveIf_moves _ _
  | payload _ _ _ hstate => exact .single (.event hstate)
  | payloadRejected => rw [advancePayload_state]
  | ends _ _ hstate => exact .single (.event hstate)
  | trailers _ _ _ hstate => exact .single (.event hstate)

/-! ## What stays the same -/

/-- What the decoder never changes. -/
structure SameFrame (c c' : Connection) : Prop where
  role : c'.role = c.role
  limits : c'.limits = c.limits
  lenient : c'.lenient = c.lenient
  held : c'.held = c.held
  eof : c'.eof = c.eof

theorem SameFrame.refl (c : Connection) : SameFrame c c := ⟨rfl, rfl, rfl, rfl, rfl⟩

theorem SameFrame.trans {c'' : Connection} (h : SameFrame c c') (h' : SameFrame c' c'') :
    SameFrame c c'' :=
  ⟨h'.role.trans h.role, h'.limits.trans h.limits, h'.lenient.trans h.lenient,
    h'.held.trans h.held, h'.eof.trans h.eof⟩

theorem disableKeepAliveIf_frame (reason : Bool) (c : Connection) :
    SameFrame c (c.disableKeepAliveIf reason) := by
  cases reason <;> exact ⟨rfl, rfl, rfl, rfl, rfl⟩

theorem advancePayload_frame (count : Nat) (c : Connection) :
    SameFrame c (c.advancePayload count).2 := by
  unfold advancePayload
  split <;> exact ⟨rfl, rfl, rfl, rfl, rfl⟩

theorem Turn.frame {r : Except RemoteProtocolError (Option Polled)} (h : Turn hp c r c') :
    SameFrame c c' := by
  cases h with
  | closed | paused | doneWaits | poisoned | waits | fails | requestRejected | trailersRejected
  | sizeLine | dataEnd | idleClosed | doneClosed | ends | trailers =>
    exact ⟨rfl, rfl, rfl, rfl, rfl⟩
  | request =>
    unfold acceptedRequest recordRequest
    rw [disableKeepAliveIf_eq]
    exact ⟨rfl, rfl, rfl, rfl, rfl⟩
  | informational =>
    unfold acceptedInformational recordInformational
    simp only [disableKeepAliveIf_eq]
    split <;> exact ⟨rfl, rfl, rfl, rfl, rfl⟩
  | final =>
    unfold acceptedFinal countedFinal
    simp only [disableKeepAliveIf_eq]
    exact ⟨rfl, rfl, rfl, rfl, rfl⟩
  | finalFaulty =>
    unfold countedFinal
    simp only [disableKeepAliveIf_eq]
    exact ⟨rfl, rfl, rfl, rfl, rfl⟩
  | responseRejected => exact (disableKeepAliveIf_frame _ _).trans ⟨rfl, rfl, rfl, rfl, rfl⟩
  | payload => exact (advancePayload_frame _ _).trans ⟨rfl, rfl, rfl, rfl, rfl⟩
  | payloadRejected => exact advancePayload_frame _ _

/-- A tail call is made without any event. -/
theorem Turn.again_state (h : Turn hp c (.ok none) c') : c'.state = c.state := by
  cases h <;> rfl

/-- What a poll reports, its last turn reports, on the same actors and, if it is
not the first one, inside a chunked body. -/
theorem Turns.last_turn {r : Except RemoteProtocolError Polled} (h : Turns hp c r c') :
    ∃ c1, c1.state = c.state ∧ SameFrame c c1 ∧
      (c1 = c ∨ ∃ chunk, c1.cycle.reader = .chunked chunk) ∧ Turn hp c1 (r.map some) c' := by
  induction h with
  | last h => exact ⟨_, rfl, .refl _, Or.inl rfl, h⟩
  | again h _ ih =>
    obtain ⟨c1, hstate, hframe, hreader, hlast⟩ := ih
    refine ⟨c1, hstate.trans h.again_state, h.frame.trans hframe, Or.inr ?_, hlast⟩
    rcases hreader with rfl | hchunked
    · cases h with
      | @sizeLine scanned stop size =>
        by_cases hzero : size = 0
        · exact ⟨.trailers, if_pos hzero⟩
        · exact ⟨.data size true, if_neg hzero⟩
      | dataEnd => exact ⟨.size 0, rfl⟩
    · exact hchunked

theorem PollChange.frame (h : PollChange hp c c') : SameFrame c c' := by
  cases h with
  | turn h => exact h.frame
  | taken => exact ⟨rfl, rfl, rfl, rfl, rfl⟩
  | failed h => exact h.frame.trans ⟨rfl, rfl, rfl, rfl, rfl⟩

theorem PollChange.moves (h : PollChange hp c c') : Moves c.role.peer c.state c'.state := by
  cases h with
  | turn h => exact h.moves
  | taken => exact .refl
  | failed h =>
    refine h.moves.tail ?_
    rw [h.frame.role]
    exact .poison

theorem nextEvent_moves (hp : Httparse) (c : Connection) :
    Moves c.role.peer c.state (nextEvent hp c).2.state := by
  refine (Lib.preserve (P := fun c' => SameFrame c c' ∧ Moves c.role.peer c.state c'.state) ?_
    nextEvent_changes ⟨.refl c, .refl⟩).2
  rintro c1 c2 h ⟨hframe, hmoves⟩
  have hlast := h.moves
  rw [hframe.role] at hlast
  exact ⟨hframe.trans h.frame, hmoves.trans hlast⟩

theorem LocalChange.sameOutside (h : LocalChange c c') : SameOutside c c' := by
  cases h with
  | request => exact sentRequest_sameOutside _ _ _ _ _
  | informational =>
    unfold recordInformational
    split <;> rfl
  | response => exact sentResponse_sameOutside _ _ _ _
  | data | ends | closes => rfl

/-- The local side leaves the decoder alone. -/
theorem LocalChange.decoder (h : LocalChange c c') : c'.cycle.reader = c.cycle.reader ∧
    c'.cycle.progress = c.cycle.progress ∧
    c'.cycle.chunkExtensionBytes = c.cycle.chunkExtensionBytes := by
  cases h with
  | request =>
    rw [sentRequest_cycle]
    exact ⟨rfl, rfl, rfl⟩
  | informational =>
    unfold recordInformational
    split <;> exact ⟨rfl, rfl, rfl⟩
  | response =>
    rw [sentResponse_cycle]
    exact ⟨rfl, rfl, rfl⟩
  | data | ends | closes => exact ⟨rfl, rfl, rfl⟩

theorem SameOutside.frame (h : SameOutside c c') : SameFrame c c' := by
  unfold SameOutside at h
  rw [← h]
  exact ⟨rfl, rfl, rfl, rfl, rfl⟩

theorem SameOutside.input (h : SameOutside c c') : c'.input = c.input := by
  unfold SameOutside at h
  rw [← h]

theorem Change.role (h : Change c c') : c'.role = c.role := by
  cases h with
  | lenient | received | hold => rfl
  | eof => exact disableKeepAliveIf_role _ _
  | inPlace => exact (advancePayload_frame _ c).role
  | inPlaceRefused => exact (advancePayload_frame _ c).role
  | «local» h => exact h.sameOutside.frame.role

theorem CycleChange.role (h : CycleChange c c') : c'.role = c.role := by
  cases h <;> rfl

/-- A connection keeps its role. -/
theorem step_role (hp : Httparse) (op : Op) (c : Connection) : (step hp op c).2.role = c.role :=
  step_preserve (P := fun c' => c'.role = c.role) (fun _ _ h hc => h.role.trans hc)
    (fun _ _ h hc => h.role.trans hc) (fun _ _ h hc => h.frame.role.trans hc) op rfl

theorem run_role {allowed : Connection → Op → Prop} {role : Role} {limits : Limits}
    {history : List (Op × Outcome)} (h : Run hp allowed role limits history c) : c.role = role := by
  exact Lib.Run.invariant (P := fun c => c.role = role) rfl
    (fun s op hs _ => (step_role hp op s).trans hs) h

/-- The call began a new cycle. -/
def startsCycle : Op × Outcome → Bool
  | (.startNextCycle, .unit) => true
  | _ => false

theorem step_startsCycle {op : Op} (h : startsCycle (op, (step hp op c).1) = true) :
    ∃ state, c.state.startNextCycle = some state ∧
      (step hp op c).2 = { c with state := state, cycle := .new } := by
  cases op with
  | startNextCycle =>
    change startsCycle (_, (outcome _ (startNextCycle c)).1) = true at h
    change ∃ state, _ ∧ (outcome _ (startNextCycle c)).2 = _
    rw [outcome_snd]
    rcases hcall : startNextCycle c with ⟨r, c'⟩
    rw [hcall] at h
    rcases startNextCycle_cases hcall with ⟨state, _, hstate, hafter⟩ | ⟨_, rfl, _⟩ | ⟨_, rfl, _⟩
    · exact ⟨state, hstate, hafter⟩
    · cases h
    · cases h
  | _ => cases h

/-- Within a cycle a call moves the state machine only by its steps. -/
theorem step_moves {op : Op} (h : startsCycle (op, (step hp op c).1) = false) :
    Moves c.role.peer c.state (step hp op c).2.state := by
  by_cases hnext : op = .nextEvent
  · subst hnext
    show Moves _ c.state (pollOutcome (nextEvent hp c)).2.state
    rw [pollOutcome_snd]
    exact nextEvent_moves hp c
  · by_cases hstart : op = .startNextCycle
    · subst hstart
      change startsCycle (_, (outcome _ (startNextCycle c)).1) = false at h
      show Moves _ c.state (outcome _ (startNextCycle c)).2.state
      rw [outcome_snd]
      rcases hcall : startNextCycle c with ⟨r, c'⟩
      rw [hcall] at h
      rcases startNextCycle_cases hcall with ⟨_, rfl, _, _⟩ | ⟨_, _, _, _, _, rfl⟩ | ⟨_, _, rfl⟩
      · cases h
      · exact .single .disable
      · exact .refl
    · exact Lib.preserve (P := fun c' => Moves c.role.peer c.state c'.state)
        (fun _ _ h hc => hc.trans h.moves) (step_changes hnext hstart c) .refl

theorem startNextCycle_new {s s' : ConnectionState} (h : s.startNextCycle = some s') : s' = .new := by
  unfold ConnectionState.startNextCycle at h
  split at h
  · cases h
  · cases h
    rfl

/-- A property of the actors that holds at the start of a cycle and that every
step of the state machine preserves holds along every run. -/
theorem run_state {P : ConnectionState → Prop} {allowed : Connection → Op → Prop} (role : Role)
    {limits : Limits} {history : List (Op × Outcome)} (hnew : P .new)
    (hmove : ∀ s s', Move role.peer s s' → P s → P s')
    (h : Run hp allowed role limits history c) : P c.state := by
  refine (Lib.Run.invariant (P := fun c => c.role = role ∧ P c.state) ⟨rfl, hnew⟩ ?_ h).2
  rintro s op ⟨hrole, hs⟩ _
  refine ⟨(step_role hp op s).trans hrole, ?_⟩
  cases hstarts : startsCycle (op, (step hp op s).1) with
  | false =>
    have hmoves := step_moves hstarts
    rw [hrole] at hmoves
    exact Lib.preserve hmove hmoves hs
  | true =>
    obtain ⟨state, hstate, hafter⟩ := step_startsCycle hstarts
    rw [hafter, startNextCycle_new hstate]
    exact hnew

end Connection

end H11r
