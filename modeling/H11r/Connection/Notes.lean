import H11r.Connection.Chunked
import H11r.Connection.Drain
import H11r.Connection.Positions
import H11r.Connection.Whole

/-!
# What a connection has noted of its input

Three facts about the connections that can be reached, which are used where two
of them are compared. No joint rule of the state machine is left to apply
(`reachable_settled`). A peer that is closed has sent the end of its input
(`reachable_closedAfterEof`). And in a chunked body the decoder's notes about its
buffer are right: they are from the start, and a poll keeps them so
(`nextEvent_notes`).
-/

namespace H11r

namespace ConnectionState

/-- An actor is closed by its own close. -/
structure ClosedLaws : Prop where
  event : ∀ (role : Role) (event : StateEvent) (s s' : ConnectionState),
    s.processEvent role event = some s' → ∀ actor, s'.state actor = .closed →
      s.state actor = .closed ∨ (event = .connectionClosed ∧ actor = role)
  disable : ∀ (s : ConnectionState) (actor : Role), s.disableKeepAlive.state actor = .closed →
    s.state actor = .closed
  poison : ∀ (role : Role) (s : ConnectionState) (actor : Role),
    (s.processError role).state actor = .closed → s.state actor = .closed

theorem closedLaws : ClosedLaws where
  event := by decide +kernel
  disable := by decide +kernel
  poison := by decide +kernel

theorem disableIf_closed {s : ConnectionState} {reason : Bool} {actor : Role}
    (h : (s.disableKeepAliveIf reason).state actor = .closed) : s.state actor = .closed := by
  cases reason with
  | false => exact h
  | true => exact closedLaws.disable s actor h

end ConnectionState

namespace Connection

variable {hp : Httparse} {rest : Bytes} {c c' f : Connection}

/-! ## Reachable connections -/

theorem reachable_settled (h : Reachable hp c) : c.state.Settled := by
  obtain ⟨role, limits, history, hrun⟩ := h
  refine run_state role (P := ConnectionState.Settled) (by decide +kernel) (fun s s' hmove hs => ?_) hrun
  cases hmove with
  | event hevent => exact hs.event hevent
  | disable => exact ConnectionState.stabilize_settled _
  | poison => exact ConnectionState.stabilize_settled _

/-- A closed peer has sent the end of its input. -/
def ClosedAfterEof (c : Connection) : Prop := c.peerState = .closed → c.eof = true

theorem ClosedAfterEof.same (h : c.ClosedAfterEof) (heof : c'.eof = c.eof)
    (hpeer : c'.peerState = .closed → c.peerState = .closed) : c'.ClosedAfterEof := by
  intro hclosed
  rw [heof]
  exact h (hpeer hclosed)

theorem LocalChange.closedAfterEof (h : LocalChange c c') (hc : c.ClosedAfterEof) : c'.ClosedAfterEof := by
  have hrole := h.sameOutside.frame.role
  refine hc.same h.sameOutside.frame.eof fun hclosed => ?_
  have hown : ∀ {event : StateEvent} {state : ConnectionState}, c.state.processEvent c.role event = some state →
      state.state c.role.peer = .closed → c.state.state c.role.peer = .closed := by
    intro event state hstate hpeer
    rcases ConnectionState.closedLaws.event _ _ _ _ hstate _ hpeer with hbefore | ⟨_, hsame⟩
    · exact hbefore
    · cases hc : c.role <;> rw [hc] at hsame <;> cases hsame
  unfold peerState at hclosed ⊢
  rw [hrole] at hclosed
  cases h with
  | request hclient _ _ hstate =>
    rw [sentRequest_state] at hclosed
    rw [← hclient] at hstate
    exact hown hstate (ConnectionState.disableIf_closed hclosed)
  | informational hserver _ hstate =>
    rw [recordInformational_state] at hclosed
    rw [← hserver] at hstate
    exact hown hstate hclosed
  | response hserver _ hstate =>
    rw [sentResponse_state _ _ _ hserver] at hclosed
    rw [← hserver] at hstate
    exact hown hstate (ConnectionState.disableIf_closed hclosed)
  | data hstate => exact hown hstate hclosed
  | ends hstate => exact hown hstate hclosed
  | closes hstate => exact hown hstate hclosed

theorem Change.closedAfterEof (h : Change c c') (hc : c.ClosedAfterEof) : c'.ClosedAfterEof := by
  cases h with
  | lenient | received | hold => exact hc
  | eof =>
    intro _
    unfold recordEof
    rw [disableKeepAliveIf_eof]
  | @inPlace count _ hcount hstate =>
    have hsame := (ConnectionState.bodyLaws.data _ _ _ hstate).1
    subst hsame
    have hframe := advancePayload_frame count c
    refine hc.same hframe.eof fun hclosed => ?_
    unfold peerState at hclosed ⊢
    rw [← hframe.role]
    exact hclosed
  | @inPlaceRefused count =>
    have hframe := advancePayload_frame count c
    refine hc.same hframe.eof fun hclosed => ?_
    unfold peerState at hclosed ⊢
    rw [advancePayload_state, hframe.role] at hclosed
    exact hclosed
  | «local» h => exact h.closedAfterEof hc

theorem CycleChange.closedAfterEof (h : CycleChange c c') (hc : c.ClosedAfterEof) : c'.ClosedAfterEof := by
  cases h with
  | @started state hstate =>
    refine hc.same rfl fun hclosed => ?_
    have hnew := startNextCycle_new hstate
    subst hnew
    change ConnectionState.new.state c.role.peer = .closed at hclosed
    cases hrole : c.role <;> rw [hrole] at hclosed <;> cases hclosed
  | refused => exact hc.same rfl (ConnectionState.closedLaws.disable _ _)

/-- A turn that leaves the peer closed has found it closed, or at the end of its
input. -/
theorem Turn.closedAfterEof {r : Except RemoteProtocolError (Option Polled)} (h : Turn hp c r c')
    (hc : c.ClosedAfterEof) : c'.ClosedAfterEof := by
  have heof := h.frame.eof
  have hrole := h.frame.role
  have hevent : ∀ {role : Role} {event : StateEvent} {s s' : ConnectionState},
      s.processEvent role event = some s' → event ≠ .connectionClosed →
      s'.state c.role.peer = .closed → s.state c.role.peer = .closed := by
    intro role event s s' hstate hother hpeer
    rcases ConnectionState.closedLaws.event _ _ _ _ hstate _ hpeer with hbefore | ⟨hclose, _⟩
    · exact hbefore
    · exact absurd hclose hother
  have hended : c.eof = true → c'.ClosedAfterEof := fun hend _ => heof.trans hend
  have hstate : (c'.state.state c.role.peer = .closed → c.state.state c.role.peer = .closed) →
      c'.ClosedAfterEof := by
    intro hpeer
    refine hc.same heof fun hclosed => ?_
    unfold peerState at hclosed ⊢
    rw [hrole] at hclosed
    exact hpeer hclosed
  cases h with
  | closed | paused | doneWaits | poisoned | waits | fails | requestRejected | trailersRejected
  | sizeLine | dataEnd => exact hstate id
  | idleClosed _ hend => exact hended hend
  | doneClosed _ _ hend => exact hended hend
  | request _ _ _ _ _ _ hnext =>
    refine hstate fun hclosed => ?_
    rw [acceptedRequest_state] at hclosed
    exact hevent hnext nofun (ConnectionState.disableIf_closed hclosed)
  | @informational _ _ dropped _ _ _ _ _ _ _ _ hinformational hnext =>
    refine hstate fun hclosed => ?_
    rw [acceptedInformational_state] at hclosed
    rw [disableKeepAliveIf_state] at hnext
    refine ConnectionState.disableIf_closed (hevent hnext ?_ (ConnectionState.disableIf_closed hclosed))
    rcases informationalEvent_cases hinformational with rfl | ⟨rfl, _⟩ <;> nofun
  | @final _ _ dropped _ _ _ _ _ _ _ _ hnext =>
    refine hstate fun hclosed => ?_
    rw [acceptedFinal_state] at hclosed
    rw [disableKeepAliveIf_state] at hnext
    have hbefore := ConnectionState.disableIf_closed (ConnectionState.disableIf_closed
      (ConnectionState.disableIf_closed hclosed))
    refine ConnectionState.disableIf_closed (hevent hnext ?_ hbefore)
    unfold finalResponseEvent
    split <;> nofun
  | @finalFaulty _ _ _ dropped _ _ _ _ _ hnext =>
    refine hstate fun hclosed => ?_
    rw [countedFinal_state] at hclosed
    rw [disableKeepAliveIf_state] at hnext
    refine ConnectionState.disableIf_closed (hevent hnext ?_ (ConnectionState.disableIf_closed hclosed))
    unfold finalResponseEvent
    split <;> nofun
  | @responseRejected _ _ _ dropped =>
    refine hstate fun hclosed => ?_
    change (c.disableKeepAliveIf dropped).state.state c.role.peer = .closed at hclosed
    rw [disableKeepAliveIf_state] at hclosed
    exact ConnectionState.disableIf_closed hclosed
  | payload _ _ _ hnext => exact hstate fun hclosed => hevent hnext nofun hclosed
  | payloadRejected =>
    refine hstate fun hclosed => ?_
    rw [advancePayload_state] at hclosed
    exact hclosed
  | ends _ _ hnext => exact hstate fun hclosed => hevent hnext nofun hclosed
  | trailers _ _ _ hnext => exact hstate fun hclosed => hevent hnext nofun hclosed

theorem reachable_closedAfterEof (h : Reachable hp c) : c.ClosedAfterEof := by
  obtain ⟨role, limits, history, hrun⟩ := h
  refine Lib.Run.invariant (P := ClosedAfterEof) (fun hclosed => ?_) ?_ hrun
  · cases role <;> cases hclosed
  intro c op hc _
  refine step_preserve (fun _ _ => Change.closedAfterEof) (fun _ _ => CycleChange.closedAfterEof) ?_ op hc
  intro c c' h hc
  cases h with
  | turn h => exact h.closedAfterEof hc
  | taken => exact hc
  | failed h => exact (h.closedAfterEof hc).same rfl (ConnectionState.closedLaws.poison _ _ _)

/-! ## The notes about the buffer -/

/-- Before any bytes of a body have come, nothing has been noted. -/
theorem reachable_notesHold (h : Reachable hp c) (hinput : c.input.asSlice = []) : c.NotesHold := by
  intro chunk hreader
  rcases reachable_fits h with hfits | hclosed
  · unfold Fits at hfits
    rw [hinput, hreader] at hfits
    cases chunk with
    | size scanned =>
      have hzero : scanned ≤ 0 := hfits.2
      exact fun _ _ _ => Nat.le_trans hzero (Nat.zero_le _)
    | data remaining first => exact reachable_chunkOpen h remaining first hreader
    | dataEnd => trivial
    | trailers =>
      obtain ⟨seen, found, hseen, hwatched⟩ := hfits
      have hnil := List.prefix_nil.mp hseen
      subst hnil
      have hfresh : found = false := hwatched.nil
      subst hfresh
      exact ⟨[], List.nil_prefix, hwatched⟩
  · obtain ⟨_, _, _, hrun⟩ := h
    have hhead := (run_layersAgree hrun).head (by
      show c.peerState.readsHead = true
      rw [hclosed]
      rfl)
    cases hreader.symm.trans hhead

/-- Inside a chunked body the peer sends it. -/
theorem decoding_of_reading (hagree : c.LayersAgree) (hnotes : c.NotesHold) (hreading : c.Reading)
    {chunk : Chunk} (hreader : c.cycle.reader = .chunked chunk) : c.Decoding :=
  ⟨hagree.reading_body hreading (by rw [hreader]; nofun), chunk, hreader, hnotes chunk hreader⟩

theorem dispatch_again_notes (hhp : hp.Stable) (hagree : c.LayersAgree) (hnotes : c.NotesHold)
    (h : dispatch hp c = (.ok none, c')) : c'.NotesHold := by
  have hdecoding : c.Decoding := by
    cases dispatch_turn h with
    | sizeLine hreading hreader => exact decoding_of_reading hagree hnotes hreading hreader
    | dataEnd hreading hreader => exact decoding_of_reading hagree hnotes hreading hreader
  cases dispatch_decodes hhp hdecoding h with
  | again hafter => exact hafter.notesHold

/-- Outside a chunked body there is nothing to note, and one is entered before
its first size line. -/
theorem Turn.notes {polled : Polled} (h : Turn hp c (.ok (some polled)) c') (hagree : c.LayersAgree)
    (hnotes : c.NotesHold) (hnot : ¬c.Decoding) : (taken polled c').NotesHold := by
  have houtside : c.Reading → ∀ chunk, c.cycle.reader ≠ .chunked chunk := fun hreading chunk hreader =>
    hnot (decoding_of_reading hagree hnotes hreading hreader)
  have hsame : c.Reading → c'.cycle.reader = c.cycle.reader → c'.NotesHold :=
    fun hreading hreader chunk hchunked => absurd (hreader.symm.trans hchunked) (houtside hreading chunk)
  have hframing : ∀ {framing : Framing}, c'.cycle.reader = reader framing → c'.NotesHold := by
    intro framing hreader chunk hchunked
    cases reader_chunked (hreader.symm.trans hchunked)
    exact fun _ _ _ => Nat.zero_le _
  have hhead : c'.cycle.reader = .head → c'.NotesHold := fun hreader chunk hchunked => by
    cases hreader.symm.trans hchunked
  cases h with
  | closed | paused | doneWaits | doneClosed => exact hnotes
  | idleClosed hpeer =>
    refine hhead (hagree.head ?_)
    show c.peerState.readsHead = true
    rw [hpeer]
    rfl
  | waits hreading _ hreader =>
    rcases hreader with hreader | ⟨scanned, _, hsize, _⟩
    · exact hsame hreading hreader
    · exact absurd hsize (houtside hreading _)
  | request => exact hframing (by rw [acceptedRequest_cycle])
  | @informational stop response dropped event state hreading _ =>
    exact hsame hreading (acceptedInformational_decoder response dropped stop state c).1
  | final => exact hframing (by rw [acceptedFinal_cycle])
  | payload hreading _ hreader =>
    intro chunk hchunked
    change (c.advancePayload c.input.asSlice.length).2.cycle.reader = .chunked chunk at hchunked
    unfold advancePayload at hchunked
    rcases hreader with ⟨remaining, hfixed⟩ | ⟨remaining, first, hdata⟩ | hclose
    · rw [hfixed] at hchunked
      cases hchunked
    · exact absurd hdata (houtside hreading _)
    · rw [hclose] at hchunked
      exact absurd hchunked (houtside hreading _)
  | ends | trailers => exact hhead rfl

/-- A poll that does not fail keeps the notes right. -/
theorem nextEvent_notes (hhp : hp.Stable) (hagree : c.LayersAgree) (hnotes : c.NotesHold) {next : NextEvent}
    (h : nextEvent hp c = (.ok next, c')) : c'.NotesHold := by
  by_cases hdecoding : c.Decoding
  · cases nextEvent_polls hhp hdecoding h with
    | waits hafter => exact hafter.notesHold
    | data _ hafter => exact hafter.notesHold
    | @ends _ trailers =>
      have hinner : nextEventInner hp c = (.ok (.event (.endOfMessage trailers)), c') := by
        rcases nextEvent_event h with ⟨_, _, _, hdata⟩ | hinner
        · cases hdata
        · exact hinner
      obtain ⟨c1, _, hlast⟩ := nextEventInner_last hinner
      intro chunk hreader
      cases dispatch_turn hlast <;> cases hreader
  · unfold nextEvent at h
    rcases hinner : nextEventInner hp c with ⟨error | polled, c1⟩
    · rw [hinner] at h
      cases h
    · -- Outside a chunked body there are no tail calls.
      have hlast : dispatch hp c = (.ok (some polled), c1) := by
        rcases hd : dispatch hp c with ⟨error | polled', c2⟩
        · rw [nextEventInner_fails hd] at hinner
          cases hinner
        · cases polled' with
          | none =>
            refine absurd ?_ hdecoding
            cases dispatch_turn hd with
            | sizeLine hreading hreader => exact decoding_of_reading hagree hnotes hreading hreader
            | dataEnd hreading hreader => exact decoding_of_reading hagree hnotes hreading hreader
          | some polled' =>
            rw [nextEventInner_reports hd] at hinner
            cases hinner
            rfl
      have hafter := (dispatch_turn hlast).notes hagree hnotes hdecoding
      rw [hinner] at h
      cases polled <;> cases h <;> exact hafter

end Connection

end H11r
