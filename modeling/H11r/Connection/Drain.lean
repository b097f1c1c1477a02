import H11r.Connection.Terminal

/-!
# Polling comes to an end

A poll runs the decoder until it has something to report, and a caller polls
until there is nothing to report. The first loop ends because every turn that
reports nothing takes bytes from the buffer. For the second, an event costs a
byte, or it is the end of the peer's message, after which the peer is through
and has no further event before the next cycle. `potential` counts both.

That a `Data` event costs a byte rests on `ChunkOpen`: the decoder is never in a
chunk of which nothing is left.
-/

namespace H11r

/-- A complete head has at least one byte. -/
structure Httparse.TakesBytes (hp : Httparse) : Prop where
  request : ∀ {buffer : Bytes} {slots : Nat} {parts : RequestParts},
    hp.request buffer slots = .ok (some parts) → 0 < parts.stop
  response : ∀ {lenient : Bool} {buffer : Bytes} {slots : Nat} {parts : ResponseParts},
    hp.response lenient buffer slots = .ok (some parts) → 0 < parts.stop

/-- A section that ends at its empty line has the bytes of that line. -/
theorem Httparse.Stable.takesBytes {hp : Httparse} (h : hp.Stable) : hp.TakesBytes where
  request := fun hread => SectionProgress.poll_pos ((h.request _).ends hread)
  response := fun hread => SectionProgress.poll_pos ((h.response _ _).ends hread)

theorem parseRequestHead_pos {hp : Httparse} {head : Bytes} {maxHeaders stop : Nat} {request : Request}
    (hhp : hp.TakesBytes) (h : parseRequestHead hp head maxHeaders = .ok (some (stop, request))) :
    0 < stop := by
  unfold parseRequestHead at h
  split at h
  · cases h
  · cases h
  next parsed hparsed =>
    cases h
    exact hhp.request (congrArg (parsedAs RawRequest.parts) hparsed)

theorem parseResponseHead_pos {hp : Httparse} {head : Bytes} {maxHeaders stop : Nat}
    {lenient dropped : Bool} {response : Response} (hhp : hp.TakesBytes)
    (h : parseResponseHead hp head maxHeaders lenient = .ok (some (stop, response, dropped))) :
    0 < stop := by
  unfold parseResponseHead at h
  split at h
  · cases h
  · cases h
  next parsed hparsed =>
    split at h
    · cases h
    · cases h
      exact hhp.response (congrArg (parsedAs RawResponse.parts) hparsed)

namespace Connection

variable {hp : Httparse} {c c' : Connection}

/-! ## Chunks are not empty -/

/-- Inside a chunk something is left of it. -/
def ChunkOpen (c : Connection) : Prop :=
  ∀ remaining first, c.cycle.reader = .chunked (.data remaining first) → remaining ≠ 0

theorem ChunkOpen.same (h : c.ChunkOpen) (hreader : c'.cycle.reader = c.cycle.reader) : c'.ChunkOpen := by
  intro remaining first hdata
  rw [hreader] at hdata
  exact h remaining first hdata

theorem chunkOpen_of_reader {reader : Reader} (hreader : c.cycle.reader = reader)
    (h : ∀ remaining first, reader = .chunked (.data remaining first) → remaining ≠ 0) : c.ChunkOpen := by
  intro remaining first hdata
  exact h remaining first (hreader.symm.trans hdata)

theorem advancePayload_chunkOpen (count : Nat) (h : c.ChunkOpen) : (c.advancePayload count).2.ChunkOpen := by
  unfold advancePayload
  split
  · exact chunkOpen_of_reader rfl fun _ _ hdata => by cases hdata
  next remaining first hreader =>
    intro left second hdata
    change Reader.chunked (if _ then _ else _) = _ at hdata
    split at hdata
    · cases hdata
    · cases hdata
      omega
  · exact h

theorem Change.chunkOpen (h : Change c c') (hc : c.ChunkOpen) : c'.ChunkOpen := by
  cases h with
  | lenient | received | hold => exact hc
  | eof =>
    unfold recordEof
    exact hc.same (by rw [disableKeepAliveIf_cycle])
  | inPlace => exact (advancePayload_chunkOpen _ hc).same rfl
  | inPlaceRefused => exact advancePayload_chunkOpen _ hc
  | «local» h => exact hc.same h.decoder.1

theorem CycleChange.chunkOpen (h : CycleChange c c') (hc : c.ChunkOpen) : c'.ChunkOpen := by
  cases h with
  | started => exact chunkOpen_of_reader rfl fun _ _ hdata => by cases hdata
  | refused => exact hc

theorem Turn.chunkOpen {r : Except RemoteProtocolError (Option Polled)} (h : Turn hp c r c')
    (hc : c.ChunkOpen) : c'.ChunkOpen := by
  have hsection : ∀ (dropped : Bool) (stop : Nat),
      ((c.disableKeepAliveIf dropped).consumeSection stop).ChunkOpen := by
    intro dropped stop
    cases dropped <;> exact hc
  have hframing : ∀ (framing : Framing) (remaining : Nat) (first : Bool),
      reader framing = .chunked (.data remaining first) → remaining ≠ 0 := by
    intro framing remaining first hdata
    cases framing <;> cases hdata
  cases h with
  | closed | paused | doneWaits | poisoned | idleClosed | doneClosed => exact hc
  | waits _ _ hreader | fails _ hreader =>
    rcases hreader with rfl | ⟨_, _, _, rfl⟩
    · exact hc
    · exact chunkOpen_of_reader rfl fun _ _ hdata => by cases hdata
  | request => exact chunkOpen_of_reader (by rw [acceptedRequest_cycle]) (hframing _)
  | requestRejected => exact hsection false _
  | @informational stop response dropped =>
    refine (hsection dropped stop).same ?_
    unfold acceptedInformational recordInformational
    rw [disableKeepAliveIf_eq]
    split <;> rfl
  | final => exact chunkOpen_of_reader (by rw [acceptedFinal_cycle]) (hframing _)
  | @finalFaulty _ stop response dropped =>
    refine (hsection dropped stop).same ?_
    unfold countedFinal
    rw [disableKeepAliveIf_eq]
    rfl
  | responseRejected => exact hsection _ _
  | payload => exact (advancePayload_chunkOpen _ hc).same rfl
  | payloadRejected => exact advancePayload_chunkOpen _ hc
  | ends | trailers => exact chunkOpen_of_reader rfl fun _ _ hdata => by cases hdata
  | trailersRejected => exact hc
  | @sizeLine _ _ size =>
    refine chunkOpen_of_reader rfl fun remaining first hdata => ?_
    change (if size = 0 then Reader.chunked .trailers else .chunked (.data size true)) = _ at hdata
    split at hdata
    · cases hdata
    next hsize =>
      cases hdata
      exact hsize
  | dataEnd => exact chunkOpen_of_reader rfl fun _ _ hdata => by cases hdata

theorem reachable_chunkOpen (h : Reachable hp c) : c.ChunkOpen := by
  obtain ⟨role, limits, history, hrun⟩ := h
  refine Lib.Run.invariant (P := ChunkOpen) (fun _ _ hdata => by cases hdata) ?_ hrun
  intro c op hc _
  refine step_preserve (fun _ _ => Change.chunkOpen) (fun _ _ => CycleChange.chunkOpen) ?_ op hc
  intro c c' h hc
  cases h with
  | turn h => exact h.chunkOpen hc
  | taken => exact hc
  | failed h => exact (h.chunkOpen hc).same rfl

/-! ## One poll -/

/-- The bytes in the buffer, and one for the end of a message that is to come. -/
def potential (c : Connection) : Nat :=
  c.input.asSlice.length + if through c.peerState = true then 0 else 1

theorem potential_le (c : Connection) : c.potential ≤ c.input.asSlice.length + 1 := by
  unfold potential
  split <;> omega

theorem Reading.potential (h : c.Reading) : c.potential = c.input.asSlice.length + 1 := by
  unfold Connection.potential
  rw [if_neg (by rw [h.not_through]; decide)]

/-- The end of a message leaves an actor that is through. -/
theorem processEvent_endOfMessage : ∀ (role : Role) (s s' : ConnectionState),
    s.processEvent role .endOfMessage = some s' → through (s'.state role) = true := by
  decide +kernel

theorem potential_lt_of_drop {stop : Nat} (hreading : c.Reading) (hstop : 0 < stop)
    (hle : stop ≤ c.input.asSlice.length) (hinput : c'.input = c.input.consume stop) :
    c'.potential < c.potential := by
  have hless : c'.potential ≤ c'.input.asSlice.length + 1 := potential_le c'
  rw [hinput, Buffer.asSlice_consume, List.length_drop] at hless
  rw [hreading.potential]
  omega

/-- How many payload bytes the decoder takes of those that are there. -/
theorem advancePayload_pos {available : Nat} (hc : c.ChunkOpen) (havailable : available ≠ 0)
    (hreader : (∃ remaining, c.cycle.reader = .fixed (remaining + 1)) ∨
      (∃ remaining first, c.cycle.reader = .chunked (.data remaining first)) ∨
      c.cycle.reader = .closeDelimited) : 0 < (c.advancePayload available).1.1 := by
  unfold advancePayload
  rcases hreader with ⟨remaining, hreader⟩ | ⟨remaining, first, hreader⟩ | hreader
  · rw [hreader]
    show 0 < min (remaining + 1) available
    omega
  · have hopen := hc _ _ hreader
    rw [hreader]
    show 0 < min remaining available
    omega
  · rw [hreader]
    exact Nat.pos_of_ne_zero havailable

/-- The connection once the bytes of a `Data` event have been taken. -/
def taken : Polled → Connection → Connection
  | .data count _ _, c => { c with input := c.input.consume count }
  | _, c => c

/-- Whether a caller goes on polling: the poll has returned an event other than
the end of the connection. -/
def goesOn : Polled → Bool
  | .event .connectionClosed | .needData | .paused => false
  | _ => true

/-- An event of a message makes the potential smaller. -/
theorem Turn.potential {polled : Polled} (hhp : hp.TakesBytes) (h : Turn hp c (.ok (some polled)) c')
    (hc : c.ChunkOpen) (hgoes : goesOn polled = true) : (taken polled c').potential < c.potential := by
  have hthrough : ∀ {c' : Connection} {state : ConnectionState}, c.Reading →
      c.state.processEvent c.role.peer .endOfMessage = some state → c'.state = state → c'.role = c.role →
      c'.input.asSlice.length ≤ c.input.asSlice.length → c'.potential < c.potential := by
    intro c' state hreading hstate hstate' hrole hle
    have hdone : through c'.peerState = true := by
      unfold peerState
      rw [hstate', hrole]
      exact processEvent_endOfMessage _ _ _ hstate
    rw [hreading.potential]
    unfold Connection.potential
    rw [if_pos hdone]
    omega
  cases h with
  | closed | idleClosed | doneClosed | paused | doneWaits | waits => cases hgoes
  | request hreading _ _ hparse =>
    refine potential_lt_of_drop hreading (parseRequestHead_pos hhp hparse)
      (Nat.le_trans (parseRequestHead_le hparse) (headSection_le c)) ?_
    show (acceptedRequest _ _ _ _).input = _
    rw [acceptedRequest_input]
    rfl
  | informational hreading _ _ hparse =>
    refine potential_lt_of_drop hreading (parseResponseHead_pos hhp hparse)
      (Nat.le_trans (parseResponseHead_le hparse) (headSection_le c)) ?_
    show (acceptedInformational _ _ _).input = _
    rw [acceptedInformational_input, consumeSection_input]
  | final hreading _ _ hparse =>
    refine potential_lt_of_drop hreading (parseResponseHead_pos hhp hparse)
      (Nat.le_trans (parseResponseHead_le hparse) (headSection_le c)) ?_
    show (acceptedFinal _ _ _ _).input = _
    rw [acceptedFinal_input, consumeSection_input]
  | payload hreading hinput hreader =>
    have hsome : c.input.asSlice.length ≠ 0 := fun hzero => hinput (List.length_eq_zero_iff.mp hzero)
    refine potential_lt_of_drop hreading (advancePayload_pos hc hsome hreader)
      (advancePayload_le _ c) ?_
    show (c.advancePayload c.input.asSlice.length).2.input.consume _ = _
    rw [advancePayload_input]
  | ends hreading _ hstate => exact hthrough hreading hstate rfl rfl (Nat.le_refl _)
  | trailers hreading _ _ hstate =>
    refine hthrough hreading hstate rfl rfl ?_
    show (c.input.consume _).asSlice.length ≤ _
    rw [Buffer.asSlice_consume, List.length_drop]
    omega

/-- A turn that reports nothing does not make it larger. -/
theorem Turn.again_potential (h : Turn hp c (.ok none) c') : c'.potential ≤ c.potential := by
  have hless : ∀ {count}, c.Reading → c'.input = c.input.consume count → c'.potential ≤ c.potential := by
    intro count hreading hinput
    have hle := potential_le c'
    rw [hinput, Buffer.asSlice_consume, List.length_drop] at hle
    rw [hreading.potential]
    omega
  cases h with
  | sizeLine hreading => exact hless hreading rfl
  | dataEnd hreading => exact hless hreading rfl

theorem Turns.potential {polled : Polled} (hhp : hp.TakesBytes) (h : Turns hp c (.ok polled) c')
    (hc : c.ChunkOpen) (hgoes : goesOn polled = true) :
    (taken polled c').potential < c.potential ∧ (taken polled c').ChunkOpen := by
  generalize hr : (.ok polled : Except RemoteProtocolError Polled) = r at h
  induction h with
  | last h =>
    subst hr
    refine ⟨h.potential hhp hc hgoes, ?_⟩
    cases polled with
    | data => exact (h.chunkOpen hc).same rfl
    | event | needData | paused => exact h.chunkOpen hc
  | again h _ ih =>
    obtain ⟨hless, hopen⟩ := ih (h.chunkOpen hc) hr
    exact ⟨Nat.lt_of_lt_of_le hless h.again_potential, hopen⟩

theorem nextEvent_potential {event : Event} (hhp : hp.TakesBytes) (hc : c.ChunkOpen)
    (h : nextEvent hp c = (.ok (.event event), c')) (hevent : event ≠ .connectionClosed) :
    c'.potential < c.potential ∧ c'.ChunkOpen := by
  unfold nextEvent at h
  rcases hinner : nextEventInner hp c with ⟨error | polled, c1⟩
  · rw [hinner] at h
    cases h
  · rw [hinner] at h
    have hturns := nextEventInner_turns hinner
    cases polled with
    | event other =>
      cases h
      refine hturns.potential hhp hc ?_
      cases event with
      | connectionClosed => exact absurd rfl hevent
      | _ => rfl
    | data count chunkStart chunkEnd =>
      cases h
      exact hturns.potential hhp hc rfl
    | needData | paused => cases h

/-! ## The two loops -/

/-- One round of the recursion between `next_event_inner` and `read_chunked`. -/
def dispatchTurn (hp : Httparse) (c : Connection) :
    (Except RemoteProtocolError Polled × Connection) ⊕ Connection :=
  match dispatch hp c with
  | (.ok (some polled), c') => .inl (.ok polled, c')
  | (.ok none, c') => .inr c'
  | (.error error, c') => .inl (.error error, c')

/-- One poll of a caller that polls for the events of a message. -/
def pollTurn (hp : Httparse) (s : List Event × Connection) :
    (List Event × Except RemoteProtocolError NextEvent × Connection) ⊕ (List Event × Connection) :=
  match nextEvent hp s.2 with
  | (.ok (.event .connectionClosed), c') => .inl (s.1, .ok (.event .connectionClosed), c')
  | (.ok (.event event), c') => .inr (s.1 ++ [event], c')
  | (r, c') => .inl (s.1, r, c')

/-- The results at which such a caller stops. -/
def endsPolling : Except RemoteProtocolError NextEvent → Bool
  | .error _ | .ok .needData | .ok .paused | .ok (.event .connectionClosed) => true
  | .ok (.event _) => false

theorem dispatch_loop_ends (hp : Httparse) (c : Connection) :
    Lib.loop (dispatchTurn hp) (c.input.asSlice.length + 1) c = some (nextEventInner hp c) := by
  refine Lib.loop_ends (nextEventInner hp) (fun c => c.input.asSlice.length) ?_ ?_ (Nat.lt_succ_self _)
  · intro c result h
    unfold dispatchTurn at h
    split at h
    next hdispatch =>
      cases h
      exact nextEventInner_reports hdispatch
    · cases h
    next hdispatch =>
      cases h
      exact nextEventInner_fails hdispatch
  · intro c c' h
    unfold dispatchTurn at h
    split at h
    · cases h
    next hdispatch =>
      cases h
      exact ⟨dispatch_again_lt hdispatch, nextEventInner_again hdispatch⟩
    · cases h

theorem poll_loop_ends (hhp : hp.TakesBytes) {turns : Nat} (hc : c.ChunkOpen) (h : c.potential < turns)
    (events : List Event) : ∃ more last c', Lib.loop (pollTurn hp) turns (events, c) =
      some (events ++ more, last, c') ∧ more.length ≤ c.potential ∧ endsPolling last = true := by
  induction turns generalizing c events with
  | zero => omega
  | succ turns ih =>
    have hstop : ∀ last c', pollTurn hp (events, c) = .inl (events, last, c') → endsPolling last = true →
        ∃ more last c', Lib.loop (pollTurn hp) (turns + 1) (events, c) =
          some (events ++ more, last, c') ∧ more.length ≤ c.potential ∧ endsPolling last = true := by
      intro last c' hturn hends
      refine ⟨[], last, c', ?_, Nat.zero_le _, hends⟩
      rw [Lib.loop, hturn, List.append_nil]
    rcases hpoll : nextEvent hp c with ⟨error | next, c'⟩
    · exact hstop (.error error) c' (by unfold pollTurn; rw [hpoll]) rfl
    · cases next with
      | needData => exact hstop (.ok .needData) c' (by unfold pollTurn; rw [hpoll]) rfl
      | paused => exact hstop (.ok .paused) c' (by unfold pollTurn; rw [hpoll]) rfl
      | event event =>
        by_cases hclosed : event = .connectionClosed
        · subst hclosed
          exact hstop (.ok (.event .connectionClosed)) c' (by unfold pollTurn; rw [hpoll]) rfl
        · -- An event of the message: the rest of the loop starts with less.
          obtain ⟨hless, hopen⟩ := nextEvent_potential hhp hc hpoll hclosed
          have hturn : pollTurn hp (events, c) = .inr (events ++ [event], c') := by
            unfold pollTurn
            rw [hpoll]
            cases event with
            | connectionClosed => exact absurd rfl hclosed
            | _ => rfl
          obtain ⟨more, last, c'', hloop, hlength, hends⟩ := ih hopen (by omega) (events ++ [event])
          refine ⟨event :: more, last, c'', ?_, ?_, hends⟩
          · rw [Lib.loop, hturn]
            show Lib.loop (pollTurn hp) turns (events ++ [event], c') = _
            rw [hloop, List.append_assoc]
            rfl
          · rw [List.length_cons]
            omega

/-- Every poll ends, and polling ends within two events more than there are
bytes. -/
theorem polling_terminates (hhp : hp.TakesBytes) (h : Reachable hp c) :
    (∀ c : Connection,
      Lib.loop (dispatchTurn hp) (c.input.asSlice.length + 1) c = some (nextEventInner hp c)) ∧
    ∃ events last c', Lib.loop (pollTurn hp) (c.input.asSlice.length + 2) ([], c) =
        some (events, last, c') ∧
      events.length ≤ c.input.asSlice.length + 2 ∧ endsPolling last = true := by
  refine ⟨dispatch_loop_ends hp, ?_⟩
  have hle := potential_le c
  obtain ⟨events, last, c', hloop, hlength, hends⟩ :=
    poll_loop_ends hhp (reachable_chunkOpen h) (show c.potential < c.input.asSlice.length + 2 by omega) []
  exact ⟨events, last, c', hloop, by omega, hends⟩

/-- A request in the buffer of a server. -/
theorem polling_a_request_terminates :
    ∃ (history : List (Op × Outcome)) (c : Connection) (events : List Event)
      (last : Except RemoteProtocolError NextEvent) (c' : Connection),
      Run Reference.httparse anyCall .server .default history c ∧
      c.input.asSlice = plainGetHead .http11 ∧
      Lib.loop (pollTurn Reference.httparse) (c.input.asSlice.length + 2) ([], c) =
        some (events, last, c') ∧ events.length ≤ c.input.asSlice.length + 2 ∧ endsPolling last = true := by
  have hrun : Run Reference.httparse anyCall .server .default _ _ :=
    Lib.Run.trace_of_forall _ [.receiveData (plainGetHead .http11)] fun _ _ => trivial
  obtain ⟨events, last, c', hloop⟩ :=
    (polling_terminates Reference.stable.takesBytes ⟨_, _, _, hrun⟩).2
  exact ⟨_, _, events, last, c', hrun, by decide +kernel, hloop⟩

end Connection

end H11r
