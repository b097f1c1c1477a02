import H11r.Wire.Section
import H11r.Connection.Atomic

/-!
# Bytes are neither lost nor duplicated

Bytes leave the receive buffer at many places. What is common to them is in
`Turn.input`: a turn drops bytes from the front of the buffer, and never more
than there are. A `Data` event takes its bytes from the front as well, after
whatever framing the turns before it have dropped (`nextEvent_input`).

`Tape` adds to a connection what its caller knows of the bytes: all of them in
the order they were received, how many the polls have consumed, those the
caller holds in place of the buffer, and which stretch of the stream each
`Data` event carried.
-/

namespace H11r.Connection

variable {hp : Httparse} {c c' : Connection}

/-- The states of a peer that is through with its message. -/
def through : State → Bool
  | .done | .mightSwitchProtocol | .switchedProtocol | .mustClose | .closed | .error => true
  | _ => false

/-- Within a cycle an actor that is through stays so. -/
theorem move_through {peer actor : Role} {s s' : ConnectionState} (h : Move peer s s')
    (hs : through (s.state actor) = true) : through (s'.state actor) = true := by
  have hevent : ∀ (role : Role) (event : StateEvent) (s : ConnectionState) (actor : Role),
      through (s.state actor) = true → ∀ s', s.processEvent role event = some s' →
        through (s'.state actor) = true := by
    decide +kernel
  have hdisable : ∀ (s : ConnectionState) (actor : Role),
      through (s.state actor) = true → through (s.disableKeepAlive.state actor) = true := by
    decide +kernel
  have herror : ∀ (role : Role) (s : ConnectionState) (actor : Role),
      through (s.state actor) = true → through ((s.processError role).state actor) = true := by
    decide +kernel
  cases h with
  | event h => exact hevent _ _ _ _ hs _ h
  | disable => exact hdisable _ _ hs
  | poison => exact herror _ _ _ hs

theorem Reading.not_through (h : c.Reading) : through c.peerState = false := by
  rcases h with ⟨h, _⟩ | h | h <;> rw [h] <;> rfl

/-- `count` bytes are dropped from the front of the buffer, which holds them. -/
def Drops (count : Nat) (c c' : Connection) : Prop :=
  count ≤ c.input.asSlice.length ∧ c'.input.asSlice = c.input.asSlice.drop count

instance decidableDrops (count : Nat) (c c' : Connection) : Decidable (Drops count c c') :=
  inferInstanceAs (Decidable (_ ∧ _))

theorem Drops.zero (h : c'.input = c.input) : Drops 0 c c' :=
  ⟨Nat.zero_le _, by rw [h, List.drop_zero]⟩

theorem Drops.trans {c'' : Connection} {m n : Nat} (h : Drops m c c') (h' : Drops n c' c'') :
    Drops (m + n) c c'' := by
  obtain ⟨hm, hc'⟩ := h
  obtain ⟨hn, hc''⟩ := h'
  rw [hc', List.length_drop] at hn
  exact ⟨by omega, by rw [hc'', hc', List.drop_drop]⟩

theorem headSection_le (c : Connection) : c.headSection.length ≤ c.input.asSlice.length := by
  unfold headSection
  rw [List.length_take]
  exact Nat.min_le_right _ _

theorem Drops.consume {count : Nat} (h : count ≤ c.input.asSlice.length)
    (hinput : c'.input = c.input.consume count) : Drops count c c' :=
  ⟨h, by rw [hinput, Buffer.asSlice_consume]⟩

theorem advancePayload_input (count : Nat) (c : Connection) :
    (c.advancePayload count).2.input = c.input := by
  unfold advancePayload
  split <;> rfl

theorem advancePayload_le (count : Nat) (c : Connection) : (c.advancePayload count).1.1 ≤ count := by
  unfold advancePayload
  split
  · exact Nat.min_le_right _ _
  · exact Nat.min_le_right _ _
  · exact Nat.le_refl _

/-- A turn drops bytes from the front of the buffer, and none once the peer is
through with its message. -/
theorem Turn.input {r : Except RemoteProtocolError (Option Polled)} (h : Turn hp c r c') :
    ∃ count, Drops count c c' ∧ (through c.peerState = true → count = 0) := by
  have hnone : c'.input = c.input → ∃ count, Drops count c c' ∧
      (through c.peerState = true → count = 0) := fun hsame => ⟨0, .zero hsame, fun _ => rfl⟩
  have hsome : ∀ {count}, c.Reading → count ≤ c.input.asSlice.length →
      c'.input = c.input.consume count → ∃ count, Drops count c c' ∧
      (through c.peerState = true → count = 0) := fun hreading hle hinput =>
    ⟨_, .consume hle hinput, fun hthrough => by
      rw [hreading.not_through] at hthrough
      cases hthrough⟩
  cases h with
  | closed | paused | doneWaits | poisoned | waits | fails | doneClosed | ends => exact hnone rfl
  | idleClosed hpeer =>
    refine ⟨c.input.asSlice.length, .consume (Nat.le_refl _) rfl, fun hthrough => ?_⟩
    rw [hpeer] at hthrough
    cases hthrough
  | request hreading _ _ hparse =>
    refine hsome hreading (Nat.le_trans (parseRequestHead_le hparse) (headSection_le c)) ?_
    rw [acceptedRequest_input]
    rfl
  | requestRejected hreading _ _ hparse =>
    exact hsome hreading (Nat.le_trans (parseRequestHead_le hparse) (headSection_le c)) rfl
  | informational hreading _ _ hparse =>
    refine hsome hreading (Nat.le_trans (parseResponseHead_le hparse) (headSection_le c)) ?_
    rw [acceptedInformational_input, consumeSection_input]
  | final hreading _ _ hparse =>
    refine hsome hreading (Nat.le_trans (parseResponseHead_le hparse) (headSection_le c)) ?_
    rw [acceptedFinal_input, consumeSection_input]
  | finalFaulty hreading _ _ hparse =>
    refine hsome hreading (Nat.le_trans (parseResponseHead_le hparse) (headSection_le c)) ?_
    rw [countedFinal_input, consumeSection_input]
  | responseRejected hreading _ _ hparse =>
    exact hsome hreading (Nat.le_trans (parseResponseHead_le hparse) (headSection_le c))
      (consumeSection_input _ _ _)
  | payload => exact hnone (advancePayload_input _ _)
  | payloadRejected => exact hnone (advancePayload_input _ _)
  | trailers hreading _ hparse =>
    exact hsome hreading (Nat.le_trans (parseTrailers_le hparse) (headSection_le c)) rfl
  | trailersRejected hreading _ hparse =>
    exact hsome hreading (Nat.le_trans (parseTrailers_le hparse) (headSection_le c)) rfl
  | sizeLine hreading _ hstop => exact hsome hreading (findCrlf_le hstop).2 rfl
  | dataEnd hreading _ hcrlf =>
    refine hsome hreading ?_ rfl
    have hlen := congrArg List.length hcrlf
    have htwo : crlf.length = 2 := rfl
    rw [List.length_take] at hlen
    omega

theorem Turns.input {r : Except RemoteProtocolError Polled} (h : Turns hp c r c') :
    ∃ count, Drops count c c' ∧ (through c.peerState = true → count = 0) := by
  induction h with
  | last h => exact h.input
  | @again c c1 _ _ h _ ih =>
    obtain ⟨m, hm, hzero⟩ := h.input
    obtain ⟨n, hn, hzero'⟩ := ih
    refine ⟨m + n, hm.trans hn, fun hthrough => ?_⟩
    have hpeer : c1.peerState = c.peerState := by
      unfold peerState
      rw [h.again_state, h.frame.role]
    rw [hzero hthrough, hzero' (hpeer ▸ hthrough)]

/-- The bytes of a `Data` event are at the front of the buffer when the decoder
reports them. -/
theorem Turns.data_le {count : Nat} {chunkStart chunkEnd : Bool}
    (h : Turns hp c (.ok (.data count chunkStart chunkEnd)) c') :
    count ≤ c'.input.asSlice.length := by
  obtain ⟨c1, _, _, _, hturn⟩ := h.last_turn
  cases hturn with
  | payload =>
    show _ ≤ (c1.advancePayload _).2.input.asSlice.length
    rw [advancePayload_input]
    exact advancePayload_le _ _

/-- What a poll takes out of the buffer: `count` bytes from the front, of which
the last are those of the `Data` event it reports. -/
theorem nextEvent_input {r : Except RemoteProtocolError NextEvent}
    (h : nextEvent hp c = (r, c')) :
    ∃ count, Drops count c c' ∧ (through c.peerState = true → count = 0) ∧
      ∀ data chunkStart chunkEnd, r = .ok (.event (.data data chunkStart chunkEnd)) →
        ∃ framing, framing + data.length = count ∧
          data = (c.input.asSlice.drop framing).take data.length := by
  unfold nextEvent at h
  rcases hinner : nextEventInner hp c with ⟨error | polled, c1⟩
  · rw [hinner] at h
    cases h
    obtain ⟨count, hdrops, hzero⟩ := (nextEventInner_turns hinner).input
    exact ⟨count, hdrops, hzero, by simp⟩
  · rw [hinner] at h
    have hturns := nextEventInner_turns hinner
    obtain ⟨framing, hdrops, hzero⟩ := hturns.input
    cases polled with
    | event event =>
      cases h
      refine ⟨framing, hdrops, hzero, ?_⟩
      intro data chunkStart chunkEnd hdata
      -- The decoder reports data by count, never as an event of its own.
      obtain ⟨c2, _, _, _, hturn⟩ := hturns.last_turn
      cases hdata
      cases hturn
    | data count chunkStart chunkEnd =>
      cases h
      have hle := hturns.data_le
      have htaken : Drops count c1 { c1 with input := c1.input.consume count } := .consume hle rfl
      refine ⟨framing + count, hdrops.trans htaken, ?_, ?_⟩
      · intro hthrough
        obtain ⟨c2, hstate, hframe, _, hturn⟩ := hturns.last_turn
        cases hturn with
        | payload hreading =>
          have hpeer : c2.peerState = c.peerState := by
            unfold peerState
            rw [hstate, hframe.role]
          rw [← hpeer, hreading.not_through] at hthrough
          cases hthrough
      · intro data _ _ hdata
        cases hdata
        have hlength : (c1.input.asSlice.take count).length = count := by
          rw [List.length_take]
          omega
        exact ⟨framing, by rw [hlength], by rw [hlength, hdrops.2]⟩
    | needData =>
      cases h
      exact ⟨framing, hdrops, hzero, by simp⟩
    | paused =>
      cases h
      exact ⟨framing, hdrops, hzero, by simp⟩

theorem LocalChanges.sameOutside (h : LocalChanges c c') : SameOutside c c' :=
  Lib.preserve (P := SameOutside c) (fun _ _ h hc => hc.trans h.sameOutside) h rfl

theorem step_sameOutside {op : Op} (hop : op.sends = true) (c : Connection) :
    SameOutside c (step hp op c).2 :=
  (step_local hop c).sameOutside

/-- Calls that neither bring bytes in nor take bytes out. -/
def Op.quiet : Op → Bool
  | .receiveData _ | .holdBodyData _ | .nextEventInPlace _ | .nextEvent => false
  | _ => true

theorem step_quiet {op : Op} (hop : op.quiet = true) (c : Connection) :
    (step hp op c).2.input = c.input ∧ (step hp op c).2.held = c.held := by
  cases op with
  | receiveData | holdBodyData | nextEventInPlace | nextEvent => cases hop
  | lenient => exact ⟨rfl, rfl⟩
  | startNextCycle =>
    show (outcome _ (startNextCycle c)).2.input = _ ∧ (outcome _ (startNextCycle c)).2.held = _
    rw [outcome_snd]
    unfold startNextCycle
    split
    · exact ⟨rfl, rfl⟩
    · split <;> exact ⟨rfl, rfl⟩
  | _ => exact ⟨(step_sameOutside rfl c).input, (step_sameOutside rfl c).frame.held⟩

theorem receiveData_ok {data : Bytes} {u : Unit} (h : receiveData data c = (.ok u, c')) :
    c'.input.asSlice = c.input.asSlice ++ data ∧ c'.held = c.held := by
  unfold receiveData at h
  rw [Lib.Call.get_bind] at h
  obtain ⟨_, h⟩ := Lib.Call.failIf_bind_eq_ok.mp h
  split at h
  next hempty =>
    cases h
    unfold recordEof
    rw [disableKeepAliveIf_input, disableKeepAliveIf_held, hempty, List.append_nil]
    exact ⟨rfl, rfl⟩
  next =>
    cases h
    exact ⟨Buffer.asSlice_extend _ _, rfl⟩

/-! ## The stream as its caller sees it -/

/-- A connection and what its caller knows of the bytes it received. -/
structure Tape where
  connection : Connection
  /-- All bytes received so far. -/
  received : Bytes
  /-- How many of them polls have consumed. -/
  consumed : Nat
  /-- Those the caller holds. -/
  held : Bytes
  /-- Where in the stream each `Data` event began, and its bytes. -/
  delivered : List (Nat × Bytes)

/-- A call, or body bytes that the caller offers to hold. -/
inductive TapeOp where
  | call (op : Op)
  | hold (data : Bytes)

namespace Tape

def new (role : Role) (limits : Limits) : Tape := ⟨.new role limits, [], 0, [], []⟩

/-- The tape after a call that returned `outcome` and left `after`. -/
def note (tape : Tape) (op : Op) (outcome : Outcome) (after : Connection) : Tape :=
  match op, outcome with
  | .receiveData data, .unit =>
    { tape with connection := after, received := tape.received ++ data }
  | .nextEventInPlace count, .flags _ _ =>
    { tape with
      connection := after
      consumed := tape.consumed + count
      held := tape.held.drop count
      delivered := tape.delivered ++ [(tape.consumed, tape.held.take count)] }
  | .nextEvent, outcome =>
    let taken := tape.connection.input.asSlice.length - after.input.asSlice.length
    { tape with
      connection := after
      consumed := tape.consumed + taken
      delivered := tape.delivered ++
        match outcome with
        | .polled (.event (.data data _ _)) => [(tape.consumed + taken - data.length, data)]
        | _ => [] }
  | _, _ => { tape with connection := after }

def step (hp : Httparse) (op : TapeOp) (tape : Tape) : Outcome × Tape :=
  match op with
  | .call op =>
    ((Connection.step hp op tape.connection).1,
      tape.note op (Connection.step hp op tape.connection).1
        (Connection.step hp op tape.connection).2)
  | .hold data =>
    let result := holdBodyData data.length tape.connection
    (.held result.1,
      if result.1 then
        { tape with
          connection := result.2
          received := tape.received ++ data
          held := tape.held ++ data }
      else { tape with connection := result.2 })

/-- The caller offers bytes it has, keeps them all in memory, and hands them
over before it polls. -/
def allowed (tape : Tape) (op : TapeOp) : Prop :=
  match op with
  | .call (.holdBodyData _) => False
  | .call .nextEvent => tape.connection.held = 0
  | .call _ => True
  | .hold data => tape.held.length + data.length < UInt64.size

/-- Every byte received is consumed, held or buffered, and every byte consumed
is in at most one `Data` event. -/
structure Accounted (tape : Tape) : Prop where
  held : tape.held.length = tape.connection.held
  inBody : tape.connection.HeldInBody
  consumed_le : tape.consumed ≤ tape.received.length
  stream : tape.received.drop tape.consumed = tape.held ++ tape.connection.input.asSlice
  delivered : ∀ run ∈ tape.delivered, run.1 + run.2.length ≤ tape.consumed ∧
    run.2 = (tape.received.drop run.1).take run.2.length
  ordered : tape.delivered.Pairwise fun earlier later => earlier.1 + earlier.2.length ≤ later.1

variable {tape : Tape}

/-- More bytes at the end change nothing about those delivered before. -/
theorem Accounted.delivered_append (h : tape.Accounted) (data : Bytes) :
    ∀ run ∈ tape.delivered, run.1 + run.2.length ≤ tape.consumed ∧
      run.2 = ((tape.received ++ data).drop run.1).take run.2.length := by
  intro run hmem
  obtain ⟨hle, hslice⟩ := h.delivered run hmem
  have hlen := h.consumed_le
  refine ⟨hle, ?_⟩
  rw [List.drop_append_of_le_length (by omega), List.take_append_of_le_length]
  · exact hslice
  · rw [List.length_drop]
    omega

/-- Bytes that come in and are buffered or held. -/
theorem Accounted.receive (h : tape.Accounted) (data : Bytes) {held : Bytes} {after : Connection}
    (hheld : held.length = after.held) (hbody : after.HeldInBody)
    (hstream : tape.held ++ tape.connection.input.asSlice ++ data = held ++ after.input.asSlice) :
    Accounted { tape with connection := after, received := tape.received ++ data, held := held } where
  held := hheld
  inBody := hbody
  consumed_le := by
    rw [List.length_append]
    exact Nat.le_trans h.consumed_le (Nat.le_add_right _ _)
  stream := by
    show (tape.received ++ data).drop tape.consumed = held ++ after.input.asSlice
    rw [List.drop_append_of_le_length h.consumed_le, h.stream, hstream]
  delivered := h.delivered_append data
  ordered := h.ordered

/-- A `Data` event for the bytes from `framing` to `framing + data.length` of
those not yet consumed. -/
theorem Accounted.deliver (h : tape.Accounted) (framing : Nat) (data held : Bytes)
    (after : Connection) (hheld : held.length = after.held) (hbody : after.HeldInBody)
    (hdata : data = ((tape.held ++ tape.connection.input.asSlice).drop framing).take data.length)
    (hle : framing + data.length ≤ (tape.held ++ tape.connection.input.asSlice).length)
    (hstream : (tape.held ++ tape.connection.input.asSlice).drop (framing + data.length) =
      held ++ after.input.asSlice) :
    Accounted { tape with
      connection := after
      consumed := tape.consumed + (framing + data.length)
      held := held
      delivered := tape.delivered ++ [(tape.consumed + framing, data)] } := by
  have hlength : (tape.held ++ tape.connection.input.asSlice).length =
      tape.received.length - tape.consumed := by
    rw [← h.stream, List.length_drop]
  have hconsumed := h.consumed_le
  refine ⟨hheld, hbody, ?_, ?_, ?_, ?_⟩
  · show tape.consumed + (framing + data.length) ≤ tape.received.length
    omega
  · show tape.received.drop (tape.consumed + (framing + data.length)) = held ++ after.input.asSlice
    rw [← List.drop_drop, h.stream, hstream]
  · intro run hmem
    rcases List.mem_append.mp hmem with hold | hnew
    · obtain ⟨hbefore, hslice⟩ := h.delivered run hold
      exact ⟨by show _ ≤ tape.consumed + (framing + data.length); omega, hslice⟩
    · rw [List.mem_singleton.mp hnew]
      refine ⟨Nat.le_of_eq (Nat.add_assoc _ _ _), ?_⟩
      show data = (tape.received.drop (tape.consumed + framing)).take data.length
      rw [← List.drop_drop, h.stream]
      exact hdata
  · refine List.pairwise_append.mpr ⟨h.ordered, List.pairwise_singleton _ _, ?_⟩
    intro earlier hmem later hnew
    rw [List.mem_singleton.mp hnew]
    have hbefore := (h.delivered earlier hmem).1
    show _ ≤ tape.consumed + framing
    omega

/-- Bytes consumed that no `Data` event carries. -/
theorem Accounted.skip (h : tape.Accounted) {count : Nat} {after : Connection}
    (hheld : tape.held.length = after.held) (hbody : after.HeldInBody)
    (hle : count ≤ (tape.held ++ tape.connection.input.asSlice).length)
    (hstream : (tape.held ++ tape.connection.input.asSlice).drop count =
      tape.held ++ after.input.asSlice) :
    Accounted { tape with connection := after, consumed := tape.consumed + count } := by
  have hlength : (tape.held ++ tape.connection.input.asSlice).length =
      tape.received.length - tape.consumed := by
    rw [← h.stream, List.length_drop]
  have hconsumed := h.consumed_le
  refine ⟨hheld, hbody, ?_, ?_, ?_, h.ordered⟩
  · show tape.consumed + count ≤ tape.received.length
    omega
  · show tape.received.drop (tape.consumed + count) = tape.held ++ after.input.asSlice
    rw [← List.drop_drop, h.stream, hstream]
  · intro run hmem
    obtain ⟨hbefore, hslice⟩ := h.delivered run hmem
    exact ⟨by show _ ≤ tape.consumed + count; omega, hslice⟩

/-- A call that moves no bytes. -/
theorem Accounted.quiet (h : tape.Accounted) {after : Connection}
    (hinput : after.input.asSlice = tape.connection.input.asSlice)
    (hheld : after.held = tape.connection.held) (hbody : after.HeldInBody) :
    Accounted { tape with connection := after } where
  held := h.held.trans hheld.symm
  inBody := hbody
  consumed_le := h.consumed_le
  stream := by
    show tape.received.drop tape.consumed = tape.held ++ after.input.asSlice
    rw [hinput]
    exact h.stream
  delivered := h.delivered
  ordered := h.ordered

/-! ## One call -/

/-- The call began a new cycle. -/
def startsCycle : TapeOp × Outcome → Bool
  | (.call op, outcome) => Connection.startsCycle (op, outcome)
  | _ => false

end Tape

end H11r.Connection
