import H11r.Connection.Ahead
import H11r.Connection.Reuse
import H11r.Connection.Stream

/-!
# A connection inside payload

While the peer sends a body and its decoder is inside payload, a call can do
little. A poll delivers what there is of the payload, held bytes are handed
over, and nothing that sends, or tries to start another message, takes the peer
out of its body.
-/

namespace H11r

open Lib (Call)

/-! ## Payload is delivered -/

namespace Reader

/-- How much of the bytes that are there one poll delivers. -/
def portion : Reader → Nat → Nat
  | .fixed remaining, available => min remaining available
  | .chunked (.data remaining _), available => min remaining available
  | _, available => available

theorem portion_le (reader : Reader) (available : Nat) : reader.portion available ≤ available := by
  unfold portion
  split
  · exact Nat.min_le_right _ _
  · exact Nat.min_le_right _ _
  · exact Nat.le_refl _

end Reader

namespace Connection

variable {hp : Httparse} {c : Connection} {count : Nat}

/-- The decoder is inside payload: at least one more byte of it is to come. -/
def Inside (c : Connection) : Prop :=
  c.peerState = .sendBody ∧ c.cycle.reader.Room 1

theorem advancePayload_room (hroom : c.cycle.reader.Room count) (hcount : count ≠ 0) :
    c.advancePayload count =
      ((count, c.cycle.reader.startsChunk, c.cycle.reader.endsChunk count),
        c.setReader (c.cycle.reader.after count)) := by
  unfold advancePayload
  cases hreader : c.cycle.reader with
  | head =>
    rw [hreader] at hroom
    exact hroom.elim
  | fixed remaining =>
    rw [hreader] at hroom
    have hle : count ≤ remaining := hroom
    dsimp only
    rw [Nat.min_eq_right hle]
    rfl
  | closeDelimited =>
    have hsame : c.setReader .closeDelimited = c := by
      rw [← hreader]
      rfl
    show ((count, false, false), c) = ((count, false, false), c.setReader .closeDelimited)
    rw [hsame]
  | chunked chunk =>
    rw [hreader] at hroom
    cases chunk with
    | size | dataEnd | trailers => exact hroom.elim
    | data remaining first =>
      have hle : count ≤ remaining := hroom
      dsimp only
      rw [Nat.min_eq_right hle, Reader.after_data first hcount]
      rfl

theorem processEvent_data_inside (hpeer : c.peerState = .sendBody) :
    c.state.processEvent c.role.peer .data = some c.state := by
  unfold ConnectionState.processEvent
  exact if_pos ⟨rfl, hpeer⟩

theorem peerData_inside (hpeer : c.peerState = .sendBody) (chunkStart chunkEnd : Bool) :
    peerData count chunkStart chunkEnd c = (.ok (.data count chunkStart chunkEnd),
      c.mapCycle fun cycle => { cycle with waitingForContinue := false }) := by
  unfold peerData
  have hadvance : advancePeer .data c = (.ok (), c) := by
    unfold advancePeer
    rw [processEvent_data_inside hpeer]
  rw [Call.bind_of_ok hadvance]
  rfl

/-- The `Data` event of the payload that the decoder has just passed. -/
theorem peerData_ahead (hpeer : c.peerState = .sendBody) (hcount : count ≠ 0)
    (chunkStart chunkEnd : Bool) :
    peerData count chunkStart chunkEnd (c.setReader (c.cycle.reader.after count)) =
      (.ok (.data count chunkStart chunkEnd), c.ahead count c.input c.held) := by
  have hsame : (c.setReader (c.cycle.reader.after count)).peerState = .sendBody := hpeer
  rw [peerData_inside hsame]
  unfold ahead
  rw [decide_eq_false hcount, Bool.and_false]
  rfl

/-- Held bytes inside payload are handed over. -/
theorem nextEventInPlace_inside (hpeer : c.peerState = .sendBody)
    (hroom : c.cycle.reader.Room count) (hcount : count ≠ 0) (hheld : count ≤ c.held) :
    nextEventInPlace count c =
      (.ok (c.cycle.reader.startsChunk, c.cycle.reader.endsChunk count),
        c.ahead count c.input (c.held - count)) := by
  unfold nextEventInPlace
  rw [Call.get_bind, Call.failIf_bind, if_neg (by omega), advancePayload_room hroom hcount,
    Call.modify_bind, advancePayload_room hroom hcount]
  have hpolled := Call.mapError_eq_ok
    (g := fun _ => localError "held body bytes are invalid in the peer state").mpr
    (peerData_ahead hpeer hcount c.cycle.reader.startsChunk (c.cycle.reader.endsChunk count))
  rw [Call.bind_of_ok hpolled]
  rfl

/-- A poll inside payload delivers what is there of it. -/
theorem dispatch_inside (hp : Httparse) (hinside : c.Inside) (hinput : c.input.asSlice ≠ []) :
    ∃ count, count = c.cycle.reader.portion c.input.asSlice.length ∧ count ≠ 0 ∧
      c.cycle.reader.Room count ∧
      dispatch hp c = (.ok (some (.data count c.cycle.reader.startsChunk
        (c.cycle.reader.endsChunk count))), c.ahead count c.input c.held) := by
  obtain ⟨hpeer, hone⟩ := hinside
  have hlength := List.length_pos_iff.mpr hinput
  have hbody : dispatch hp c = readBody hp c := by
    unfold dispatch
    rw [Call.get_bind]
    simp only [hpeer]
  -- The reader takes its part of the buffer, and the state machine stays in the body.
  have hread : ∀ message count, count ≠ 0 → c.cycle.reader.Room count →
      c.advancePayload c.input.asSlice.length = c.advancePayload count →
      readPayload message c = (.ok (.data count c.cycle.reader.startsChunk
        (c.cycle.reader.endsChunk count)), c.ahead count c.input c.held) := by
    intro message count hcount hroom hpart
    unfold readPayload
    rw [Call.get_bind, if_neg hinput, Call.modify_bind, hpart, advancePayload_room hroom hcount]
    exact peerData_ahead hpeer hcount _ _
  rw [hbody]
  unfold readBody
  rw [Call.get_bind]
  cases hreader : c.cycle.reader with
  | head =>
    rw [hreader] at hone
    exact hone.elim
  | fixed remaining =>
    rw [hreader] at hone hread
    have hle : 1 ≤ remaining := hone
    have hcount : min remaining c.input.asSlice.length ≠ 0 := by omega
    refine ⟨min remaining c.input.asSlice.length, rfl, hcount, Nat.min_le_left _ _, ?_⟩
    obtain ⟨fewer, rfl⟩ : ∃ fewer, remaining = fewer + 1 := ⟨remaining - 1, by omega⟩
    have hpart : c.advancePayload c.input.asSlice.length =
        c.advancePayload (min (fewer + 1) c.input.asSlice.length) := by
      unfold advancePayload
      rw [hreader]
      dsimp only
      rw [← Nat.min_assoc, Nat.min_self]
    exact Call.bind_of_ok (hread _ _ hcount (Nat.min_le_left _ _) hpart)
  | closeDelimited =>
    refine ⟨c.input.asSlice.length, rfl, by omega, trivial, ?_⟩
    have hsame : c.setReader (c.cycle.reader.after c.input.asSlice.length) = c := by
      rw [hreader]
      show c.setReader .closeDelimited = c
      rw [← hreader]
      rfl
    have hsome : c.input.asSlice.length ≠ 0 := by omega
    have hdata := peerData_ahead hpeer hsome false false
    rw [hsame] at hdata
    dsimp only
    rw [if_pos hinput]
    exact Call.bind_of_ok hdata
  | chunked chunk =>
    rw [hreader] at hone hread
    cases chunk with
    | size | dataEnd | trailers => exact hone.elim
    | data remaining first =>
      have hle : 1 ≤ remaining := hone
      have hcount : min remaining c.input.asSlice.length ≠ 0 := by omega
      refine ⟨min remaining c.input.asSlice.length, rfl, hcount, Nat.min_le_left _ _, ?_⟩
      have hpart : c.advancePayload c.input.asSlice.length =
          c.advancePayload (min remaining c.input.asSlice.length) := by
        unfold advancePayload
        rw [hreader]
        dsimp only
        rw [← Nat.min_assoc, Nat.min_self]
      exact Call.bind_of_ok (hread _ _ hcount (Nat.min_le_left _ _) hpart)

theorem nextEvent_inside (hp : Httparse) (hinside : c.Inside) (hinput : c.input.asSlice ≠ []) :
    ∃ count, count = c.cycle.reader.portion c.input.asSlice.length ∧ count ≠ 0 ∧
      c.cycle.reader.Room count ∧
      nextEvent hp c = (.ok (.event (.data (c.input.asSlice.take count) c.cycle.reader.startsChunk
        (c.cycle.reader.endsChunk count))), c.ahead count (c.input.consume count) c.held) := by
  obtain ⟨count, hportion, hcount, hroom, hdispatch⟩ := dispatch_inside hp hinside hinput
  refine ⟨count, hportion, hcount, hroom, ?_⟩
  unfold nextEvent
  rw [nextEventInner_reports hdispatch]
  rfl

/-- A poll inside payload waits when nothing is there and more may come. -/
theorem nextEvent_waits (hinside : c.Inside) (hinput : c.input.asSlice = []) (heof : c.eof = false) :
    nextEvent hp c = (.ok .needData, c) := by
  obtain ⟨hpeer, hone⟩ := hinside
  have hwait : ∀ message, needDataOrEof message c = (.ok .needData, c) := by
    intro message
    unfold needDataOrEof
    rw [Call.get_bind, Call.failIf_bind, if_neg (by rw [heof]; decide)]
    rfl
  have hread : ∀ message, readPayload message c = (.ok .needData, c) := by
    intro message
    unfold readPayload
    rw [Call.get_bind, if_pos hinput]
    exact hwait message
  have hdispatch : dispatch hp c = (.ok (some .needData), c) := by
    unfold dispatch
    rw [Call.get_bind]
    simp only [hpeer]
    unfold readBody
    rw [Call.get_bind]
    cases hreader : c.cycle.reader with
    | head =>
      rw [hreader] at hone
      exact hone.elim
    | fixed remaining =>
      rw [hreader] at hone
      have hle : 1 ≤ remaining := hone
      obtain ⟨fewer, rfl⟩ : ∃ fewer, remaining = fewer + 1 := ⟨remaining - 1, by omega⟩
      exact Call.bind_of_ok (hread _)
    | closeDelimited =>
      dsimp only
      rw [if_neg (fun hsome => hsome hinput), heof]
      rfl
    | chunked chunk =>
      rw [hreader] at hone
      cases chunk with
      | size | dataEnd | trailers => exact hone.elim
      | data remaining first => exact Call.bind_of_ok (hread _)
  unfold nextEvent
  rw [nextEventInner_reports hdispatch]

/-! ## Calls that leave the peer where it is -/

/-- Nothing that sends takes the peer out of its body, or moves its decoder. -/
theorem step_sends_inside {op : Op} (hop : op.sends = true) (hpeer : c.peerState = .sendBody) :
    (step hp op c).2.peerState = .sendBody ∧ (step hp op c).2.cycle.reader = c.cycle.reader := by
  refine Lib.preserve (P := fun c' => c'.peerState = .sendBody ∧ c'.cycle.reader = c.cycle.reader)
    (fun c1 c2 h hc => ⟨h.peer_sendBody hc.1, ?_⟩) (step_local hop c) ⟨hpeer, rfl⟩
  rw [h.decoder.1]
  exact hc.2

/-- Inside a body no request is sent, and trying to changes nothing. -/
theorem step_request_refused (hp : Httparse) {op : Op} (hop : op.sendsRequest = true)
    (hpeer : c.peerState = .sendBody) :
    ∃ error, step hp op c = (.refused error, c) := by
  have hnever : ∀ {request : Request} {bytes : Bytes} {c' : Connection},
      sendRequest request c ≠ (.ok bytes, c') := by
    intro request bytes c' hsent
    obtain ⟨hrole, hfresh⟩ := sendRequest_fresh hsent
    unfold peerState at hpeer
    rw [hrole] at hpeer
    have hserver : c.state.server = .sendBody := hpeer
    rw [hfresh.server] at hserver
    cases hserver
  have hrefused : ∀ {α : Type} {value : α → Outcome} {call : LocalCall α}, Call.Atomic call →
      (∀ a c', call c ≠ (.ok a, c')) → ∃ error, outcome value (call c) = (.refused error, c) := by
    intro α value call hatomic hno
    rcases hcall : call c with ⟨error | a, c'⟩
    · have hsame : c' = c := hatomic _ _ _ hcall
      subst hsame
      exact ⟨error, rfl⟩
    · exact absurd hcall (hno a c')
  cases op with
  | sendRequest request => exact hrefused (sendRequest_atomic _) fun _ _ => hnever
  | sendRequestWithBody request body =>
    refine hrefused (sendRequestWithBody_atomic _ _) fun bytes c' hsent => ?_
    obtain ⟨parts, hframing, _⟩ := sendRequestWithBody_ok hsent
    obtain ⟨before, c1, hhead, _⟩ := sendRequestWithBodyFraming_ok hframing
    exact hnever hhead
  | sendRequestWithBodyFraming request length =>
    refine hrefused (sendRequestWithBodyFraming_atomic _ _) fun parts c' hsent => ?_
    obtain ⟨before, c1, hhead, _⟩ := sendRequestWithBodyFraming_ok hsent
    exact hnever hhead
  | _ => cases hop

/-- Inside a body no cycle is started. -/
theorem step_startNextCycle_inside (hpeer : c.peerState = .sendBody) :
    ∃ error, startNextCycle c = (.error error, c) ∧
      error = localError "connection is not reusable" := by
  have hnone : c.state.startNextCycle = none := by
    cases hstate : c.state.startNextCycle with
    | none => rfl
    | some state =>
      obtain ⟨hclient, hserver, _, _⟩ := ConnectionState.bodyLaws.cycle _ _ hstate
      unfold peerState at hpeer
      cases hrole : c.role with
      | client =>
        rw [hrole] at hpeer
        have hbody : c.state.server = .sendBody := hpeer
        rw [hserver] at hbody
        cases hbody
      | server =>
        rw [hrole] at hpeer
        have hbody : c.state.client = .sendBody := hpeer
        rw [hclient] at hbody
        cases hbody
  refine ⟨_, ?_, rfl⟩
  unfold startNextCycle
  rw [if_neg (by rw [hpeer]; rintro ⟨_, hdone, _⟩; cases hdone), hnone]

/-- Inside a body no call that neither brings bytes nor takes any does
anything to the decoder. -/
theorem step_quiet_inside (hp : Httparse) {op : Op} (hop : op.quiet = true) (hpeer : c.peerState = .sendBody) :
    (step hp op c).2.peerState = .sendBody ∧ (step hp op c).2.cycle.reader = c.cycle.reader := by
  cases op with
  | receiveData | holdBodyData | nextEventInPlace | nextEvent => cases hop
  | lenient => exact ⟨hpeer, rfl⟩
  | startNextCycle =>
    obtain ⟨error, hrefused, _⟩ := step_startNextCycle_inside hpeer
    have hsame : (step hp .startNextCycle c).2 = c := by
      show (outcome _ (startNextCycle c)).2 = c
      rw [hrefused]
      rfl
    rw [hsame]
    exact ⟨hpeer, rfl⟩
  | _ => exact step_sends_inside rfl hpeer

theorem recordEof_inside (hpeer : c.peerState = .sendBody) : c.recordEof.peerState = .sendBody := by
  unfold recordEof peerState at *
  rw [disableKeepAliveIf_role, disableKeepAliveIf_state]
  exact ConnectionState.disableKeepAliveIf_sendBody _ hpeer

/-! ## Holding -/

/-- What `hold_body_data` has checked. -/
theorem canHold_room {length : Nat} (h : c.canHold length = true)
    (hfits : c.held + length < UInt64.size) :
    length ≠ 0 ∧ c.eof = false ∧ c.input.asSlice = [] ∧ c.peerState = .sendBody ∧
      c.cycle.reader.Room (c.held + length) := by
  have hpeer := canHold_peer h
  unfold canHold at h
  simp only [Bool.and_eq_true, bne_iff_ne, ne_eq, Bool.not_eq_true', List.isEmpty_iff] at h
  obtain ⟨⟨⟨hlength, heof⟩, hinput⟩, hremaining⟩ := h
  have hsum : usizeAdd c.held length = c.held + length := Nat.mod_eq_of_lt hfits
  refine ⟨hlength, heof, hinput, hpeer, ?_⟩
  unfold payloadRemaining at hremaining
  rw [if_neg (fun hne => hne hpeer), hsum] at hremaining
  cases hreader : c.cycle.reader with
  | head =>
    rw [hreader] at hremaining
    cases hremaining
  | fixed remaining =>
    rw [hreader] at hremaining
    dsimp only at hremaining
    split at hremaining
    · show c.held + length ≤ remaining
      exact of_decide_eq_true hremaining
    · cases hremaining
  | closeDelimited => trivial
  | chunked chunk =>
    rw [hreader] at hremaining
    cases chunk with
    | size | dataEnd | trailers => cases hremaining
    | data remaining first =>
      show c.held + length ≤ remaining
      exact of_decide_eq_true hremaining

end Connection

end H11r
