import H11r.Connection.Payload
import H11r.Connection.Stream
import H11r.Connection.View

/-!
# Two connections that get the same bytes

A `Side` is a connection with the segments its caller holds and the events the
caller has been given. Of two sides that get the same bytes, one is where the
other will be once it has delivered `count` more bytes of payload that it
already has (`Lead`). Delivering bytes changes `count` and nothing else
(`Gap.deliver`), a call that both make keeps it and is answered alike
(`lead_call`), and so do bytes that come to both (`lead_grow`).
-/

namespace H11r

open Lib (Call)

/-! ## Events up to the splitting of `Data` -/

namespace Event

/-- Body bytes one by one: only the first begins the chunk and only the last
ends it. -/
def bytewise : Bytes → (chunkStart chunkEnd : Bool) → List Event
  | [], _, _ => []
  | [byte], chunkStart, chunkEnd => [.data [byte] chunkStart chunkEnd]
  | byte :: rest, chunkStart, chunkEnd =>
    .data [byte] chunkStart false :: bytewise rest false chunkEnd

/-- An event with its body bytes one by one. -/
def split : Event → List Event
  | .data bytes chunkStart chunkEnd => bytewise bytes chunkStart chunkEnd
  | event => [event]

theorem bytewise_cons {rest : Bytes} (h : rest ≠ []) (byte : UInt8) (chunkStart chunkEnd : Bool) :
    bytewise (byte :: rest) chunkStart chunkEnd =
      .data [byte] chunkStart false :: bytewise rest false chunkEnd := by
  cases rest with
  | nil => exact absurd rfl h
  | cons => rfl

theorem bytewise_length (bytes : Bytes) (chunkStart chunkEnd : Bool) :
    (bytewise bytes chunkStart chunkEnd).length = bytes.length := by
  induction bytes generalizing chunkStart with
  | nil => rfl
  | cons byte rest ih =>
    by_cases hrest : rest = []
    · subst hrest
      rfl
    · rw [bytewise_cons hrest, List.length_cons, ih, List.length_cons]

/-- A `Data` event in two pieces. -/
theorem bytewise_append {bytes more : Bytes} (hbytes : bytes ≠ []) (hmore : more ≠ [])
    (chunkStart chunkEnd : Bool) : bytewise (bytes ++ more) chunkStart chunkEnd =
      bytewise bytes chunkStart false ++ bytewise more false chunkEnd := by
  induction bytes generalizing chunkStart with
  | nil => exact absurd rfl hbytes
  | cons byte rest ih =>
    by_cases hrest : rest = []
    · subst hrest
      exact bytewise_cons hmore byte chunkStart chunkEnd
    · rw [List.cons_append, bytewise_cons (by simp [hrest]), ih hrest, bytewise_cons hrest,
        List.cons_append]

end Event

/-- Two lists of events are the same up to the splitting of `Data` events when
they are the same split as far as possible. -/
def splitAll (events : List Event) : List Event := events.flatMap Event.split

theorem splitAll_append (events more : List Event) :
    splitAll (events ++ more) = splitAll events ++ splitAll more :=
  List.flatMap_append

theorem splitAll_data (data : Bytes) (chunkStart chunkEnd : Bool) :
    splitAll [.data data chunkStart chunkEnd] = Event.bytewise data chunkStart chunkEnd :=
  List.append_nil _

/-- The payload bytes one by one, with the flags their chunk gives them. -/
def Reader.deliver (reader : Reader) (bytes : Bytes) : List Event :=
  Event.bytewise bytes reader.startsChunk (reader.endsChunk bytes.length)

theorem Reader.deliver_append {reader : Reader} {data more : Bytes}
    (h : reader.Room (data.length + more.length)) : reader.deliver (data ++ more) =
      reader.deliver data ++ (reader.after data.length).deliver more := by
  by_cases hdata : data = []
  · subst hdata
    rw [List.length_nil, Reader.after_zero]
    rfl
  by_cases hmore : more = []
  · subst hmore
    rw [List.append_nil]
    exact (List.append_nil _).symm
  have hlength := List.length_pos_iff.mpr hdata
  have hlength' := List.length_pos_iff.mpr hmore
  unfold Reader.deliver
  rw [Event.bytewise_append hdata hmore, List.length_append]
  cases reader with
  | head | fixed | closeDelimited => rfl
  | chunked chunk =>
    cases chunk with
    | size | dataEnd | trailers => exact h.elim
    | data remaining first =>
      have hle : data.length + more.length ≤ remaining := h
      rw [Reader.after_data first (by omega), if_neg (by omega)]
      have hopen : (Reader.chunked (.data remaining first)).endsChunk data.length = false :=
        decide_eq_false (by omega)
      have hend : (Reader.chunked (.data remaining first)).endsChunk (data.length + more.length) =
          (Reader.chunked (.data (remaining - data.length) false)).endsChunk more.length :=
        decide_eq_decide.mpr (by omega)
      rw [hopen, hend]
      rfl

/-! ## One side -/

namespace Connection

/-- A connection with the segments its caller holds and the events the caller
has been given. -/
structure Side where
  connection : Connection
  queue : List Bytes
  events : List Event

/-- The bytes that have come and are not delivered, in the order they came. -/
def Side.unread (side : Side) : Bytes := side.queue.flatten ++ side.connection.input.asSlice

/-- `t` is where `s` will be once it has delivered `count` more of the body
bytes it has. -/
structure Lead (count : Nat) (s t : Side) : Prop where
  connection : ∃ buffer held, t.connection = s.connection.ahead count buffer held
  unread : t.unread = s.unread.drop count
  count_le : count ≤ s.unread.length
  inside : count ≠ 0 → s.connection.peerState = .sendBody ∧ s.connection.cycle.reader.Room count
  events : splitAll t.events =
    splitAll s.events ++ s.connection.cycle.reader.deliver (s.unread.take count)

namespace Lead

variable {m n : Nat} {s t u : Side}

theorem refl (s : Side) : Lead 0 s s where
  connection := ⟨s.connection.input, s.connection.held, by rw [ahead_zero]⟩
  unread := rfl
  count_le := Nat.zero_le _
  inside := fun h => absurd rfl h
  events := (List.append_nil _).symm

theorem reader_eq (h : Lead n s t) :
    t.connection.cycle.reader = s.connection.cycle.reader.after n := by
  obtain ⟨buffer, held, ht⟩ := h.connection
  rw [ht]
  rfl

theorem state_eq (h : Lead n s t) :
    t.connection.state = s.connection.state ∧ t.connection.role = s.connection.role := by
  obtain ⟨buffer, held, ht⟩ := h.connection
  rw [ht]
  exact ⟨rfl, rfl⟩

theorem peerState_eq (h : Lead n s t) : t.connection.peerState = s.connection.peerState := by
  unfold peerState
  rw [h.state_eq.1, h.state_eq.2]

theorem room (h : Lead n s t) (hn : n ≠ 0) : s.connection.cycle.reader.Room n := (h.inside hn).2

/-- There is room for what both deliver. -/
theorem room_trans (h : Lead m s t) (h' : Lead n t u) (hn : n ≠ 0) :
    s.connection.cycle.reader.Room (m + n) := by
  have hroom := h'.room hn
  rw [h.reader_eq] at hroom
  by_cases hm : m = 0
  · subst hm
    rw [Reader.after_zero] at hroom
    rw [Nat.zero_add]
    exact hroom
  · exact (h.room hm).add hroom

/-- Both deliveries are of payload, so the second begins where the first ended. -/
theorem trans (h : Lead m s t) (h' : Lead n t u) : Lead (m + n) s u := by
  obtain ⟨buffer, held, ht⟩ := h.connection
  obtain ⟨buffer', held', hu⟩ := h'.connection
  by_cases hn : n = 0
  · subst hn
    refine ⟨⟨buffer', held', ?_⟩, ?_, h.count_le, h.inside, ?_⟩
    · rw [hu, ahead_zero, ht]
      rfl
    · rw [h'.unread, h.unread, List.drop_zero]
      rfl
    · rw [h'.events, h.events]
      exact List.append_nil _
  have hroom := h.room_trans h' hn
  have hle := h'.count_le
  rw [h.unread, List.length_drop] at hle
  have hle' := h.count_le
  refine ⟨⟨buffer', held', ?_⟩, ?_, by omega, fun _ => ⟨?_, hroom⟩, ?_⟩
  · rw [hu, ht, ahead_ahead hroom]
  · rw [h'.unread, h.unread, List.drop_drop]
  · rw [← h.peerState_eq]
    exact (h'.inside hn).1
  · rw [h'.events, h.events, h.reader_eq, h.unread, List.append_assoc, List.take_add,
      Reader.deliver_append]
    · rw [List.length_take, Nat.min_eq_left hle']
    · rw [List.length_take, List.length_take, List.length_drop, Nat.min_eq_left hle',
        Nat.min_eq_left hle]
      exact hroom

/-- Of two sides that have gone on from one, the one that has delivered more
leads the other by the difference. -/
theorem sub (h : Lead (m + n) s t) (h' : Lead m s u) : Lead n u t := by
  obtain ⟨buffer, held, ht⟩ := h.connection
  obtain ⟨buffer', held', hu⟩ := h'.connection
  have hle := h.count_le
  have hle' := h'.count_le
  by_cases hboth : m + n = 0
  · obtain ⟨rfl, rfl⟩ : m = 0 ∧ n = 0 := by omega
    refine ⟨⟨buffer, held, ?_⟩, ?_, Nat.zero_le _, fun hn => absurd rfl hn, ?_⟩
    · rw [ht, hu, ahead_zero, ahead_zero, ahead_zero]
    · rw [h.unread, h'.unread]
      rfl
    · rw [h.events, h'.events]
      exact (List.append_nil _).symm
  have hroom := h.room hboth
  have hpeer := (h.inside hboth).1
  refine ⟨⟨buffer, held, ?_⟩, ?_, ?_, fun hn => ⟨?_, ?_⟩, ?_⟩
  · rw [ht, hu, ahead_ahead hroom]
  · rw [h.unread, h'.unread, List.drop_drop]
  · rw [h'.unread, List.length_drop]
    omega
  · rw [h'.peerState_eq]
    exact hpeer
  · rw [h'.reader_eq]
    exact hroom.after hn
  · rw [h.events, h'.events, h'.reader_eq, h'.unread, List.append_assoc, List.take_add,
      Reader.deliver_append]
    · rw [List.length_take, Nat.min_eq_left hle']
    · rw [List.length_take, List.length_take, List.length_drop, Nat.min_eq_left hle',
        Nat.min_eq_left (show n ≤ s.unread.length - m by omega)]
      exact hroom

end Lead

/-- One of the sides leads the other. -/
def Gap (s t : Side) : Prop := ∃ count, Lead count s t ∨ Lead count t s

theorem Gap.symm {s t : Side} (h : Gap s t) : Gap t s := by
  obtain ⟨count, hlead | hlead⟩ := h
  · exact ⟨count, Or.inr hlead⟩
  · exact ⟨count, Or.inl hlead⟩

/-- A side may deliver body bytes it has, wherever the other one is. -/
theorem Gap.deliver {s t u : Side} {count : Nat} (h : Gap s t) (hdelivered : Lead count t u) :
    Gap s u := by
  obtain ⟨lag, hlead | hlead⟩ := h
  · exact ⟨lag + count, Or.inl (hlead.trans hdelivered)⟩
  · by_cases hle : count ≤ lag
    · obtain ⟨rest, rfl⟩ : ∃ rest, lag = count + rest := ⟨lag - count, by omega⟩
      exact ⟨rest, Or.inr (hlead.sub hdelivered)⟩
    · obtain ⟨rest, rfl⟩ : ∃ rest, count = lag + rest := ⟨count - lag, by omega⟩
      exact ⟨rest, Or.inl (hdelivered.sub hlead)⟩

/-! ## What a side does -/

/-- The event a poll returns. -/
def Outcome.events : Outcome → List Event
  | .polled (.event event) => [event]
  | _ => []

namespace Side

variable {hp : Httparse} {side : Side}

/-- A call of the connection. -/
def call (hp : Httparse) (op : Op) (side : Side) : Outcome × Side :=
  ((step hp op side.connection).1,
    { side with
      connection := (step hp op side.connection).2
      events := side.events ++ (step hp op side.connection).1.events })

/-- `PyConnection::receive_data`: a segment is held if it may be. -/
def receive (hp : Httparse) (data : Bytes) (side : Side) : Outcome × Side :=
  if (holdBodyData data.length side.connection).1 then
    (.unit, { side with
      connection := (holdBodyData data.length side.connection).2
      queue := side.queue ++ [data] })
  else side.call hp (.receiveData data)

/-- `PyConnection::next_event` with a segment in the queue: the oldest one is
handed over. -/
def handOver (hp : Httparse) (side : Side) : Outcome × Side :=
  match side.queue with
  | [] => (.unit, side)
  | segment :: rest =>
    let result := step hp (.nextEventInPlace segment.length) side.connection
    (result.1,
      { connection := result.2
        queue := rest
        events := side.events ++ match result.1 with
          | .flags chunkStart chunkEnd => [.data segment chunkStart chunkEnd]
          | _ => [] })

end Side

/-- A poll that cannot but report payload, or wait for it. -/
def PollsPayload (c : Connection) : Prop :=
  c.Inside ∧ (c.input.asSlice ≠ [] ∨ c.eof = false)

/-! ## Delivering body bytes -/

/-- A poll inside payload delivers body bytes and nothing else. -/
theorem poll_lead (hp : Httparse) {side : Side} (hqueue : side.queue = [])
    (h : PollsPayload side.connection) :
    Lead (side.connection.cycle.reader.portion side.connection.input.asSlice.length) side
      (side.call hp .nextEvent).2 ∧
    (side.call hp .nextEvent).2.connection.held = side.connection.held := by
  obtain ⟨hinside, hmore⟩ := h
  have hunread : side.unread = side.connection.input.asSlice := by
    unfold Side.unread
    rw [hqueue]
    rfl
  by_cases hinput : side.connection.input.asSlice = []
  · have heof : side.connection.eof = false := by
      rcases hmore with hsome | hno
      · exact absurd hinput hsome
      · exact hno
    have hsame : (side.call hp .nextEvent).2 = side := by
      unfold Side.call
      show Side.mk _ _ _ = side
      rw [show Connection.step hp .nextEvent side.connection =
        pollOutcome (nextEvent hp side.connection) from rfl,
        nextEvent_waits hinside hinput heof]
      show Side.mk side.connection side.queue (side.events ++ []) = side
      rw [List.append_nil]
    have hportion : side.connection.cycle.reader.portion side.connection.input.asSlice.length = 0 := by
      rw [hinput]
      exact Nat.le_zero.mp (Reader.portion_le _ _)
    rw [hportion, hsame]
    exact ⟨.refl side, rfl⟩
  · obtain ⟨count, hportion, hcount, hroom, hpoll⟩ := nextEvent_inside hp hinside hinput
    have hafter : (side.call hp .nextEvent).2 =
        ⟨side.connection.ahead count (side.connection.input.consume count) side.connection.held,
          side.queue, side.events ++ [.data (side.connection.input.asSlice.take count)
            side.connection.cycle.reader.startsChunk
            (side.connection.cycle.reader.endsChunk count)]⟩ := by
      unfold Side.call
      rw [show Connection.step hp .nextEvent side.connection =
        pollOutcome (nextEvent hp side.connection) from rfl, hpoll]
      rfl
    have hle : count ≤ side.connection.input.asSlice.length := by
      rw [hportion]
      exact Reader.portion_le _ _
    rw [← hportion, hafter]
    refine ⟨⟨⟨_, _, rfl⟩, ?_, by rw [hunread]; exact hle, fun _ => ⟨hinside.1, hroom⟩, ?_⟩, rfl⟩
    · rw [hunread]
      show side.queue.flatten ++ (side.connection.input.consume count).asSlice = _
      rw [hqueue, Buffer.asSlice_consume]
      rfl
    · rw [hunread, splitAll_append, splitAll_data]
      unfold Reader.deliver
      rw [List.length_take, Nat.min_eq_left hle]

/-! ## A call that both runs make -/

section Calls

variable {count : Nat} {near far : Buffer} {held held' : Nat} {reader : Reader}
  {c d : Connection} {s t : Side}

theorem outcome_alike {α : Type} {value : α → Outcome} {R : Connection → Connection → Prop}
    {x y : LocalCall α} (h : Call.Alike R c d x y) :
    (outcome value (x c)).1 = (outcome value (y d)).1 ∧
      R (outcome value (x c)).2 (outcome value (y d)).2 := by
  obtain ⟨hresult, hstate⟩ := h
  rcases hx : x c with ⟨r, c1⟩
  rcases hy : y d with ⟨r', d1⟩
  rw [hx, hy] at hresult hstate
  cases hresult
  cases r with
  | error error => exact ⟨rfl, hstate⟩
  | ok a => exact ⟨rfl, hstate⟩

/-- The calls that send something other than a request are alike wherever the
two connections are in a body. -/
theorem step_apart (hp : Httparse) {op : Op} (hop : op.sends = true) (hnot : op.sendsRequest = false)
    (h : Apart count near far held held' reader c d)
    (hunread : unreadOf (reader.after count) held' far = unreadOf reader held near) :
    (Connection.step hp op c).1 = (Connection.step hp op d).1 ∧
      Apart count near far held held' reader (Connection.step hp op c).2
        (Connection.step hp op d).2 := by
  cases op with
  | lenient | receiveData | holdBodyData | nextEventInPlace | nextEvent | startNextCycle => cases hop
  | sendRequest | sendRequestWithBody | sendRequestWithBodyFraming => cases hnot
  | sendInformationalResponse response =>
    exact outcome_alike (sendInformationalResponse_apart h response)
  | sendResponse response => exact outcome_alike (sendResponse_apart h hunread response)
  | sendResponseWithBody response body =>
    exact outcome_alike (sendResponseWithBody_apart h hunread response body)
  | sendResponseWithBodyFraming response length =>
    exact outcome_alike (sendResponseWithBodyFraming_apart h hunread response length)
  | sendData data => exact outcome_alike (sendData_apart h data)
  | sendDataFraming length => exact outcome_alike (sendDataFraming_apart h length)
  | endOfMessage trailers => exact outcome_alike (endOfMessage_apart h trailers)
  | close => exact outcome_alike (close_apart h)

/-- Between two messages a request is sent alike too. -/
theorem step_request_apart (hp : Httparse) {op : Op} (hop : op.sendsRequest = true)
    (h : Apart 0 near far held held' reader c d)
    (hempty : far.asSlice = [] ↔ near.asSlice = []) :
    (Connection.step hp op c).1 = (Connection.step hp op d).1 ∧
      Apart 0 near far held held' reader (Connection.step hp op c).2
        (Connection.step hp op d).2 := by
  cases op with
  | sendRequest request => exact outcome_alike (sendRequest_apart h hempty request)
  | sendRequestWithBody request body =>
    exact outcome_alike (sendRequestWithBody_apart h hempty request body)
  | sendRequestWithBodyFraming request length =>
    exact outcome_alike (sendRequestWithBodyFraming_apart h hempty request length)
  | _ => cases hop

/-- A cycle is started, or refused, alike. -/
theorem startNextCycle_view (h : SameView c d) :
    Call.Alike SameView c d startNextCycle startNextCycle := by
  obtain ⟨buffer, hbuffer, rfl⟩ := h
  unfold Call.Alike startNextCycle peerState
  dsimp only
  rw [hbuffer]
  split
  · exact ⟨rfl, buffer, hbuffer, rfl⟩
  · split
    · exact ⟨rfl, buffer, hbuffer, rfl⟩
    · exact ⟨rfl, buffer, hbuffer, rfl⟩

theorem startNextCycle_alike (h : SameView c d) :
    (outcome (fun _ => .unit) (startNextCycle c)).1 = (outcome (fun _ => .unit) (startNextCycle d)).1 ∧
      SameView (outcome (fun _ => .unit) (startNextCycle c)).2
        (outcome (fun _ => .unit) (startNextCycle d)).2 :=
  outcome_alike (startNextCycle_view h)

/-- The held count is that of the queue, and what is unread is in memory. -/
structure Side.Accounted (side : Side) : Prop where
  held : side.connection.held = side.queue.flatten.length
  fits : side.unread.length < UInt64.size

theorem Side.Accounted.total (h : Side.Accounted s) :
    usizeAdd s.connection.held s.connection.input.asSlice.length = s.unread.length := by
  have hlength : s.unread.length =
      s.connection.held + s.connection.input.asSlice.length := by
    unfold Side.unread
    rw [List.length_append, h.held]
  have hfits := h.fits
  unfold usizeAdd
  rw [← hlength, Nat.mod_eq_of_lt hfits]

/-- Delivery takes as much off the body as off the bytes. -/
theorem unreadOf_lead (h : Lead count s t) (hs : Side.Accounted s) (ht : Side.Accounted t) :
    unreadOf (s.connection.cycle.reader.after count) t.connection.held t.connection.input =
      unreadOf s.connection.cycle.reader s.connection.held s.connection.input := by
  have hlength : t.unread.length = s.unread.length - count := by
    rw [h.unread, List.length_drop]
  have hle := h.count_le
  unfold unreadOf
  rw [hs.total, ht.total, hlength]
  cases hreader : s.connection.cycle.reader with
  | head | closeDelimited => rfl
  | chunked chunk =>
    cases chunk with
    | size | dataEnd | trailers => rfl
    | data remaining first =>
      by_cases hzero : count = 0
      · subst hzero
        rfl
      · rw [Reader.after_data first hzero]
  | fixed remaining =>
    have hroom : count ≤ remaining := by
      by_cases hzero : count = 0
      · omega
      · have hinside := h.room hzero
        rw [hreader] at hinside
        exact hinside
    show decide (remaining - count > s.unread.length - count) = decide (remaining > s.unread.length)
    rw [decide_eq_decide]
    omega

theorem apart_of_lead (h : Lead count s t) :
    Apart count s.connection.input t.connection.input s.connection.held t.connection.held
      s.connection.cycle.reader s.connection t.connection := by
  obtain ⟨buffer, held, ht⟩ := h.connection
  rw [ht]
  exact ⟨rfl, rfl, rfl, rfl⟩

/-- What a call leaves of two connections that are apart is as far apart. -/
theorem lead_of_apart (h : Lead count s t)
    (hapart : Apart count s.connection.input t.connection.input s.connection.held
      t.connection.held s.connection.cycle.reader c d)
    (hpeer : s.connection.peerState = .sendBody → c.peerState = .sendBody) :
    Lead count { s with connection := c } { t with connection := d } := by
  obtain ⟨hinput, hheld, hreader, rfl⟩ := hapart
  have hunread : Side.unread { s with connection := c } = s.unread := by
    unfold Side.unread
    rw [hinput]
  refine ⟨⟨_, _, rfl⟩, ?_, ?_, fun hne => ⟨hpeer (h.inside hne).1, ?_⟩, ?_⟩
  · rw [hunread, ← h.unread]
    rfl
  · rw [hunread]
    exact h.count_le
  · show c.cycle.reader.Room count
    rw [hreader]
    exact h.room hne
  · rw [hunread]
    show _ = _ ++ c.cycle.reader.deliver _
    rw [hreader]
    exact h.events

theorem view_of_lead (h : Lead 0 s t) (hs : Side.Accounted s) (ht : Side.Accounted t) (hsq : s.queue = [])
    (htq : t.queue = []) : SameView s.connection t.connection := by
  obtain ⟨buffer, held, hconnection⟩ := h.connection
  have hunread := h.unread
  have hheld : held = s.connection.held := by
    have hzero := ht.held
    rw [hconnection, htq] at hzero
    rw [hs.held, hsq]
    exact hzero
  rw [ahead_zero, hheld] at hconnection
  refine ⟨buffer, ?_, hconnection⟩
  unfold Side.unread at hunread
  rw [hsq, htq, hconnection] at hunread
  exact hunread

theorem lead_of_view (h : SameView c d) (hsq : s.queue = []) (htq : t.queue = [])
    (hevents : splitAll t.events = splitAll s.events) :
    Lead 0 { s with connection := c } { t with connection := d } := by
  obtain ⟨buffer, hbuffer, rfl⟩ := h
  refine ⟨⟨buffer, c.held, by rw [ahead_zero]⟩, ?_, Nat.zero_le _, fun hne => absurd rfl hne, ?_⟩
  · unfold Side.unread
    rw [hsq, htq]
    exact hbuffer
  · rw [hevents]
    exact (List.append_nil _).symm

/-- A call that is not a poll and passes no bytes on returns no event. -/
theorem quiet_events {op : Op} (hop : op.quiet = true) :
    (Connection.step hp op c).1.events = [] := by
  have hcall : ∀ {α : Type} {value : α → Outcome} (result : Except LocalProtocolError α × Connection),
      (∀ a, (value a).events = []) → (outcome value result).1.events = [] := by
    intro α value result hvalue
    rcases result with ⟨error | a, c'⟩
    · rfl
    · exact hvalue a
  cases op with
  | receiveData | holdBodyData | nextEventInPlace | nextEvent => cases hop
  | lenient => rfl
  | _ => exact hcall _ fun _ => rfl

theorem call_quiet {op : Op} (hop : op.quiet = true) (side : Side) :
    (side.call hp op).2 = { side with connection := (Connection.step hp op side.connection).2 } := by
  unfold Side.call
  rw [quiet_events hop, List.append_nil]

/-- The two sides answer a call alike and stay as far apart. Only the reason for
which a request is refused in the middle of a body may differ. -/
theorem lead_call (hp : Httparse) {op : Op} (hop : op.quiet = true) (h : Lead count s t) (hs : Side.Accounted s)
    (ht : Side.Accounted t)
    (hbody : ¬(count = 0 ∧ s.queue = [] ∧ t.queue = []) → s.connection.peerState = .sendBody) :
    Lead count (s.call hp op).2 (t.call hp op).2 ∧
      ((s.call hp op).1 = (t.call hp op).1 ∨
        ¬(count = 0 ∧ s.queue = [] ∧ t.queue = []) ∧ op.sendsRequest = true ∧
          (∃ error, (s.call hp op).1 = .refused error) ∧
          ∃ error, (t.call hp op).1 = .refused error) := by
  have hunread := unreadOf_lead h hs ht
  have hapart := apart_of_lead h
  rw [call_quiet hop s, call_quiet hop t]
  show _ ∧ ((Connection.step hp op s.connection).1 = (Connection.step hp op t.connection).1 ∨ _)
  by_cases hsends : op.sends = true
  · cases hrequest : op.sendsRequest with
    | false =>
      obtain ⟨hsame, hafter⟩ := step_apart hp hsends hrequest hapart hunread
      exact ⟨lead_of_apart h hafter fun hpeer => (step_sends_inside hsends hpeer).1, Or.inl hsame⟩
    | true =>
      by_cases hlevel : count = 0 ∧ s.queue = [] ∧ t.queue = []
      · obtain ⟨rfl, hsq, htq⟩ := hlevel
        have hslice := (view_of_lead h hs ht hsq htq).slice
        obtain ⟨hsame, hafter⟩ := step_request_apart hp hrequest hapart (by rw [hslice])
        exact ⟨lead_of_apart h hafter fun hpeer => (step_sends_inside hsends hpeer).1, Or.inl hsame⟩
      · have hpeer := hbody hlevel
        have hpeer' : t.connection.peerState = .sendBody := by
          rw [h.peerState_eq]
          exact hpeer
        obtain ⟨error, hrefused⟩ := step_request_refused hp hrequest hpeer
        obtain ⟨error', hrefused'⟩ := step_request_refused hp hrequest hpeer'
        unfold Side.call
        rw [hrefused, hrefused']
        exact ⟨h, Or.inr ⟨hlevel, rfl, ⟨error, rfl⟩, error', rfl⟩⟩
  · cases op with
    | lenient =>
      refine ⟨lead_of_apart h ?_ fun hpeer => hpeer, Or.inl rfl⟩
      obtain ⟨hinput, hheld, hreader, ht⟩ := hapart
      refine ⟨hinput, hheld, hreader, ?_⟩
      show t.connection.toLenient = _
      rw [ht]
      rfl
    | startNextCycle =>
      show Lead count { s with connection := (outcome _ (startNextCycle s.connection)).2 }
          { t with connection := (outcome _ (startNextCycle t.connection)).2 } ∧
        ((outcome _ (startNextCycle s.connection)).1 =
          (outcome _ (startNextCycle t.connection)).1 ∨ _)
      by_cases hlevel : count = 0 ∧ s.queue = [] ∧ t.queue = []
      · obtain ⟨rfl, hsq, htq⟩ := hlevel
        obtain ⟨hsame, hafter⟩ := startNextCycle_alike (view_of_lead h hs ht hsq htq)
        refine ⟨lead_of_view hafter hsq htq ?_, Or.inl hsame⟩
        rw [h.events]
        exact List.append_nil _
      · have hpeer := hbody hlevel
        obtain ⟨error, hrefused, rfl⟩ := step_startNextCycle_inside hpeer
        rw [← h.peerState_eq] at hpeer
        obtain ⟨error', hrefused', rfl⟩ := step_startNextCycle_inside hpeer
        rw [hrefused, hrefused']
        exact ⟨h, Or.inl rfl⟩
    | receiveData | holdBodyData | nextEventInPlace | nextEvent => cases hop
    | _ => exact absurd rfl hsends

/-! ## Bytes that come -/

/-- The same bytes come on both sides, wherever each of them puts them. -/
theorem lead_grow (h : Lead count s t) (data : Bytes) {queue queue' : List Bytes}
    (hs : queue.flatten ++ near.asSlice = s.unread ++ data)
    (ht : queue'.flatten ++ far.asSlice = t.unread ++ data) :
    Lead count ⟨{ s.connection with input := near, held := held }, queue, s.events⟩
      ⟨{ t.connection with input := far, held := held' }, queue', t.events⟩ := by
  obtain ⟨buffer, _, hconnection⟩ := h.connection
  have hunread : Side.unread
      ⟨{ s.connection with input := near, held := held }, queue, s.events⟩ = s.unread ++ data := hs
  have hle := h.count_le
  refine ⟨⟨far, held', ?_⟩, ?_, ?_, h.inside, ?_⟩
  · dsimp only
    rw [hconnection]
    rfl
  · rw [hunread, List.drop_append_of_le_length hle, ← h.unread]
    exact ht
  · rw [hunread, List.length_append]
    omega
  · rw [hunread, List.take_append_of_le_length hle]
    exact h.events

theorem recordEof_apart (h : Apart count near far held held' reader c d) :
    Apart count near far held held' reader c.recordEof d.recordEof := by
  obtain ⟨hinput, hheld, hreader, rfl⟩ := h
  have heof : Apart count near far held held' reader { c with eof := true }
      { c.ahead count far held' with eof := true } := ⟨hinput, hheld, hreader, rfl⟩
  exact heof.disableKeepAliveIf _

theorem receiveData_after_eof (heof : c.eof = true) {data : Bytes} (hdata : data ≠ []) :
    receiveData data c = (.error (localError "receive_data called after EOF"), c) := by
  unfold receiveData
  rw [Call.get_bind, Call.failIf_bind, if_pos ⟨heof, hdata⟩]

theorem receiveData_eof : receiveData [] c = (.ok (), c.recordEof) := by
  unfold receiveData
  rw [Call.get_bind, Call.failIf_bind, if_neg (fun h => h.2 rfl), if_pos rfl]
  rfl

theorem receiveData_extends (heof : c.eof = false) {data : Bytes} (hdata : data ≠ []) :
    receiveData data c = (.ok (), { c with input := c.input.extend data }) := by
  unfold receiveData
  rw [Call.get_bind, Call.failIf_bind, if_neg (by rw [heof]; rintro ⟨h, _⟩; cases h), if_neg hdata]
  rfl

theorem call_receiveData (data : Bytes) (side : Side) : side.call hp (.receiveData data) =
    ((outcome (fun _ => .unit) (receiveData data side.connection)).1,
      { side with connection := (receiveData data side.connection).2 }) := by
  have hstep : Connection.step hp (.receiveData data) side.connection =
      outcome (fun _ => .unit) (receiveData data side.connection) := rfl
  unfold Side.call
  rw [hstep, outcome_snd]
  rcases receiveData data side.connection with ⟨error | u, c'⟩
  · show (_, Side.mk _ _ (side.events ++ [])) = _
    rw [List.append_nil]
  · show (_, Side.mk _ _ (side.events ++ [])) = _
    rw [List.append_nil]

theorem eof_eq (h : Lead count s t) : t.connection.eof = s.connection.eof := by
  obtain ⟨buffer, held, ht⟩ := h.connection
  rw [ht]
  rfl

/-- Bytes or the end of the stream, passed on by both. -/
theorem lead_receive (hp : Httparse) (h : Lead count s t) (data : Bytes) :
    Lead count (s.call hp (.receiveData data)).2 (t.call hp (.receiveData data)).2 ∧
      (s.call hp (.receiveData data)).1 = (t.call hp (.receiveData data)).1 := by
  have heof := eof_eq h
  rw [call_receiveData, call_receiveData]
  by_cases hdata : data = []
  · subst hdata
    rw [receiveData_eof, receiveData_eof]
    exact ⟨lead_of_apart h (recordEof_apart (apart_of_lead h)) recordEof_inside, rfl⟩
  · cases hs : s.connection.eof with
    | true =>
      rw [hs] at heof
      rw [receiveData_after_eof hs hdata, receiveData_after_eof heof hdata]
      exact ⟨h, rfl⟩
    | false =>
      rw [hs] at heof
      rw [receiveData_extends hs hdata, receiveData_extends heof hdata]
      refine ⟨lead_grow h data ?_ ?_, rfl⟩
      · rw [Buffer.asSlice_extend, ← List.append_assoc]
        rfl
      · rw [Buffer.asSlice_extend, ← List.append_assoc]
        rfl

/-- What `receive_data` leaves of a side. -/
theorem call_receiveData_kept (hp : Httparse) (data : Bytes) (side : Side) :
    (side.call hp (.receiveData data)).2.queue = side.queue ∧
    (side.call hp (.receiveData data)).2.connection.held = side.connection.held ∧
    (side.call hp (.receiveData data)).2.connection.cycle.reader = side.connection.cycle.reader ∧
    (side.connection.peerState = .sendBody →
      (side.call hp (.receiveData data)).2.connection.peerState = .sendBody) ∧
    (side.call hp (.receiveData data)).2.unread.length ≤ (side.unread ++ data).length := by
  rw [call_receiveData]
  show side.queue = side.queue ∧ (receiveData data side.connection).2.held = _ ∧
    (receiveData data side.connection).2.cycle.reader = _ ∧
    (_ → (receiveData data side.connection).2.peerState = _) ∧
    (side.queue.flatten ++ (receiveData data side.connection).2.input.asSlice).length ≤
      (side.queue.flatten ++ side.connection.input.asSlice ++ data).length
  by_cases hdata : data = []
  · subst hdata
    have hinput : side.connection.recordEof.input = side.connection.input := disableKeepAliveIf_input _ _
    rw [receiveData_eof]
    refine ⟨rfl, disableKeepAliveIf_held _ _, ?_, recordEof_inside, ?_⟩
    · show (Connection.disableKeepAliveIf _ _).cycle.reader = _
      rw [disableKeepAliveIf_cycle]
    · rw [hinput, List.append_nil]
  · cases heof : side.connection.eof with
    | true =>
      rw [receiveData_after_eof heof hdata]
      refine ⟨rfl, rfl, rfl, id, ?_⟩
      exact (List.prefix_append _ data).length_le
    | false =>
      rw [receiveData_extends heof hdata]
      refine ⟨rfl, rfl, rfl, id, ?_⟩
      rw [Buffer.asSlice_extend, List.append_assoc]

theorem fits_of_drop {s : Side} {side : Side} {count : Nat}
    (h : (s.unread ++ []).length < UInt64.size) (hlead : Lead count s side) :
    (side.unread ++ []).length < UInt64.size := by
  rw [List.append_nil] at h ⊢
  rw [hlead.unread, List.length_drop]
  omega

/-- Delivered bytes count one by one, so where both callers have got the same
number of them no side leads. -/
theorem Lead.eq_zero {s t : Side} {count : Nat} (h : Lead count s t)
    (hlength : (splitAll s.events).length = (splitAll t.events).length) : count = 0 := by
  have hle := h.count_le
  have hevents := congrArg List.length h.events
  unfold Reader.deliver at hevents
  rw [List.length_append, Event.bytewise_length, List.length_take, Nat.min_eq_left hle] at hevents
  omega

/-! ## Catching up -/

theorem portion_room {reader : Reader} {count available : Nat} (hroom : reader.Room count)
    (hle : count ≤ available) : count ≤ reader.portion available := by
  cases reader with
  | head => exact hroom.elim
  | fixed remaining => exact Nat.le_min.mpr ⟨hroom, hle⟩
  | closeDelimited => exact hle
  | chunked chunk =>
    cases chunk with
    | size | dataEnd | trailers => exact hroom.elim
    | data remaining first => exact Nat.le_min.mpr ⟨hroom, hle⟩

/-- What is left of a poll's portion when a part of it has been delivered. -/
theorem portion_after {reader : Reader} {count rest available : Nat} (hroom : reader.Room count)
    (hcount : count ≠ 0) (hportion : reader.portion available = count + rest) (hrest : rest ≠ 0) :
    (reader.after count).portion (available - count) = rest := by
  cases reader with
  | head => exact hroom.elim
  | fixed remaining =>
    have hmin : min remaining available = count + rest := hportion
    show min (remaining - count) (available - count) = rest
    omega
  | closeDelimited =>
    have hall : available = count + rest := hportion
    show available - count = rest
    omega
  | chunked chunk =>
    cases chunk with
    | size | dataEnd | trailers => exact hroom.elim
    | data remaining first =>
      have hmin : min remaining available = count + rest := hportion
      rw [Reader.after_data first hcount, if_neg (by omega)]
      show min (remaining - count) (available - count) = rest
      omega

theorem lead_polls {s t : Side} {count : Nat} (h : Lead count s t) (hcount : count ≠ 0)
    (hqueue : s.queue = []) : PollsPayload s.connection ∧ count ≤ s.connection.input.asSlice.length := by
  have hle := h.count_le
  unfold Side.unread at hle
  rw [hqueue, List.flatten_nil, List.nil_append] at hle
  obtain ⟨hpeer, hroom⟩ := h.inside hcount
  refine ⟨⟨⟨hpeer, hroom.mono (Nat.pos_of_ne_zero hcount)⟩, Or.inl fun hnil => ?_⟩, hle⟩
  rw [hnil] at hle
  exact hcount (Nat.le_zero.mp hle)

/-- The side that lags behind polls, and then the other one if it was overtaken. -/
theorem catch_up (hp : Httparse) {s t : Side} {count : Nat} (h : Lead count s t) (hcount : count ≠ 0)
    (hsq : s.queue = []) (htq : t.queue = []) :
    Lead 0 t (s.call hp .nextEvent).2 ∨
      (PollsPayload t.connection ∧ Lead 0 (t.call hp .nextEvent).2 (s.call hp .nextEvent).2) := by
  obtain ⟨hpolls, hle⟩ := lead_polls h hcount hsq
  obtain ⟨hlead, _⟩ := poll_lead hp hsq hpolls
  obtain ⟨rest, hportion⟩ := Nat.exists_eq_add_of_le (portion_room (h.room hcount) hle)
  rw [hportion] at hlead
  have hover := hlead.sub h
  by_cases hrest : rest = 0
  · subst hrest
    exact Or.inl hover
  · obtain ⟨hpolls', _⟩ := lead_polls hover hrest htq
    obtain ⟨hlead', _⟩ := poll_lead hp htq hpolls'
    have hinput : t.connection.input.asSlice.length = s.connection.input.asSlice.length - count := by
      have hunread := h.unread
      unfold Side.unread at hunread
      rw [hsq, htq, List.flatten_nil, List.nil_append, List.nil_append] at hunread
      rw [hunread, List.length_drop]
    rw [hinput, h.reader_eq, portion_after (h.room hcount) hcount hportion hrest] at hlead'
    have hboth : Lead (rest + 0) t (s.call hp .nextEvent).2 := hover
    exact Or.inr ⟨hpolls', hboth.sub hlead'⟩

end Calls

end Connection

end H11r
