import Mathlib
import H11r.Connection.Lead

/-!
# Holding body bytes is receiving them

A caller may keep a segment of body bytes instead of passing it on, and get its
`Data` event in place. A `Pair` is one run that receives every segment beside
another that holds some, with the calls both make in between; body bytes are
polled on either side when its caller likes, everything else at the same point
of both.

One of the two always leads the other (`Together.gap`), and where neither does
and nothing is held the two connections are the same apart from the layout of
their buffers.
-/

namespace H11r

open Lib (Call)

namespace Connection

/-- The run that receives every segment, and the one that holds some. -/
structure Pair where
  receiver : Side
  holder : Side

/-- A call both runs make, a segment that comes, or a poll of one or both. -/
inductive PairOp where
  | call (op : Op)
  | receive (data : Bytes)
  | handOver
  | poll
  | pollReceiver
  | pollHolder

namespace Pair

def new (role : Role) (limits : Limits) : Pair :=
  ⟨⟨.new role limits, [], []⟩, ⟨.new role limits, [], []⟩⟩

/-- What the two runs return, where each takes part. -/
def step (hp : Httparse) (op : PairOp) (pair : Pair) : (Option Outcome × Option Outcome) × Pair :=
  match op with
  | .call op =>
    let received := pair.receiver.call hp op
    let held := pair.holder.call hp op
    ((some received.1, some held.1), ⟨received.2, held.2⟩)
  | .receive data =>
    let received := pair.receiver.call hp (.receiveData data)
    let held := pair.holder.receive hp data
    ((some received.1, some held.1), ⟨received.2, held.2⟩)
  | .handOver =>
    let held := pair.holder.handOver hp
    ((none, some held.1), ⟨pair.receiver, held.2⟩)
  | .poll =>
    let received := pair.receiver.call hp .nextEvent
    let held := pair.holder.call hp .nextEvent
    ((some received.1, some held.1), ⟨received.2, held.2⟩)
  | .pollReceiver =>
    let received := pair.receiver.call hp .nextEvent
    ((some received.1, none), ⟨received.2, pair.holder⟩)
  | .pollHolder =>
    let held := pair.holder.call hp .nextEvent
    ((none, some held.1), ⟨pair.receiver, held.2⟩)

/-- Nothing is held, and both callers have been given the same number of events
and body bytes. -/
def Level (pair : Pair) : Prop :=
  pair.holder.queue = [] ∧
    (splitAll pair.receiver.events).length = (splitAll pair.holder.events).length

/-- What has come and is not delivered is kept in memory, by both callers. -/
def Fits (pair : Pair) (data : Bytes) : Prop :=
  (pair.receiver.unread ++ data).length < UInt64.size ∧
    (pair.holder.unread ++ data).length < UInt64.size

/-- Held segments are handed over before a poll. Body bytes are polled on either
side at any time, and everything else where both have got as far. -/
def allowed (pair : Pair) (op : PairOp) : Prop :=
  match op with
  | .call (.receiveData data) => pair.Fits data
  | .call op => op.quiet = true
  | .receive data => pair.Fits data
  | .handOver => pair.holder.queue ≠ []
  | .poll => pair.Level
  | .pollReceiver => PollsPayload pair.receiver.connection
  | .pollHolder => pair.holder.queue = [] ∧ PollsPayload pair.holder.connection

/-- What holds of the two runs at every point. -/
structure Together (pair : Pair) : Prop where
  empty : pair.receiver.queue = []
  unheld : pair.receiver.connection.held = 0
  held : pair.holder.connection.held = pair.holder.queue.flatten.length
  segments : ∀ segment ∈ pair.holder.queue, segment ≠ []
  inside : pair.holder.queue ≠ [] → pair.holder.connection.peerState = .sendBody ∧
    pair.holder.connection.cycle.reader.Room pair.holder.queue.flatten.length
  fits : pair.Fits []
  gap : Gap pair.receiver pair.holder

variable {hp : Httparse} {pair : Pair}

theorem new_together (role : Role) (limits : Limits) : (new role limits).Together where
  empty := rfl
  unheld := rfl
  held := rfl
  segments := by
    intro segment hmem
    cases hmem
  inside := fun h => absurd rfl h
  fits := by
    show (0 < UInt64.size) ∧ (0 < UInt64.size)
    decide
  gap := ⟨0, Or.inl (.refl _)⟩

/-! ## One move -/

/-- The oldest segment is handed over. -/
theorem handOver_lead (hp : Httparse) (h : pair.Together) {segment : Bytes} {rest : List Bytes}
    (hqueue : pair.holder.queue = segment :: rest) :
    (∃ chunkStart chunkEnd, (pair.holder.handOver hp).1 = .flags chunkStart chunkEnd) ∧
    Lead segment.length pair.holder (pair.holder.handOver hp).2 ∧
    (pair.holder.handOver hp).2.queue = rest ∧
    (pair.holder.handOver hp).2.connection.held = pair.holder.connection.held - segment.length := by
  have hne : segment ≠ [] := h.segments segment (by rw [hqueue]; exact List.mem_cons_self)
  have hcount : segment.length ≠ 0 := fun hzero => hne (List.length_eq_zero_iff.mp hzero)
  have hflat : pair.holder.queue.flatten = segment ++ rest.flatten := by rw [hqueue]; rfl
  have hlength : pair.holder.queue.flatten.length = segment.length + rest.flatten.length := by
    rw [hflat, List.length_append]
  obtain ⟨hpeer, hroom⟩ := h.inside (by rw [hqueue]; exact List.cons_ne_nil _ _)
  have hroom' : pair.holder.connection.cycle.reader.Room segment.length := hroom.mono (by omega)
  have hheld : segment.length ≤ pair.holder.connection.held := by
    rw [h.held]
    omega
  have hcall : Connection.step hp (.nextEventInPlace segment.length) pair.holder.connection =
      (.flags pair.holder.connection.cycle.reader.startsChunk
        (pair.holder.connection.cycle.reader.endsChunk segment.length),
        pair.holder.connection.ahead segment.length pair.holder.connection.input
          (pair.holder.connection.held - segment.length)) := by
    show outcome _ (nextEventInPlace segment.length pair.holder.connection) = _
    rw [nextEventInPlace_inside hpeer hroom' hcount hheld]
    rfl
  have hafter : pair.holder.handOver hp = (.flags pair.holder.connection.cycle.reader.startsChunk
      (pair.holder.connection.cycle.reader.endsChunk segment.length),
      ⟨pair.holder.connection.ahead segment.length pair.holder.connection.input
          (pair.holder.connection.held - segment.length), rest,
        pair.holder.events ++ [.data segment pair.holder.connection.cycle.reader.startsChunk
          (pair.holder.connection.cycle.reader.endsChunk segment.length)]⟩) := by
    unfold Side.handOver
    rw [hqueue]
    dsimp only
    rw [hcall]
  have hunread : pair.holder.unread =
      segment ++ (rest.flatten ++ pair.holder.connection.input.asSlice) := by
    unfold Side.unread
    rw [hflat, List.append_assoc]
  rw [hafter]
  refine ⟨⟨_, _, rfl⟩, ⟨⟨_, _, rfl⟩, ?_, ?_, fun _ => ⟨hpeer, hroom'⟩, ?_⟩, rfl, rfl⟩
  · rw [hunread, List.drop_left]
    rfl
  · rw [hunread, List.length_append]
    omega
  · rw [hunread, List.take_left, splitAll_append, splitAll_data]
    rfl
theorem Together.accounted_receiver (h : pair.Together) : Side.Accounted pair.receiver := by
  refine ⟨?_, ?_⟩
  · rw [h.unheld, h.empty]
    rfl
  · have hfits := h.fits.1
    rw [List.append_nil] at hfits
    exact hfits

theorem Together.accounted_holder (h : pair.Together) : Side.Accounted pair.holder := by
  refine ⟨h.held, ?_⟩
  have hfits := h.fits.2
  rw [List.append_nil] at hfits
  exact hfits

/-- Where something is held, or a side lags behind, both are in a body. -/
theorem Together.inBody (h : pair.Together) {count : Nat}
    (hlead : Lead count pair.receiver pair.holder ∨ Lead count pair.holder pair.receiver)
    (hnot : ¬(count = 0 ∧ pair.holder.queue = [])) :
    pair.receiver.connection.peerState = .sendBody ∧
      pair.holder.connection.peerState = .sendBody := by
  have hsame : pair.holder.connection.peerState = pair.receiver.connection.peerState := by
    rcases hlead with hlead | hlead
    · exact hlead.peerState_eq
    · exact hlead.peerState_eq.symm
  have hone : pair.holder.connection.peerState = .sendBody := by
    by_cases hqueue : pair.holder.queue = []
    · have hcount : count ≠ 0 := fun hzero => hnot ⟨hzero, hqueue⟩
      rcases hlead with hlead | hlead
      · rw [hsame]
        exact (hlead.inside hcount).1
      · exact (hlead.inside hcount).1
    · exact (h.inside hqueue).1
  exact ⟨by rw [← hsame]; exact hone, hone⟩

theorem pollReceiver_together (h : pair.Together)
    (hpoll : PollsPayload pair.receiver.connection) :
    (step hp .pollReceiver pair).2.Together := by
  obtain ⟨hlead, hheld⟩ := poll_lead hp h.empty hpoll
  exact {
    empty := h.empty
    unheld := by
      show (pair.receiver.call hp .nextEvent).2.connection.held = 0
      rw [hheld]
      exact h.unheld
    held := h.held
    segments := h.segments
    inside := h.inside
    fits := ⟨fits_of_drop h.fits.1 hlead, h.fits.2⟩
    gap := (h.gap.symm.deliver hlead).symm }

theorem pollHolder_together (h : pair.Together) (hqueue : pair.holder.queue = [])
    (hpoll : PollsPayload pair.holder.connection) :
    (step hp .pollHolder pair).2.Together := by
  obtain ⟨hlead, hheld⟩ := poll_lead hp hqueue hpoll
  exact {
    empty := h.empty
    unheld := h.unheld
    held := by
      show (pair.holder.call hp .nextEvent).2.connection.held = pair.holder.queue.flatten.length
      rw [hheld]
      exact h.held
    segments := h.segments
    inside := fun hne => absurd hqueue hne
    fits := ⟨h.fits.1, fits_of_drop h.fits.2 hlead⟩
    gap := h.gap.deliver hlead }

theorem handOver_together (h : pair.Together) (hqueue : pair.holder.queue ≠ []) :
    (step hp .handOver pair).2.Together := by
  obtain ⟨segment, rest, hsegment⟩ := List.exists_cons_of_ne_nil hqueue
  obtain ⟨_, hlead, hrest, hheld⟩ := handOver_lead hp h hsegment
  have hlength : pair.holder.queue.flatten.length = segment.length + rest.flatten.length := by
    rw [hsegment, List.flatten_cons, List.length_append]
  have hsegments : ∀ other ∈ rest, other ≠ [] := by
    intro other hmem
    exact h.segments other (by rw [hsegment]; exact List.mem_cons_of_mem _ hmem)
  exact {
    empty := h.empty
    unheld := h.unheld
    held := by
      show (pair.holder.handOver hp).2.connection.held =
        (pair.holder.handOver hp).2.queue.flatten.length
      rw [hrest, hheld, h.held, hlength]
      omega
    segments := by
      show ∀ other ∈ (pair.holder.handOver hp).2.queue, other ≠ []
      rw [hrest]
      exact hsegments
    inside := by
      show (pair.holder.handOver hp).2.queue ≠ [] →
        (pair.holder.handOver hp).2.connection.peerState = .sendBody ∧
          (pair.holder.handOver hp).2.connection.cycle.reader.Room
            (pair.holder.handOver hp).2.queue.flatten.length
      rw [hrest]
      intro hne
      obtain ⟨hpeer, hroom⟩ := h.inside hqueue
      have hrestLength : rest.flatten.length ≠ 0 := by
        obtain ⟨next, others, rfl⟩ := List.exists_cons_of_ne_nil hne
        have hnext := List.length_pos_iff.mpr (hsegments next List.mem_cons_self)
        rw [List.flatten_cons, List.length_append]
        omega
      rw [hlead.peerState_eq, hlead.reader_eq]
      rw [hlength] at hroom
      exact ⟨hpeer, hroom.after hrestLength⟩
    fits := ⟨h.fits.1, fits_of_drop h.fits.2 hlead⟩
    gap := h.gap.deliver hlead }

/-- At a level point the two connections are the same to any call. -/
theorem Together.view (h : pair.Together) (hlevel : pair.Level) :
    SameView pair.receiver.connection pair.holder.connection ∧
      splitAll pair.holder.events = splitAll pair.receiver.events := by
  obtain ⟨hqueue, hlength⟩ := hlevel
  obtain ⟨count, hlead | hlead⟩ := h.gap
  · have hzero := Lead.eq_zero hlead hlength
    subst hzero
    refine ⟨view_of_lead hlead h.accounted_receiver h.accounted_holder h.empty hqueue, ?_⟩
    rw [hlead.events]
    exact List.append_nil _
  · have hzero := Lead.eq_zero hlead hlength.symm
    subst hzero
    refine ⟨(view_of_lead hlead h.accounted_holder h.accounted_receiver hqueue h.empty).symm, ?_⟩
    rw [hlead.events]
    exact (List.append_nil _).symm

theorem poll_together (h : pair.Together) (hlevel : pair.Level) :
    (step hp .poll pair).2.Together ∧
      (pair.receiver.call hp .nextEvent).1 = (pair.holder.call hp .nextEvent).1 := by
  obtain ⟨hview, hevents⟩ := h.view hlevel
  obtain ⟨hqueue, _⟩ := hlevel
  obtain ⟨hresult, hafter⟩ := nextEvent_view hp hview
  have houtcome : (pair.receiver.call hp .nextEvent).1 = (pair.holder.call hp .nextEvent).1 ∧
      SameView (pair.receiver.call hp .nextEvent).2.connection
        (pair.holder.call hp .nextEvent).2.connection := by
    show (pollOutcome (nextEvent hp pair.receiver.connection)).1 =
        (pollOutcome (nextEvent hp pair.holder.connection)).1 ∧
      SameView (pollOutcome (nextEvent hp pair.receiver.connection)).2
        (pollOutcome (nextEvent hp pair.holder.connection)).2
    rw [pollOutcome_snd, pollOutcome_snd]
    refine ⟨?_, hafter⟩
    rcases hr : nextEvent hp pair.receiver.connection with ⟨r, c1⟩
    rcases hh : nextEvent hp pair.holder.connection with ⟨r', d1⟩
    rw [hr, hh] at hresult
    cases hresult
    cases r <;> rfl
  have hkept : ∀ side : Side, (side.call hp .nextEvent).2.connection.held = side.connection.held ∧
      (side.call hp .nextEvent).2.connection.input.asSlice.length ≤
        side.connection.input.asSlice.length := by
    intro side
    show (pollOutcome (nextEvent hp side.connection)).2.held = _ ∧
      (pollOutcome (nextEvent hp side.connection)).2.input.asSlice.length ≤ _
    rw [pollOutcome_snd]
    refine ⟨(nextEvent_frame hp side.connection).held, ?_⟩
    rcases hpoll : nextEvent hp side.connection with ⟨r, c'⟩
    obtain ⟨count, ⟨_, hdrop⟩, _⟩ := nextEvent_input hpoll
    rw [hdrop, List.length_drop]
    omega
  have hlead : Lead 0 (pair.receiver.call hp .nextEvent).2 (pair.holder.call hp .nextEvent).2 := by
    refine lead_of_view (s := (pair.receiver.call hp .nextEvent).2)
      (t := (pair.holder.call hp .nextEvent).2) houtcome.2 h.empty hqueue ?_
    show splitAll (pair.holder.events ++ (pair.holder.call hp .nextEvent).1.events) =
      splitAll (pair.receiver.events ++ (pair.receiver.call hp .nextEvent).1.events)
    rw [splitAll_append, splitAll_append, hevents, houtcome.1]
  refine ⟨?_, houtcome.1⟩
  exact {
    empty := h.empty
    unheld := by
      show (pair.receiver.call hp .nextEvent).2.connection.held = 0
      rw [(hkept pair.receiver).1]
      exact h.unheld
    held := by
      show (pair.holder.call hp .nextEvent).2.connection.held = pair.holder.queue.flatten.length
      rw [(hkept pair.holder).1]
      exact h.held
    segments := h.segments
    inside := fun hne => absurd hqueue hne
    fits := by
      have hreceiver := h.accounted_receiver.fits
      have hholder := h.accounted_holder.fits
      have hless := (hkept pair.receiver).2
      have hless' := (hkept pair.holder).2
      unfold Side.unread at hreceiver hholder
      rw [List.length_append] at hreceiver hholder
      unfold Fits Side.unread
      rw [List.append_nil, List.append_nil, List.length_append, List.length_append]
      exact ⟨Nat.lt_of_le_of_lt (Nat.add_le_add_left hless _) hreceiver,
        Nat.lt_of_le_of_lt (Nat.add_le_add_left hless' _) hholder⟩
    gap := ⟨0, Or.inl hlead⟩ }

theorem call_together {op : Op} (h : pair.Together) (hop : op.quiet = true) :
    (step hp (.call op) pair).2.Together ∧
      ((pair.receiver.call hp op).1 = (pair.holder.call hp op).1 ∨
        ¬pair.Level ∧ op.sendsRequest = true ∧
          (∃ error, (pair.receiver.call hp op).1 = .refused error) ∧
          ∃ error, (pair.holder.call hp op).1 = .refused error) := by
  have hkept : ∀ side : Side, (side.call hp op).2.connection.held = side.connection.held ∧
      (side.call hp op).2.unread = side.unread := by
    intro side
    have hquiet : (Connection.step hp op side.connection).2.input = side.connection.input ∧
        (Connection.step hp op side.connection).2.held = side.connection.held :=
      step_quiet hop side.connection
    obtain ⟨hinput, hheld⟩ := hquiet
    refine ⟨hheld, ?_⟩
    unfold Side.unread
    show side.queue.flatten ++ (Connection.step hp op side.connection).2.input.asSlice = _
    rw [hinput]
  -- A level point is one with no lead and nothing held.
  have hlevelOf : ∀ {count : Nat}, Lead count pair.receiver pair.holder ∨
      Lead count pair.holder pair.receiver → pair.Level → count = 0 ∧ pair.holder.queue = [] := by
    rintro count (hlead | hlead) ⟨hqueue, hlength⟩
    · exact ⟨Lead.eq_zero hlead hlength, hqueue⟩
    · exact ⟨Lead.eq_zero hlead hlength.symm, hqueue⟩
  obtain ⟨count, hlead⟩ := h.gap
  have hbody := h.inBody hlead
  have hboth : Gap (pair.receiver.call hp op).2 (pair.holder.call hp op).2 ∧
      ((pair.receiver.call hp op).1 = (pair.holder.call hp op).1 ∨
        ¬pair.Level ∧ op.sendsRequest = true ∧
          (∃ error, (pair.receiver.call hp op).1 = .refused error) ∧
          ∃ error, (pair.holder.call hp op).1 = .refused error) := by
    rcases hlead with hlead | hlead
    · obtain ⟨hafter, hsame⟩ := lead_call hp hop hlead h.accounted_receiver h.accounted_holder
        fun hnot => (hbody fun hzero => hnot ⟨hzero.1, h.empty, hzero.2⟩).1
      refine ⟨⟨count, Or.inl hafter⟩, ?_⟩
      rcases hsame with hsame | ⟨hnot, hrequest, hreceiver, hholder⟩
      · exact Or.inl hsame
      · refine Or.inr ⟨fun hlevel => hnot ?_, hrequest, hreceiver, hholder⟩
        obtain ⟨hzero, hqueue⟩ := hlevelOf (Or.inl hlead) hlevel
        exact ⟨hzero, h.empty, hqueue⟩
    · obtain ⟨hafter, hsame⟩ := lead_call hp hop hlead h.accounted_holder h.accounted_receiver
        fun hnot => (hbody fun hzero => hnot ⟨hzero.1, hzero.2, h.empty⟩).2
      refine ⟨⟨count, Or.inr hafter⟩, ?_⟩
      rcases hsame with hsame | ⟨hnot, hrequest, hholder, hreceiver⟩
      · exact Or.inl hsame.symm
      · refine Or.inr ⟨fun hlevel => hnot ?_, hrequest, hreceiver, hholder⟩
        obtain ⟨hzero, hqueue⟩ := hlevelOf (Or.inr hlead) hlevel
        exact ⟨hzero, hqueue, h.empty⟩
  refine ⟨?_, hboth.2⟩
  exact {
    empty := h.empty
    unheld := by
      show (pair.receiver.call hp op).2.connection.held = 0
      rw [(hkept pair.receiver).1]
      exact h.unheld
    held := by
      show (pair.holder.call hp op).2.connection.held = pair.holder.queue.flatten.length
      rw [(hkept pair.holder).1]
      exact h.held
    segments := h.segments
    inside := by
      intro hne
      obtain ⟨hpeer, hroom⟩ := h.inside hne
      show (Connection.step hp op pair.holder.connection).2.peerState = .sendBody ∧
        (Connection.step hp op pair.holder.connection).2.cycle.reader.Room
          pair.holder.queue.flatten.length
      obtain ⟨hstays, hreader⟩ := step_quiet_inside hp hop hpeer
      rw [hreader]
      exact ⟨hstays, hroom⟩
    fits := by
      show ((pair.receiver.call hp op).2.unread ++ []).length < UInt64.size ∧
        ((pair.holder.call hp op).2.unread ++ []).length < UInt64.size
      rw [(hkept pair.receiver).2, (hkept pair.holder).2]
      exact h.fits
    gap := hboth.1 }

/-! ## Bytes that come to both -/

theorem receive_together (hp : Httparse) {data : Bytes} (h : pair.Together) (hfits : pair.Fits data) :
    (step hp (.call (.receiveData data)) pair).2.Together ∧
      (pair.receiver.call hp (.receiveData data)).1 = (pair.holder.call hp (.receiveData data)).1 := by
  obtain ⟨hqueue, hheld, _, _, hlength⟩ := call_receiveData_kept hp data pair.receiver
  obtain ⟨hqueue', hheld', hreader', hpeer', hlength'⟩ := call_receiveData_kept hp data pair.holder
  have hboth : Gap (pair.receiver.call hp (.receiveData data)).2
        (pair.holder.call hp (.receiveData data)).2 ∧
      (pair.receiver.call hp (.receiveData data)).1 = (pair.holder.call hp (.receiveData data)).1 := by
    obtain ⟨count, hlead | hlead⟩ := h.gap
    · obtain ⟨hafter, hsame⟩ := lead_receive hp hlead data
      exact ⟨⟨count, Or.inl hafter⟩, hsame⟩
    · obtain ⟨hafter, hsame⟩ := lead_receive hp hlead data
      exact ⟨⟨count, Or.inr hafter⟩, hsame.symm⟩
  refine ⟨?_, hboth.2⟩
  exact {
    empty := hqueue.trans h.empty
    unheld := hheld.trans h.unheld
    held := by
      show (pair.holder.call hp (.receiveData data)).2.connection.held =
        (pair.holder.call hp (.receiveData data)).2.queue.flatten.length
      rw [hheld', hqueue']
      exact h.held
    segments := by
      show ∀ segment ∈ (pair.holder.call hp (.receiveData data)).2.queue, segment ≠ []
      rw [hqueue']
      exact h.segments
    inside := by
      show (pair.holder.call hp (.receiveData data)).2.queue ≠ [] →
        (pair.holder.call hp (.receiveData data)).2.connection.peerState = .sendBody ∧
        (pair.holder.call hp (.receiveData data)).2.connection.cycle.reader.Room
          (pair.holder.call hp (.receiveData data)).2.queue.flatten.length
      rw [hqueue', hreader']
      intro hne
      exact ⟨hpeer' (h.inside hne).1, (h.inside hne).2⟩
    fits := by
      unfold Fits
      rw [List.append_nil, List.append_nil]
      exact ⟨Nat.lt_of_le_of_lt hlength hfits.1, Nat.lt_of_le_of_lt hlength' hfits.2⟩
    gap := hboth.1 }

/-- A segment that one side holds has come to both. -/
theorem hold_together {data : Bytes} (h : pair.Together) (hfits : pair.Fits data)
    (hhold : pair.holder.connection.canHold data.length = true) :
    (step hp (.receive data) pair).2.Together ∧
      (pair.receiver.call hp (.receiveData data)).1 = (pair.holder.receive hp data).1 := by
  have hsum : pair.holder.connection.held + data.length < UInt64.size := by
    have hholder := hfits.2
    unfold Side.unread at hholder
    rw [List.length_append, List.length_append, ← h.held] at hholder
    omega
  have hadd : usizeAdd pair.holder.connection.held data.length =
      pair.holder.connection.held + data.length := Nat.mod_eq_of_lt hsum
  obtain ⟨hlength, heof, hinput, hpeer, hroom⟩ := canHold_room hhold hsum
  have hdata : data ≠ [] := fun hnil => hlength (by rw [hnil]; rfl)
  have hheldAfter : pair.holder.receive hp data = (.unit, ⟨{ pair.holder.connection with
        held := pair.holder.connection.held + data.length }, pair.holder.queue ++ [data],
        pair.holder.events⟩) := by
    unfold Side.receive holdBodyData
    rw [if_pos hhold, if_pos rfl, hadd]
  have heof' : pair.receiver.connection.eof = false := by
    obtain ⟨count, hlead | hlead⟩ := h.gap
    · rw [← eof_eq hlead]
      exact heof
    · rw [eof_eq hlead]
      exact heof
  have hreceived : pair.receiver.call hp (.receiveData data) = (.unit,
      { pair.receiver with connection := { pair.receiver.connection with
        input := pair.receiver.connection.input.extend data } }) := by
    rw [call_receiveData, receiveData_extends heof' hdata]
    rfl
  have hflat : (pair.holder.queue ++ [data]).flatten = pair.holder.queue.flatten ++ data := by
    rw [List.flatten_append, List.flatten_singleton]
  -- Where each side puts the segment: after its buffer, or after its queue.
  have hnear : pair.receiver.queue.flatten ++ (pair.receiver.connection.input.extend data).asSlice =
      pair.receiver.unread ++ data := by
    rw [Buffer.asSlice_extend, ← List.append_assoc]
    rfl
  have hfar : (pair.holder.queue ++ [data]).flatten ++ pair.holder.connection.input.asSlice =
      pair.holder.unread ++ data := by
    unfold Side.unread
    rw [hflat, hinput, List.append_nil, List.append_nil]
  have hgap : Gap (pair.receiver.call hp (.receiveData data)).2 (pair.holder.receive hp data).2 := by
    rw [hheldAfter, hreceived]
    obtain ⟨count, hlead | hlead⟩ := h.gap
    · exact ⟨count, Or.inl (lead_grow hlead data hnear hfar)⟩
    · exact ⟨count, Or.inr (lead_grow hlead data hfar hnear)⟩
  refine ⟨?_, by rw [hheldAfter, hreceived]⟩
  exact {
    empty := by
      show (pair.receiver.call hp (.receiveData data)).2.queue = []
      rw [hreceived]
      exact h.empty
    unheld := by
      show (pair.receiver.call hp (.receiveData data)).2.connection.held = 0
      rw [hreceived]
      exact h.unheld
    held := by
      show (pair.holder.receive hp data).2.connection.held =
        (pair.holder.receive hp data).2.queue.flatten.length
      rw [hheldAfter]
      show pair.holder.connection.held + data.length = (pair.holder.queue ++ [data]).flatten.length
      rw [hflat, List.length_append, h.held]
    segments := by
      show ∀ segment ∈ (pair.holder.receive hp data).2.queue, segment ≠ []
      rw [hheldAfter]
      intro segment hmem
      rcases List.mem_append.mp hmem with hold | hnew
      · exact h.segments segment hold
      · rw [List.mem_singleton.mp hnew]
        exact hdata
    inside := by
      show _ → (pair.holder.receive hp data).2.connection.peerState = .sendBody ∧
        (pair.holder.receive hp data).2.connection.cycle.reader.Room
          (pair.holder.receive hp data).2.queue.flatten.length
      rw [hheldAfter]
      intro _
      refine ⟨hpeer, ?_⟩
      show pair.holder.connection.cycle.reader.Room (pair.holder.queue ++ [data]).flatten.length
      rw [hflat, List.length_append, ← h.held]
      exact hroom
    fits := by
      unfold Fits
      rw [List.append_nil, List.append_nil]
      show (pair.receiver.call hp (.receiveData data)).2.unread.length < UInt64.size ∧
        (pair.holder.receive hp data).2.unread.length < UInt64.size
      rw [hheldAfter, hreceived]
      unfold Side.unread
      rw [hnear, hfar]
      exact hfits
    gap := hgap }

theorem segment_together {data : Bytes} (h : pair.Together) (hfits : pair.Fits data) :
    (step hp (.receive data) pair).2.Together ∧
      (pair.receiver.call hp (.receiveData data)).1 = (pair.holder.receive hp data).1 := by
  by_cases hhold : pair.holder.connection.canHold data.length = true
  · exact hold_together h hfits hhold
  · have hpassed : pair.holder.receive hp data = pair.holder.call hp (.receiveData data) := by
      unfold Side.receive holdBodyData
      rw [if_neg hhold, if_neg Bool.false_ne_true]
    obtain ⟨htogether, hsame⟩ := receive_together hp h hfits
    rw [hpassed]
    refine ⟨?_, hsame⟩
    show Together ⟨(pair.receiver.call hp (.receiveData data)).2, (pair.holder.receive hp data).2⟩
    rw [hpassed]
    exact htogether

/-! ## Whole runs -/

theorem step_together (h : pair.Together) {op : PairOp} (hallowed : pair.allowed op) :
    (step hp op pair).2.Together := by
  cases op with
  | call op =>
    cases op with
    | receiveData data => exact (receive_together hp h hallowed).1
    | _ => exact (call_together h hallowed).1
  | receive data => exact (segment_together h hallowed).1
  | handOver => exact handOver_together h hallowed
  | poll => exact (poll_together h hallowed).1
  | pollReceiver => exact pollReceiver_together h hallowed
  | pollHolder => exact pollHolder_together h hallowed.1 hallowed.2

theorem run_together {role : Role} {limits : Limits}
    {history : List (PairOp × (Option Outcome × Option Outcome))}
    (h : Lib.Run (step hp) allowed (new role limits) history pair) : pair.Together :=
  Lib.Run.invariant (P := Together) (new_together role limits) (fun _ _ hs hop => step_together hs hop) h

/-! ## Getting level -/

theorem level_of_lead (hqueue : pair.holder.queue = [])
    (h : Lead 0 pair.receiver pair.holder ∨ Lead 0 pair.holder pair.receiver) : pair.Level := by
  have hlength : ∀ {s t : Side}, Lead 0 s t → (splitAll t.events).length = (splitAll s.events).length := by
    intro s t hlead
    rw [hlead.events]
    exact congrArg List.length (List.append_nil _)
  rcases h with h | h
  · exact ⟨hqueue, (hlength h).symm⟩
  · exact ⟨hqueue, hlength h⟩

/-- Polls of body bytes on one side or on both. -/
def PairOp.pollsOneSide (op : PairOp) : Prop := op = .pollReceiver ∨ op = .pollHolder

/-- Where nothing is held, two polls of body bytes make the runs level. -/
theorem level_soon (hp : Httparse) (h : pair.Together) (hqueue : pair.holder.queue = []) :
    ∃ ops : List PairOp, ops.length ≤ 2 ∧ (∀ op ∈ ops, PairOp.pollsOneSide op) ∧
      Lib.Permitted (step hp) allowed pair ops ∧ (Lib.trace (step hp) pair ops).2.Level := by
  obtain ⟨count, hgap⟩ := h.gap
  by_cases hcount : count = 0
  · subst hcount
    exact ⟨[], Nat.zero_le _, by simp, trivial, level_of_lead hqueue hgap⟩
  · rcases hgap with hlead | hlead
    · have hpolls := (lead_polls hlead hcount h.empty).1
      rcases catch_up hp hlead hcount h.empty hqueue with hlevel | ⟨hpolls', hlevel⟩
      · exact ⟨[.pollReceiver], by decide, by simp [PairOp.pollsOneSide], ⟨hpolls, trivial⟩,
          level_of_lead hqueue (Or.inr hlevel)⟩
      · exact ⟨[.pollReceiver, .pollHolder], by decide, by simp [PairOp.pollsOneSide],
          ⟨hpolls, ⟨hqueue, hpolls'⟩, trivial⟩, level_of_lead hqueue (Or.inr hlevel)⟩
    · have hpolls := (lead_polls hlead hcount hqueue).1
      rcases catch_up hp hlead hcount hqueue h.empty with hlevel | ⟨hpolls', hlevel⟩
      · exact ⟨[.pollHolder], by decide, by simp [PairOp.pollsOneSide], ⟨⟨hqueue, hpolls⟩, trivial⟩,
          level_of_lead hqueue (Or.inl hlevel)⟩
      · exact ⟨[.pollHolder, .pollReceiver], by decide, by simp [PairOp.pollsOneSide],
          ⟨⟨hqueue, hpolls⟩, hpolls', trivial⟩, level_of_lead hqueue (Or.inl hlevel)⟩

/-- The states and the verdict on reuse agree at every point. -/
theorem Together.states (h : pair.Together) :
    pair.receiver.connection.localState = pair.holder.connection.localState ∧
    pair.receiver.connection.peerState = pair.holder.connection.peerState ∧
    pair.receiver.connection.keepAlive = pair.holder.connection.keepAlive := by
  have hsame : pair.receiver.connection.state = pair.holder.connection.state ∧
      pair.receiver.connection.role = pair.holder.connection.role := by
    obtain ⟨count, hlead | hlead⟩ := h.gap
    · exact ⟨hlead.state_eq.1.symm, hlead.state_eq.2.symm⟩
    · exact hlead.state_eq
  unfold keepAlive localState peerState
  rw [hsame.1, hsame.2]
  exact ⟨rfl, rfl, rfl⟩

/-- The events of one run are those of the other and the body bytes it still has
to deliver. -/
theorem Together.events (h : pair.Together) :
    splitAll pair.receiver.events <+: splitAll pair.holder.events ∨
      splitAll pair.holder.events <+: splitAll pair.receiver.events := by
  obtain ⟨count, hlead | hlead⟩ := h.gap
  · rw [hlead.events]
    exact Or.inl (List.prefix_append _ _)
  · rw [hlead.events]
    exact Or.inr (List.prefix_append _ _)

/-- Holding body bytes cannot be told from receiving them. The queue is counted,
its segments are handed over without fail, and every call in between is
answered alike, up to the reason for which a request in the middle of a body is
refused. Where nothing is held, body bytes that one run has not polled yet are
all that the events can differ in; once they are polled the runs are level, and
then everything a caller can see is the same. -/
theorem holding_is_receiving {role : Role} {limits : Limits}
    {history : List (PairOp × (Option Outcome × Option Outcome))}
    (h : Lib.Run (step hp) allowed (new role limits) history pair) :
    pair.holder.connection.held = (pair.holder.queue.map List.length).sum ∧
    (pair.holder.queue ≠ [] →
      ∃ chunkStart chunkEnd, (pair.holder.handOver hp).1 = .flags chunkStart chunkEnd) ∧
    (∀ data, pair.Fits data →
      (pair.receiver.call hp (.receiveData data)).1 = (pair.holder.receive hp data).1 ∧
      (pair.receiver.call hp (.receiveData data)).1 = (pair.holder.call hp (.receiveData data)).1) ∧
    (∀ op : Op, op.quiet = true →
      (pair.receiver.call hp op).1 = (pair.holder.call hp op).1 ∨
        (¬pair.Level ∧ op.sendsRequest = true ∧
          (∃ error, (pair.receiver.call hp op).1 = .refused error) ∧
          ∃ error, (pair.holder.call hp op).1 = .refused error)) ∧
    (pair.receiver.connection.localState = pair.holder.connection.localState ∧
      pair.receiver.connection.peerState = pair.holder.connection.peerState ∧
      pair.receiver.connection.keepAlive = pair.holder.connection.keepAlive) ∧
    (splitAll pair.receiver.events <+: splitAll pair.holder.events ∨
      splitAll pair.holder.events <+: splitAll pair.receiver.events) ∧
    (pair.holder.queue = [] → ∃ ops : List PairOp, ops.length ≤ 2 ∧
      (∀ op ∈ ops, PairOp.pollsOneSide op) ∧ Lib.Permitted (step hp) allowed pair ops ∧
      (Lib.trace (step hp) pair ops).2.Level) ∧
    (pair.Level →
      splitAll pair.receiver.events = splitAll pair.holder.events ∧
      pair.receiver.connection.clientIsWaitingFor100Continue =
        pair.holder.connection.clientIsWaitingFor100Continue ∧
      pair.receiver.connection.trailingData = pair.holder.connection.trailingData ∧
      (pair.receiver.call hp .nextEvent).1 = (pair.holder.call hp .nextEvent).1) := by
  have htogether := run_together h
  refine ⟨?_, fun hqueue => ?_, fun data hfits => ?_, fun op hop => (call_together htogether hop).2,
    htogether.states, htogether.events, level_soon hp htogether, fun hlevel => ?_⟩
  · rw [htogether.held, List.length_flatten]
  · obtain ⟨segment, rest, hsegment⟩ := List.exists_cons_of_ne_nil hqueue
    exact (handOver_lead hp htogether hsegment).1
  · exact ⟨(segment_together htogether hfits).2, (receive_together hp htogether hfits).2⟩
  · obtain ⟨⟨buffer, hbuffer, hsame⟩, hevents⟩ := htogether.view hlevel
    refine ⟨hevents.symm, ?_, ?_, (poll_together htogether hlevel).2⟩
    · rw [hsame]
      rfl
    · rw [hsame]
      unfold trailingData
      rw [← hbuffer]

/-- A client gets the first two of five bytes, and its caller may hold them. -/
def twoOfFive : List PairOp :=
  [.call (.sendRequest (plainGet .http11)), .call (.endOfMessage .new),
    .receive (ascii "HTTP/1.1 200 OK\r\nContent-Length: 5\r\n\r\n"), .poll, .receive (ascii "he")]

theorem twoOfFive_permitted :
    Lib.Permitted (step Reference.httparse) allowed (new .client .default) twoOfFive := by
  refine ⟨rfl, rfl, ⟨?_, ?_⟩, ⟨?_, ?_⟩, ⟨?_, ?_⟩, trivial⟩ <;> decide +kernel

/-- The two bytes are held and can be handed over. -/
theorem two_bytes_held :
    ∃ history pair, Lib.Run (step Reference.httparse) allowed (new .client .default) history pair ∧
      pair.holder.queue = [ascii "he"] ∧ pair.holder.connection.held = 2 ∧
      ∃ chunkStart chunkEnd,
        (pair.holder.handOver Reference.httparse).1 = .flags chunkStart chunkEnd := by
  have hrun := Lib.Run.trace _ _ twoOfFive_permitted
  have hqueue : (Lib.trace (step Reference.httparse) (new .client .default) twoOfFive).2.holder.queue =
      [ascii "he"] := by
    decide +kernel
  obtain ⟨hheld, hflags, _⟩ := holding_is_receiving hrun
  refine ⟨_, _, hrun, hqueue, ?_, hflags (by rw [hqueue]; exact List.cons_ne_nil _ _)⟩
  rw [hheld, hqueue]
  rfl

/-- While the two bytes are held another request is refused for another reason
than while they are in the buffer. -/
theorem held_bytes_change_a_refusal :
    ¬∀ (hp : Httparse) (role : Role) (limits : Limits)
      (history : List (PairOp × (Option Outcome × Option Outcome))) (pair : Pair) (op : Op),
      Lib.Run (step hp) allowed (new role limits) history pair → op.quiet = true →
      (pair.receiver.call hp op).1 = (pair.holder.call hp op).1 := by
  intro h
  have hsame := h _ _ _ _ _ (.sendRequest (plainGet .http11))
    (Lib.Run.trace _ _ twoOfFive_permitted) rfl
  have hmessage := congrArg (fun outcome => match outcome with
    | .refused error => error.message
    | _ => "") hsame
  exact absurd hmessage (by decide +kernel)

end Pair

end Connection

end H11r
