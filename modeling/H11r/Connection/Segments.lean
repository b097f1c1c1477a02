import H11r.Connection.Early
import H11r.Connection.Notes

/-!
# How the input is cut does not show

The bytes of a connection come in segments, and its caller polls between them.
`Sees` is what the caller sees: the events, and how it ends once the input has
ended and the caller has polled on.

A connection that has a part of the input owes its caller what a connection
that has all of it goes on to report (`Owes`). A poll pays a part of that
(`Owes.poll`), and a segment does not change it.
-/

namespace H11r.Connection

variable {hp : Httparse} {rest : Bytes} {c c' f : Connection}

/-! ## Polling on -/

/-- How a stream of input ends: with an error that suggests a status, or with
what the connection shows at rest. -/
inductive Ending where
  | failed (status : Option Nat)
  | rests (localState peerState : State) (keepAlive : Bool) (trailingData : Bytes × Bool)

def ending (c : Connection) : Ending := .rests c.localState c.peerState c.keepAlive c.trailingData

/-- `c` is polled until a poll returns no more of a message: the events that the
polls return, and how it ends. -/
inductive Drains (hp : Httparse) : Connection → List Event → Ending → Prop
  | fails {c c' : Connection} {error : RemoteProtocolError} (h : nextEvent hp c = (.error error, c')) :
      Drains hp c [] (.failed error.suggestedStatusCode)
  | stops {c c' : Connection} {next : NextEvent} (h : nextEvent hp c = (.ok next, c'))
      (hnext : next = .needData ∨ next = .paused) : Drains hp c [] c'.ending
  | closed {c c' : Connection} (h : nextEvent hp c = (.ok (.event .connectionClosed), c')) :
      Drains hp c [.connectionClosed] c'.ending
  | event {c c' : Connection} {event : Event} {events : List Event} {ending : Ending}
      (h : nextEvent hp c = (.ok (.event event), c')) (hevent : event ≠ .connectionClosed)
      (hrest : Drains hp c' events ending) : Drains hp c (event :: events) ending

theorem exists_drains (hhp : hp.TakesBytes) (hc : c.ChunkOpen) : ∃ events ending, Drains hp c events ending := by
  induction hsize : c.potential using Nat.strongRecOn generalizing c with
  | ind size ih =>
    rcases hpoll : nextEvent hp c with ⟨error | next, c'⟩
    · exact ⟨_, _, .fails hpoll⟩
    · cases next with
      | needData => exact ⟨_, _, .stops hpoll (Or.inl rfl)⟩
      | paused => exact ⟨_, _, .stops hpoll (Or.inr rfl)⟩
      | event event =>
        by_cases hclosed : event = .connectionClosed
        · subst hclosed
          exact ⟨_, _, .closed hpoll⟩
        · obtain ⟨hless, hopen⟩ := nextEvent_potential hhp hc hpoll hclosed
          obtain ⟨events, ending, hrest⟩ := ih c'.potential (hsize ▸ hless) hopen rfl
          exact ⟨_, _, .event hpoll hclosed hrest⟩

/-- What is drained depends on the next poll. -/
theorem Drains.congr {d : Connection} {events : List Event} {ending : Ending} (h : Drains hp c events ending)
    (hsame : nextEvent hp d = nextEvent hp c) : Drains hp d events ending := by
  cases h with
  | fails h => exact .fails (hsame.trans h)
  | stops h hnext => exact .stops (hsame.trans h) hnext
  | closed h => exact .closed (hsame.trans h)
  | event h hevent hrest => exact .event (hsame.trans h) hevent hrest

/-! The first poll says how the rest is drained. -/

section First

variable {events : List Event} {ending : Ending}

theorem Drains.of_error {error : RemoteProtocolError} (h : Drains hp c events ending)
    (hpoll : nextEvent hp c = (.error error, c')) :
    events = [] ∧ ending = .failed error.suggestedStatusCode := by
  cases h with
  | fails h =>
    rw [hpoll] at h
    cases h
    exact ⟨rfl, rfl⟩
  | stops h | closed h | event h =>
    rw [hpoll] at h
    cases h

theorem Drains.of_stop {next : NextEvent} (h : Drains hp c events ending)
    (hpoll : nextEvent hp c = (.ok next, c')) (hnext : next = .needData ∨ next = .paused) :
    events = [] ∧ ending = c'.ending := by
  have hnone : ∀ {event : Event}, next ≠ .event event := by
    rcases hnext with rfl | rfl <;> exact nofun
  cases h with
  | stops h =>
    rw [hpoll] at h
    cases h
    exact ⟨rfl, rfl⟩
  | fails h =>
    rw [hpoll] at h
    cases h
  | closed h | event h =>
    rw [hpoll] at h
    cases h
    exact absurd rfl hnone

theorem Drains.of_event {event : Event} (h : Drains hp c events ending)
    (hpoll : nextEvent hp c = (.ok (.event event), c')) :
    (event = .connectionClosed ∧ events = [.connectionClosed] ∧ ending = c'.ending) ∨
      (event ≠ .connectionClosed ∧ ∃ later, events = event :: later ∧ Drains hp c' later ending) := by
  cases h with
  | closed h =>
    rw [hpoll] at h
    cases h
    exact Or.inl ⟨rfl, rfl, rfl⟩
  | event h hevent hrest =>
    rw [hpoll] at h
    cases h
    exact Or.inr ⟨hevent, _, rfl, hrest⟩
  | fails h =>
    rw [hpoll] at h
    cases h
  | stops h hnext =>
    rw [hpoll] at h
    cases h
    rcases hnext with hnext | hnext <;> cases hnext

end First

/-! ## A poll of both -/

/-- What a poll of `c` has done, compared with a poll of `f`. Inside payload the
comparison is left to the payload. -/
inductive Meets (hp : Httparse) (rest : Bytes) (c f : Connection) : Prop
  | same {r : Except RemoteProtocolError Polled} {c' f' : Connection}
      (hc : nextEventInner hp c = (r, c')) (hf : nextEventInner hp f = (r, f')) (hw : Whole rest c' f')
  | waits {c' f' : Connection} (hc : nextEventInner hp c = (.ok .needData, c'))
      (hf : nextEventInner hp f = nextEventInner hp f') (hw : Whole rest c' f')
  | fails {error error' : RemoteProtocolError} {c' f' : Connection}
      (hc : nextEventInner hp c = (.error error, c')) (hf : nextEventInner hp f = (.error error', f'))
      (hstatus : error'.suggestedStatusCode = error.suggestedStatusCode)
  | inside {c' f' : Connection} (hc : nextEventInner hp c = nextEventInner hp c')
      (hf : nextEventInner hp f = nextEventInner hp f') (hw : Whole rest c' f') (hinside : c'.Inside)
      (hinput : c'.input.asSlice ≠ [])

theorem Meets.again {c1 f1 : Connection} (h : Meets hp rest c1 f1)
    (hc : nextEventInner hp c = nextEventInner hp c1) (hf : nextEventInner hp f = nextEventInner hp f1) :
    Meets hp rest c f := by
  cases h with
  | same hc' hf' hw => exact .same (hc.trans hc') (hf.trans hf') hw
  | waits hc' hf' hw => exact .waits (hc.trans hc') (hf.trans hf') hw
  | fails hc' hf' hstatus => exact .fails (hc.trans hc') (hf.trans hf') hstatus
  | inside hc' hf' hw hinside hinput => exact .inside (hc.trans hc') (hf.trans hf') hw hinside hinput

theorem nextEventInner_meets (hhp : hp.Stable) (h : Whole rest c f) (hagree : c.LayersAgree)
    (hnotes : c.NotesHold) : Meets hp rest c f := by
  induction c using nextEventInner.induct hp generalizing f with
  | case1 c polled c1 hd =>
    by_cases hpayload : c.Inside ∧ c.input.asSlice ≠ []
    · exact .inside rfl rfl h hpayload.1 hpayload.2
    · have hjoins := dispatch_joins hhp h hagree hnotes hpayload
      rw [hd] at hjoins
      cases hjoins with
      | same hf hw => exact .same (nextEventInner_reports hd) (nextEventInner_reports hf) hw
      | waits hw => exact .waits (nextEventInner_reports hd) rfl hw
  | case2 c c1 hd ih =>
    by_cases hpayload : c.Inside ∧ c.input.asSlice ≠ []
    · exact .inside rfl rfl h hpayload.1 hpayload.2
    · have hjoins := dispatch_joins hhp h hagree hnotes hpayload
      rw [hd] at hjoins
      cases hjoins with
      | same hf hw =>
        have hafter := ih hw ((dispatch_turn hd).layersAgree hagree) (dispatch_again_notes hhp hagree hnotes hd)
        exact hafter.again (nextEventInner_again hd) (nextEventInner_again hf)
  | case3 c error c1 hd =>
    by_cases hpayload : c.Inside ∧ c.input.asSlice ≠ []
    · exact .inside rfl rfl h hpayload.1 hpayload.2
    · have hjoins := dispatch_joins hhp h hagree hnotes hpayload
      rw [hd] at hjoins
      cases hjoins with
      | same hf hw => exact .same (nextEventInner_fails hd) (nextEventInner_fails hf) hw
      | fails hf hstatus => exact .fails (nextEventInner_fails hd) (nextEventInner_fails hf) hstatus

/-! ## Payload -/

/-- What is delivered of payload in one event may as well be delivered in two. -/
theorem Drains.deliver {events : List Event} {ending : Ending} {count : Nat}
    (h : Drains hp f events ending) (hinside : f.Inside) (hcount : count ≠ 0)
    (hroom : f.cycle.reader.Room count) (hle : count ≤ f.input.asSlice.length) :
    ∃ later, splitAll events = f.cycle.reader.deliver (f.input.asSlice.take count) ++ splitAll later ∧
      Drains hp (f.ahead count (f.input.consume count) f.held) later ending := by
  have hinput : f.input.asSlice ≠ [] := fun hnil => by
    rw [hnil] at hle
    exact hcount (Nat.le_zero.mp hle)
  obtain ⟨all, hportion, _, hall, hpoll⟩ := nextEvent_inside hp hinside hinput
  obtain ⟨more, hmore⟩ := Nat.exists_eq_add_of_le (portion_room hroom hle)
  have hfits : all ≤ f.input.asSlice.length := hportion ▸ Reader.portion_le _ _
  rw [hmore] at hportion
  subst hportion
  -- The poll of `f` delivers `count + more` bytes.
  obtain ⟨hclosed, _⟩ | ⟨_, events, rfl, hrest⟩ := h.of_event hpoll
  · cases hclosed
  have hdelivered : splitAll (.data (f.input.asSlice.take (count + more)) f.cycle.reader.startsChunk
      (f.cycle.reader.endsChunk (count + more)) :: events) =
      f.cycle.reader.deliver (f.input.asSlice.take (count + more)) ++ splitAll events := by
    unfold Reader.deliver
    rw [List.length_take, Nat.min_eq_left hfits]
    rfl
  by_cases hnone : more = 0
  · subst hnone
    exact ⟨events, hdelivered, hrest⟩
  · have hlength : (f.ahead count (f.input.consume count) f.held).input.asSlice.length =
        f.input.asSlice.length - count := by
      show (f.input.consume count).asSlice.length = _
      rw [Buffer.asSlice_consume, List.length_drop]
    have hinside' : (f.ahead count (f.input.consume count) f.held).Inside :=
      ⟨hinside.1, (hall.after hnone).mono (Nat.pos_of_ne_zero hnone)⟩
    have hinput' : (f.ahead count (f.input.consume count) f.held).input.asSlice ≠ [] := fun hnil => by
      rw [hnil, List.length_nil] at hlength
      omega
    obtain ⟨again, hagain, _, _, hpoll'⟩ := nextEvent_inside hp hinside' hinput'
    rw [hlength] at hagain
    have hleft : again = more := hagain.trans (portion_after hroom hcount hmore hnone)
    subst hleft
    have hsame : (f.ahead count (f.input.consume count) f.held).ahead again
        ((f.ahead count (f.input.consume count) f.held).input.consume again) f.held =
        f.ahead (count + again) (f.input.consume (count + again)) f.held := by
      rw [ahead_ahead hall]
      show f.ahead (count + again) ((f.input.consume count).consume again) f.held = _
      rw [Buffer.consume_consume]
    have hslice : (f.ahead count (f.input.consume count) f.held).input.asSlice =
        f.input.asSlice.drop count := Buffer.asSlice_consume _ _
    refine ⟨.data _ _ _ :: events, ?_, .event hpoll' nofun ?_⟩
    · rw [hdelivered, List.take_add, Reader.deliver_append, List.append_assoc, hslice]
      · unfold Reader.deliver
        rw [List.length_take, List.length_take, List.length_drop, Nat.min_eq_left hle,
          Nat.min_eq_left (by omega)]
        rfl
      · rw [List.length_take, List.length_take, List.length_drop, Nat.min_eq_left hle,
          Nat.min_eq_left (by omega)]
        exact hall
    · exact hsame ▸ hrest

/-! ## What a connection owes -/

/-- With `rest` still to come, `c` has to report `items` and to end so: as a
connection does that has everything. -/
def Owes (hp : Httparse) (rest : Bytes) (c : Connection) (items : List Event) (ending : Ending) : Prop :=
  ∃ f events, Whole rest c f ∧ Drains hp f events ending ∧ splitAll events = items

/-- What a poll of `c` pays of its debt. -/
inductive Pays (hp : Httparse) (rest : Bytes) (c : Connection) (items : List Event) (ending : Ending) :
    Except RemoteProtocolError NextEvent → Connection → Prop
  | fails {error : RemoteProtocolError} {c' : Connection} (hitems : items = [])
      (hending : ending = .failed error.suggestedStatusCode) : Pays hp rest c items ending (.error error) c'
  | waits {c' : Connection} (heof : c.eof = false) (howes : Owes hp rest c' items ending) :
      Pays hp rest c items ending (.ok .needData) c'
  | paused (howes : Owes hp rest c items ending) (hstop : c.eof = true → items = [] ∧ ending = c.ending) :
      Pays hp rest c items ending (.ok .paused) c
  | closed {c' : Connection} (hstop : c.eof = true → items = [.connectionClosed] ∧ ending = c'.ending) :
      Pays hp rest c items ending (.ok (.event .connectionClosed)) c'
  | event {event : Event} {c' : Connection} {later : List Event} (hevent : event ≠ .connectionClosed)
      (hitems : items = event.split ++ later) (howes : Owes hp rest c' later ending) :
      Pays hp rest c items ending (.ok (.event event)) c'

theorem Whole.ending (h : Whole [] c f) (heof : c.eof = true) : f.ending = c.ending := by
  obtain ⟨_, _, buffer, progress, hbuffer, rfl⟩ := h
  have hclosing : c.closing = false := by
    unfold closing
    rw [heof]
    rfl
  rw [List.append_nil] at hbuffer
  unfold Connection.ending Connection.keepAlive Connection.localState Connection.peerState
  dsimp only
  unfold trailingData
  rw [hclosing, hbuffer, heof]
  rfl

theorem nextEvent_needData_open (h : nextEvent hp c = (.ok .needData, c')) : c.eof = false := by
  obtain ⟨c1, htail, hlast⟩ := nextEventInner_last (nextEvent_needData h)
  have heof : c1.eof = c.eof := Lib.preserve (P := fun later => later.eof = c.eof)
    (fun _ _ hd hc => (dispatch_turn hd).frame.eof.trans hc) htail rfl
  rw [← heof]
  cases dispatch_turn hlast with
  | doneWaits _ _ heof => exact heof
  | waits _ heof => exact heof

/-- A poll that is paused changes nothing: the peer is through with its message. -/
theorem nextEventInner_paused (h : nextEventInner hp c = (.ok .paused, c')) :
    c' = c ∧ through c.peerState = true := by
  induction c using nextEventInner.induct hp with
  | case1 c polled c1 hd =>
    rw [nextEventInner_reports hd] at h
    cases h
    cases dispatch_turn hd with
    | paused hpeer =>
      refine ⟨rfl, ?_⟩
      rcases hpeer with hpeer | hpeer | ⟨hpeer | hpeer, _⟩ <;> rw [hpeer] <;> rfl
  | case2 c c1 hd ih =>
    rw [nextEventInner_again hd] at h
    have hthrough := (ih h).2
    have hturn := dispatch_turn hd
    have hpeer : c1.peerState = c.peerState := by
      unfold peerState
      rw [hturn.again_state, hturn.frame.role]
    rw [hpeer] at hthrough
    -- A tail call is made inside a message.
    have hinside : c.Reading := by
      cases hturn with
      | sizeLine hreading => exact hreading
      | dataEnd hreading => exact hreading
    rw [hinside.not_through] at hthrough
    cases hthrough
  | case3 c error c1 hd =>
    rw [nextEventInner_fails hd] at h
    cases h

theorem nextEvent_congr {d : Connection} (h : nextEventInner hp c = nextEventInner hp d) :
    nextEvent hp c = nextEvent hp d := by
  unfold nextEvent
  rw [h]

theorem nextEvent_of_error {error : RemoteProtocolError} (h : nextEventInner hp c = (.error error, c')) :
    nextEvent hp c = (.error { error with
        suggestedStatusCode := if c.role = .client then none else error.suggestedStatusCode },
      { c' with state := c'.state.processError c'.role.peer }) := by
  obtain ⟨c1, _, hframe, _, hlast⟩ := (nextEventInner_turns h).last_turn
  have hrole : c'.role = c.role := hlast.frame.role.trans hframe.role
  unfold nextEvent
  rw [h, ← hrole]

theorem nextEvent_paused (h : nextEvent hp c = (.ok .paused, c')) : c' = c := by
  unfold nextEvent at h
  rcases hinner : nextEventInner hp c with ⟨error | polled, c1⟩
  · rw [hinner] at h
    cases h
  · rw [hinner] at h
    cases polled <;> cases h
    exact (nextEventInner_paused hinner).1

/-- Two polls that have found the same return the same. -/
theorem nextEvent_same {polled : Polled} {f' : Connection} (hc : nextEventInner hp c = (.ok polled, c'))
    (hf : nextEventInner hp f = (.ok polled, f')) (hw : Whole rest c' f') : ∃ next,
    nextEvent hp c = (.ok next, taken polled c') ∧ nextEvent hp f = (.ok next, taken polled f') ∧
      Whole rest (taken polled c') (taken polled f') := by
  have hturns := nextEventInner_turns hc
  unfold nextEvent
  rw [hc, hf]
  cases polled with
  | event event => exact ⟨.event event, rfl, rfl, hw⟩
  | needData => exact ⟨.needData, rfl, rfl, hw⟩
  | paused => exact ⟨.paused, rfl, rfl, hw⟩
  | data count chunkStart chunkEnd =>
    have hle := hturns.data_le
    refine ⟨.event (.data (c'.input.asSlice.take count) chunkStart chunkEnd), rfl, ?_, hw.consume hle⟩
    dsimp only
    rw [hw.slice, List.take_append_of_le_length hle]
    rfl

/-- A poll pays. -/
theorem Owes.poll (hhp : hp.Stable) {items : List Event} {ending : Ending} (h : Owes hp rest c items ending)
    (hagree : c.LayersAgree) (hnotes : c.NotesHold) {r : Except RemoteProtocolError NextEvent}
    (hpoll : nextEvent hp c = (r, c')) : Pays hp rest c items ending r c' := by
  obtain ⟨f, events, hw, hdrains, rfl⟩ := h
  cases nextEventInner_meets hhp hw hagree hnotes with
  | @fails error error' c1 f1 hc hf hstatus =>
    have hf := nextEvent_of_error hf
    rw [hw.role, hstatus] at hf
    obtain ⟨rfl, rfl⟩ := hdrains.of_error hf
    rw [nextEvent_of_error hc] at hpoll
    cases hpoll
    exact .fails rfl rfl
  | @same r c1 f1 hc hf hw1 =>
    rcases r with error | polled
    · have hf := nextEvent_of_error hf
      rw [hw.role] at hf
      obtain ⟨rfl, rfl⟩ := hdrains.of_error hf
      rw [nextEvent_of_error hc] at hpoll
      cases hpoll
      exact .fails rfl rfl
    · obtain ⟨next, hc', hf', hw'⟩ := nextEvent_same hc hf hw1
      rw [hc'] at hpoll
      cases hpoll
      cases next with
      | needData =>
        have hopen := nextEvent_needData_open hf'
        rw [hw.eof] at hopen
        cases hopen
      | paused =>
        obtain ⟨rfl, rfl⟩ := hdrains.of_stop hf' (Or.inr rfl)
        rw [nextEvent_paused hc', nextEvent_paused hf']
        refine .paused ⟨f, [], hw, ?_, rfl⟩ fun heof => ⟨rfl, Whole.ending (hw.2.1 heof ▸ hw) heof⟩
        have hagain : Drains hp f [] (taken polled f1).ending := .stops hf' (Or.inr rfl)
        rw [nextEvent_paused hf'] at hagain
        exact hagain
      | event event =>
        rcases hdrains.of_event hf' with ⟨rfl, rfl, rfl⟩ | ⟨hevent, later, rfl, hrest⟩
        · refine .closed fun heof => ⟨rfl, Whole.ending (hw.2.1 heof ▸ hw') ?_⟩
          have hframe := nextEvent_frame hp c
          rw [hc'] at hframe
          exact hframe.eof.trans heof
        · exact .event hevent rfl ⟨_, later, hw', hrest, rfl⟩
  | @waits c1 f1 hc hf hw1 =>
    have hwait : nextEvent hp c = (.ok .needData, c1) := by
      unfold nextEvent
      rw [hc]
    have heof := nextEvent_needData_open hwait
    rw [hwait] at hpoll
    cases hpoll
    exact .waits heof ⟨f1, events, hw1, hdrains.congr (nextEvent_congr hf).symm, rfl⟩
  | @inside c1 f1 hc hf hw1 hinside hinput =>
    obtain ⟨count, hportion, hcount, hroom, hdata⟩ := nextEvent_inside hp hinside hinput
    obtain ⟨hinside', hreader⟩ := hw1.inside hinside
    have hle : count ≤ c1.input.asSlice.length := hportion ▸ Reader.portion_le _ _
    have hslice : f1.input.asSlice.take count = c1.input.asSlice.take count := by
      rw [hw1.slice, List.take_append_of_le_length hle]
    rw [nextEvent_congr hc, hdata] at hpoll
    cases hpoll
    obtain ⟨later, hitems, hlater⟩ := (hdrains.congr (nextEvent_congr hf).symm).deliver hinside' hcount
      (hreader ▸ hroom) (by rw [hw1.slice, List.length_append]; omega)
    refine .event nofun ?_ ⟨_, later, hw1.ahead hle hroom, hlater, rfl⟩
    rw [hitems, hreader, hslice]
    unfold Reader.deliver
    rw [List.length_take, Nat.min_eq_left hle]
    rfl

/-! ## What the caller sees -/

/-- The calls bring `text`, in segments that are not empty and with polls
anywhere. -/
inductive Brings : Bytes → List Op → Prop
  | nothing : Brings [] []
  | segment {data text : Bytes} {ops : List Op} (hdata : data ≠ []) (h : Brings text ops) :
      Brings (data ++ text) (.receiveData data :: ops)
  | poll {text : Bytes} {ops : List Op} (h : Brings text ops) : Brings text (.nextEvent :: ops)

/-- What a caller sees who makes the calls, then passes on the end of the input
and polls on. There is nothing to see after an error. -/
inductive Sees (hp : Httparse) : Connection → List Op → List Event → Ending → Prop
  | ends {c : Connection} {events : List Event} {ending : Ending}
      (h : Drains hp (step hp (.receiveData []) c).2 events ending) : Sees hp c [] events ending
  | call {c c' : Connection} {op : Op} {ops : List Op} {outcome : Outcome} {events : List Event}
      {ending : Ending} (h : step hp op c = (outcome, c')) (hgoes : outcome.isFailed = false)
      (hrest : Sees hp c' ops events ending) : Sees hp c (op :: ops) (outcome.events ++ events) ending
  | fails {c c' : Connection} {op : Op} {ops : List Op} {error : RemoteProtocolError}
      (h : step hp op c = (.failed error, c')) :
      Sees hp c (op :: ops) [] (.failed error.suggestedStatusCode)

theorem Reachable.step (h : Reachable hp c) (op : Op) : Reachable hp (Connection.step hp op c).2 := by
  obtain ⟨role, limits, history, hrun⟩ := h
  exact ⟨role, limits, _, .step op hrun trivial⟩

theorem Reachable.run {allowed : Connection → Op → Prop} {history : List (Op × Outcome)} (h : Reachable hp c)
    (hrun : Lib.Run (Connection.step hp) allowed c history c') : Reachable hp c' :=
  Lib.Run.invariant h (fun _ op hc _ => hc.step op) hrun

theorem Reachable.poll (h : Reachable hp c) {r : Except RemoteProtocolError NextEvent}
    (hpoll : nextEvent hp c = (r, c')) : Reachable hp c' := by
  have hstep : (Connection.step hp .nextEvent c).2 = c' := by
    show (pollOutcome (nextEvent hp c)).2 = c'
    rw [hpoll, pollOutcome_snd]
  exact hstep ▸ h.step .nextEvent

theorem Reachable.layersAgree (h : Reachable hp c) : c.LayersAgree := by
  obtain ⟨_, _, _, hrun⟩ := h
  exact run_layersAgree hrun

/-- The end of the connection is reported at the end of the input. -/
theorem nextEvent_closed_eof (h : Reachable hp c)
    (hpoll : nextEvent hp c = (.ok (.event .connectionClosed), c')) : c.eof = true := by
  have hinner : nextEventInner hp c = (.ok (.event .connectionClosed), c') := by
    rcases nextEvent_event hpoll with ⟨_, _, _, hdata⟩ | hinner
    · cases hdata
    · exact hinner
  obtain ⟨c1, hstate, hframe, _, hlast⟩ := (nextEventInner_turns hinner).last_turn
  rw [← hframe.eof]
  cases hlast with
  | closed hpeer =>
    rw [hframe.eof]
    refine reachable_closedAfterEof h ?_
    unfold peerState at hpeer ⊢
    rw [← hstate, ← hframe.role]
    exact hpeer
  | idleClosed _ heof => exact heof
  | doneClosed _ _ heof => exact heof

/-! ## Segments and the end -/

section Debt

variable {data : Bytes} {items : List Event} {ending : Ending}

/-- A segment takes nothing off the debt. -/
theorem Owes.receive (h : Owes hp (data ++ rest) c items ending) (heof : c.eof = false) :
    Owes hp rest { c with input := c.input.extend data } items ending := by
  obtain ⟨f, events, ⟨hsettled, _, buffer, progress, hbuffer, rfl⟩, hdrains, hitems⟩ := h
  refine ⟨_, events, ⟨hsettled, fun hend => ?_, buffer, progress, ?_, rfl⟩, hdrains, hitems⟩
  · rw [heof] at hend
    cases hend
  · show buffer.asSlice = (c.input.extend data).asSlice ++ rest
    rw [Buffer.asSlice_extend, List.append_assoc]
    exact hbuffer

/-- Nor does the end of the input, once there is nothing more to come. -/
theorem Owes.recordEof (h : Owes hp [] c items ending) (heof : c.eof = false) :
    Owes hp [] c.recordEof items ending := by
  obtain ⟨f, events, ⟨hsettled, _, buffer, progress, hbuffer, rfl⟩, hdrains, hitems⟩ := h
  have hclosing : c.closing = (c.role == .client) := by
    unfold closing
    rw [heof]
    rfl
  refine ⟨_, events, ⟨?_, fun _ => rfl, buffer, progress, ?_, ?_⟩, hdrains, hitems⟩
  · unfold Connection.recordEof
    rw [disableKeepAliveIf_state]
    exact hsettled.disableIf _
  · unfold Connection.recordEof
    rw [disableKeepAliveIf_input]
    exact hbuffer
  · rw [hclosing]
    unfold Connection.recordEof
    rw [disableKeepAliveIf_eq]
    rfl

/-- Everything is owed at the start. -/
theorem exists_owes (hhp : hp.TakesBytes) (hsettled : c.state.Settled) (hopen : c.ChunkOpen)
    (heof : c.eof = false) (text : Bytes) : ∃ items ending, Owes hp text c items ending := by
  let all : Connection := { c with
    input := c.input.extend text
    eof := true
    state := c.state.disableKeepAliveIf c.closing
    cycle := { c.cycle with progress := .new, reader := c.cycle.reader.unscanned } }
  have hopen' : all.ChunkOpen := by
    intro remaining first hdata
    change c.cycle.reader.unscanned = _ at hdata
    refine hopen remaining first ?_
    unfold Reader.unscanned at hdata
    split at hdata
    · cases hdata
    · exact hdata
  obtain ⟨events, ending, hdrains⟩ := exists_drains hhp hopen'
  refine ⟨splitAll events, ending, all, events, ⟨hsettled, fun hend => ?_, _, .new, ?_, rfl⟩, hdrains, rfl⟩
  · rw [heof] at hend
    cases hend
  · exact Buffer.asSlice_extend _ _

/-- After the end of the input what is drained is what is owed. -/
theorem Drains.owed (hhp : hp.Stable) {events : List Event} {ending' : Ending}
    (h : Drains hp c events ending') (hreach : Reachable hp c) (hnotes : c.NotesHold) (heof : c.eof = true)
    (howes : Owes hp [] c items ending) : splitAll events = items ∧ ending' = ending := by
  induction h generalizing items with
  | fails h =>
    cases howes.poll hhp hreach.layersAgree hnotes h with
    | fails hitems hending => exact ⟨hitems.symm, hending.symm⟩
  | stops h hnext =>
    cases howes.poll hhp hreach.layersAgree hnotes h with
    | waits hopen =>
      rw [heof] at hopen
      cases hopen
    | paused _ hstop =>
      obtain ⟨hitems, hending⟩ := hstop heof
      exact ⟨hitems.symm, hending.symm⟩
    | closed | event => rcases hnext with hnext | hnext <;> cases hnext
  | closed h =>
    cases howes.poll hhp hreach.layersAgree hnotes h with
    | closed hstop =>
      obtain ⟨hitems, hending⟩ := hstop heof
      exact ⟨hitems.symm, hending.symm⟩
    | event hevent => exact absurd rfl hevent
  | @event c c' event events ending' h hevent _ ih =>
    cases howes.poll hhp hreach.layersAgree hnotes h with
    | closed => exact absurd rfl hevent
    | event _ hitems hlater =>
      have hframe := nextEvent_frame hp c
      rw [h] at hframe
      obtain ⟨hrest, hending⟩ := ih (hreach.poll h) (nextEvent_notes hhp hreach.layersAgree hnotes h)
        (hframe.eof.trans heof) hlater
      refine ⟨?_, hending⟩
      rw [hitems, ← hrest]
      rfl

/-- What the caller sees is what is owed, however the bytes are cut. -/
theorem Sees.owed (hhp : hp.Stable) {text : Bytes} {ops : List Op} {events : List Event} {ending' : Ending}
    (hbrings : Brings text ops) (h : Sees hp c ops events ending') (hreach : Reachable hp c)
    (hnotes : c.NotesHold) (heof : c.eof = false) (howes : Owes hp text c items ending) :
    splitAll events = items ∧ ending' = ending := by
  induction hbrings generalizing c events items with
  | nothing =>
    cases h with
    | ends h =>
      have hstep : (Connection.step hp (.receiveData []) c).2 = c.recordEof := by
        show (outcome _ (receiveData [] c)).2 = _
        rw [outcome_snd, receiveData_eof]
      have hreach' := hreach.step (.receiveData [])
      rw [hstep] at h hreach'
      have hnotes' : c.recordEof.NotesHold := by
        unfold Connection.recordEof
        rw [disableKeepAliveIf_eq]
        exact hnotes
      refine h.owed hhp hreach' hnotes' ?_ (howes.recordEof heof)
      unfold Connection.recordEof
      rw [disableKeepAliveIf_eof]
  | @segment data text ops hdata hbrings ih =>
    have hstep : Connection.step hp (.receiveData data) c =
        (.unit, { c with input := c.input.extend data }) := by
      show outcome _ (receiveData data c) = _
      rw [receiveData_extends heof hdata]
      rfl
    have hreach' := hreach.step (.receiveData data)
    rw [hstep] at hreach'
    have hnotes' : NotesHold { c with input := c.input.extend data } :=
      fun chunk hreader => (hnotes chunk hreader).extend data
    cases h with
    | call h _ hrest =>
      rw [hstep] at h
      cases h
      exact ih hrest hreach' hnotes' heof (howes.receive heof)
    | fails h =>
      rw [hstep] at h
      cases h
  | @poll text ops hbrings ih =>
    have hstep : Connection.step hp .nextEvent c = pollOutcome (nextEvent hp c) := rfl
    rcases hpoll : nextEvent hp c with ⟨error | next, c1⟩
    · rw [hpoll] at hstep
      have hpays := howes.poll hhp hreach.layersAgree hnotes hpoll
      cases h with
      | call h hgoes =>
        rw [hstep] at h
        cases h
        cases hgoes
      | fails h =>
        rw [hstep] at h
        cases h
        cases hpays with
        | fails hitems hending => exact ⟨hitems.symm, hending.symm⟩
    · rw [hpoll] at hstep
      have hpays := howes.poll hhp hreach.layersAgree hnotes hpoll
      have hreach' := hreach.poll hpoll
      have hnotes' := nextEvent_notes hhp hreach.layersAgree hnotes hpoll
      have hframe := nextEvent_frame hp c
      rw [hpoll] at hframe
      have heof' : c1.eof = false := hframe.eof.trans heof
      cases h with
      | fails h =>
        rw [hstep] at h
        cases h
      | call h _ hrest =>
        rw [hstep] at h
        cases h
        cases hpays with
        | waits _ howes' => exact ih hrest hreach' hnotes' heof' howes'
        | paused howes' => exact ih hrest hreach' hnotes' heof' howes'
        | closed =>
          rw [nextEvent_closed_eof hreach hpoll] at heof
          cases heof
        | event _ hitems howes' =>
          obtain ⟨hlater, hending⟩ := ih hrest hreach' hnotes' heof' howes'
          refine ⟨?_, hending⟩
          rw [hitems, ← hlater]
          rfl

/-- Every way of bringing bytes comes to an end. -/
theorem exists_sees (hhp : hp.TakesBytes) {text : Bytes} {ops : List Op} (hbrings : Brings text ops)
    (hreach : Reachable hp c) : ∃ events ending, Sees hp c ops events ending := by
  have hcall : ∀ {c : Connection} {op : Op} {ops : List Op},
      (∃ events ending, Sees hp (Connection.step hp op c).2 ops events ending) →
      ∃ events ending, Sees hp c (op :: ops) events ending := by
    rintro c op ops ⟨events, ending, hrest⟩
    cases hfailed : (Connection.step hp op c).1.isFailed with
    | false => exact ⟨_, _, .call rfl hfailed hrest⟩
    | true =>
      obtain ⟨error, herror⟩ := Outcome.exists_failed hfailed
      exact ⟨_, _, .fails (Prod.ext herror rfl)⟩
  induction hbrings generalizing c with
  | nothing =>
    obtain ⟨events, ending, hdrains⟩ := exists_drains hhp (reachable_chunkOpen (hreach.step (.receiveData [])))
    exact ⟨events, ending, .ends hdrains⟩
  | segment _ _ ih => exact hcall (ih (hreach.step _))
  | poll _ ih => exact hcall (ih (hreach.step _))

end Debt

/-- From a reachable connection with an empty buffer, and however a text is cut
into segments and polled between them, its caller sees the same events up to the
splitting of `Data` events, and the same end: an error that suggests the same
status, or the same states, keep-alive and trailing data. -/
theorem segmentation_is_invisible (hhp : hp.Stable) {start : Connection} (h : Reachable hp start)
    (hinput : start.input.asSlice = []) (heof : start.eof = false) (text : Bytes) :
    (∀ ops, Brings text ops → ∃ events ending, Sees hp start ops events ending) ∧
    ∀ (ops ops' : List Op) (events events' : List Event) (ending ending' : Ending),
      Brings text ops → Brings text ops' → Sees hp start ops events ending →
      Sees hp start ops' events' ending' → splitAll events = splitAll events' ∧ ending = ending' := by
  refine ⟨fun ops hbrings => exists_sees hhp.takesBytes hbrings h, ?_⟩
  intro ops ops' events events' ending ending' hbrings hbrings' hsees hsees'
  have hnotes := reachable_notesHold h hinput
  obtain ⟨items, last, howes⟩ := exists_owes hhp.takesBytes (reachable_settled h) (reachable_chunkOpen h)
    heof text
  obtain ⟨hevents, hending⟩ := hsees.owed hhp hbrings h hnotes heof howes
  obtain ⟨hevents', hending'⟩ := hsees'.owed hhp hbrings' h hnotes heof howes
  exact ⟨hevents.trans hevents'.symm, hending.trans hending'.symm⟩

/-- A request in one segment, and in two with a poll between them. -/
theorem request_in_two_segments : ∃ events events' ending,
    Sees Reference.httparse (new .server .default) [.receiveData (plainGetHead .http11)] events ending ∧
    Sees Reference.httparse (new .server .default) [.receiveData ((plainGetHead .http11).take 16), .nextEvent,
      .receiveData ((plainGetHead .http11).drop 16)] events' ending ∧
    splitAll events = splitAll events' := by
  have hbrings : Brings (plainGetHead .http11) [.receiveData (plainGetHead .http11)] :=
    List.append_nil (plainGetHead .http11) ▸ .segment (by decide) .nothing
  have hbrings' : Brings (plainGetHead .http11) [.receiveData ((plainGetHead .http11).take 16), .nextEvent,
      .receiveData ((plainGetHead .http11).drop 16)] := by
    have hrest : Brings ((plainGetHead .http11).drop 16) [.receiveData ((plainGetHead .http11).drop 16)] :=
      List.append_nil ((plainGetHead .http11).drop 16) ▸ .segment (by decide) .nothing
    exact List.take_append_drop 16 (plainGetHead .http11) ▸ .segment (by decide) (.poll hrest)
  have hnew : Reachable Reference.httparse (new .server .default) := ⟨.server, .default, [], .start⟩
  obtain ⟨hends, hsame⟩ := segmentation_is_invisible Reference.stable hnew rfl rfl (plainGetHead .http11)
  obtain ⟨events, ending, hsees⟩ := hends _ hbrings
  obtain ⟨events', ending', hsees'⟩ := hends _ hbrings'
  obtain ⟨hevents, rfl⟩ := hsame _ _ _ _ _ _ hbrings hbrings' hsees hsees'
  exact ⟨events, events', ending, hsees, hsees', hevents⟩

end H11r.Connection
