import H11r.Connection.Output
import H11r.Connection.Segments

/-!
# A message that is on its way

The peer has sent a message, and the connection has some of it: `text` is what
is in its buffer and what is still to come. `Arrives` says what it will report
from inside the body, up to the splitting of `Data` events, and what is left
when it has. A poll reports a part of that, or waits for more; it does not
fail, and when all bytes have come it does not wait, except that a body without
another end lasts until the input ends.
-/

namespace H11r

open Lib (Call)

/-- Plain `Data` events may be cut anywhere. -/
theorem Event.bytewise_plain (bytes more : Bytes) : bytewise (bytes ++ more) false false =
    bytewise bytes false false ++ bytewise more false false := by
  by_cases hbytes : bytes = []
  · subst hbytes
    rfl
  · by_cases hmore : more = []
    · subst hmore
      rw [List.append_nil]
      exact (List.append_nil _).symm
    · exact bytewise_append hbytes hmore false false

theorem Event.bytewise_bytes (bytes : Bytes) (chunkStart chunkEnd : Bool) :
    (bytewise bytes chunkStart chunkEnd).flatMap Event.bytes = bytes := by
  induction bytes generalizing chunkStart with
  | nil => rfl
  | cons byte rest ih =>
    by_cases hrest : rest = []
    · subst hrest
      rfl
    · rw [bytewise_cons hrest, List.flatMap_cons, ih]
      rfl

theorem chunkItems_bytes (chunks : List Bytes) : (chunkItems chunks).flatMap Event.bytes = chunks.flatten := by
  unfold chunkItems
  rw [List.flatMap_assoc]
  simp only [Event.bytewise_bytes, List.flatMap_id']

theorem splitAll_bytes (events : List Event) : (splitAll events).flatMap Event.bytes = events.flatMap Event.bytes := by
  have hsplit : ∀ event : Event, event.split.flatMap Event.bytes = event.bytes := by
    intro event
    cases event with
    | data bytes chunkStart chunkEnd => exact Event.bytewise_bytes bytes chunkStart chunkEnd
    | _ => rfl
  unfold splitAll
  rw [List.flatMap_assoc]
  simp only [hsplit]

/-- A poll that has nothing more of a message to return. -/
def NextEvent.Rests (next : NextEvent) : Prop :=
  next = .needData ∨ next = .paused ∨ next = .event .connectionClosed

theorem NextEvent.Rests.closes {event : Event} (h : (NextEvent.event event).Rests) : event = .connectionClosed := by
  rcases h with h | h | h
  · cases h
  · cases h
  · exact NextEvent.event.inj h

namespace Connection

variable {hp : Httparse} {c c' : Connection} {rest text after : Bytes} {items : List Event}
  {trailers : Headers} {untilEof : Bool}

/-! ## Inside a body -/

/-- The decoder is inside payload that carries `body`: counted, or up to the end
of the input, and then nothing comes after it. -/
structure Carries (c : Connection) (untilEof : Bool) (body after : Bytes) : Prop where
  peer : c.peerState = .sendBody
  reader : c.cycle.reader = if untilEof then .closeDelimited else .fixed body.length
  last : untilEof = true → after = []

/-- Inside a body, `c` makes these `Data` events and these trailers of `text`, and
`after` is left. -/
inductive Arrives (hp : Httparse) (c : Connection) (untilEof : Bool) : (text : Bytes) →
    (items : List Event) → (trailers : Headers) → (after : Bytes) → Prop
  | plain {body after : Bytes} (hc : c.Carries untilEof body after) :
      Arrives hp c untilEof (body ++ after) (Event.bytewise body false false) .new after
  | chunked {text after : Bytes} {items : List Event} {trailers : Headers} (huntil : untilEof = false)
      (hc : c.Decoding) (h : c.Expects hp text items trailers after) :
      Arrives hp c untilEof text items trailers after

/-- What a poll makes of a body that is on its way. -/
inductive Gives (hp : Httparse) (c : Connection) (rest : Bytes) (untilEof : Bool) (items : List Event)
    (trailers : Headers) (after : Bytes) : Except RemoteProtocolError NextEvent → Connection → Prop
  | waits {c' : Connection} (heof : c.eof = false) (hrest : rest = [] → untilEof = true)
      (hafter : Arrives hp c' untilEof (c'.input.asSlice ++ rest) items trailers after) :
      Gives hp c rest untilEof items trailers after (.ok .needData) c'
  | data {c' : Connection} {bytes : Bytes} {chunkStart chunkEnd : Bool} {later : List Event}
      (hbytes : bytes ≠ []) (hitems : items = Event.bytewise bytes chunkStart chunkEnd ++ later)
      (hafter : Arrives hp c' untilEof (c'.input.asSlice ++ rest) later trailers after) :
      Gives hp c rest untilEof items trailers after (.ok (.event (.data bytes chunkStart chunkEnd))) c'
  | ends {c' : Connection} (hitems : items = []) (hthrough : through c'.peerState = true)
      (hinput : c'.input.asSlice ++ rest = after) :
      Gives hp c rest untilEof items trailers after (.ok (.event (.endOfMessage trailers))) c'

/-- A body of which nothing is missing is over. -/
theorem nextEvent_finishes (hp : Httparse) (hpeer : c.peerState = .sendBody)
    (hreader : c.cycle.reader = .fixed 0 ∨
      (c.cycle.reader = .closeDelimited ∧ c.input.asSlice = [] ∧ c.eof = true)) :
    ∃ c', nextEvent hp c = (.ok (.event (.endOfMessage .new)), c') ∧ through c'.peerState = true ∧
      c'.input = c.input := by
  obtain ⟨state, hstate⟩ := Option.isSome_iff_exists.mp (processEvent_insideBody _ _ hpeer).2
  have hfinish : finishPeer .new c = (.ok (.event (.endOfMessage .new)), finishedPeer state c) := by
    rcases hcall : finishPeer .new c with ⟨r, c'⟩
    rcases finishPeer_cases hcall with ⟨state', hstate', rfl, rfl⟩ | ⟨_, hnone, _, _⟩
    · rw [hstate] at hstate'
      cases hstate'
      rfl
    · rw [hstate] at hnone
      cases hnone
  have hdispatch : dispatch hp c = (.ok (some (.event (.endOfMessage .new))), finishedPeer state c) := by
    unfold dispatch
    rw [Call.get_bind]
    simp only [hpeer]
    unfold readBody
    rw [Call.get_bind]
    rcases hreader with hreader | ⟨hreader, hinput, heof⟩
    · simp only [hreader]
      exact Call.bind_of_ok hfinish
    · simp only [hreader]
      rw [if_neg (fun hsome => hsome hinput), if_pos heof]
      exact Call.bind_of_ok hfinish
  refine ⟨finishedPeer state c, ?_, processEvent_endOfMessage _ _ _ hstate, rfl⟩
  unfold nextEvent
  rw [nextEventInner_reports hdispatch]

theorem Carries.inside {body : Bytes} (h : c.Carries untilEof body after) (hbody : untilEof = false → body ≠ []) :
    c.Inside := by
  refine ⟨h.peer, ?_⟩
  rw [h.reader]
  cases untilEof with
  | true => trivial
  | false => exact List.length_pos_iff.mpr (hbody rfl)

/-- A poll in payload that carries `body` delivers of it what has come. -/
theorem nextEvent_carries (hp : Httparse) {body : Bytes} (hc : c.Carries untilEof body after) (hbody : body ≠ [])
    (htext : c.input.asSlice ++ rest = body ++ after) (hinput : c.input.asSlice ≠ []) :
    ∃ c' bytes more, bytes ≠ [] ∧ body = bytes ++ more ∧
      nextEvent hp c = (.ok (.event (.data bytes false false)), c') ∧ c'.Carries untilEof more after ∧
      c'.input.asSlice ++ rest = more ++ after := by
  have hpos := List.length_pos_iff.mpr hbody
  obtain ⟨count, hportion, hcount, hroom, hpoll⟩ := nextEvent_inside hp (hc.inside fun _ => hbody) hinput
  have hbuffer : count ≤ c.input.asSlice.length := hportion ▸ Reader.portion_le _ _
  -- No more than the body is delivered.
  have hwithin : count ≤ body.length := by
    rw [hc.reader] at hroom
    cases untilEof with
    | false => exact hroom
    | true =>
      rw [hc.last rfl, List.append_nil] at htext
      rw [← htext, List.length_append]
      omega
  have hplain : c.cycle.reader.startsChunk = false ∧ c.cycle.reader.endsChunk count = false := by
    rw [hc.reader]
    cases untilEof <;> exact ⟨rfl, rfl⟩
  have htake : c.input.asSlice.take count = body.take count := by
    have hboth := congrArg (List.take count) htext
    rw [List.take_append_of_le_length hbuffer, List.take_append_of_le_length hwithin] at hboth
    exact hboth
  rw [hplain.1, hplain.2, htake] at hpoll
  refine ⟨_, body.take count, body.drop count, ?_, (List.take_append_drop count body).symm, hpoll,
    ⟨hc.peer, ?_, hc.last⟩, ?_⟩
  · intro hnil
    have hlength := congrArg List.length hnil
    rw [List.length_take, List.length_nil] at hlength
    omega
  · show c.cycle.reader.after count = _
    rw [hc.reader, List.length_drop]
    cases untilEof <;> rfl
  · show (c.input.consume count).asSlice ++ rest = _
    rw [Buffer.asSlice_consume, ← List.drop_append_of_le_length hbuffer, htext,
      List.drop_append_of_le_length hwithin]

/-- A poll inside a body that is on its way. -/
theorem nextEvent_arrives (hhp : hp.Stable)
    (h : Arrives hp c untilEof (c.input.asSlice ++ rest) items trailers after) (heof : c.eof = true → rest = [])
    {r : Except RemoteProtocolError NextEvent} (hpoll : nextEvent hp c = (r, c')) :
    Gives hp c rest untilEof items trailers after r c' := by
  generalize htext : c.input.asSlice ++ rest = text at h
  cases h with
  | @plain body _ hc =>
    have hends : c.cycle.reader = .fixed 0 ∨
        (c.cycle.reader = .closeDelimited ∧ c.input.asSlice = [] ∧ c.eof = true) → body = [] →
        Gives hp c rest untilEof (Event.bytewise body false false) .new after r c' := by
      rintro hover rfl
      obtain ⟨c1, hlast, hthrough, hinput⟩ := nextEvent_finishes hp hc.peer hover
      rw [hlast] at hpoll
      cases hpoll
      refine .ends rfl hthrough ?_
      rw [hinput]
      exact htext
    have hwaits : c.input.asSlice = [] → c.eof = false → (untilEof = false → body ≠ []) →
        (rest = [] → untilEof = true) →
        Gives hp c rest untilEof (Event.bytewise body false false) .new after r c' := by
      intro hinput hopen hbody hrest
      rw [nextEvent_waits (hc.inside hbody) hinput hopen] at hpoll
      cases hpoll
      refine .waits hopen hrest ?_
      rw [htext]
      exact .plain hc
    by_cases hbody : body = []
    · have hreader := hc.reader
      by_cases huntil : untilEof = true
      · rw [if_pos huntil] at hreader
        rw [hbody, hc.last huntil] at htext
        have hinput := (List.append_eq_nil_iff.mp htext).1
        by_cases hopen : c.eof = true
        · exact hends (Or.inr ⟨hreader, hinput, hopen⟩) hbody
        · exact hwaits hinput (Bool.eq_false_iff.mpr hopen) (fun hcounted => by rw [huntil] at hcounted; cases hcounted)
            fun _ => huntil
      · rw [if_neg huntil, hbody] at hreader
        exact hends (Or.inl hreader) hbody
    · by_cases hinput : c.input.asSlice = []
      · have hrest : rest ≠ [] := by
          rintro rfl
          rw [hinput] at htext
          exact hbody (List.append_eq_nil_iff.mp htext.symm).1
        exact hwaits hinput (Bool.eq_false_iff.mpr fun hclosed => hrest (heof hclosed)) (fun _ => hbody)
          fun hnone => absurd hnone hrest
      · obtain ⟨c1, bytes, more, hbytes, rfl, hdata, hc', htext'⟩ := nextEvent_carries hp hc hbody htext hinput
        rw [hdata] at hpoll
        cases hpoll
        refine .data hbytes (Event.bytewise_plain bytes more) ?_
        rw [htext']
        exact .plain hc'
  | chunked huntil hc hexpects =>
    rw [← htext] at hexpects
    cases nextEvent_polls hhp hc hpoll with
    | waits hc' hfollows hopen hunfinished =>
      refine .waits hopen (fun hnone => ?_) ?_
      · rw [hnone, List.append_nil] at hexpects
        exact absurd hexpects (hunfinished _ _ _)
      · obtain ⟨later, rfl, hlater⟩ := (hfollows rest _ _ _).mp hexpects
        exact .chunked huntil hc' hlater
    | data hbytes hc' hfollows =>
      obtain ⟨later, rfl, hlater⟩ := (hfollows rest _ _ _).mp hexpects
      exact .data hbytes rfl (.chunked huntil hc' hlater)
    | ends hthrough hends =>
      obtain ⟨rfl, rfl, hafter⟩ := (hends rest _ _ _).mp hexpects
      exact .ends rfl hthrough hafter.symm
    | fails _ hhopeless => exact absurd hexpects (hhopeless rest heof _ _ _)

/-! Calls that leave the decoder alone leave the body on its way. -/

theorem Arrives.same (h : Arrives hp c untilEof text items trailers after) (hsame : SameDecoder c c')
    (hpeer : c'.peerState = .sendBody) : Arrives hp c' untilEof text items trailers after := by
  cases h with
  | plain hc => exact .plain ⟨hpeer, hsame.reader.trans hc.reader, hc.last⟩
  | chunked huntil hc hexpects => exact .chunked huntil (hsame.decoding hpeer hc) (hsame.expects_iff.mpr hexpects)

theorem Arrives.extend (h : Arrives hp c untilEof text items trailers after) (data : Bytes) :
    Arrives hp { c with input := c.input.extend data } untilEof text items trailers after := by
  cases h with
  | plain hc => exact .plain ⟨hc.peer, hc.reader, hc.last⟩
  | chunked huntil hc hexpects => exact .chunked huntil (hc.extend data) hexpects

theorem Arrives.peer (h : Arrives hp c untilEof text items trailers after) : c.peerState = .sendBody := by
  cases h with
  | plain hc => exact hc.peer
  | chunked _ hc => exact hc.peer

/-! ## Behind a message -/

/-- The peer is through with its message, in which nothing was wrong. -/
structure Over (c : Connection) : Prop where
  through : through c.peerState = true
  fine : c.peerState ≠ .error

theorem Turn.unpoisoned {r : Except RemoteProtocolError (Option Polled)} (h : Turn hp c r c')
    (hfine : c.peerState ≠ .error) : c'.peerState ≠ .error := by
  have hmoves : Moves c.role.peer.peer c.state c'.state := h.moves
  unfold peerState at hfine ⊢
  rw [h.frame.role]
  exact Lib.preserve (P := fun s => s.state c.role.peer ≠ .error) (fun _ _ => move_unpoisoned) hmoves hfine

theorem Turns.unpoisoned {r : Except RemoteProtocolError Polled} (h : Turns hp c r c')
    (hfine : c.peerState ≠ .error) : c'.peerState ≠ .error := by
  induction h with
  | last hturn => exact hturn.unpoisoned hfine
  | again hturn _ ih => exact ih (hturn.unpoisoned hfine)

/-- A poll that does not fail does not poison. -/
theorem nextEvent_unpoisoned {next : NextEvent} (h : nextEvent hp c = (.ok next, c'))
    (hfine : c.peerState ≠ .error) : c'.peerState ≠ .error := by
  unfold nextEvent at h
  rcases hpoll : nextEventInner hp c with ⟨error | polled, c1⟩
  · rw [hpoll] at h
    cases h
  · have hkept := (nextEventInner_turns hpoll).unpoisoned hfine
    rw [hpoll] at h
    cases polled <;> cases h <;> exact hkept

/-- Behind a message a poll does not fail, and has nothing more of it. -/
theorem nextEvent_over (hp : Httparse) (hover : c.Over) : ∃ next c', nextEvent hp c = (.ok next, c') ∧
    next.Rests ∧ c'.Over ∧ c'.input.asSlice = c.input.asSlice := by
  obtain ⟨hthrough, hinput, hcloses⟩ := nextEvent_through hp hover.through
  rcases hpoll : nextEvent hp c with ⟨error | next, c'⟩
  · exfalso
    have hinner : ∃ error' c1, nextEventInner hp c = (.error error', c1) := by
      unfold nextEvent at hpoll
      rcases hinner : nextEventInner hp c with ⟨error' | polled, c1⟩
      · exact ⟨error', c1, rfl⟩
      · rw [hinner] at hpoll
        cases polled <;> cases hpoll
    obtain ⟨error', c1, hinner⟩ := hinner
    obtain ⟨c2, hstate, hframe, _, hturn⟩ := (nextEventInner_turns hinner).last_turn
    have hpeer : c2.peerState = c.peerState := by
      unfold peerState
      rw [hstate, hframe.role]
    rcases hturn.failed_peer with hreading | hfailed
    · have hnot := hreading.not_through
      rw [hpeer, hover.through] at hnot
      cases hnot
    · exact hover.fine (hpeer.symm.trans hfailed)
  · rw [hpoll] at hthrough hinput hcloses
    refine ⟨next, c', rfl, ?_, ⟨hthrough, nextEvent_unpoisoned hpoll hover.fine⟩, hinput⟩
    cases next with
    | needData => exact Or.inl rfl
    | paused => exact Or.inr (Or.inl rfl)
    | event event => exact Or.inr (Or.inr (congrArg NextEvent.event (hcloses event rfl)))

theorem Change.over (h : Change c c') (hover : c.Over) : c'.Over := by
  refine ⟨h.through hover.through, ?_⟩
  have hmoves : Moves c.role.peer.peer c.state c'.state := h.moves
  have hfine := hover.fine
  unfold peerState at hfine ⊢
  rw [h.role]
  exact Lib.preserve (P := fun s => s.state c.role.peer ≠ .error) (fun _ _ => move_unpoisoned) hmoves hfine

/-! ## In front of a head -/

/-- The decoder is in front of a head, of which it has seen nothing that it would
have to look at again. -/
structure BeforeHead (c : Connection) : Prop where
  reader : c.cycle.reader = .head
  spent : c.cycle.chunkExtensionBytes = 0
  notes : c.SectionNotes true

/-- A connection whose peer has not begun, and that has not received anything, is
in front of a head. -/
theorem reachable_beforeHead (h : Reachable hp c) (hbegins : c.peerState.begins = true)
    (hinput : c.input.asSlice = []) : c.BeforeHead := by
  have hhead : c.peerState.readsHead = true := by
    cases hpeer : c.peerState <;> rw [hpeer] at hbegins <;> first | rfl | cases hbegins
  have hopen : c.peerState ≠ .closed := by
    intro hclosed
    rw [hclosed] at hbegins
    cases hbegins
  have hfits := (reachable_fits h).resolve_right hopen
  obtain ⟨role, limits, history, hrun⟩ := h
  have hreader : c.cycle.reader = .head := (run_layersAgree hrun).head hhead
  obtain ⟨lines, hwatched⟩ := run_watched hrun
  refine ⟨hreader, (watchedRun_ok hwatched).counted.before hbegins, [], List.nil_prefix, ?_⟩
  unfold Fits at hfits
  rw [hinput, hreader] at hfits
  obtain ⟨seen, found, hseen, hnoted⟩ := hfits
  have hnil := List.prefix_nil.mp hseen
  subst hnil
  have hfresh : found = false := hnoted.nil
  subst hfresh
  exact hnoted

theorem BeforeHead.same (h : c.BeforeHead) (hsame : SameDecoder c c') : c'.BeforeHead := by
  obtain ⟨seen, hseen, hwatched⟩ := h.notes
  refine ⟨hsame.reader.trans h.reader, hsame.spent.trans h.spent, seen, ?_, ?_⟩
  · rw [hsame.input]
    exact hseen
  · rw [hsame.progress]
    exact hwatched

theorem BeforeHead.extend (h : c.BeforeHead) (data : Bytes) :
    BeforeHead { c with input := c.input.extend data } := by
  obtain ⟨seen, hseen, hwatched⟩ := h.notes
  refine ⟨h.reader, h.spent, seen, hseen.trans ?_, hwatched⟩
  show c.input.asSlice <+: (c.input.extend data).asSlice
  rw [Buffer.asSlice_extend]
  exact List.prefix_append _ _
theorem advancePeer_of_some {event : StateEvent} {state : ConnectionState}
    (h : c.state.processEvent c.role.peer event = some state) :
    advancePeer event c = (.ok (), { c with state := state }) := by
  unfold advancePeer
  rw [h]

/-- A section that is on its way is waited for, and accepted when it has come. -/
theorem readSection_comes {α : Type} {parse : Bytes → Except RemoteProtocolError (Option α)} {head more : Bytes}
    {value : α} (accept : α → RemoteCall Polled) (hreads : ReadsAs parse head value)
    (hfits : head.length ≤ c.limits.maxHeadBytes) (hnotes : c.SectionNotes true)
    (htext : c.input.asSlice ++ rest = head ++ more) (heof : c.eof = true → rest = []) : ∃ progress,
    (rest ≠ [] ∧ c.eof = false ∧
      (c.rescan progress c.cycle.reader c.cycle.chunkExtensionBytes).SectionNotes true ∧
      readSection true parse accept c =
        (.ok .needData, c.rescan progress c.cycle.reader c.cycle.chunkExtensionBytes)) ∨
    ∃ later, c.input.asSlice = head ++ later ∧ later ++ rest = more ∧
      readSection true parse accept c =
        accept value (c.rescan progress c.cycle.reader c.cycle.chunkExtensionBytes) := by
  obtain ⟨due, progress, hdue, hlooked, hafter⟩ := sectionDue_watched hnotes
  refine ⟨progress, ?_⟩
  have hends : emptyLineEnd head true = some head.length := (emptyLineEnd_iff _ _ _).mpr hreads.ends
  have hcut : (∃ missing, missing ≠ [] ∧ c.input.asSlice ++ missing = head ∧ rest ≠ []) ∨
      ∃ later, c.input.asSlice = head ++ later ∧ later ++ rest = more := by
    rcases List.append_eq_append_iff.mp htext with ⟨missing, hhead, hrest⟩ | ⟨later, hinput, hmore⟩
    · by_cases hnone : missing = []
      · subst hnone
        rw [List.append_nil] at hhead
        exact Or.inr ⟨[], by rw [hhead, List.append_nil], hrest⟩
      · refine Or.inl ⟨missing, hnone, hhead.symm, fun hnil => hnone ?_⟩
        rw [hnil] at hrest
        exact (List.append_eq_nil_iff.mp hrest.symm).1
    · exact Or.inr ⟨later, hinput, hmore.symm⟩
  rcases hcut with ⟨missing, hmissing, hhead, hrest⟩ | ⟨later, hlater, hmore⟩
  · -- A part of the head has come.
    have hpos := List.length_pos_iff.mpr hmissing
    have hlength := congrArg List.length hhead
    rw [List.length_append] at hlength
    have hopen : c.eof = false := Bool.eq_false_iff.mpr fun hclosed => hrest (heof hclosed)
    have hno : ∀ stop, ¬EndsSection c.input.asSlice true stop := by
      intro stop hstop
      have hfound := (emptyLineEnd_iff _ _ _).mpr hstop
      have hlonger := emptyLineEnd_append missing hfound
      rw [hhead, hends] at hlonger
      cases hlonger
      have hle := emptyLineEnd_le hfound
      omega
    have hlimit : c.input.asSlice.length ≤ c.limits.maxHeadBytes := by omega
    have hwaits : waitForSection true (c.rescan progress c.cycle.reader c.cycle.chunkExtensionBytes) =
        (.ok .needData, c.rescan progress c.cycle.reader c.cycle.chunkExtensionBytes) := by
      refine waitForSection_waits ?_ ?_ true
      · exact hlimit
      · exact hopen
    refine Or.inl ⟨hrest, hopen, hafter hno, ?_⟩
    unfold readSection
    rw [Call.bind_of_ok hdue, Call.get_bind]
    cases due with
    | false => rw [if_pos (by decide), hwaits]
    | true =>
      have hsection : (c.rescan progress c.cycle.reader c.cycle.chunkExtensionBytes).headSection =
          c.input.asSlice := List.take_of_length_le hlimit
      rw [if_neg (by decide), Call.ofExcept_bind, hsection, hreads.part _ missing hhead hmissing]
      exact hwaits
  · refine Or.inr ⟨later, hlater, hmore, ?_⟩
    have htrue : due = true := by
      cases due with
      | true => rfl
      | false =>
        have hfound : emptyLineEnd c.input.asSlice true = some head.length := by
          rw [hlater]
          exact emptyLineEnd_append later hends
        exact absurd ((emptyLineEnd_iff _ _ _).mp hfound) ((hlooked rfl).2 _)
    have hsection : (c.rescan progress c.cycle.reader c.cycle.chunkExtensionBytes).headSection =
        head ++ later.take (c.limits.maxHeadBytes - head.length) := by
      show c.input.asSlice.take c.limits.maxHeadBytes = _
      rw [hlater, List.take_append, List.take_of_length_le hfits]
    unfold readSection
    rw [Call.bind_of_ok hdue, Call.get_bind, htrue, if_neg (by decide), Call.ofExcept_bind, hsection,
      hreads.whole]

/-- Where nothing has come a section is waited for. -/
theorem readSection_nothing {α : Type} (parse : Bytes → Except RemoteProtocolError (Option α))
    (accept : α → RemoteCall Polled) (hparse : parse [] = .ok none) (hnotes : c.SectionNotes true)
    (hinput : c.input.asSlice = []) (heof : c.eof = false) : ∃ progress,
    (c.rescan progress c.cycle.reader c.cycle.chunkExtensionBytes).SectionNotes true ∧
    readSection true parse accept c =
      (.ok .needData, c.rescan progress c.cycle.reader c.cycle.chunkExtensionBytes) := by
  obtain ⟨due, progress, hdue, _, hafter⟩ := sectionDue_watched hnotes
  have hno : ∀ stop, ¬EndsSection c.input.asSlice true stop := by
    intro stop hstop
    rw [hinput] at hstop
    obtain ⟨leading, lines, last, later, htext, _, _, hlast, _⟩ := hstop
    have hnil : last = [] :=
      (List.append_eq_nil_iff.mp (List.append_eq_nil_iff.mp (List.append_eq_nil_iff.mp htext.symm).2).2).1
    subst hnil
    rcases hlast with hlast | hlast <;> cases hlast
  refine ⟨progress, hafter hno, ?_⟩
  have hwaits : waitForSection true (c.rescan progress c.cycle.reader c.cycle.chunkExtensionBytes) =
      (.ok .needData, c.rescan progress c.cycle.reader c.cycle.chunkExtensionBytes) := by
    refine waitForSection_waits ?_ ?_ true
    · show c.input.asSlice.length ≤ c.limits.maxHeadBytes
      rw [hinput]
      exact Nat.zero_le _
    · exact heof
  unfold readSection
  rw [Call.bind_of_ok hdue, Call.get_bind]
  cases due with
  | false => rw [if_pos (by decide), hwaits]
  | true =>
    have hsection : (c.rescan progress c.cycle.reader c.cycle.chunkExtensionBytes).headSection = [] := by
      show c.input.asSlice.take c.limits.maxHeadBytes = []
      rw [hinput, List.take_nil]
    rw [if_neg (by decide), Call.ofExcept_bind, hsection, hparse]
    exact hwaits

/-! ## A message from its head to its end -/

/-- A message: its head and the event that reports it, and its body with the
`Data` events, byte by byte, and the trailers that it is reported with. -/
structure Message where
  head : Bytes
  event : Event
  body : Bytes
  items : List Event
  trailers : Headers
  untilEof : Bool

/-- The events report the message, and then at most that the peer has closed. -/
def Message.Reported (m : Message) (events : List Event) : Prop :=
  ∃ datas closes, events = m.event :: datas ++ .endOfMessage m.trailers :: closes ∧
    (∀ event ∈ datas, event.Delivers) ∧ m.items = splitAll datas ∧ ∀ event ∈ closes, event = .connectionClosed

/-- Where `c` is in a message that is on its way, with `rest` still to come: in
front of it, in its body, or behind it. -/
inductive Trip (hp : Httparse) (awaits : Connection → Prop) (m : Message) (after rest : Bytes) :
    (events : List Event) → Connection → Prop
  | head {c : Connection} (hc : awaits c) (htext : c.input.asSlice ++ rest = m.head ++ (m.body ++ after)) :
      Trip hp awaits m after rest [] c
  | body {c : Connection} {datas later : List Event} (hdatas : ∀ event ∈ datas, event.Delivers)
      (hitems : m.items = splitAll datas ++ later)
      (hc : Arrives hp c m.untilEof (c.input.asSlice ++ rest) later m.trailers after) :
      Trip hp awaits m after rest (m.event :: datas) c
  | behind {c : Connection} {events : List Event} (hreported : m.Reported events) (hover : c.Over)
      (htext : c.input.asSlice ++ rest = after) : Trip hp awaits m after rest events c

/-- What is asked of a connection that waits for the head of a message: nothing
that its caller is allowed to do keeps it from waiting, and the head takes it
into the body. -/
structure Awaits (hp : Httparse) (allowed : Connection → Op → Prop) (awaits : Connection → Prop) (m : Message)
    (after : Bytes) : Prop where
  same : ∀ {c : Connection} {op : Op}, op.sends = true → allowed c op → awaits c → awaits (step hp op c).2
  extend : ∀ {c : Connection} (data : Bytes), awaits c → awaits { c with input := c.input.extend data }
  eof : ∀ {c : Connection}, awaits c → awaits c.recordEof
  poll : ∀ {c c' : Connection} {rest : Bytes} {r : Except RemoteProtocolError NextEvent}, awaits c →
    c.input.asSlice ++ rest = m.head ++ (m.body ++ after) → (c.eof = true → rest = []) →
    nextEvent hp c = (r, c') →
    (r = .ok .needData ∧ rest ≠ [] ∧ awaits c' ∧ c'.input = c.input) ∨
      (r = .ok (.event m.event) ∧
        Arrives hp c' m.untilEof (c'.input.asSlice ++ rest) m.items m.trailers after)

section Trips

variable {allowed : Connection → Op → Prop} {awaits : Connection → Prop} {m : Message} {events : List Event}

theorem Message.Reported.close (h : m.Reported events) {next : NextEvent} (hnext : next.Rests) :
    m.Reported (events ++ (Outcome.polled next).events) := by
  obtain ⟨datas, closes, rfl, hdatas, hitems, hcloses⟩ := h
  refine ⟨datas, closes ++ (Outcome.polled next).events, List.append_assoc _ _ _, hdatas, hitems, ?_⟩
  intro event hmem
  rcases List.mem_append.mp hmem with hold | hnew
  · exact hcloses event hold
  · rcases hnext with rfl | rfl | rfl
    · cases hnew
    · cases hnew
    · exact List.mem_singleton.mp hnew

/-- A poll on the way does not fail; one that rests when everything has come is
behind the message. -/
theorem Trip.poll (hhp : hp.Stable) (hawaits : Awaits hp allowed awaits m after)
    (hevent : m.event ≠ .connectionClosed) (h : Trip hp awaits m after rest events c)
    (heof : c.eof = true → rest = []) : ∃ next c', nextEvent hp c = (.ok next, c') ∧
      Trip hp awaits m after rest (events ++ (Outcome.polled next).events) c' ∧
      (next.Rests → rest = [] → (m.untilEof = true → c.eof = true) →
        m.Reported (events ++ (Outcome.polled next).events) ∧ c'.Over ∧ c'.input.asSlice = after) := by
  rcases hpoll : nextEvent hp c with ⟨r, c'⟩
  cases h with
  | head hc htext =>
    rcases hawaits.poll hc htext heof hpoll with ⟨rfl, hrest, hc', hinput⟩ | ⟨rfl, hbody⟩
    · refine ⟨_, _, rfl, .head hc' ?_, fun _ hnone => absurd hnone hrest⟩
      rw [hinput]
      exact htext
    · exact ⟨_, _, rfl, .body (fun _ hmem => absurd hmem List.not_mem_nil) rfl hbody,
        fun hrests => absurd hrests.closes hevent⟩
  | @body _ datas later hdatas hitems hc =>
    cases nextEvent_arrives hhp hc heof hpoll with
    | waits hopen hrest hc' =>
      refine ⟨_, _, rfl, ?_, fun _ hnone huntil => ?_⟩
      · show Trip hp awaits m after rest (m.event :: (datas ++ [])) c'
        rw [List.append_nil]
        exact .body hdatas hitems hc'
      · rw [huntil (hrest hnone)] at hopen
        cases hopen
    | @data _ bytes chunkStart chunkEnd later' hbytes hmore hc' =>
      have hlater : m.items = splitAll (datas ++ [.data bytes chunkStart chunkEnd]) ++ later' := by
        rw [hitems, hmore, splitAll_append, splitAll_data, List.append_assoc]
      refine ⟨_, _, rfl, .body ?_ hlater hc', fun hrests => ?_⟩
      · intro event hmem
        rcases List.mem_append.mp hmem with hold | hnew
        · exact hdatas event hold
        · rw [List.mem_singleton.mp hnew]
          exact hbytes
      · cases hrests.closes
    | ends hnone hthrough hinput =>
      have hreported : m.Reported (m.event :: datas ++ [.endOfMessage m.trailers]) := by
        refine ⟨datas, [], rfl, hdatas, ?_, fun _ hmem => absurd hmem List.not_mem_nil⟩
        rw [hitems, hnone, List.append_nil]
      have hfine : c.peerState ≠ .error := by
        rw [hc.peer]
        decide
      refine ⟨_, _, rfl, .behind hreported ⟨hthrough, nextEvent_unpoisoned hpoll hfine⟩ hinput, fun hrests => ?_⟩
      cases hrests.closes
  | behind hreported hover htext =>
    obtain ⟨next, c1, hnext, hrests, hover', hinput⟩ := nextEvent_over hp hover
    rw [hpoll] at hnext
    cases hnext
    refine ⟨next, _, rfl, .behind (hreported.close hrests) hover' ?_, fun _ hnone _ =>
      ⟨hreported.close hrests, hover', ?_⟩⟩
    · rw [hinput]
      exact htext
    · rw [hnone, List.append_nil] at htext
      rw [hinput]
      exact htext

theorem Trip.send (hawaits : Awaits hp allowed awaits m after) (h : Trip hp awaits m after rest events c) {op : Op}
    (hop : op.sends = true) (hallowed : allowed c op) : Trip hp awaits m after rest events (step hp op c).2 := by
  have hdecoder := step_sends_decoder hp hop c
  cases h with
  | head hc htext =>
    refine .head (hawaits.same hop hallowed hc) ?_
    rw [hdecoder.input]
    exact htext
  | body hdatas hitems hc =>
    refine .body hdatas hitems ?_
    rw [hdecoder.input]
    exact hc.same hdecoder (step_sends_inside hop hc.peer).1
  | behind hreported hover htext =>
    refine .behind hreported ?_ (by rw [hdecoder.input]; exact htext)
    exact Lib.preserve (fun _ _ hchange hc => hchange.over hc) (step_local hop c).changes hover

theorem Trip.recordEof (hawaits : Awaits hp allowed awaits m after) (h : Trip hp awaits m after rest events c) :
    Trip hp awaits m after rest events c.recordEof := by
  have hdecoder := recordEof_decoder c
  cases h with
  | head hc htext =>
    refine .head (hawaits.eof hc) ?_
    rw [hdecoder.input]
    exact htext
  | body hdatas hitems hc =>
    refine .body hdatas hitems ?_
    rw [hdecoder.input]
    exact hc.same hdecoder (recordEof_inside hc.peer)
  | behind hreported hover htext =>
    refine .behind hreported (Change.over .eof hover) ?_
    rw [hdecoder.input]
    exact htext

theorem Trip.extend (hawaits : Awaits hp allowed awaits m after) {data : Bytes}
    (h : Trip hp awaits m after (data ++ rest) events c) :
    Trip hp awaits m after rest events { c with input := c.input.extend data } := by
  have hinput : (c.input.extend data).asSlice ++ rest = c.input.asSlice ++ (data ++ rest) := by
    rw [Buffer.asSlice_extend, List.append_assoc]
  cases h with
  | head hc htext => exact .head (hawaits.extend data hc) (hinput.trans htext)
  | body hdatas hitems hc =>
    refine .body hdatas hitems ?_
    show Arrives hp _ _ ((c.input.extend data).asSlice ++ rest) _ _ _
    rw [hinput]
    exact hc.extend data
  | behind hreported hover htext => exact .behind hreported ⟨hover.through, hover.fine⟩ (hinput.trans htext)

/-- Only a poll fails. -/
theorem step_sends_goes {op : Op} (hop : op.sends = true) : (step hp op c).1.isFailed = false := by
  have hgoes : ∀ {α : Type} {value : α → Outcome} (result : Except LocalProtocolError α × Connection),
      (∀ a, (value a).isFailed = false) → (outcome value result).1.isFailed = false := by
    intro α value result hvalue
    rcases result with ⟨error | a, c'⟩
    · rfl
    · exact hvalue a
  cases op with
  | lenient | receiveData | holdBodyData | nextEventInPlace | nextEvent | startNextCycle => cases hop
  | _ => exact hgoes _ fun _ => rfl

/-- Once the input has ended no more of it is taken. -/
theorem delivers_after_eof (hp : Httparse) {op : Op} (hop : delivers c op) (heof : c.eof = true) :
    (step hp op c).2.eof = true ∧ passedBytes [(op, (step hp op c).1)] = [] := by
  rcases hop with hop | rfl | ⟨data, rfl⟩
  · refine ⟨(step_sameOutside hop c).frame.eof.trans heof, passedBytes_other _ fun data hreceives => ?_⟩
    subst hreceives
    cases hop
  · refine ⟨?_, passedBytes_other _ nofun⟩
    show (pollOutcome (nextEvent hp c)).2.eof = true
    rw [pollOutcome_snd]
    exact (nextEvent_frame hp c).eof.trans heof
  · show (outcome _ (receiveData data c)).2.eof = true ∧ passedBytes [(_, (outcome _ (receiveData data c)).1)] = []
    by_cases hnil : data = []
    · subst hnil
      rw [receiveData_eof]
      refine ⟨?_, rfl⟩
      show c.recordEof.eof = true
      unfold Connection.recordEof
      rw [disableKeepAliveIf_eof]
    · rw [receiveData_after_eof heof hnil]
      exact ⟨heof, rfl⟩

theorem Trip.step (hhp : hp.Stable) (hawaits : Awaits hp allowed awaits m after)
    (hevent : m.event ≠ .connectionClosed) {op : Op} (hop : delivers c op) (hallowed : allowed c op)
    (h : Trip hp awaits m after (passedBytes [(op, (Connection.step hp op c).1)] ++ rest) events c)
    (heof : c.eof = true → rest = []) : (Connection.step hp op c).1.isFailed = false ∧
      Trip hp awaits m after rest (events ++ (Connection.step hp op c).1.events) (Connection.step hp op c).2 := by
  rcases hop with hop | rfl | ⟨data, rfl⟩
  · have hnone : passedBytes [(op, (Connection.step hp op c).1)] = [] :=
      passedBytes_other _ fun data hreceives => by
        subst hreceives
        cases hop
    rw [hnone] at h
    rw [quiet_events (Op.sends_quiet hop), List.append_nil]
    exact ⟨step_sends_goes hop, h.send hawaits hop hallowed⟩
  · have hnone : passedBytes [(.nextEvent, (Connection.step hp .nextEvent c).1)] = [] :=
      passedBytes_other _ nofun
    rw [hnone] at h
    obtain ⟨next, c', hpoll, htrip, _⟩ := h.poll hhp hawaits hevent heof
    have hstep : Connection.step hp .nextEvent c = (.polled next, c') := by
      show pollOutcome (nextEvent hp c) = _
      rw [hpoll]
      rfl
    rw [hstep]
    exact ⟨rfl, htrip⟩
  · by_cases hnil : data = []
    · have hstep : Connection.step hp (.receiveData data) c = (.unit, c.recordEof) := by
        subst hnil
        show outcome _ (receiveData [] c) = _
        rw [receiveData_eof]
        rfl
      rw [hstep] at h ⊢
      subst hnil
      refine ⟨rfl, ?_⟩
      show Trip hp awaits m after rest (events ++ []) c.recordEof
      rw [List.append_nil]
      exact h.recordEof hawaits
    · by_cases hclosed : c.eof = true
      · have hstep : Connection.step hp (.receiveData data) c =
            (.refused (localError "receive_data called after EOF"), c) := by
          show outcome _ (receiveData data c) = _
          rw [receiveData_after_eof hclosed hnil]
          rfl
        rw [hstep] at h ⊢
        refine ⟨rfl, ?_⟩
        show Trip hp awaits m after rest (events ++ []) c
        rw [List.append_nil]
        exact h
      · have hstep : Connection.step hp (.receiveData data) c = (.unit, { c with input := c.input.extend data }) := by
          show outcome _ (receiveData data c) = _
          rw [receiveData_extends (Bool.eq_false_iff.mpr hclosed) hnil]
          rfl
        rw [hstep] at h ⊢
        have hpassed : passedBytes [((.receiveData data : Op), Outcome.unit)] = data := List.append_nil data
        rw [hpassed] at h
        refine ⟨rfl, ?_⟩
        show Trip hp awaits m after rest (events ++ []) _
        rw [List.append_nil]
        exact h.extend hawaits

/-- However a text comes, in pieces and with calls between them, no poll fails,
and the connection is on the way of the message. -/
theorem run_trip (hhp : hp.Stable) (hawaits : Awaits hp allowed awaits m after)
    (hevent : m.event ≠ .connectionClosed) (hallowed : ∀ c op, allowed c op → delivers c op) {start : Connection}
    (hstart : Trip hp awaits m after text [] start) {history : List (Op × Outcome)}
    (h : Lib.Run (Connection.step hp) allowed start history c) (hpassed : passedBytes history ++ rest = text)
    (heof : c.eof = true → rest = []) :
    (∀ entry ∈ history, entry.2.isFailed = false) ∧ Trip hp awaits m after rest (eventsOf history) c := by
  revert rest
  refine Lib.Run.invariant_history (P := fun history c => ∀ {rest : Bytes}, passedBytes history ++ rest = text →
    (c.eof = true → rest = []) → (∀ entry ∈ history, entry.2.isFailed = false) ∧
      Trip hp awaits m after rest (eventsOf history) c) ?_ ?_ h
  · intro rest hpassed _
    have hall : rest = text := hpassed
    rw [hall]
    exact ⟨fun _ hmem => absurd hmem List.not_mem_nil, hstart⟩
  · intro history c op ih hop rest hpassed heof
    rw [passedBytes_append, List.append_assoc] at hpassed
    have hlast : c.eof = true → rest = [] ∧ passedBytes [(op, (Connection.step hp op c).1)] = [] := by
      intro hclosed
      obtain ⟨hstays, hnone⟩ := delivers_after_eof hp (hallowed c op hop) hclosed
      exact ⟨heof hstays, hnone⟩
    obtain ⟨hgoes, htrip⟩ := ih hpassed fun hclosed => by
      obtain ⟨hrest, hnone⟩ := hlast hclosed
      rw [hrest, hnone]
      rfl
    obtain ⟨hgoes', htrip'⟩ := htrip.step hhp hawaits hevent (hallowed c op hop) hop fun hclosed => (hlast hclosed).1
    refine ⟨fun entry hmem => ?_, ?_⟩
    · rcases List.mem_append.mp hmem with hold | hnew
      · exact hgoes entry hold
      · rw [List.mem_singleton.mp hnew]
        exact hgoes'
    · unfold eventsOf at htrip' ⊢
      rw [List.flatMap_append, List.flatMap_singleton]
      exact htrip'

/-- When all of the text has come, a poll that rests has the whole message behind
it. -/
theorem run_reports (hhp : hp.Stable) (hawaits : Awaits hp allowed awaits m after)
    (hevent : m.event ≠ .connectionClosed) (hallowed : ∀ c op, allowed c op → delivers c op) {start : Connection}
    (hstart : Trip hp awaits m after text [] start) {before : List (Op × Outcome)} {next : NextEvent}
    (h : Lib.Run (Connection.step hp) allowed start (before ++ [(.nextEvent, .polled next)]) c)
    (hpassed : passedBytes before = text) (hrests : next.Rests) (huntil : m.untilEof = true → c.eof = true) :
    m.Reported (eventsOf (before ++ [(.nextEvent, .polled next)])) ∧ c.Over ∧ c.input.asSlice = after := by
  obtain ⟨s, hbefore, _, hpoll⟩ := h.last
  have hall : passedBytes before ++ [] = text := (List.append_nil _).trans hpassed
  obtain ⟨_, htrip⟩ := run_trip hhp hawaits hevent hallowed hstart hbefore hall fun _ => rfl
  obtain ⟨next', c', hnext, _, hdone⟩ := htrip.poll hhp hawaits hevent fun _ => rfl
  have hsame : (.polled next, c) = ((.polled next' : Outcome), c') := by
    rw [← hpoll]
    show pollOutcome (nextEvent hp s) = _
    rw [hnext]
    rfl
  cases hsame
  have hframe := nextEvent_frame hp s
  rw [hnext] at hframe
  have hreported := hdone hrests rfl fun hlast => hframe.eof.symm.trans (huntil hlast)
  unfold eventsOf at hreported ⊢
  rw [List.flatMap_append, List.flatMap_singleton]
  exact hreported

/-- Only polls. -/
def polls (_ : Connection) (op : Op) : Prop := op = .nextEvent

/-- When all of the text has come, polling comes to a rest. -/
theorem Trip.rests (hhp : hp.Stable) (hawaits : Awaits hp allowed awaits m after)
    (hevent : m.event ≠ .connectionClosed) (h : Trip hp awaits m after [] events c) (hopen : c.ChunkOpen) :
    ∃ history next c', Lib.Run (Connection.step hp) polls c (history ++ [(.nextEvent, .polled next)]) c' ∧
      next.Rests := by
  induction hsize : c.potential using Nat.strongRecOn generalizing c events with
  | ind size ih =>
    obtain ⟨next, c1, hpoll, htrip, _⟩ := h.poll hhp hawaits hevent fun _ => rfl
    have hstep : Connection.step hp .nextEvent c = (.polled next, c1) := by
      show pollOutcome (nextEvent hp c) = _
      rw [hpoll]
      rfl
    have hone : Lib.Run (Connection.step hp) polls c ([] ++ [(.nextEvent, .polled next)]) c1 := by
      have honly : polls c .nextEvent := rfl
      have hrun : Lib.Run (Connection.step hp) polls c _ _ := .step .nextEvent .start honly
      rw [hstep] at hrun
      exact hrun
    by_cases hrests : next.Rests
    · exact ⟨[], next, c1, hone, hrests⟩
    · cases next with
      | needData => exact absurd (Or.inl rfl) hrests
      | paused => exact absurd (Or.inr (Or.inl rfl)) hrests
      | event event =>
        have hmore : event ≠ .connectionClosed := by
          rintro rfl
          exact hrests (Or.inr (Or.inr rfl))
        obtain ⟨hless, hopen'⟩ := nextEvent_potential hhp.takesBytes hopen hpoll hmore
        obtain ⟨history, next', c2, hrun, hrests'⟩ := ih _ (hsize ▸ hless) htrip hopen' rfl
        have hboth := hone.append hrun
        rw [← List.append_assoc] at hboth
        exact ⟨_, next', c2, hboth, hrests'⟩
end Trips

/-! ## From the writer to the decoder -/

/-- The size lines and the trailer section of a chunked body are within these
limits. -/
structure BodyFits (limits : Limits) (pieces : List Bytes) (trailers : Headers) : Prop where
  sizes : ∀ piece ∈ pieces, piece ≠ [] → piece.length ≤ usizeMax ∧ hexDigits piece.length ≤ limits.maxHeadBytes
  count : trailers.iter.length ≤ limits.maxHeaderCount
  section_ : (writeHeaders trailers ++ crlf).length ≤ limits.maxHeadBytes

/-- Chunks that are left out because they are empty carry nothing. -/
theorem flatten_filter_ne_nil (pieces : List Bytes) : (pieces.filter (· ≠ [])).flatten = pieces.flatten := by
  induction pieces with
  | nil => rfl
  | cons piece pieces ih =>
    by_cases hnil : piece = []
    · subst hnil
      exact ih
    · rw [List.filter_cons_of_pos (by simpa using hnil), List.flatten_cons, List.flatten_cons, ih]

/-- The decoder is about to read a body with this framing. -/
structure Begins (limits : Limits) (role : Role) (framing : Framing) (c : Connection) : Prop where
  limits : c.limits = limits
  role : c.role = role
  peer : c.peerState = .sendBody
  reader : c.cycle.reader = H11r.reader framing
  spent : c.cycle.chunkExtensionBytes = 0

/-- What was written as the body of a message arrives as its pieces and its
trailers. -/
theorem BodyText.arrives (hhp : hp.Stable) (hread : hp.ReadsValid) {limits : Limits} (role : Role)
    {framing : Framing} {pieces : List Bytes} {sent : Headers} (h : BodyText framing pieces sent text)
    (hvalid : ∀ field ∈ sent.iter, validField field) (hfits : framing = .chunked → BodyFits limits pieces sent) :
    ∃ items received, received.iter = sent.iter ∧ items.flatMap Event.bytes = pieces.flatten ∧
      ∀ {c : Connection} {after : Bytes}, Begins limits role framing c → (framing = .closeDelimited → after = []) →
        Arrives hp c (framing == .closeDelimited) (text ++ after) items received after := by
  cases h with
  | fixed hnone =>
    refine ⟨_, .new, hnone.symm, Event.bytewise_bytes _ false false, fun hc _ => .plain ⟨hc.peer, hc.reader, nofun⟩⟩
  | closeDelimited hnone =>
    refine ⟨_, .new, hnone.symm, Event.bytewise_bytes _ false false, fun hc hafter => .plain ⟨hc.peer, hc.reader, ?_⟩⟩
    exact fun _ => hafter rfl
  | chunked =>
    obtain ⟨hsizes, hcount, hsection⟩ := hfits rfl
    have hpieces : ∀ piece ∈ pieces.filter (· ≠ []),
        piece ≠ [] ∧ piece.length ≤ usizeMax ∧ hexDigits piece.length ≤ limits.maxHeadBytes := by
      intro piece hmem
      obtain ⟨hmem, hne⟩ := List.mem_filter.mp hmem
      have hne : piece ≠ [] := by simpa using hne
      exact ⟨hne, hsizes piece hmem hne⟩
    obtain ⟨received, hiter, hbody⟩ :=
      chunkedBody_written hhp hread (role == .client) hpieces hvalid hcount hsection
    refine ⟨chunkItems (pieces.filter (· ≠ [])), received, hiter, ?_, fun {c after} hc _ => ?_⟩
    · rw [chunkItems_bytes, flatten_filter_ne_nil]
    · have hdecoding : c.Decoding := ⟨hc.peer, _, hc.reader, fun _ _ _ => Nat.zero_le _⟩
      rw [← hc.limits, ← hc.role] at hbody
      exact .chunked rfl hdecoding ((expects_iff hc.reader hc.spent).mpr ⟨_, _, rfl, rfl, hbody⟩)

end Connection

end H11r
