import H11r.Connection.Asking
import H11r.Connection.Serving

/-!
# A client and a server in conversation

`Talks` says how the two ends of a connection stand to each other, with the bytes
that are on their way between them. The client asks, the server answers, and each
of them may go on to the next exchange before the other one does, but no further.
Each kind of step that one end takes keeps this, and no poll fails.
-/

namespace H11r

open Lib (Call)

namespace Connection

variable {hp : Httparse} {c c' s s' : Connection} {limits limits' : Limits} {q : Question}
  {standing : Standing}
  {up down bytes rest text later : Bytes} {untilEof ended : Bool} {writer : Option Framing}
  {m n : Nat} {op : Op}

/-! ## What the calls that send leave alone -/

theorem Reads.sends (hop : op.sends = true)
    (h : Reads hp limits c untilEof writer text later ended) :
    Reads hp limits (step hp op c).2 untilEof writer text later ended := by
  refine h.same (step_sends_decoder hp hop c) (fun hpeer => (step_sends_inside hop hpeer).1)
    fun hover => ?_
  exact Lib.preserve (P := Over) (fun _ _ hchange hc => Change.over (.local hchange) hc)
    (step_local hop c) hover

theorem Hears.begun (h : Hears hp limits q c text standing) : c.state.client ≠ .idle := by
  cases h with
  | waits _ _ hstate =>
    rw [hstate]
    exact ConnectionState.duringViews.begun _ _ _ _
  | reads hstate =>
    rw [hstate]
    exact ConnectionState.duringViews.begun _ _ _ _
  | switched hstate =>
    obtain ⟨keep, hstate⟩ := hstate
    rw [hstate]
    exact ConnectionState.duringViews.begun _ _ _ _

/-- A client that hears an answer goes on with its request. -/
theorem Hears.sends (hop : op.sends = true) (hrole : c.role = .client)
    (h : Hears hp limits q c text standing)
    (hwrites : WritesOn limits' c bytes (step hp op c).2) :
    Hears hp limits q (step hp op c).2 text standing := by
  have hends := fun keep reply => ConnectionState.duringLaws.ends keep q.proposals reply
  cases h with
  | waits hc hnoted hstate h =>
    obtain ⟨_, hstate'⟩ :=
      hwrites.state (fun ended => .during q.keep q.proposals ended .pending) (hends _ _)
        hrole hstate
    exact .waits (hc.send hop) (hwrites.remembers hnoted) hstate' h
  | @reads keep untilEof ended writer hstate h =>
    obtain ⟨_, hstate'⟩ := hwrites.state
      (fun isOver => .during keep q.proposals isOver (if ended then .ended else .begun)) (hends _ _)
        hrole hstate
    exact .reads hstate' (h.sends hop)
  | switched hstate hproposed htext =>
    obtain ⟨keep, hstate⟩ := hstate
    obtain ⟨_, hstate'⟩ :=
      hwrites.state (fun isOver => .during keep q.proposals isOver .switched) (hends _ _)
        hrole hstate
    exact .switched ⟨keep, hstate'⟩ hproposed htext

/-! ## The ends -/

/-- What holds of an end whatever it is doing: it is strict, and its peer has not
closed. -/
structure End (hp : Httparse) (role : Role) (limits : Limits) (c : Connection) : Prop where
  reachable : Reachable hp c
  role : c.role = role
  limits : c.limits = limits
  strict : c.lenient = false
  opened : c.eof = false

theorem End.sends {role : Role} (hop : op.sends = true) (h : End hp role limits c) :
    End hp role limits (step hp op c).2 := by
  have hframe : SameFrame c (step hp op c).2 := (step_sameOutside hop c).frame
  exact ⟨h.reachable.step op, hframe.role.trans h.role, hframe.limits.trans h.limits,
    hframe.lenient.trans h.strict,
    hframe.eof.trans h.opened⟩

theorem End.polls {role : Role} {next : NextEvent} (h : End hp role limits c)
    (hpoll : nextEvent hp c = (.ok next, c')) :
    End hp role limits c' := by
  have hframe := nextEvent_frame hp c
  rw [hpoll] at hframe
  exact ⟨h.reachable.poll hpoll, hframe.role.trans h.role, hframe.limits.trans h.limits,
    hframe.lenient.trans h.strict,
    hframe.eof.trans h.opened⟩

/-- Bytes come, and nothing else changes. -/
theorem End.receives {role : Role} {items : Bytes} (h : End hp role limits c)
    (hitems : items ≠ []) :
    step hp (.receiveData items) c = (.unit, { c with input := c.input.extend items }) ∧
      End hp role limits { c with input := c.input.extend items } := by
  have hstep : step hp (.receiveData items) c =
      (.unit, { c with input := c.input.extend items }) := by
    show outcome _ (receiveData items c) = _
    rw [receiveData_extends h.opened hitems]
    rfl
  have hreach := h.reachable.step (.receiveData items)
  rw [hstep] at hreach
  exact ⟨hstep, hreach, h.role, h.limits, h.strict, h.opened⟩

/-- `start_next_cycle`, where a client with bytes behind its answer does not try. -/
theorem End.nextCycle {role : Role} (h : End hp role limits c)
    (hclean : c.role = .client → c.peerState = .done → c.input.asSlice = []) :
    End hp role limits (step hp .startNextCycle c).2 ∧
      ((∃ state, c.state.startNextCycle = some state ∧
          step hp .startNextCycle c = (.unit, { c with state := state, cycle := .new })) ∨
        ∃ error, step hp .startNextCycle c = (.refused error, c)) := by
  have hstep : step hp .startNextCycle c = outcome (fun _ => .unit) (startNextCycle c) := rfl
  rcases hcall : startNextCycle c with ⟨r, c'⟩
  have hreach := h.reachable.step .startNextCycle
  rw [hcall] at hstep
  rw [hstep] at hreach ⊢
  rcases startNextCycle_cases hcall with
    ⟨state, rfl, hstate, rfl⟩ | ⟨_, _, hrole, hpeer, hinput, _⟩ | ⟨error, rfl, rfl⟩
  · exact ⟨⟨hreach, h.role, h.limits, h.strict, h.opened⟩, Or.inl ⟨state, hstate, rfl⟩⟩
  · exact absurd (hclean hrole hpeer) hinput
  · exact ⟨h, Or.inr ⟨error, rfl⟩⟩

/-! ## How they stand to each other -/

/-- The client, the server, what is on its way up to the server and down to the
client, and how many times each of them has gone on to another exchange. -/
inductive Talks (hp : Httparse) (limits limits' : Limits) (c s : Connection) (up down : Bytes) :
    Nat → Nat → Prop
  | asking {n : Nat} (hserver : s.AwaitsRequest limits') (hwriter : s.cycle.writer = none)
      (hclient : Asks hp limits' c (s.input.asSlice ++ up)) (hinput : c.input.asSlice = [])
      (hdown : down = []) :
      Talks hp limits limits' c s up down n n
  | answering {q : Question} {standing : Standing} {ended : Bool} {n : Nat}
      (hserver : Stands q ended s standing)
      (hrequest : Reads hp limits' s false c.cycle.writer (s.input.asSlice ++ up) [] ended)
      (hclient : Hears hp limits q c (c.input.asSlice ++ down) standing) :
      Talks hp limits limits' c s up down n n
  | clientAhead {q : Question} {keep ended : Bool} {writer : Option Framing}
      {later : Bytes} {n : Nat}
      (hserver : Stands q ended s (.final keep writer)) (hend : AtEnd writer)
      (hroom : 2 ≤ limits.maxHeadBytes)
      (hrequest : Reads hp limits' s false none (s.input.asSlice ++ up) later ended)
      (hclient : Asks hp limits' c later)
      (hinput : c.input.asSlice = []) (hdown : down = []) :
      Talks hp limits limits' c s up down (n + 1) n
  | serverAhead {q : Question} {keep : Bool} {n : Nat} (hserver : s.AwaitsRequest limits')
      (hwriter : s.cycle.writer = none) (hinput : s.input.asSlice = []) (hup : up = [])
      (hend : AtEnd c.cycle.writer)
      (hroom : 2 ≤ limits'.maxHeadBytes)
      (hclient : Hears hp limits q c (c.input.asSlice ++ down) (.final keep none)) :
      Talks hp limits limits' c s up down n (n + 1)

/-! ## Bytes come -/

theorem Stands.extend (h : Stands q ended s standing) (data : Bytes) :
    Stands q ended { s with input := s.input.extend data } standing := by
  cases h with
  | pending hstate hwriter hnoted =>
    exact .pending hstate hwriter ⟨hnoted.kind, hnoted.upgrades, hnoted.continues⟩
  | final hstate hwriter => exact .final hstate hwriter
  | switched hstate hproposed hwriter => exact .switched hstate hproposed hwriter

theorem extend_drop {items : Bytes} (input : Buffer) (hitems : items <+: up) :
    (input.extend items).asSlice ++ up.drop items.length = input.asSlice ++ up := by
  obtain ⟨more, rfl⟩ := hitems
  rw [Buffer.asSlice_extend, List.drop_left, List.append_assoc]

theorem Talks.arriveUp {items : Bytes} (h : Talks hp limits limits' c s up down m n)
    (hitems : items <+: up)
    (hne : items ≠ []) :
    Talks hp limits limits' c { s with input := s.input.extend items } (up.drop items.length)
      down m n := by
  have htext := extend_drop s.input hitems
  cases h with
  | asking hserver hwriter hclient hinput hdown =>
    refine .asking (hserver.extend items) hwriter ?_ hinput hdown
    rw [htext]
    exact hclient
  | answering hserver hrequest hclient =>
    refine .answering (hserver.extend items) ?_ hclient
    rw [htext]
    exact hrequest.extend items
  | clientAhead hserver hend hroom hrequest hclient hinput hdown =>
    refine .clientAhead (hserver.extend items) hend hroom ?_ hclient hinput hdown
    rw [htext]
    exact hrequest.extend items
  | serverAhead _ _ _ hup =>
    rw [hup] at hitems
    exact absurd (List.prefix_nil.mp hitems) hne

theorem Talks.arriveDown {items : Bytes} (h : Talks hp limits limits' c s up down m n)
    (hitems : items <+: down)
    (hne : items ≠ []) :
    Talks hp limits limits' { c with input := c.input.extend items } s up
      (down.drop items.length) m n := by
  have htext := extend_drop c.input hitems
  cases h with
  | asking _ _ _ _ hdown | clientAhead _ _ _ _ _ _ hdown =>
    rw [hdown] at hitems
    exact absurd (List.prefix_nil.mp hitems) hne
  | answering hserver hrequest hclient =>
    refine .answering hserver hrequest ?_
    rw [htext]
    exact hclient.extend items
  | serverAhead hserver hwriter hinput hup hend hroom hclient =>
    have hclient' := hclient.extend items
    rw [← htext] at hclient'
    exact .serverAhead hserver hwriter hinput hup hend hroom hclient'

/-! ## The client calls -/

/-- What a client may send: what `Writes` says, in one call. -/
theorem Talks.clientSends (hhp : hp.Stable) (hread : hp.ReadsValid)
    (hclient : End hp .client limits c)
    (hop : op.sends = true) (hwrites : Writes limits' c bytes (step hp op c).2)
    (h : Talks hp limits limits' c s up down m n) :
    Talks hp limits limits' (step hp op c).2 s (up ++ bytes) down m n := by
  have hinput' : (step hp op c).2.input = c.input := (step_sameOutside hop c).input
  cases h with
  | asking hserver hwriter hasks hinput hdown =>
    refine .asking hserver hwriter ?_ (by rw [hinput']; exact hinput) hdown
    rw [← List.append_assoc]
    exact hasks.wrote hhp hread hwrites hclient.role
  | answering hserver hrequest hhears =>
    have hon := hwrites.client_on hclient.role hhears.begun
    refine .answering hserver ?_ ?_
    · rw [← List.append_assoc]
      exact hrequest.wrote (hon.goes hp)
    · rw [hinput']
      exact hhears.sends hop hclient.role hon
  | clientAhead hserver hend hroom hrequest hasks hinput hdown =>
    refine .clientAhead hserver hend hroom ?_ (hasks.wrote hhp hread hwrites hclient.role)
      (by rw [hinput']; exact hinput)
      hdown
    rw [← List.append_assoc]
    exact hrequest.next bytes
  | serverAhead hserver hwriter hinput hup hend hroom hhears =>
    have hon := hwrites.client_on hclient.role hhears.begun
    obtain ⟨rfl, hend'⟩ := hend.goes hroom (hon.goes hp)
    have hhears' := hhears.sends hop hclient.role hon
    rw [← hinput'] at hhears'
    exact .serverAhead hserver hwriter hinput (by rw [hup]; rfl) hend' hroom hhears'

/-- A client that has got nothing in front of an answer waits for it. -/
theorem Asks.polls (hhp : hp.Stable) (hclient : End hp .client limits c)
    (hinput : c.input.asSlice = [])
    (h : Asks hp limits' c text) : ∃ c',
      nextEvent hp c = (.ok .needData, c') ∧ Asks hp limits' c' text ∧
      c'.input = c.input ∧ c'.cycle.writer = c.cycle.writer := by
  have hpeer : c.peerState = .idle ∨ c.peerState = .sendResponse := by
    unfold peerState
    rw [hclient.role]
    exact h.server
  have hbegins : c.peerState.begins = true := by
    rcases hpeer with hpeer | hpeer
    · rw [hpeer]
      rfl
    · rw [hpeer]
      rfl
  obtain ⟨progress, hpoll⟩ := nextEvent_quiet hhp hclient.role hpeer
    (reachable_beforeHead hclient.reachable hbegins hinput) hinput hclient.opened
  exact ⟨_, hpoll, h.rescan progress c.cycle.reader c.cycle.chunkExtensionBytes, rfl, rfl⟩

theorem Talks.clientPolls (hhp : hp.Stable) (hclient : End hp .client limits c)
    (h : Talks hp limits limits' c s up down m n) : ∃ next c', nextEvent hp c = (.ok next, c') ∧
      Talks hp limits limits' c' s up down m n := by
  have hwriter' := nextEvent_writer hp c
  cases h with
  | asking hserver hwriter hasks hinput hdown =>
    obtain ⟨c', hpoll, hasks', hsame, _⟩ := hasks.polls hhp hclient hinput
    exact ⟨_, c', hpoll, .asking hserver hwriter hasks' (by rw [hsame]; exact hinput) hdown⟩
  | answering hserver hrequest hhears =>
    obtain ⟨next, c', hpoll, hhears'⟩ := hhears.poll hhp hclient.role hclient.opened
    rw [hpoll] at hwriter'
    exact ⟨next, c', hpoll, .answering hserver (by rw [hwriter']; exact hrequest) hhears'⟩
  | clientAhead hserver hend hroom hrequest hasks hinput hdown =>
    obtain ⟨c', hpoll, hasks', hsame, _⟩ := hasks.polls hhp hclient hinput
    exact ⟨_, c', hpoll,
      .clientAhead hserver hend hroom hrequest hasks' (by rw [hsame]; exact hinput) hdown⟩
  | serverAhead hserver hwriter hinput hup hend hroom hhears =>
    obtain ⟨next, c', hpoll, hhears'⟩ := hhears.poll hhp hclient.role hclient.opened
    rw [hpoll] at hwriter'
    exact ⟨next, c', hpoll,
      .serverAhead hserver hwriter hinput hup (by rw [hwriter']; exact hend) hroom hhears'⟩

/-- A client that has got its answer has no other bytes. -/
theorem Hears.clean (h : Hears hp limits q c (c.input.asSlice ++ down) standing)
    (hpeer : c.peerState = .done) : c.input.asSlice = [] := by
  cases h with
  | waits hc => cases hc.peer.symm.trans hpeer
  | reads _ h =>
    cases h with
    | inside h => cases h.peer.symm.trans hpeer
    | behind h => exact (List.append_eq_nil_iff.mp h.text).1
  | switched _ _ htext => exact (List.append_eq_nil_iff.mp htext).1

/-- A client goes on to the next exchange behind the answer. -/
theorem Hears.next {state : ConnectionState}
    (h : Hears hp limits q c (c.input.asSlice ++ down) standing)
    (hnext : c.state.startNextCycle = some state) : state = .new ∧ c.cycle.writer = none ∧
      ∃ keep writer, standing = .final keep writer ∧ AtEnd writer ∧ c.input.asSlice = [] ∧
      down = [] ∧
        2 ≤ limits.maxHeadBytes := by
  have hnone : c.cycle.writer.isNone = true → c.cycle.writer = none := Option.isNone_iff_eq_none.mp
  cases h with
  | waits _ _ hstate =>
    rw [hstate] at hnext
    cases (ConnectionState.duringLaws.next _ _ _ _ _ hnext).2.1
  | @reads keep untilEof ended writer hstate h =>
    rw [hstate] at hnext
    obtain ⟨hwriter, hreply, hnew⟩ := ConnectionState.duringLaws.next _ _ _ _ _ hnext
    cases h with
    -- Inside the answer the server is not done.
    | inside => cases hreply
    | behind h =>
      obtain ⟨hinput, hdown⟩ := List.append_eq_nil_iff.mp h.text
      exact ⟨hnew, hnone hwriter, keep, writer, rfl, h.atEnd, hinput, hdown, h.room⟩
  | switched hstate =>
    obtain ⟨keep, hstate⟩ := hstate
    rw [hstate] at hnext
    cases (ConnectionState.duringLaws.next _ _ _ _ _ hnext).2.1

/-- A client that asks is in no exchange that it could end. -/
theorem Asks.next (h : Asks hp limits c text) (state : ConnectionState) :
    c.state.startNextCycle ≠ some state := by
  intro hnext
  cases h with
  | idle hstate =>
    rw [hstate] at hnext
    cases hnext
  | asked _ _ _ _ hstate =>
    rw [hstate] at hnext
    cases (ConnectionState.duringLaws.next _ _ _ _ _ hnext).2.1

theorem Talks.clientNext (hclient : End hp .client limits c)
    (h : Talks hp limits limits' c s up down m n) :
    End hp .client limits (step hp .startNextCycle c).2 ∧
      ((step hp .startNextCycle c).1 = .unit ∧
        Talks hp limits limits' (step hp .startNextCycle c).2 s up down (m + 1) n ∨
        ∃ error, (step hp .startNextCycle c).1 = .refused error ∧
          Talks hp limits limits' (step hp .startNextCycle c).2 s up down m n) := by
  have hclean : c.role = .client → c.peerState = .done → c.input.asSlice = [] := by
    intro _ hpeer
    cases h with
    | asking _ _ _ hinput | clientAhead _ _ _ _ _ hinput => exact hinput
    | answering _ _ hhears | serverAhead _ _ _ _ _ _ hhears => exact hhears.clean hpeer
  obtain ⟨hclient', hstep⟩ := hclient.nextCycle hclean
  refine ⟨hclient', ?_⟩
  rcases hstep with ⟨state, hnext, hstep⟩ | ⟨error, hstep⟩
  · rw [hstep]
    refine Or.inl ⟨rfl, ?_⟩
    -- A client may go on only where the whole answer has come, and it has no other bytes.
    cases h with
    | asking _ _ hasks | clientAhead _ _ _ _ hasks => exact absurd hnext (hasks.next state)
    | answering hserver hrequest hhears =>
      obtain ⟨hnew, hwriter, keep, writer, rfl, hend, hinput, hdown, hroom⟩ := hhears.next hnext
      rw [hwriter] at hrequest
      exact .clientAhead hserver hend hroom hrequest (.idle hnew rfl rfl) hinput hdown
    | serverAhead hserver hwriter hinput hup _ _ hhears =>
      obtain ⟨hnew, _, _, _, _, _, hinput', hdown, _⟩ := hhears.next hnext
      refine .asking hserver hwriter (.idle hnew rfl ?_) hinput' hdown
      rw [hinput, hup]
      rfl
  · rw [hstep]
    exact Or.inr ⟨error, rfl, h⟩

/-! ## The server calls -/

theorem Talks.serverSends (hhp : hp.Stable) (hread : hp.ReadsValid)
    (hserver : End hp .server limits' s)
    (hop : op.sends = true) (hwrites : Writes limits s bytes (step hp op s).2)
    (h : Talks hp limits limits' c s up down m n) :
    Talks hp limits limits' c (step hp op s).2 up (down ++ bytes) m n := by
  have hinput' : (step hp op s).2.input = s.input := (step_sameOutside hop s).input
  cases h with
  | asking hawaits hwriter hasks hinput hdown =>
    -- A server that has not been asked answers nothing.
    obtain ⟨rfl, hsame⟩ := hwrites.unasked hserver.role hawaits.new hwriter
    rw [hsame]
    exact .asking hawaits hwriter hasks hinput (by rw [hdown]; rfl)
  | answering hstands hrequest hhears =>
    obtain ⟨standing', hstands', hgoes⟩ := hwrites.goesOn hhp hread hserver.role hstands
    refine .answering hstands' ?_ ?_
    · rw [hinput']
      exact hrequest.sends hop
    · rw [← List.append_assoc]
      exact hhears.goesOn hgoes
  | clientAhead hstands hend hroom hrequest hasks hinput hdown =>
    obtain ⟨standing', hstands', hgoes⟩ := hwrites.goesOn hhp hread hserver.role hstands
    cases hgoes with
    | goes hgoes =>
      -- The client has gone on, so the answer is at its end.
      obtain ⟨rfl, hend'⟩ := hend.goes hroom hgoes
      refine .clientAhead hstands' hend' hroom ?_ hasks hinput (by rw [hdown]; rfl)
      rw [hinput']
      exact hrequest.sends hop
  | serverAhead hawaits hwriter hinput hup hend hroom hhears =>
    obtain ⟨rfl, hsame⟩ := hwrites.unasked hserver.role hawaits.new hwriter
    rw [hsame, List.append_nil]
    exact .serverAhead hawaits hwriter hinput hup hend hroom hhears

/-- A server that has been asked gets more of the request, and answers as before. -/
theorem Stands.polls (hhp : hp.Stable) (hserver : End hp .server limits s)
    (hstands : Stands q ended s standing)
    (h : Reads hp limits s false writer (s.input.asSlice ++ rest) later ended) : ∃ next s' ended',
      nextEvent hp s = (.ok next, s') ∧ Stands q ended' s' standing ∧
      Reads hp limits s' false writer (s'.input.asSlice ++ rest) later ended' := by
  obtain ⟨next, s', ended', hpoll, h', _⟩ := h.poll hhp hserver.opened
  refine ⟨next, s', ended', hpoll, ?_, h'⟩
  have hbegins : s.peerState.begins = false := by
    cases h with
    | inside h =>
      rw [h.peer]
      rfl
    | behind h =>
      have hthrough := h.isOver.through
      cases hpeer : s.peerState <;> rw [hpeer] at hthrough <;> first | rfl | cases hthrough
  have hwriter' := nextEvent_writer hp s
  rw [hpoll] at hwriter'
  have hstate : ∀ keep reply, s.state = .during keep q.proposals ended reply →
      s'.state = .during keep q.proposals ended' reply := by
    intro keep reply hbefore
    -- A poll moves the state only where it reports the end of the request.
    rcases h.poll_state hpoll hserver.opened h' with ⟨rfl, hsame⟩ | ⟨rfl, rfl, hends⟩
    · rw [hsame]
      exact hbefore
    · rw [hbefore, hserver.role] at hends
      exact (Option.some.inj ((ConnectionState.duringLaws.ends _ _ _).symm.trans hends)).symm
  cases hstands with
  | pending hpending hwriter hnoted =>
    have hnoted' := nextEvent_remembers hp hbegins hnoted
    rw [hpoll] at hnoted'
    exact .pending (hstate _ _ hpending) (hwriter'.trans hwriter) hnoted'
  | final hfinal hwriter => exact .final (hstate _ _ hfinal) (hwriter'.trans hwriter)
  | switched hswitched hproposed hwriter =>
    obtain ⟨keep, hswitched⟩ := hswitched
    exact .switched ⟨keep, hstate _ _ hswitched⟩ hproposed (hwriter'.trans hwriter)

/-- A server that waits, and to which nothing has come, goes on waiting. -/
theorem AwaitsRequest.idles (hhp : hp.Stable) (hserver : End hp .server limits s)
    (h : s.AwaitsRequest limits)
    (hinput : s.input.asSlice = []) : ∃ s',
      nextEvent hp s = (.ok .needData, s') ∧ s'.AwaitsRequest limits ∧
      s'.input.asSlice = [] := by
  obtain ⟨s', hinput', hpoll⟩ := h.nothing hhp hinput
  rcases hpoll with ⟨hpoll, h'⟩ | ⟨hpoll, _⟩
  · exact ⟨s', hpoll, h', hinput'⟩
  · -- There is no close before the end of the input.
    have hends := hserver.polls hpoll
    have hclosed := reachable_closedAfterEof hends.reachable (nextEvent_closes hpoll)
    cases hclosed.symm.trans hends.opened

/-- A server that waits gets what the client has written of a request. -/
theorem Talks.serverAsked (hhp : hp.Stable) (hclient : End hp .client limits c)
    (hserver : End hp .server limits' s)
    (hawaits : s.AwaitsRequest limits') (hwriter : s.cycle.writer = none)
    (hasks : Asks hp limits' c (s.input.asSlice ++ up)) (hinput : c.input.asSlice = [])
    (hdown : down = []) :
    ∃ next s', nextEvent hp s = (.ok next, s') ∧ Talks hp limits limits' c s' up down n n := by
  have hasks' := hasks
  have hwriter' := nextEvent_writer hp s
  cases hasks with
  | idle _ _ htext =>
    obtain ⟨hnothing, hup⟩ := List.append_eq_nil_iff.mp htext
    obtain ⟨s', hpoll, hawaits', hnothing'⟩ := hawaits.idles hhp hserver hnothing
    rw [hpoll] at hwriter'
    rw [hnothing, ← hnothing'] at hasks'
    exact ⟨_, s', hpoll, .asking hawaits' (hwriter'.trans hwriter) hasks' hinput hdown⟩
  | @asked request head body framing hhead haccepts hframing hnoted hstate hbody htext =>
    rcases hpoll : nextEvent hp s with ⟨r, s'⟩
    rw [hpoll] at hwriter'
    have hopen : s.eof = true → up = [] := fun hclosed => by cases hserver.opened.symm.trans hclosed
    rcases nextEvent_awaitsRequest hhp hawaits hhead.reads hhead.fits haccepts htext
      hopen hpoll with
      ⟨rfl, _, hawaits', hsame⟩ | ⟨rfl, hbegins, hnotes, hmore, _, state, hrequest, hstate'⟩
    · rw [← hsame] at hasks'
      exact ⟨_, s', rfl, .asking hawaits' (hwriter'.trans hwriter) hasks' hinput hdown⟩
    · have hroom := Nat.le_trans (two_le_of_readsAs hhead.reads) hhead.fits
      have hcoming := hbody.coming hroom hbegins
      rw [beq_eq_false_iff_ne.mpr hframing, ← hmore] at hcoming
      have hserver' :
          s'.state = .during (Question.of request).keep (Question.of request).proposals false
              .pending := by
        rw [Question.of_event, ConnectionState.request_during] at hrequest
        rw [hstate', ← Option.some.inj hrequest, ConnectionState.duringLaws.disable, Bool.not_not]
        rfl
      have hawaitsResponse :=
        awaitsResponse_of_remembers hclient.reachable hclient.role hclient.strict hinput hnoted
        hstate
      rw [hclient.limits] at hawaitsResponse
      refine ⟨_, s', rfl,
        .answering (.pending hserver' (hwriter'.trans hwriter) (remembers_of_notes hnotes))
        (.inside hcoming) (.waits hawaitsResponse hnoted hstate ?_)⟩
      rw [hinput, hdown]
      exact .nothing

theorem Talks.serverPolls (hhp : hp.Stable) (hclient : End hp .client limits c)
    (hserver : End hp .server limits' s)
    (h : Talks hp limits limits' c s up down m n) : ∃ next s', nextEvent hp s = (.ok next, s') ∧
      Talks hp limits limits' c s' up down m n := by
  cases h with
  | asking hawaits hwriter hasks hinput hdown =>
    exact Talks.serverAsked hhp hclient hserver hawaits hwriter hasks hinput hdown
  | answering hstands hrequest hhears =>
    obtain ⟨next, s', ended', hpoll, hstands', hrequest'⟩ := hstands.polls hhp hserver hrequest
    exact ⟨next, s', hpoll, .answering hstands' hrequest' hhears⟩
  | clientAhead hstands hend hroom hrequest hasks hinput hdown =>
    obtain ⟨next, s', ended', hpoll, hstands', hrequest'⟩ := hstands.polls hhp hserver hrequest
    exact ⟨next, s', hpoll, .clientAhead hstands' hend hroom hrequest' hasks hinput hdown⟩
  | serverAhead hawaits hwriter hinput hup hend hroom hhears =>
    have hwriter' := nextEvent_writer hp s
    obtain ⟨s', hpoll, hawaits', hinput'⟩ := hawaits.idles hhp hserver hinput
    rw [hpoll] at hwriter'
    exact ⟨_, s', hpoll,
      .serverAhead hawaits' (hwriter'.trans hwriter) hinput' hup hend hroom hhears⟩

/-- A server goes on to the next exchange behind the request and its answer. -/
theorem Stands.next {state : ConnectionState} (hserver : End hp .server limits s)
    (h : Stands q ended s standing)
    (hnext : s.state.startNextCycle = some state) :
    ended = true ∧ (∃ keep, standing = .final keep none) ∧
      AwaitsRequest limits { s with state := state, cycle := .new } := by
  have hawaits : state = .new → AwaitsRequest limits { s with state := state, cycle := .new } := by
    rintro rfl
    refine ⟨hserver.role, hserver.limits, ⟨rfl, rfl, [], List.nil_prefix, .fresh⟩, ?_, rfl⟩
    show ConnectionState.new.state s.role.peer = .idle
    rw [hserver.role]
    rfl
  cases h with
  | pending hstate =>
    rw [hstate] at hnext
    cases (ConnectionState.duringLaws.next _ _ _ _ _ hnext).2.1
  | @final keep writer hstate =>
    rw [hstate] at hnext
    obtain ⟨hends, hreply, hnew⟩ := ConnectionState.duringLaws.next _ _ _ _ _ hnext
    cases writer with
    | none => exact ⟨hends, ⟨keep, rfl⟩, hawaits hnew⟩
    | some => cases hreply
  | switched hstate =>
    obtain ⟨keep, hstate⟩ := hstate
    rw [hstate] at hnext
    cases (ConnectionState.duringLaws.next _ _ _ _ _ hnext).2.1

theorem Talks.serverNext (hserver : End hp .server limits' s)
    (h : Talks hp limits limits' c s up down m n) :
    End hp .server limits' (step hp .startNextCycle s).2 ∧
      ((step hp .startNextCycle s).1 = .unit ∧
        Talks hp limits limits' c (step hp .startNextCycle s).2 up down m (n + 1) ∨
        ∃ error, (step hp .startNextCycle s).1 = .refused error ∧
          Talks hp limits limits' c (step hp .startNextCycle s).2 up down m n) := by
  obtain ⟨hserver', hstep⟩ := hserver.nextCycle fun hrole => by cases hserver.role.symm.trans hrole
  refine ⟨hserver', ?_⟩
  rcases hstep with ⟨state, hnext, hstep⟩ | ⟨error, hstep⟩
  · rw [hstep]
    refine Or.inl ⟨rfl, ?_⟩
    cases h with
    | asking hawaits | serverAhead hawaits =>
      rw [hawaits.new] at hnext
      cases hnext
    | answering hstands hrequest hhears =>
      obtain ⟨rfl, ⟨keep, rfl⟩, hawaits⟩ := hstands.next hserver hnext
      cases hrequest with
      | behind hbehind =>
        obtain ⟨hinput, hup⟩ := List.append_eq_nil_iff.mp hbehind.text
        exact .serverAhead hawaits rfl hinput hup hbehind.atEnd hbehind.room hhears
    | clientAhead hstands hend hroom hrequest hasks hinput hdown =>
      obtain ⟨rfl, _, hawaits⟩ := hstands.next hserver hnext
      cases hrequest with
      | behind hbehind =>
        refine .asking hawaits rfl ?_ hinput hdown
        show Asks hp limits' c (s.input.asSlice ++ up)
        rw [hbehind.text]
        exact hasks
  · rw [hstep]
    exact Or.inr ⟨error, rfl, h⟩

end Connection

end H11r
