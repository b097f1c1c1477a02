import H11r.Connection.Talk
import H11r.Lib.Joined

/-!
# Two ends that talk

A client and a server are joined by two channels, and each of them calls what it
likes when it likes: what it sends goes into its channel, and what is in the
other one comes to it in any pieces. No poll of either ever fails, and neither
gets more than one exchange ahead of the other
(`conversation_never_fails`). When both are in the same exchange and have nothing
left to do, they agree on the actors and on whether there is another exchange
(`ends_agree_at_rest`).
-/

namespace H11r

open Lib (Call Joined JoinedOp)

namespace Connection

variable {hp : Httparse} {limits limits' : Limits} {history : List (JoinedOp Op UInt8 × Outcome)}
  {ends : Joined Connection UInt8}

/-! ## The two ends as one machine -/

/-- A call of one end, the bytes of which go into its channel, or the arrival of
the first bytes of a channel. -/
def joinedStep (hp : Httparse) (op : JoinedOp Op UInt8) (ends : Joined Connection UInt8) :
    Outcome × Joined Connection UInt8 :=
  Joined.step (step hp) Outcome.output .receiveData op ends

/-- What an end may call whose peer has these limits: it polls, goes on to the
next exchange, and sends what fits. -/
def mayCall (limits : Limits) (c : Connection) (op : Op) : Prop :=
  op = .nextEvent ∨ op = .startNextCycle ∨ fitsPeer limits c op

/-- What may happen to the two ends: their calls, in any order, and arrivals. -/
def converses (ends : Joined Connection UInt8) : JoinedOp Op UInt8 → Prop
  | .left op => mayCall ends.right.limits ends.left op
  | .right op => mayCall ends.left.limits ends.right op
  | .arriveRight items => items <+: ends.toRight ∧ items ≠ []
  | .arriveLeft items => items <+: ends.toLeft ∧ items ≠ []

/-- A new client on the left, and a new server on the right. -/
abbrev Conversation (hp : Httparse) (limits limits' : Limits)
    (history : List (JoinedOp Op UInt8 × Outcome))
    (ends : Joined Connection UInt8) : Prop :=
  Lib.Run (joinedStep hp) converses ⟨new .client limits, new .server limits', [], []⟩ history ends

/-- How often an end has gone on to another exchange. -/
def cycleCount (history : List (Op × Outcome)) : Nat := history.countP startsCycle

def clientHistory (history : List (JoinedOp Op UInt8 × Outcome)) : List (Op × Outcome) :=
  history.filterMap (Joined.atLeft .receiveData)

def serverHistory (history : List (JoinedOp Op UInt8 × Outcome)) : List (Op × Outcome) :=
  history.filterMap (Joined.atRight .receiveData)

/-! ## What holds of them -/

/-- The invariant of a conversation. -/
structure Conversing (hp : Httparse) (limits limits' : Limits) (ends : Joined Connection UInt8)
    (m n : Nat) : Prop where
  client : End hp .client limits ends.left
  server : End hp .server limits' ends.right
  talks : Talks hp limits limits' ends.left ends.right ends.toRight ends.toLeft m n

theorem new_conversing (hp : Httparse) (limits limits' : Limits) :
    Conversing hp limits limits' ⟨new .client limits, new .server limits', [], []⟩ 0 0 where
  client := ⟨⟨.client, limits, [], .start⟩, rfl, rfl, rfl, rfl⟩
  server := ⟨⟨.server, limits', [], .start⟩, rfl, rfl, rfl, rfl⟩
  talks := .asking ⟨rfl, rfl, ⟨rfl, rfl, [], List.nil_prefix, .fresh⟩, rfl, rfl⟩ rfl
    (.idle rfl rfl rfl) rfl rfl

theorem startsCycle_other {op : Op} (outcome : Outcome) (h : op ≠ .startNextCycle) :
    startsCycle (op, outcome) = false := by
  unfold startsCycle
  split
  next heq =>
    obtain ⟨rfl, _⟩ := Prod.mk.inj heq
    exact absurd rfl h
  next => rfl

/-- A poll, or a call that sends, is not one that ends an exchange. -/
theorem cycles_other {op : Op} (outcome : Outcome) (h : op ≠ .startNextCycle) (n : Nat) :
    n + (startsCycle (op, outcome)).toNat = n := by
  rw [startsCycle_other outcome h]
  rfl

theorem sends_not_failed {op : Op} (hop : op.sends = true) (c : Connection) :
    (step hp op c).1.isFailed = false := by
  have hother :
    ∀ {α : Type} {value : α → Outcome} (result : Except LocalProtocolError α × Connection),
      (∀ a, (value a).isFailed = false) → (outcome value result).1.isFailed = false := by
    rintro α value ⟨error | a, c'⟩ hvalue
    · rfl
    · exact hvalue a
  cases op with
  | lenient | receiveData | holdBodyData | nextEventInPlace | nextEvent | startNextCycle =>
    cases hop
  | _ => exact hother _ fun _ => rfl

/-- A call of the client. -/
theorem Conversing.left {m n : Nat} {op : Op} (hhp : hp.Stable) (hread : hp.ReadsValid)
    (h : Conversing hp limits limits' ends m n)
    (hop : mayCall ends.right.limits ends.left op) :
    (joinedStep hp (.left op) ends).1.isFailed = false ∧
      Conversing hp limits limits' (joinedStep hp (.left op) ends).2
        (m + (startsCycle (op, (joinedStep hp (.left op) ends).1)).toNat) n := by
  obtain ⟨hclient, hserver, htalks⟩ := h
  show (step hp op ends.left).1.isFailed = false ∧ Conversing hp limits limits'
    { ends with
      left := (step hp op ends.left).2
      toRight := ends.toRight ++ (step hp op ends.left).1.output }
    (m + (startsCycle (op, (step hp op ends.left).1)).toNat) n
  -- A poll, a new cycle, or a call that writes.
  rcases hop with rfl | rfl | hfits
  · obtain ⟨next, c', hpoll, htalks'⟩ := htalks.clientPolls hhp hclient
    have hstep : step hp .nextEvent ends.left = (.polled next, c') := by
      show pollOutcome _ = _
      rw [hpoll]
      rfl
    rw [hstep]
    refine ⟨rfl, hclient.polls hpoll, hserver, ?_⟩
    show Talks hp limits limits' c' ends.right (ends.toRight ++ []) ends.toLeft _ n
    rw [List.append_nil]
    exact htalks'
  · obtain ⟨hclient', hstep⟩ := htalks.clientNext hclient
    rcases hstep with ⟨hunit, htalks'⟩ | ⟨error, hrefused, htalks'⟩
    · rw [hunit]
      refine ⟨rfl, hclient', hserver, ?_⟩
      show Talks hp limits limits' _ ends.right (ends.toRight ++ []) ends.toLeft _ n
      rw [List.append_nil]
      exact htalks'
    · rw [hrefused]
      refine ⟨rfl, hclient', hserver, ?_⟩
      show Talks hp limits limits' _ ends.right (ends.toRight ++ []) ends.toLeft _ n
      rw [List.append_nil]
      exact htalks'
  · obtain ⟨hop, hwrites⟩ := fitsPeer_writes hp hfits
    have hother : op ≠ .startNextCycle := by
      rintro rfl
      cases hop
    rw [cycles_other _ hother]
    rw [hserver.limits] at hwrites
    exact ⟨sends_not_failed hop _, hclient.sends hop, hserver,
      htalks.clientSends hhp hread hclient hop hwrites⟩

/-- A call of the server. -/
theorem Conversing.right {m n : Nat} {op : Op} (hhp : hp.Stable) (hread : hp.ReadsValid)
    (h : Conversing hp limits limits' ends m n)
    (hop : mayCall ends.left.limits ends.right op) :
    (joinedStep hp (.right op) ends).1.isFailed = false ∧
      Conversing hp limits limits' (joinedStep hp (.right op) ends).2 m
        (n + (startsCycle (op, (joinedStep hp (.right op) ends).1)).toNat) := by
  obtain ⟨hclient, hserver, htalks⟩ := h
  show (step hp op ends.right).1.isFailed = false ∧ Conversing hp limits limits'
    { ends with
      right := (step hp op ends.right).2
      toLeft := ends.toLeft ++ (step hp op ends.right).1.output }
    m (n + (startsCycle (op, (step hp op ends.right).1)).toNat)
  rcases hop with rfl | rfl | hfits
  · obtain ⟨next, s', hpoll, htalks'⟩ := htalks.serverPolls hhp hclient hserver
    have hstep : step hp .nextEvent ends.right = (.polled next, s') := by
      show pollOutcome _ = _
      rw [hpoll]
      rfl
    rw [hstep]
    refine ⟨rfl, hclient, hserver.polls hpoll, ?_⟩
    show Talks hp limits limits' ends.left s' ends.toRight (ends.toLeft ++ []) m _
    rw [List.append_nil]
    exact htalks'
  · obtain ⟨hserver', hstep⟩ := htalks.serverNext hserver
    rcases hstep with ⟨hunit, htalks'⟩ | ⟨error, hrefused, htalks'⟩
    · rw [hunit]
      refine ⟨rfl, hclient, hserver', ?_⟩
      show Talks hp limits limits' ends.left _ ends.toRight (ends.toLeft ++ []) m _
      rw [List.append_nil]
      exact htalks'
    · rw [hrefused]
      refine ⟨rfl, hclient, hserver', ?_⟩
      show Talks hp limits limits' ends.left _ ends.toRight (ends.toLeft ++ []) m _
      rw [List.append_nil]
      exact htalks'
  · obtain ⟨hop, hwrites⟩ := fitsPeer_writes hp hfits
    have hother : op ≠ .startNextCycle := by
      rintro rfl
      cases hop
    rw [cycles_other _ hother]
    rw [hclient.limits] at hwrites
    exact ⟨sends_not_failed hop _, hclient, hserver.sends hop,
      htalks.serverSends hhp hread hserver hop hwrites⟩

/-- Bytes arrive at one of the ends. -/
theorem Conversing.arrives {m n : Nat} {items : Bytes} (h : Conversing hp limits limits' ends m n)
    (hne : items ≠ []) :
    (items <+: ends.toRight → (joinedStep hp (.arriveRight items) ends).1.isFailed = false ∧
      Conversing hp limits limits' (joinedStep hp (.arriveRight items) ends).2 m n) ∧
    (items <+: ends.toLeft → (joinedStep hp (.arriveLeft items) ends).1.isFailed = false ∧
      Conversing hp limits limits' (joinedStep hp (.arriveLeft items) ends).2 m n) := by
  obtain ⟨hclient, hserver, htalks⟩ := h
  constructor
  · intro hitems
    obtain ⟨hstep, hserver'⟩ := hserver.receives hne
    show (step hp (.receiveData items) ends.right).1.isFailed = false ∧ Conversing hp limits limits'
      { ends with
        right := (step hp (.receiveData items) ends.right).2
        toRight := ends.toRight.drop items.length } m n
    rw [hstep]
    exact ⟨rfl, hclient, hserver', htalks.arriveUp hitems hne⟩
  · intro hitems
    obtain ⟨hstep, hclient'⟩ := hclient.receives hne
    show (step hp (.receiveData items) ends.left).1.isFailed = false ∧ Conversing hp limits limits'
      { ends with
        left := (step hp (.receiveData items) ends.left).2
        toLeft := ends.toLeft.drop items.length } m n
    rw [hstep]
    exact ⟨rfl, hclient', hserver, htalks.arriveDown hitems hne⟩

theorem clientHistory_append (before after : List (JoinedOp Op UInt8 × Outcome)) :
    clientHistory (before ++ after) = clientHistory before ++ clientHistory after :=
      List.filterMap_append

theorem serverHistory_append (before after : List (JoinedOp Op UInt8 × Outcome)) :
    serverHistory (before ++ after) = serverHistory before ++ serverHistory after :=
      List.filterMap_append

theorem cycleCount_append (before after : List (Op × Outcome)) :
    cycleCount (before ++ after) = cycleCount before + cycleCount after := List.countP_append

theorem cycleCount_one (entry : Op × Outcome) : cycleCount [entry] = (startsCycle entry).toNat := by
  unfold cycleCount
  rw [List.countP_singleton]
  cases startsCycle entry <;> rfl

/-- One step of a conversation. -/
theorem Conversing.step {m n : Nat} {op : JoinedOp Op UInt8} (hhp : hp.Stable)
    (hread : hp.ReadsValid)
    (h : Conversing hp limits limits' ends m n) (hallowed : converses ends op) :
    (joinedStep hp op ends).1.isFailed = false ∧
    Conversing hp limits limits' (joinedStep hp op ends).2
      (m + cycleCount (clientHistory [(op, (joinedStep hp op ends).1)]))
      (n + cycleCount (serverHistory [(op, (joinedStep hp op ends).1)])) := by
  cases op with
  | left op =>
    have hstep := h.left hhp hread hallowed
    rw [← cycleCount_one] at hstep
    exact hstep
  | right op =>
    have hstep := h.right hhp hread hallowed
    rw [← cycleCount_one] at hstep
    exact hstep
  | arriveRight items => exact (h.arrives hallowed.2).1 hallowed.1
  | arriveLeft items => exact (h.arrives hallowed.2).2 hallowed.1

/-- A conversation keeps its invariant, and nothing in it fails. -/
theorem conversation_keeps (hhp : hp.Stable) (hread : hp.ReadsValid)
    (h : Conversation hp limits limits' history ends) :
    (∀ entry ∈ history, entry.2.isFailed = false) ∧
      Conversing hp limits limits' ends (cycleCount (clientHistory history))
        (cycleCount (serverHistory history)) := by
  refine Lib.Run.invariant_history
    (P := fun history ends => (∀ entry ∈ history, entry.2.isFailed = false) ∧
    Conversing hp limits limits' ends (cycleCount (clientHistory history))
      (cycleCount (serverHistory history)))
    ⟨fun _ hmem => absurd hmem List.not_mem_nil, new_conversing hp limits limits'⟩ ?_ h
  intro history ends op ⟨hgoes, hends⟩ hallowed
  obtain ⟨hok, hends'⟩ := hends.step hhp hread hallowed
  rw [clientHistory_append, serverHistory_append, cycleCount_append, cycleCount_append]
  refine ⟨fun entry hmem => ?_, hends'⟩
  rcases List.mem_append.mp hmem with hmem | hmem
  · exact hgoes entry hmem
  · rw [List.mem_singleton.mp hmem]
    exact hok

/-- The counts are never more than one apart. -/
theorem Talks.apart {c s : Connection} {up down : Bytes} {m n : Nat}
    (h : Talks hp limits limits' c s up down m n) :
    m ≤ n + 1 ∧ n ≤ m + 1 := by
  cases h with
  | asking | answering => exact ⟨Nat.le_succ _, Nat.le_succ _⟩
  | clientAhead => exact ⟨Nat.le_refl _, by omega⟩
  | serverAhead => exact ⟨by omega, Nat.le_refl _⟩

/-- A client and a server talk over two channels, in any order of their calls and
with the bytes coming in any pieces; what they send is within the limits of the
other one, the server answers when it has been asked, and neither closes. No poll
of either of them ever fails, and neither is ever more than one exchange ahead of
the other. -/
theorem conversation_never_fails (hhp : hp.Stable) (hread : hp.ReadsValid)
    (h : Conversation hp limits limits' history ends) :
    (∀ entry ∈ history, entry.2.isFailed = false) ∧
      (∀ next, (nextEvent hp ends.left).1 ≠ .error next) ∧
      (∀ next, (nextEvent hp ends.right).1 ≠ .error next) ∧
      cycleCount (clientHistory history) ≤ cycleCount (serverHistory history) + 1 ∧
      cycleCount (serverHistory history) ≤ cycleCount (clientHistory history) + 1 := by
  obtain ⟨hgoes, hclient, hserver, htalks⟩ := conversation_keeps hhp hread h
  refine ⟨hgoes, fun error hfails => ?_, fun error hfails => ?_, htalks.apart⟩
  · obtain ⟨next, c', hpoll, _⟩ := htalks.clientPolls hhp hclient
    rw [hpoll] at hfails
    cases hfails
  · obtain ⟨next, s', hpoll, _⟩ := htalks.serverPolls hhp hclient hserver
    rw [hpoll] at hfails
    cases hfails

/-! ## Where both have nothing to do -/

/-- A poll of this connection comes to a rest. -/
def AtRest (hp : Httparse) (c : Connection) : Prop :=
  ∃ next c', nextEvent hp c = (.ok next, c') ∧ next.Rests

/-- An end that is not in its own message writes nothing. -/
theorem End.silent {role : Role} {c : Connection} (h : End hp role limits c)
    (hlocal : c.localState ≠ .sendBody) :
    c.cycle.writer = none := by
  obtain ⟨_, _, _, hrun⟩ := h.reachable
  have hwriter := (run_layersAgree hrun).writer
  cases hsome : c.cycle.writer with
  | none => rfl
  | some framing =>
    rw [hsome] at hwriter
    exact absurd (hwriter.mp rfl) hlocal

/-- What the caller sees of an exchange: the actors, and whether there is another
one after it. -/
structure SameExchange (c s : Connection) : Prop where
  client : c.state.client = s.state.client
  server : c.state.server = s.state.server
  keepAlive : c.keepAlive = s.keepAlive
  next : (∃ c', startNextCycle c = (.ok (), c')) ↔ ∃ s', startNextCycle s = (.ok (), s')

/-- Where there are no bytes behind an answer, it is the actors that decide whether
the next exchange can begin. -/
theorem startNextCycle_iff {c : Connection}
    (hclean : c.role = .client → c.peerState = .done → c.input.asSlice = []) :
    (∃ c', startNextCycle c = (.ok (), c')) ↔ c.state.startNextCycle.isSome = true := by
  constructor
  · rintro ⟨c', hcall⟩
    rcases startNextCycle_cases hcall with ⟨state, _, hstate, _⟩ | ⟨_, hok, _⟩ | ⟨_, hok, _⟩
    · rw [hstate]
      rfl
    · cases hok
    · cases hok
  · intro hsome
    obtain ⟨state, hstate⟩ := Option.isSome_iff_exists.mp hsome
    refine ⟨{ c with state := state, cycle := .new }, ?_⟩
    unfold startNextCycle
    rw [if_neg (fun hbytes => hbytes.2.2 (hclean hbytes.1 hbytes.2.1)), hstate]

section Rest

variable {c s : Connection}

theorem startNextCycle_agrees (hserver : s.role = .server)
    (hclean : c.peerState = .done → c.input.asSlice = [])
    (hsame : c.state.startNextCycle = s.state.startNextCycle) :
    (∃ c', startNextCycle c = (.ok (), c')) ↔ ∃ s', startNextCycle s = (.ok (), s') := by
  have hother : s.role = .client → s.peerState = .done → s.input.asSlice = [] := by
    intro hclient
    cases hserver.symm.trans hclient
  rw [startNextCycle_iff fun _ => hclean, startNextCycle_iff hother, hsame]

theorem sameExchange_of_state (hclient : c.role = .client) (hserver : s.role = .server)
    (hclean : c.peerState = .done → c.input.asSlice = []) (hstate : c.state = s.state) :
    SameExchange c s := by
  refine ⟨by rw [hstate], by rw [hstate], ?_, startNextCycle_agrees hserver hclean (by rw [hstate])⟩
  unfold keepAlive localState peerState
  rw [hclient, hserver, hstate, Bool.and_right_comm]
  rfl

/-- Behind a switch the actors are the same, and there is no other exchange. -/
theorem sameExchange_switched {keep keep' : Bool} {proposals : SwitchProposals}
    (hserver : s.role = .server)
    (hclean : c.peerState = .done → c.input.asSlice = []) (hproposed : proposals ≠ .none)
    (hc : c.state = .during keep proposals true .switched)
    (hs : s.state = .during keep' proposals true .switched) :
    SameExchange c s := by
  obtain ⟨hclients, hclients'⟩ :=
    ConnectionState.duringViews.switched keep keep' proposals hproposed
  rw [← hc] at hclients
  rw [← hs] at hclients'
  have hservers : ∀ keep, (ConnectionState.during keep proposals true .switched).server =
      .switchedProtocol :=
    fun keep => ConnectionState.duringViews.server _ _ _ _ nofun
  have hnext : ∀ keep,
      (ConnectionState.during keep proposals true .switched).startNextCycle = none := by
    intro keep
    cases hstate : (ConnectionState.during keep proposals true .switched).startNextCycle with
    | none => rfl
    | some state => cases (ConnectionState.duringLaws.next _ _ _ _ _ hstate).2.1
  -- An actor that has switched stops reuse, whatever the flag says.
  have hoff : ∀ c : Connection, c.state.client = .switchedProtocol → c.keepAlive = false := by
    intro c hswitched
    unfold keepAlive localState peerState
    cases c.role with
    | client =>
      show (_ && !stopsReuse c.state.client && _) = false
      rw [hswitched]
      exact (congrArg (· && _) (Bool.and_false _)).trans (Bool.false_and _)
    | server =>
      show (_ && !stopsReuse c.state.client) = false
      rw [hswitched]
      exact Bool.and_false _
  refine ⟨hclients.trans hclients'.symm, ?_, (hoff c hclients).trans (hoff s hclients').symm,
    startNextCycle_agrees hserver hclean ?_⟩
  · rw [hc, hs, hservers, hservers]
  · rw [hc, hs, hnext, hnext]

/-- A server that has got all there is has all of the request. -/
theorem Reads.atRest {hp : Httparse} {text : Bytes} {ended : Bool} (hhp : hp.Stable)
    (hopened : s.eof = false)
    (hrests : AtRest hp s) (h : Reads hp limits s false none (s.input.asSlice ++ []) text ended) :
    ended = true := by
  obtain ⟨next, s', hpoll, hnext⟩ := hrests
  obtain ⟨_, _, _, hpoll', _, hmore⟩ := h.poll hhp hopened
  rw [hpoll] at hpoll'
  cases hpoll'
  exact hmore hnext rfl rfl rfl

end Rest

/-- Where a client and a server talk and are in the same exchange, both have sent
what they had begun and all of it has come, a poll of either of them has nothing
more to return, and the answer is not one that lasts until the connection is
closed, the two agree on both actors, on `keep_alive`, and on whether
`start_next_cycle` succeeds. -/
theorem ends_agree_at_rest (hhp : hp.Stable) (hread : hp.ReadsValid)
    (h : Conversation hp limits limits' history ends)
    (hsame : cycleCount (clientHistory history) = cycleCount (serverHistory history))
    (hup : ends.toRight = [])
    (hdown : ends.toLeft = []) (hclient : ends.left.localState ≠ .sendBody)
    (hserver : ends.right.localState ≠ .sendBody)
    (hclientRests : AtRest hp ends.left) (hserverRests : AtRest hp ends.right)
    (hreader : ends.left.cycle.reader ≠ .closeDelimited) : SameExchange ends.left ends.right := by
  obtain ⟨_, hclientEnd, hserverEnd, htalks⟩ := conversation_keeps hhp hread h
  have hsilent := hclientEnd.silent hclient
  have hsilent' := hserverEnd.silent hserver
  rw [hup, hdown] at htalks
  generalize cycleCount (clientHistory history) = m at hsame htalks
  generalize cycleCount (serverHistory history) = n at hsame htalks
  -- Only two of the four places have the ends in the same exchange.
  cases htalks with
  | asking hawaits _ hasks hinput =>
    cases hasks with
    | idle hstate =>
      exact sameExchange_of_state hclientEnd.role hserverEnd.role (fun _ => hinput)
        (hstate.trans hawaits.new.symm)
    | asked hhead haccepts _ _ _ _ htext =>
      -- The server would have read the head.
      obtain ⟨next, s', hpoll, hrests⟩ := hserverRests
      rcases nextEvent_awaitsRequest hhp hawaits hhead.reads hhead.fits haccepts htext
        (fun _ => rfl) hpoll with
        ⟨_, hmore, _⟩ | ⟨hevent, _⟩
      · exact absurd rfl hmore
      · cases hevent
        cases hrests.closes
  | answering hstands hrequest hhears =>
    rw [hsilent] at hrequest
    have hended := hrequest.atRest hhp hserverEnd.opened hserverRests
    subst hended
    have hclean := hhears.clean
    cases hhears with
    | waits hc hnoted hstate hanswers =>
      obtain ⟨next, c', hpoll, hrests⟩ := hclientRests
      obtain ⟨_, _, hpoll', _, hpending⟩ :=
        Hears.poll_waits hhp hclientEnd.opened hc hnoted hstate hanswers
      rw [hpoll] at hpoll'
      cases hpoll'
      -- All that has come is in front of the answer.
      rw [hpending hrests rfl] at hstands
      cases hstands with
      | pending hstate' =>
        rw [hsilent] at hstate
        exact sameExchange_of_state hclientEnd.role hserverEnd.role hclean
          (hstate.trans hstate'.symm)
    | @reads keep untilEof ended writer hstate hreads =>
      cases hstands with
      | final hstate' hwriter =>
        have hnone : writer = none := hwriter.symm.trans hsilent'
        subst hnone
        -- An answer with an end of its own has come to it.
        have hended : ended = true := by
          cases untilEof with
          | false => exact hreads.atRest hhp hclientEnd.opened hclientRests
          | true =>
            cases hreads with
            | inside hcoming => exact absurd hcoming.reader hreader
            | behind => rfl
        rw [hsilent, hended] at hstate
        exact sameExchange_of_state hclientEnd.role hserverEnd.role hclean
          (hstate.trans hstate'.symm)
    | switched hstate hproposed =>
      obtain ⟨keep, hstate⟩ := hstate
      rw [hsilent] at hstate
      cases hstands with
      | switched hstate' =>
        obtain ⟨keep', hstate'⟩ := hstate'
        exact sameExchange_switched hserverEnd.role hclean hproposed hstate hstate'
  -- The counts differ.
  | clientAhead => omega
  | serverAhead => omega

/-! A request that comes in two pieces, and its answer. -/

def newEnds : Joined Connection UInt8 := ⟨new .client .default, new .server .default, [], []⟩

def talkOps : List (JoinedOp Op UInt8) :=
  [.left (.sendRequest (plainGet .http11)), .left (.endOfMessage .new),
    .arriveRight ((plainGetHead .http11).take 5),
    .right .nextEvent, .arriveRight ((plainGetHead .http11).drop 5), .right .nextEvent,
    .right .nextEvent,
    .right (.sendResponse plainOk), .right (.sendData (ascii "hi")),
    .right (.endOfMessage answerTrailers),
    .arriveLeft (answerText.take 20), .left .nextEvent, .arriveLeft (answerText.drop 20),
    .left .nextEvent,
    .left .nextEvent, .left .nextEvent]

def talked : List (JoinedOp Op UInt8 × Outcome) × Joined Connection UInt8 :=
  Lib.trace (joinedStep Reference.httparse) newEnds talkOps

theorem talkOps_permitted :
    Lib.Permitted (joinedStep Reference.httparse) converses newEnds talkOps := by
  refine ⟨Or.inr
    (Or.inr (requestFits_of Reference.httparse (by decide +kernel) (by decide +kernel))),
    Or.inr (Or.inr ?_), ⟨by decide +kernel, by decide +kernel⟩, Or.inl rfl,
    ⟨by decide +kernel, by decide +kernel⟩,
    Or.inl rfl, Or.inl rfl,
    Or.inr (Or.inr
      (responseFits_of Reference.httparse (by decide +kernel) (by decide +kernel)
        (by decide +kernel))),
    Or.inr (Or.inr ?_), Or.inr (Or.inr ?_), ⟨by decide +kernel, by decide +kernel⟩, Or.inl rfl,
    ⟨by decide +kernel, by decide +kernel⟩, Or.inl rfl, Or.inl rfl, Or.inl rfl, trivial⟩
  · intro hchunked
    exact absurd hchunked (by decide +kernel)
  · intro _ _
    exact ⟨by decide +kernel, by decide +kernel⟩
  · intro _
    exact ⟨by decide +kernel, by decide +kernel⟩

theorem talked_conversation : Conversation Reference.httparse .default .default talked.1 talked.2 :=
  Lib.Run.trace _ _ talkOps_permitted

theorem atRest_of_waits {c : Connection}
    (h : waitsForMore (step Reference.httparse .nextEvent c).1 = true) :
    AtRest Reference.httparse c := by
  change waitsForMore (pollOutcome (nextEvent Reference.httparse c)).1 = true at h
  rcases hpoll : nextEvent Reference.httparse c with ⟨error | next, c'⟩
  · rw [hpoll] at h
    cases h
  · rw [hpoll] at h
    refine ⟨next, c', hpoll, Or.inl ?_⟩
    cases next with
    | needData => rfl
    | paused | event => cases h

theorem plain_conversation_goes : ∃ history ends,
      Conversation Reference.httparse .default .default history ends ∧
    history.length = 16 ∧ ∀ entry ∈ history, entry.2.isFailed = false :=
  ⟨talked.1, talked.2, talked_conversation, by decide +kernel,
    (conversation_never_fails Reference.stable Reference.readsValid talked_conversation).1⟩

theorem plain_ends_agree :
    SameExchange talked.2.left talked.2.right ∧ talked.2.left.state.client = .done ∧
    talked.2.left.state.server = .done ∧ talked.2.left.keepAlive = true :=
  ⟨ends_agree_at_rest Reference.stable Reference.readsValid talked_conversation (by decide +kernel)
    (by decide +kernel)
      (by decide +kernel) (by decide +kernel) (by decide +kernel)
        (atRest_of_waits (by decide +kernel))
      (atRest_of_waits (by decide +kernel)) (by decide +kernel),
    by decide +kernel, by decide +kernel, by decide +kernel⟩

end Connection

end H11r
