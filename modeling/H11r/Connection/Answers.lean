import H11r.Connection.Exchange
import H11r.Connection.ResponseTrip

/-!
# The answer to a request, as it comes

A server answers a request with informational responses and a final one, or it
switches. `Answers` describes the bytes of this by what each head is to a client
that has asked the question, and `Hears` says where such a client is in them.
Whatever the server goes on with, no poll of the client fails (`Hears.poll`).
-/

namespace H11r

open Lib (Call)

namespace Connection

variable {hp : Httparse} {c c' : Connection} {limits : Limits} {framing : Framing}
  {writer writer' : Option Framing}
  {role : Role} {text rest bytes : Bytes} {q : Question}

/-- How far a server is with its answer: it has yet to give it, with a 100 still
to be sent before an upgrade or not; it has given a final one that keeps the
connection or not; or it has switched. -/
inductive Standing where
  | pending (continues : Bool)
  | final (keep : Bool) (writer : Option Framing)
  | switched

variable {standing standing' : Standing}

/-! ## A body behind its head -/

/-- The body that is being written arrives at whoever has read the head. -/
def BodyComes (hp : Httparse) (limits : Limits) (role : Role) (framing : Framing)
    (writer : Option Framing)
    (text : Bytes) : Prop :=
  ∀ more, Completes limits writer more → ∃ items trailers, ∀ {c : Connection} {after : Bytes},
    Begins limits role framing c → (framing = .closeDelimited → after = []) →
      Arrives hp c (framing == .closeDelimited) (text ++ (more ++ after)) items trailers after

theorem bodyComes (hhp : hp.Stable) (hread : hp.ReadsValid) (limits : Limits) (role : Role)
    (framing : Framing) :
    BodyComes hp limits role framing (some framing) [] := by
  rintro more ⟨pieces, trailers, htext, hvalid, hfits⟩
  obtain ⟨items, received, _, _, harrives⟩ := htext.arrives hhp hread role hvalid hfits
  exact ⟨items, received, fun hc hafter => harrives hc hafter⟩

theorem BodyComes.wrote (h : BodyComes hp limits role framing writer text)
    (hgoes : Goes limits writer bytes writer') :
    BodyComes hp limits role framing writer' (text ++ bytes) := by
  intro more hmore
  obtain ⟨items, trailers, harrives⟩ := h _ (hgoes.completes more hmore)
  refine ⟨items, trailers, fun {c after} hc hafter => ?_⟩
  have harrived := @harrives c after hc hafter
  rw [List.append_assoc] at harrived ⊢
  exact harrived

theorem BodyComes.coming (h : BodyComes hp limits role framing writer text)
    (hroom : 2 ≤ limits.maxHeadBytes)
    (hc : Begins limits role framing c) :
    Coming hp limits c (framing == .closeDelimited) writer text [] := by
  refine ⟨fun more hmore next hnext => ?_, fun _ => rfl, hroom⟩
  obtain ⟨items, trailers, harrives⟩ := h more hmore
  exact ⟨items, trailers, harrives hc fun hclose => hnext (beq_iff_eq.mpr hclose)⟩

/-! ## What a client makes of the heads -/

/-- A client with these limits reads `head` as this response. -/
structure ReadsHead (hp : Httparse) (limits : Limits) (head : Bytes) (response : Response) :
    Prop where
  reads : ReadsAs (fun data => parseResponseHead hp data limits.maxHeaderCount false) head
    (head.length, response, false)
  fits : head.length ≤ limits.maxHeadBytes

/-- Whether the connection persists for a client that accepts a final response. -/
def keepsAfter (q : Question) (framing : Framing) (response : Response) (c : Connection) : Bool :=
  (((q.keep && !q.proposals.connect) && (Fields.scan response.headers).persistent
    response.httpVersion) &&
    !(c.responseHasNoBody response.status &&
      isFaulty ((Fields.scan response.headers).framing response.httpVersion true))) &&
        !(framing == .closeDelimited)

/-- What a final response means to whoever has asked. -/
structure Means (q : Question) (framing : Framing) (keep : Bool) (response : Response) : Prop where
  final : response.status.isInformational = false
  plain : ∀ client : Connection,
    client.cycle.requestKind = some q.kind → client.opensTunnel response.status = false
  framed : ∀ client : Connection, client.cycle.requestKind = some q.kind →
    client.receivedFraming response = .ok framing
  keeps : ∀ client : Connection,
    client.cycle.requestKind = some q.kind → client.keepsAfter q framing response = keep

/-- The bytes of an answer, and the standing that the server is in behind them. -/
inductive Answers (hp : Httparse) (limits : Limits) (q : Question) :
    (continues : Bool) → (text : Bytes) → Standing → Prop
  | nothing {continues : Bool} : Answers hp limits q continues [] (.pending continues)
  | informational {continues : Bool} {head text : Bytes} {response : Response} {standing : Standing}
      (hhead : ReadsHead hp limits head response) (hstatus : response.status.isInformational = true)
      (hevent : ∀ client : Connection, client.Remembers q continues →
        client.informationalEvent response.status response.httpVersion response.headers =
          some .informationalResponse)
      (hsound : isFaulty ((Fields.scan response.headers).framing response.httpVersion true) = false)
      (h : Answers hp limits q (continues && response.status.asU16 != 100) text standing) :
      Answers hp limits q continues (head ++ text) standing
  | upgraded {continues : Bool} {head : Bytes} {response : Response}
      (hhead : ReadsHead hp limits head response) (hstatus : response.status.isInformational = true)
      (hevent : ∀ client : Connection, client.Remembers q continues →
        client.informationalEvent response.status response.httpVersion response.headers =
          some (.protocolSwitch .upgrade))
      (hoffered : q.proposals.upgrade = true) : Answers hp limits q continues head .switched
  | tunnel {continues : Bool} {head : Bytes} {response : Response}
      (hhead : ReadsHead hp limits head response)
      (hstatus : response.status.isInformational = false)
      (hopens : ∀ client : Connection, client.cycle.requestKind = some q.kind →
        client.opensTunnel response.status = true)
      (hasked : q.proposals.connect = true) : Answers hp limits q continues head .switched
  | final {continues keep : Bool} {head text : Bytes} {response : Response} {framing : Framing}
      {writer : Option Framing} (hhead : ReadsHead hp limits head response)
      (hmeans : Means q framing keep response)
      (hbody : BodyComes hp limits .client framing writer text) :
      Answers hp limits q continues (head ++ text) (.final keep writer)

/-- A head that is read takes some room. -/
theorem two_le_of_readsAs {ε α : Type} {parse : Bytes → Except ε (Option α)} {head : Bytes}
    {value : α}
    (h : ReadsAs parse head value) : 2 ≤ head.length := by
  obtain ⟨leading, lines, last, rest, _, _, hlines, hlast, hsome, hlength⟩ := h.ends
  have hne : lines ≠ [] := hsome
  obtain ⟨line, more, rfl⟩ := List.exists_cons_of_ne_nil hne
  have hline : 0 < line.length := by
    obtain ⟨body, hbody, _⟩ := hlines line List.mem_cons_self
    rw [hbody, List.length_append]
    exact Nat.lt_add_left _ Nat.one_pos
  have hend : 0 < last.length := by
    rcases hlast with rfl | rfl <;> decide
  rw [hlength, List.length_append, List.length_append, List.flatten_cons, List.length_append]
  omega

/-! ## Where the client is -/

/-- Where a client that has asked is in an answer, of which it has `text` and more
may come: in front of a head, in the body of the final response or behind it, or
behind the switch. -/
inductive Hears (hp : Httparse) (limits : Limits) (q : Question) (c : Connection) (text : Bytes) :
    Standing → Prop
  | waits {continues : Bool} {standing : Standing} (hc : c.AwaitsResponse (some q.kind) limits)
      (hnoted : c.Remembers q continues)
      (hstate : c.state = .during q.keep q.proposals c.cycle.writer.isNone .pending)
      (h : Answers hp limits q continues text standing) : Hears hp limits q c text standing
  | reads {keep untilEof ended : Bool} {writer : Option Framing}
      (hstate : c.state =
        .during keep q.proposals c.cycle.writer.isNone (if ended then .ended else .begun))
      (h : Reads hp limits c untilEof writer text [] ended) :
      Hears hp limits q c text (.final keep writer)
  | switched (hstate : ∃ keep, c.state = .during keep q.proposals c.cycle.writer.isNone .switched)
      (hproposed : q.proposals ≠ .none) (htext : text = []) : Hears hp limits q c text .switched

/-- An informational response is accepted if it is one that the connection takes. -/
theorem acceptInformational_of {response : Response} {event : StateEvent} {state : ConnectionState}
    (hrole : c.role = .client) (hlocal : c.localState ≠ .idle)
    (hstatus : response.status.isInformational = true)
    (hevent : c.informationalEvent response.status response.httpVersion response.headers =
      some event)
    (hstate : c.state.processEvent .server event = some state) :
    acceptResponse response c =
      (.ok (.event (.informationalResponse response)), acceptedInformational response state c) := by
  have hpeer : c.state.processEvent c.role.peer event = some state := by
    rw [hrole]
    exact hstate
  unfold acceptResponse
  rw [Call.get_bind, Call.failIf_bind, if_neg hlocal, if_pos hstatus]
  unfold acceptInformational
  rw [Call.get_bind, hevent]
  exact Call.bind_of_ok (advancePeer_of_some hpeer)

/-- A client that has asked is in its request, or behind it. -/
theorem AwaitsResponse.local (h : c.AwaitsResponse (some q.kind) limits) :
    c.localState ≠ .idle := by
  unfold localState
  rw [h.role]
  exact h.asking.begun

theorem Remembers.consume {continues : Bool} (h : c.Remembers q continues) (count : Nat) :
    (c.consumeSection count).Remembers q continues := ⟨h.kind, h.upgrades, h.continues⟩

section Polls

variable {continues : Bool}

/-- After an informational response that is not a switch the client waits for the
next head. -/
theorem acceptedInformational_waits (response : Response)
    (hc : c.AwaitsResponse (some q.kind) limits) (hnoted : c.Remembers q continues)
    (hstate : c.state = .during q.keep q.proposals c.cycle.writer.isNone .pending)
    (hsound : isFaulty ((Fields.scan response.headers).framing response.httpVersion true) = false)
    (count : Nat) :
    (acceptedInformational response c.state (c.consumeSection count)).AwaitsResponse
      (some q.kind) limits ∧
    (acceptedInformational response c.state (c.consumeSection count)).Remembers q
      (continues && response.status.asU16 != 100) ∧
    (acceptedInformational response c.state (c.consumeSection count)).state =
      .during q.keep q.proposals
        (acceptedInformational response c.state (c.consumeSection count)).cycle.writer.isNone
          .pending := by
  unfold acceptedInformational recordInformational
  rw [hsound]
  by_cases hcontinue : response.status.asU16 = 100
  · rw [if_pos hcontinue, hcontinue]
    refine ⟨⟨hc.role, hc.limits, hc.lenient,
      ⟨hc.before.reader, hc.before.spent, [], List.nil_prefix, .fresh⟩, hc.peer,
      ⟨hc.asking.kind, hc.asking.begun⟩⟩, ⟨hnoted.kind, hnoted.upgrades, ?_⟩, hstate⟩
    exact (Bool.and_false _).symm
  · rw [if_neg hcontinue, bne_iff_ne.mpr hcontinue, Bool.and_true]
    exact ⟨⟨hc.role, hc.limits, hc.lenient,
      ⟨hc.before.reader, hc.before.spent, [], List.nil_prefix, .fresh⟩, hc.peer,
      ⟨hc.asking.kind, hc.asking.begun⟩⟩, ⟨hnoted.kind, hnoted.upgrades, hnoted.continues⟩, hstate⟩

theorem acceptedInformational_writer (response : Response) (state : ConnectionState)
    (c : Connection) :
    (acceptedInformational response state c).cycle.writer = c.cycle.writer := by
  unfold acceptedInformational
  refine (recordInformational_cycle response.status _).1.trans ?_
  rw [disableKeepAliveIf_cycle]

/-- A poll of a client in front of a head, which rests only when there is no head. -/
theorem Hears.poll_waits (hhp : hp.Stable) (heof : c.eof = false)
    (hc : c.AwaitsResponse (some q.kind) limits)
    (hnoted : c.Remembers q continues)
    (hstate : c.state = .during q.keep q.proposals c.cycle.writer.isNone .pending)
    (h : Answers hp limits q continues (c.input.asSlice ++ rest) standing) : ∃ next c',
      nextEvent hp c = (.ok next, c') ∧ Hears hp limits q c' (c'.input.asSlice ++ rest) standing ∧
      (next.Rests → rest = [] → standing = .pending continues) := by
  have hopen : c.eof = true → rest = [] := fun hclosed => by
    rw [heof] at hclosed
    cases hclosed
  have hrest : ∀ {progress : SectionProgress},
      (c.rescan progress c.cycle.reader c.cycle.chunkExtensionBytes).AwaitsResponse
        (some q.kind) limits →
      Answers hp limits q continues (c.input.asSlice ++ rest) standing →
      Hears hp limits q (c.rescan progress c.cycle.reader c.cycle.chunkExtensionBytes)
        (c.input.asSlice ++ rest)
        standing := fun hc' h => .waits hc'
          ⟨hnoted.kind, hnoted.upgrades, hnoted.continues⟩ hstate h
  generalize htext : c.input.asSlice ++ rest = text at h
  have hanswers := h
  cases h with
  | nothing =>
    obtain ⟨hinput, rfl⟩ := List.append_eq_nil_iff.mp htext
    obtain ⟨progress, hnotes, hwaits⟩ := readSection_nothing
      (fun data => parseResponseHead hp data c.limits.maxHeaderCount c.lenient)
      (fun parsed : Nat × Response × Bool => do
        Call.modify (disableKeepAliveIf parsed.2.2)
        Call.modify (consumeSection parsed.1)
        acceptResponse parsed.2.1)
      (parseResponseHead_emptyLines hhp rfl) hc.before.notes hinput heof
    rw [← readHead_response hp hc.role] at hwaits
    refine ⟨.needData, c.rescan progress c.cycle.reader c.cycle.chunkExtensionBytes, ?_, ?_,
      fun _ _ => rfl⟩
    · unfold nextEvent
      rw [nextEventInner_head hc.peer hc.before.reader hwaits]
    · have hall := @hrest progress
        ⟨hc.role, hc.limits, hc.lenient, ⟨hc.before.reader, hc.before.spent, hnotes⟩, hc.peer,
        ⟨hc.asking.kind, hc.asking.begun⟩⟩
      rw [htext] at hall
      show Hears hp limits q _ (c.input.asSlice ++ []) _
      rw [htext]
      exact hall hanswers
  | @informational _ head later response _ hhead hstatus hevent hsound h =>
    rcases hc.head hhead.reads hhead.fits htext hopen with
      ⟨hne, progress, hwaits, hc'⟩ | ⟨hmore, haccepts⟩
    · rw [← htext] at hanswers
      exact ⟨_, _, hwaits, hrest hc' hanswers, fun _ hnil => absurd hnil hne⟩
    · have hsame : c.state.processEvent .server .informationalResponse = some c.state := by
        rw [hstate]
        exact ConnectionState.duringLaws.informational _ _ _
      have haccepted :=
        acceptInformational_of (c := c.consumeSection head.length) hc.role hc.local hstatus
        (hevent _ (hnoted.consume _)) hsame
      obtain ⟨hc', hnoted', hstate'⟩ := acceptedInformational_waits response hc hnoted hstate hsound
        head.length
      refine ⟨_, _, haccepts _ _ haccepted, .waits hc' hnoted' hstate' ?_,
        fun hrests => nomatch hrests.closes⟩
      rw [acceptedInformational_input, hmore]
      exact h
  | @upgraded _ _ response hhead hstatus hevent hoffered =>
    have htext' : c.input.asSlice ++ rest = text ++ [] := htext.trans (List.append_nil _).symm
    rcases hc.head hhead.reads hhead.fits htext' hopen with
      ⟨hne, progress, hwaits, hc'⟩ | ⟨hmore, haccepts⟩
    · rw [← htext] at hanswers
      exact ⟨_, _, hwaits, hrest hc' hanswers, fun _ hnil => absurd hnil hne⟩
    · have hswitches : c.state.processEvent .server (.protocolSwitch .upgrade) =
          some (.during q.keep q.proposals c.cycle.writer.isNone .switched) := by
        rw [hstate, ConnectionState.duringLaws.upgrades, if_pos hoffered]
      have haccepted :=
        acceptInformational_of (c := c.consumeSection text.length) hc.role hc.local hstatus
        (hevent _ (hnoted.consume _)) hswitches
      refine ⟨_, _, haccepts _ _ haccepted, .switched ?_ (fun hnone => ?_) ?_,
        fun hrests => nomatch hrests.closes⟩
      · rw [acceptedInformational_state, acceptedInformational_writer,
          ConnectionState.duringLaws.disable]
        exact ⟨_, rfl⟩
      · rw [hnone] at hoffered
        cases hoffered
      · rw [acceptedInformational_input]
        exact hmore
  | @tunnel _ _ response hhead hstatus hopens hasked =>
    have htext' : c.input.asSlice ++ rest = text ++ [] := htext.trans (List.append_nil _).symm
    rcases hc.head hhead.reads hhead.fits htext' hopen with
      ⟨hne, progress, hwaits, hc'⟩ | ⟨hmore, haccepts⟩
    · rw [← htext] at hanswers
      exact ⟨_, _, hwaits, hrest hc' hanswers, fun _ hnil => absurd hnil hne⟩
    · have hconnects := hopens (c.consumeSection text.length) hnoted.kind
      have hswitches : c.state.processEvent .server
          ((c.consumeSection text.length).finalResponseEvent response.status) =
            some (.during q.keep q.proposals c.cycle.writer.isNone .switched) := by
        unfold finalResponseEvent
        rw [hconnects, hstate]
        exact (ConnectionState.duringLaws.connects _ _ _).trans (if_pos hasked)
      have hframing : (c.consumeSection text.length).receivedFraming response = .ok (.fixed 0) := by
        unfold receivedFraming responseHasNoBody
        rw [hconnects, Bool.or_true]
        rfl
      have haccepted :=
        acceptResponse_of (c := c.consumeSection text.length) hc.role hc.local hstatus
          hswitches hframing
      refine ⟨_, _, haccepts _ _ haccepted, .switched ?_ (fun hnone => ?_) ?_,
        fun hrests => nomatch hrests.closes⟩
      · rw [acceptedFinal_state, acceptedFinal_cycle]
        simp only [ConnectionState.duringLaws.disable]
        exact ⟨_, rfl⟩
      · rw [hnone] at hasked
        cases hasked
      · rw [acceptedFinal_input]
        exact hmore
  | @final _ keep head later response framing writer hhead hmeans hbody =>
    rcases hc.head hhead.reads hhead.fits htext hopen with
      ⟨hne, progress, hwaits, hc'⟩ | ⟨hmore, haccepts⟩
    · rw [← htext] at hanswers
      exact ⟨_, _, hwaits, hrest hc' hanswers, fun _ hnil => absurd hnil hne⟩
    · have hplain := hmeans.plain (c.consumeSection head.length) hnoted.kind
      obtain ⟨state, hanswered, hbegins⟩ :=
        acceptedFinal_begins (c := c.consumeSection head.length) framing
        hc.role hc.server hc.before.spent hplain
      have haccepted :=
        acceptResponse_of (c := c.consumeSection head.length) hc.role hc.local
          hmeans.final hanswered
        (hmeans.framed _ hnoted.kind)
      have hlimits : (c.consumeSection head.length).limits = limits := hc.limits
      rw [hlimits] at hbegins
      have hroom := Nat.le_trans (two_le_of_readsAs hhead.reads) hhead.fits
      have hcoming := hbody.coming hroom hbegins
      rw [← hmore] at hcoming
      refine ⟨_, _, haccepts _ _ haccepted,
        .reads ?_ (.inside (by rw [acceptedFinal_input]; exact hcoming)),
        fun hrests => nomatch hrests.closes⟩
      · have hstate' : c.state.processEvent .server .response = some state := by
          unfold finalResponseEvent at hanswered
          rw [hplain] at hanswered
          exact hanswered
        rw [hstate, ConnectionState.duringLaws.response] at hstate'
        rw [acceptedFinal_state, acceptedFinal_cycle,
          ← hmeans.keeps (c.consumeSection head.length) hnoted.kind,
          ← Option.some.inj hstate']
        simp only [ConnectionState.duringLaws.disable, Bool.not_not]
        rfl

/-- A poll of a client that hears an answer does not fail. -/
theorem Hears.poll (hhp : hp.Stable) (hrole : c.role = .client) (heof : c.eof = false)
    (h : Hears hp limits q c (c.input.asSlice ++ rest) standing) : ∃ next c',
      nextEvent hp c = (.ok next, c') ∧
      Hears hp limits q c' (c'.input.asSlice ++ rest) standing := by
  have hwriter := nextEvent_writer hp c
  cases h with
  | waits hc hnoted hstate h =>
    obtain ⟨next, c', hpoll, hc', _⟩ := poll_waits hhp heof hc hnoted hstate h
    exact ⟨next, c', hpoll, hc'⟩
  | reads hstate h =>
    obtain ⟨next, c', ended', hpoll, hc', _⟩ := h.poll hhp heof
    rw [hpoll] at hwriter
    refine ⟨next, c', hpoll, .reads ?_ hc'⟩
    rw [hwriter]
    rcases h.poll_state hpoll heof hc' with ⟨rfl, hsame⟩ | ⟨rfl, rfl, hends⟩
    · rw [hsame]
      exact hstate
    · rw [hstate, hrole] at hends
      exact (Option.some.inj ((ConnectionState.duringLaws.ended _ _ _).symm.trans hends)).symm
  | switched hstate hproposed htext =>
    obtain ⟨keep, hstate⟩ := hstate
    have hpeer : c.peerState = .switchedProtocol := by
      unfold peerState
      rw [hrole, hstate]
      exact ConnectionState.duringViews.server _ _ _ _ nofun
    have hover : c.Over := ⟨by rw [hpeer]; rfl, by rw [hpeer]; decide⟩
    obtain ⟨next, c', hpoll, _⟩ := nextEvent_over hp hover
    have hstill := nextEvent_still hp hover heof
    rw [hpoll] at hstill
    have hsame : c' = c := hstill
    subst hsame
    exact ⟨next, c', hpoll, .switched ⟨keep, hstate⟩ hproposed htext⟩

end Polls

theorem Hears.extend (h : Hears hp limits q c text standing) (data : Bytes) :
    Hears hp limits q { c with input := c.input.extend data } text standing := by
  cases h with
  | waits hc hnoted hstate h =>
    exact .waits (hc.extend data) ⟨hnoted.kind, hnoted.upgrades, hnoted.continues⟩ hstate h
  | reads hstate h => exact .reads hstate (h.extend data)
  | switched hstate hproposed htext => exact .switched hstate hproposed htext

/-! ## The server goes on -/

/-- What a server can write, and the standing that it is in behind it. -/
inductive GoesOn (hp : Httparse) (limits : Limits) (q : Question) :
    Standing → Bytes → Standing → Prop
  | answers {continues : Bool} {bytes : Bytes} {standing : Standing}
      (h : Answers hp limits q continues bytes standing) :
      GoesOn hp limits q (.pending continues) bytes standing
  | goes {keep : Bool} {writer writer' : Option Framing} {bytes : Bytes}
      (h : Goes limits writer bytes writer') :
      GoesOn hp limits q (.final keep writer) bytes (.final keep writer')
  | switched : GoesOn hp limits q .switched [] .switched

theorem Answers.goesOn {continues : Bool} (h : Answers hp limits q continues text standing)
    (h' : GoesOn hp limits q standing bytes standing') :
    Answers hp limits q continues (text ++ bytes) standing' := by
  induction h with
  | nothing =>
    cases h' with
    | answers h' => exact h'
  | informational hhead hstatus hevent hsound _ ih =>
    rw [List.append_assoc]
    exact .informational hhead hstatus hevent hsound (ih h')
  | upgraded hhead hstatus hevent hoffered =>
    cases h' with
    | switched =>
      rw [List.append_nil]
      exact .upgraded hhead hstatus hevent hoffered
  | tunnel hhead hstatus hopens hasked =>
    cases h' with
    | switched =>
      rw [List.append_nil]
      exact .tunnel hhead hstatus hopens hasked
  | final hhead hmeans hbody =>
    cases h' with
    | goes hgoes =>
      rw [List.append_assoc]
      exact .final hhead hmeans (hbody.wrote hgoes)

theorem GoesOn.refl (hp : Httparse) (limits : Limits) (q : Question) (standing : Standing) :
    GoesOn hp limits q standing [] standing := by
  cases standing with
  | pending => exact .answers .nothing
  | final => exact .goes (.refl _ _)
  | switched => exact .switched

theorem GoesOn.trans {bytes' : Bytes} {standing'' : Standing}
    (h : GoesOn hp limits q standing bytes standing')
    (h' : GoesOn hp limits q standing' bytes' standing'') :
    GoesOn hp limits q standing (bytes ++ bytes') standing'' := by
  cases h with
  | answers h => exact .answers (h.goesOn h')
  | goes hgoes =>
    cases h' with
    | goes hgoes' => exact .goes (hgoes.trans hgoes')
  | switched => exact h'

theorem Hears.goesOn (h : Hears hp limits q c text standing)
    (h' : GoesOn hp limits q standing bytes standing') :
    Hears hp limits q c (text ++ bytes) standing' := by
  cases h with
  | waits hc hnoted hstate h => exact .waits hc hnoted hstate (h.goesOn h')
  | reads hstate h =>
    cases h' with
    | goes hgoes => exact .reads hstate (h.wrote hgoes)
  | switched hstate hproposed htext =>
    cases h' with
    | switched => exact .switched hstate hproposed (by rw [htext]; rfl)

end Connection

end H11r
