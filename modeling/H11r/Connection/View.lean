import H11r.Connection.Run

/-!
# Connections that only their buffers tell apart

A receive buffer keeps bytes it no longer needs, so two connections that have
read the same stream can differ in how their buffers are laid out. No method
looks at the layout: from connections that are the same apart from it
(`SameView`), a poll returns the same and leaves connections that are the same
again (`nextEvent_view`).
-/

namespace H11r.Connection

open Lib (Call)

/-- The connections are the same, except that their buffers may keep the same
live bytes in different places. -/
def SameView (c d : Connection) : Prop :=
  ∃ buffer : Buffer, buffer.asSlice = c.input.asSlice ∧ d = { c with input := buffer }

variable {hp : Httparse} {c d : Connection}

namespace SameView

theorem refl (c : Connection) : SameView c c := ⟨c.input, rfl, rfl⟩

theorem symm (h : SameView c d) : SameView d c := by
  obtain ⟨buffer, hbuffer, rfl⟩ := h
  exact ⟨c.input, hbuffer.symm, rfl⟩

theorem slice (h : SameView c d) : d.input.asSlice = c.input.asSlice := by
  obtain ⟨buffer, hbuffer, rfl⟩ := h
  exact hbuffer

theorem setState (h : SameView c d) (state : ConnectionState) :
    SameView { c with state := state } { d with state := state } := by
  obtain ⟨buffer, hbuffer, rfl⟩ := h
  exact ⟨buffer, hbuffer, rfl⟩

theorem mapCycle (h : SameView c d) (f : Cycle → Cycle) : SameView (c.mapCycle f) (d.mapCycle f) := by
  obtain ⟨buffer, hbuffer, rfl⟩ := h
  exact ⟨buffer, hbuffer, rfl⟩

theorem setVersion (h : SameView c d) (version : Option Version) :
    SameView { c with peerVersion := version } { d with peerVersion := version } := by
  obtain ⟨buffer, hbuffer, rfl⟩ := h
  exact ⟨buffer, hbuffer, rfl⟩

theorem disableKeepAliveIf (h : SameView c d) (reason : Bool) :
    SameView (c.disableKeepAliveIf reason) (d.disableKeepAliveIf reason) := by
  obtain ⟨buffer, hbuffer, rfl⟩ := h
  cases reason with
  | false => exact ⟨buffer, hbuffer, rfl⟩
  | true => exact ⟨buffer, hbuffer, rfl⟩

theorem recordEof (h : SameView c d) : SameView c.recordEof d.recordEof := by
  obtain ⟨buffer, hbuffer, rfl⟩ := h
  have heof : SameView { c with eof := true } { c with eof := true, input := buffer } :=
    ⟨buffer, hbuffer, rfl⟩
  exact heof.disableKeepAliveIf _

theorem consume (h : SameView c d) (count : Nat) :
    SameView { c with input := c.input.consume count } { d with input := d.input.consume count } := by
  obtain ⟨buffer, hbuffer, rfl⟩ := h
  refine ⟨buffer.consume count, ?_, rfl⟩
  show (buffer.consume count).asSlice = (c.input.consume count).asSlice
  rw [Buffer.asSlice_consume, Buffer.asSlice_consume, hbuffer]

theorem extend (h : SameView c d) (data : Bytes) :
    SameView { c with input := c.input.extend data } { d with input := d.input.extend data } := by
  obtain ⟨buffer, hbuffer, rfl⟩ := h
  refine ⟨buffer.extend data, ?_, rfl⟩
  show (buffer.extend data).asSlice = (c.input.extend data).asSlice
  rw [Buffer.asSlice_extend, Buffer.asSlice_extend, hbuffer]

theorem consumeSection (h : SameView c d) (count : Nat) :
    SameView (c.consumeSection count) (d.consumeSection count) :=
  (h.consume count).mapCycle _

end SameView

/-! ## The steps of the decoder -/

theorem advancePeer_view (h : SameView c d) (event : StateEvent) :
    Call.Alike SameView c d (advancePeer event) (advancePeer event) := by
  obtain ⟨buffer, hbuffer, rfl⟩ := h
  unfold Call.Alike advancePeer
  dsimp only
  split
  · exact ⟨rfl, buffer, hbuffer, rfl⟩
  · exact ⟨rfl, buffer, hbuffer, rfl⟩

theorem peerData_view (h : SameView c d) (count : Nat) (chunkStart chunkEnd : Bool) :
    Call.Alike SameView c d (peerData count chunkStart chunkEnd)
      (peerData count chunkStart chunkEnd) := by
  unfold peerData
  refine .bind (advancePeer_view h _) fun _ c1 d1 h1 => ?_
  exact .modify_bind (.pure (h1.mapCycle _) _)

theorem needDataOrEof_view (h : SameView c d) (message : String) :
    Call.Alike SameView c d (needDataOrEof message) (needDataOrEof message) := by
  obtain ⟨buffer, hbuffer, rfl⟩ := h
  unfold needDataOrEof
  refine .get_bind (.failIf_bind Iff.rfl rfl ⟨buffer, hbuffer, rfl⟩ fun _ => ?_)
  exact .pure ⟨buffer, hbuffer, rfl⟩ _

theorem finishPeer_view (h : SameView c d) (trailers : Headers) :
    Call.Alike SameView c d (finishPeer trailers) (finishPeer trailers) := by
  unfold finishPeer
  refine .bind (advancePeer_view h _) fun _ c1 d1 h1 => ?_
  exact .modify_bind (.pure (h1.mapCycle _) _)

theorem peerClosed_view (h : SameView c d) : Call.Alike SameView c d peerClosed peerClosed := by
  unfold peerClosed
  refine .bind (advancePeer_view h _) fun _ c1 d1 h1 => ?_
  exact .pure h1 _

theorem advancePayload_view (h : SameView c d) (count : Nat) :
    (c.advancePayload count).1 = (d.advancePayload count).1 ∧
      SameView (c.advancePayload count).2 (d.advancePayload count).2 := by
  obtain ⟨buffer, hbuffer, rfl⟩ := h
  unfold advancePayload
  dsimp only
  split
  · exact ⟨rfl, buffer, hbuffer, rfl⟩
  · exact ⟨rfl, buffer, hbuffer, rfl⟩
  · exact ⟨rfl, buffer, hbuffer, rfl⟩

theorem readPayload_view (h : SameView c d) (message : String) :
    Call.Alike SameView c d (readPayload message) (readPayload message) := by
  unfold readPayload
  refine .get_bind ?_
  rw [h.slice]
  split
  · exact needDataOrEof_view h message
  · obtain ⟨htaken, hadvanced⟩ := advancePayload_view h c.input.asSlice.length
    refine .modify_bind ?_
    rw [htaken, h.slice]
    exact peerData_view hadvanced _ _ _

theorem sectionDue_view (h : SameView c d) (skipLeadingEmpty : Bool) :
    Call.Alike SameView c d (sectionDue skipLeadingEmpty) (sectionDue skipLeadingEmpty) := by
  obtain ⟨buffer, hbuffer, rfl⟩ := h
  unfold Call.Alike sectionDue
  dsimp only
  rw [hbuffer]
  split
  · exact ⟨rfl, buffer, hbuffer, rfl⟩
  · exact ⟨rfl, buffer, hbuffer, rfl⟩

theorem waitForSection_view (h : SameView c d) (skipLeadingEmpty : Bool) :
    Call.Alike SameView c d (waitForSection skipLeadingEmpty) (waitForSection skipLeadingEmpty) := by
  have hsame := h
  obtain ⟨buffer, hbuffer, rfl⟩ := h
  unfold waitForSection headSection
  refine .get_bind ?_
  dsimp only
  rw [hbuffer]
  split
  · exact needDataOrEof_view hsame _
  · split
    · exact .throw hsame _
    · exact .throw hsame _

theorem recordRequest_view (h : SameView c d) (method : Method) (version : Version)
    (fields : Fields) (framing : Framing) (upgrades : List Bytes) :
    SameView (c.recordRequest method version fields framing upgrades)
      (d.recordRequest method version fields framing upgrades) :=
  (h.disableKeepAliveIf _).mapCycle _

theorem recordInformational_view (h : SameView c d) (status : StatusCode) :
    SameView (c.recordInformational status) (d.recordInformational status) := by
  unfold recordInformational
  split
  · exact h.mapCycle _
  · exact h

theorem acceptRequest_view (h : SameView c d) (request : Request) :
    Call.Alike SameView c d (acceptRequest request) (acceptRequest request) := by
  unfold acceptRequest
  refine .failIf_bind Iff.rfl rfl h fun _ => .failIf_bind Iff.rfl rfl h fun _ => ?_
  refine .ofExcept_bind rfl h fun framing _ => .failIf_bind Iff.rfl rfl h fun _ => ?_
  refine .bind (advancePeer_view h _) fun _ c1 d1 h1 => ?_
  refine .modify_bind (.modify_bind (.modify_bind (.pure ?_ _)))
  exact ((recordRequest_view h1 _ _ _ _ _).setVersion _).mapCycle _

theorem acceptInformational_view (h : SameView c d) (response : Response)
    (framing : Except RemoteProtocolError Framing) :
    Call.Alike SameView c d (acceptInformational response framing)
      (acceptInformational response framing) := by
  have hevent : c.informationalEvent response.status response.httpVersion response.headers =
      d.informationalEvent response.status response.httpVersion response.headers := by
    obtain ⟨buffer, hbuffer, rfl⟩ := h
    rfl
  unfold acceptInformational
  refine .get_bind (.ofExcept_bind (by rw [hevent]) h fun event _ => ?_)
  refine .bind (advancePeer_view h _) fun _ c1 d1 h1 => ?_
  refine .modify_bind (.modify_bind (.modify_bind (.pure ?_ _)))
  exact (recordInformational_view (h1.disableKeepAliveIf _) _).setVersion _

theorem acceptFinal_view (h : SameView c d) (response : Response) (fields : Fields)
    (framing : Except RemoteProtocolError Framing) :
    Call.Alike SameView c d (acceptFinal response fields framing)
      (acceptFinal response fields framing) := by
  have hbody : c.responseHasNoBody response.status = d.responseHasNoBody response.status := by
    obtain ⟨buffer, hbuffer, rfl⟩ := h
    rfl
  have hevent : c.finalResponseEvent response.status = d.finalResponseEvent response.status := by
    obtain ⟨buffer, hbuffer, rfl⟩ := h
    rfl
  unfold acceptFinal
  refine .get_bind ?_
  rw [hbody, hevent]
  refine .bind (advancePeer_view h _) fun _ c1 d1 h1 => ?_
  have h2 := (((h1.disableKeepAliveIf (!fields.persistent response.httpVersion)).mapCycle fun cycle =>
    { cycle with
      waitingForContinue := false
      continueBeforeUpgrade := false
      upgradeProposals := [] }).setVersion (some response.httpVersion)).disableKeepAliveIf
    (d.responseHasNoBody response.status && isFaulty framing)
  refine .modify_bind (.modify_bind (.modify_bind (.modify_bind ?_)))
  refine .ofExcept_bind rfl h2 fun framing _ => ?_
  refine .modify_bind (.modify_bind (.pure ?_ _))
  exact (h2.disableKeepAliveIf _).mapCycle _

theorem acceptResponse_view (h : SameView c d) (response : Response) :
    Call.Alike SameView c d (acceptResponse response) (acceptResponse response) := by
  have hlocal : c.localState = d.localState := by
    obtain ⟨buffer, hbuffer, rfl⟩ := h
    rfl
  unfold acceptResponse
  refine .get_bind (.failIf_bind (by rw [hlocal]) rfl h fun _ => ?_)
  dsimp only
  split
  · exact acceptInformational_view h _ _
  · exact acceptFinal_view h _ _ _

theorem readHead_view (h : SameView c d) :
    Call.Alike SameView c d (readHead hp) (readHead hp) := by
  unfold readHead
  refine .bind (sectionDue_view h true) fun due c1 d1 h1 => ?_
  have hsame := h1
  obtain ⟨buffer, hbuffer, rfl⟩ := h1
  refine .get_bind ?_
  unfold headSection
  dsimp only
  rw [hbuffer]
  split
  · exact waitForSection_view hsame true
  · split
    · refine .ofExcept_bind rfl hsame fun parsed _ => ?_
      split
      · exact waitForSection_view hsame true
      · exact .modify_bind (acceptRequest_view (hsame.consumeSection _) _)
    · refine .ofExcept_bind rfl hsame fun parsed _ => ?_
      split
      · exact waitForSection_view hsame true
      · refine .modify_bind (.modify_bind (acceptResponse_view ?_ _))
        exact (hsame.disableKeepAliveIf _).consumeSection _

theorem readSizeLine_view (h : SameView c d) (stop : Nat) :
    Call.Alike SameView c d (readSizeLine stop) (readSizeLine stop) := by
  have hsame := h
  obtain ⟨buffer, hbuffer, rfl⟩ := h
  unfold readSizeLine
  refine .get_bind (.failIf_bind Iff.rfl rfl hsame fun _ => ?_)
  dsimp only
  rw [hbuffer]
  refine .ofExcept_bind rfl hsame fun size _ => .modify_bind ?_
  refine .failIf_bind Iff.rfl rfl (hsame.mapCycle _) fun _ => .modify_bind ?_
  split
  · exact .modify (((hsame.mapCycle _).consume _).mapCycle _)
  · exact .modify (((hsame.mapCycle _).consume _).mapCycle _)

theorem readTrailers_view (h : SameView c d) :
    Call.Alike SameView c d (readTrailers hp) (readTrailers hp) := by
  unfold readTrailers
  refine .bind (sectionDue_view h false) fun due c1 d1 h1 => ?_
  have hsame := h1
  obtain ⟨buffer, hbuffer, rfl⟩ := h1
  refine .get_bind ?_
  unfold headSection
  dsimp only
  rw [hbuffer]
  split
  · exact waitForSection_view hsame false
  · refine .ofExcept_bind rfl hsame fun parsed _ => ?_
    split
    · exact waitForSection_view hsame false
    · exact .modify_bind (finishPeer_view (hsame.consumeSection _) _)

theorem waitForSizeLine_view (h : SameView c d) :
    Call.Alike SameView c d waitForSizeLine waitForSizeLine := by
  have hsame := h
  obtain ⟨buffer, hbuffer, rfl⟩ := h
  unfold waitForSizeLine
  refine .get_bind ?_
  dsimp only
  rw [hbuffer]
  refine .failIf_bind Iff.rfl rfl hsame fun _ => .modify_bind ?_
  exact needDataOrEof_view (hsame.mapCycle _) _

/-- What is reported at the end of a turn. -/
theorem report_view {x y : RemoteCall Polled} (h : Call.Alike SameView c d x y) :
    Call.Alike SameView c d (x >>= fun polled => pure (some polled))
      (y >>= fun polled => pure (some polled)) :=
  .bind h fun _ _ _ h1 => .pure h1 _

theorem readChunked_view (h : SameView c d) (chunk : Chunk) :
    Call.Alike SameView c d (readChunked hp chunk) (readChunked hp chunk) := by
  unfold readChunked
  refine .get_bind ?_
  cases chunk with
  | size scanned =>
    dsimp only
    rw [h.slice]
    split
    · exact report_view (waitForSizeLine_view h)
    · exact .bind (readSizeLine_view h _) fun _ _ _ h1 => .pure h1 _
  | data remaining first => exact report_view (readPayload_view h _)
  | dataEnd =>
    dsimp only
    rw [h.slice]
    split
    · exact report_view (needDataOrEof_view h _)
    · refine .failIf_bind Iff.rfl rfl h fun _ => .modify_bind (.modify_bind (.pure ?_ _))
      exact (h.consume _).mapCycle _
  | trailers => exact report_view (readTrailers_view h)

theorem readBody_view (h : SameView c d) :
    Call.Alike SameView c d (readBody hp) (readBody hp) := by
  have hsame := h
  obtain ⟨buffer, hbuffer, rfl⟩ := h
  unfold readBody
  refine .get_bind ?_
  dsimp only
  rw [hbuffer]
  split
  · exact report_view (readHead_view hsame)
  · exact report_view (finishPeer_view hsame _)
  · exact report_view (readPayload_view hsame _)
  · split
    · exact report_view (peerData_view hsame _ _ _)
    · split
      · exact report_view (finishPeer_view hsame _)
      · exact .pure hsame _
  · exact readChunked_view hsame _

/-- The turn of a peer that is through with its message. -/
theorem doneOrClosing_view (h : SameView c d) :
    Call.Alike SameView c d
      (if c.input.asSlice ≠ [] then pure (some .paused)
        else if c.eof then do return some (← peerClosed)
        else pure (some .needData) : RemoteCall (Option Polled))
      (if d.input.asSlice ≠ [] then pure (some .paused)
        else if d.eof then do return some (← peerClosed)
        else pure (some .needData)) := by
  have hsame := h
  obtain ⟨buffer, hbuffer, rfl⟩ := h
  dsimp only
  rw [hbuffer]
  split
  · exact .pure hsame _
  · split
    · exact report_view (peerClosed_view hsame)
    · exact .pure hsame _

theorem dispatch_view (hp : Httparse) (h : SameView c d) :
    Call.Alike SameView c d (dispatch hp) (dispatch hp) := by
  have hsame := h
  obtain ⟨buffer, hbuffer, rfl⟩ := h
  unfold dispatch
  refine .get_bind ?_
  have hpeer : Connection.peerState { c with input := buffer } = c.peerState := rfl
  rw [hpeer]
  split
  · exact .pure hsame _
  · dsimp only
    rw [hbuffer]
    split
    · refine .modify_bind (report_view (peerClosed_view ?_))
      dsimp only
      rw [hbuffer]
      exact hsame.consume _
    · exact readBody_view hsame
  · exact .pure hsame _
  · exact .pure hsame _
  · exact doneOrClosing_view hsame
  · exact doneOrClosing_view hsame
  · exact .throw hsame _
  · exact readBody_view hsame
  · exact readBody_view hsame

theorem nextEventInner_view (hp : Httparse) (h : SameView c d) :
    (nextEventInner hp c).1 = (nextEventInner hp d).1 ∧
      SameView (nextEventInner hp c).2 (nextEventInner hp d).2 := by
  induction c using nextEventInner.induct hp generalizing d with
  | case1 c polled c1 hd =>
    obtain ⟨hresult, hstate⟩ := dispatch_view hp h
    rcases hd' : dispatch hp d with ⟨result, d1⟩
    rw [hd, hd'] at hresult hstate
    cases hresult
    rw [nextEventInner_reports hd, nextEventInner_reports hd']
    exact ⟨rfl, hstate⟩
  | case2 c c1 hd ih =>
    obtain ⟨hresult, hstate⟩ := dispatch_view hp h
    rcases hd' : dispatch hp d with ⟨result, d1⟩
    rw [hd, hd'] at hresult hstate
    cases hresult
    rw [nextEventInner_again hd, nextEventInner_again hd']
    exact ih hstate
  | case3 c error c1 hd =>
    obtain ⟨hresult, hstate⟩ := dispatch_view hp h
    rcases hd' : dispatch hp d with ⟨result, d1⟩
    rw [hd, hd'] at hresult hstate
    cases hresult
    rw [nextEventInner_fails hd, nextEventInner_fails hd']
    exact ⟨rfl, hstate⟩

/-- A poll does not see how the buffer is laid out. -/
theorem nextEvent_view (hp : Httparse) (h : SameView c d) :
    Call.Alike SameView c d (nextEvent hp) (nextEvent hp) := by
  obtain ⟨hresult, hstate⟩ := nextEventInner_view hp h
  unfold Call.Alike nextEvent
  rcases hc : nextEventInner hp c with ⟨r, c1⟩
  rcases hd : nextEventInner hp d with ⟨r', d1⟩
  rw [hc, hd] at hresult hstate
  cases hresult
  rcases r with error | polled
  · obtain ⟨buffer, hbuffer, rfl⟩ := hstate
    exact ⟨rfl, buffer, hbuffer, rfl⟩
  · cases polled with
    | event | needData | paused => exact ⟨rfl, hstate⟩
    | data count chunkStart chunkEnd =>
      refine ⟨?_, hstate.consume count⟩
      show Except.ok _ = Except.ok _
      rw [hstate.slice]

end H11r.Connection
