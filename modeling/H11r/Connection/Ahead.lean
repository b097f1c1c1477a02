import H11r.Connection.Run

/-!
# A connection that is further in the body than another

Two connections that get the same bytes can differ in how many body bytes they
have handed to their callers. `c.ahead count buffer held` is `c` with `count`
more of them delivered: its decoder is further in the payload, it no longer
waits for a 100, and it keeps what is left of the stream in its own way.

No method that sends can tell the two apart. `send_response` is the only one
that looks at how much of the body has come, and it looks at what is left of
the body and of the bytes together (`unread`), which delivery does not change.
-/

namespace H11r

open Lib (Call)

/-! ## The decoder inside payload -/

namespace Reader

/-- The payload has `count` more bytes. -/
def Room : Reader → Nat → Prop
  | .fixed remaining, count => count ≤ remaining
  | .chunked (.data remaining _), count => count ≤ remaining
  | .closeDelimited, _ => True
  | _, _ => False

/-- The decoder after `count` more bytes of payload. -/
def after : Reader → Nat → Reader
  | .fixed remaining, count => .fixed (remaining - count)
  | .chunked (.data remaining first), count =>
    if count = 0 then .chunked (.data remaining first)
    else .chunked (if count = remaining then .dataEnd else .data (remaining - count) false)
  | reader, _ => reader

/-- The next byte of payload is the first of its chunk. -/
def startsChunk : Reader → Bool
  | .chunked (.data _ first) => first
  | _ => false

/-- The payload ends its chunk after `count` more bytes. -/
def endsChunk : Reader → Nat → Bool
  | .chunked (.data remaining _), count => decide (count = remaining)
  | _, _ => false

theorem after_zero (reader : Reader) : reader.after 0 = reader := by
  cases reader with
  | head | fixed | closeDelimited => rfl
  | chunked chunk => cases chunk <;> rfl

theorem after_data {remaining count : Nat} (first : Bool) (h : count ≠ 0) :
    (Reader.chunked (.data remaining first)).after count =
      .chunked (if count = remaining then .dataEnd else .data (remaining - count) false) :=
  if_neg h

theorem Room.mono {reader : Reader} {m n : Nat} (h : reader.Room n) (hle : m ≤ n) :
    reader.Room m := by
  cases reader with
  | head => exact h
  | fixed remaining => exact Nat.le_trans hle h
  | closeDelimited => trivial
  | chunked chunk =>
    cases chunk with
    | data remaining first => exact Nat.le_trans hle h
    | size | dataEnd | trailers => exact h

/-- What has been delivered no longer counts. -/
theorem Room.after {reader : Reader} {m n : Nat} (h : reader.Room (m + n)) (hn : n ≠ 0) :
    (reader.after m).Room n := by
  cases reader with
  | head => exact h
  | fixed remaining =>
    have hle : m + n ≤ remaining := h
    show n ≤ remaining - m
    omega
  | closeDelimited => trivial
  | chunked chunk =>
    cases chunk with
    | size | dataEnd | trailers => exact h
    | data remaining first =>
      have hle : m + n ≤ remaining := h
      by_cases hm : m = 0
      · subst hm
        rw [after_zero]
        show n ≤ remaining
        omega
      · rw [after_data first hm, if_neg (by omega)]
        show n ≤ remaining - m
        omega

/-- Payload that is left after payload. -/
theorem Room.add {reader : Reader} {m n : Nat} (h : reader.Room m) (h' : (reader.after m).Room n) :
    reader.Room (m + n) := by
  cases reader with
  | head => exact h
  | fixed remaining =>
    have hm : m ≤ remaining := h
    have hn : n ≤ remaining - m := h'
    show m + n ≤ remaining
    omega
  | closeDelimited => trivial
  | chunked chunk =>
    cases chunk with
    | size | dataEnd | trailers => exact h
    | data remaining first =>
      have hm : m ≤ remaining := h
      show m + n ≤ remaining
      by_cases hzero : m = 0
      · subst hzero
        have hn : n ≤ remaining := h'
        omega
      · rw [after_data first hzero] at h'
        split at h'
        · exact h'.elim
        · have hn : n ≤ remaining - m := h'
          omega

theorem after_after {reader : Reader} {m n : Nat} (h : reader.Room (m + n)) :
    (reader.after m).after n = reader.after (m + n) := by
  cases reader with
  | head => exact h.elim
  | fixed remaining =>
    show Reader.fixed (remaining - m - n) = .fixed (remaining - (m + n))
    rw [Nat.sub_sub]
  | closeDelimited => rfl
  | chunked chunk =>
    cases chunk with
    | size | dataEnd | trailers => exact h.elim
    | data remaining first =>
      have hle : m + n ≤ remaining := h
      by_cases hm : m = 0
      · subst hm
        rw [after_zero, Nat.zero_add]
      · by_cases hn : n = 0
        · subst hn
          rw [after_zero, Nat.add_zero]
        · rw [after_data first hm, if_neg (show m ≠ remaining by omega), after_data false hn,
            after_data first (show m + n ≠ 0 by omega), Nat.sub_sub]
          by_cases hend : n = remaining - m
          · rw [if_pos hend, if_pos (by omega)]
          · rw [if_neg hend, if_neg (by omega)]

end Reader

namespace Connection

/-- The connection with `count` more body bytes delivered. -/
def ahead (c : Connection) (count : Nat) (buffer : Buffer) (held : Nat) : Connection :=
  { c with
    input := buffer
    held := held
    cycle := { c.cycle with
      reader := c.cycle.reader.after count
      waitingForContinue := c.cycle.waitingForContinue && decide (count = 0) } }

/-- Nothing delivered is nothing changed. -/
theorem ahead_zero (c : Connection) (buffer : Buffer) (held : Nat) :
    c.ahead 0 buffer held = { c with input := buffer, held := held } := by
  unfold ahead
  rw [Reader.after_zero, decide_eq_true rfl, Bool.and_true]

theorem ahead_ahead {c : Connection} {m n : Nat} (h : c.cycle.reader.Room (m + n))
    (buffer buffer' : Buffer) (held held' : Nat) :
    (c.ahead m buffer held).ahead n buffer' held' = c.ahead (m + n) buffer' held' := by
  have hwaiting : (c.cycle.waitingForContinue && decide (m = 0) && decide (n = 0)) =
      (c.cycle.waitingForContinue && decide (m + n = 0)) := by
    rw [Bool.and_assoc]
    congr 1
    by_cases hm : m = 0
    · subst hm
      simp
    · simp [hm]
  unfold ahead
  dsimp only
  rw [Reader.after_after h, hwaiting]

/-! ## The methods that send -/

section Sends

variable {count : Nat} {near far : Buffer} {held held' : Nat} {reader : Reader}

/-- `d` is `c` with `count` more body bytes delivered, where `c` has the given
buffer, held bytes and decoder. -/
def Apart (count : Nat) (near far : Buffer) (held held' : Nat) (reader : Reader)
    (c d : Connection) : Prop :=
  c.input = near ∧ c.held = held ∧ c.cycle.reader = reader ∧ d = c.ahead count far held'

variable {c d : Connection}

theorem Apart.refl (c : Connection) (count : Nat) (far : Buffer) (held' : Nat) :
    Apart count c.input far c.held held' c.cycle.reader c (c.ahead count far held') :=
  ⟨rfl, rfl, rfl, rfl⟩

theorem Apart.disableKeepAliveIf (h : Apart count near far held held' reader c d) (reason : Bool) :
    Apart count near far held held' reader (c.disableKeepAliveIf reason)
      (d.disableKeepAliveIf reason) := by
  obtain ⟨hinput, hheld, hreader, rfl⟩ := h
  cases reason with
  | false => exact ⟨hinput, hheld, hreader, rfl⟩
  | true => exact ⟨hinput, hheld, hreader, rfl⟩

theorem advanceLocal_apart (h : Apart count near far held held' reader c d) (event : StateEvent) :
    Call.Alike (Apart count near far held held' reader) c d (advanceLocal event)
      (advanceLocal event) := by
  obtain ⟨hinput, hheld, hreader, rfl⟩ := h
  unfold Call.Alike advanceLocal ahead
  dsimp only
  split
  · exact ⟨rfl, hinput, hheld, hreader, rfl⟩
  · exact ⟨rfl, hinput, hheld, hreader, rfl⟩

theorem recordInformational_apart (h : Apart count near far held held' reader c d)
    (status : StatusCode) : Apart count near far held held' reader (c.recordInformational status)
      (d.recordInformational status) := by
  obtain ⟨hinput, hheld, hreader, rfl⟩ := h
  unfold recordInformational
  split
  · exact ⟨hinput, hheld, hreader, rfl⟩
  · exact ⟨hinput, hheld, hreader, rfl⟩

theorem sendInformationalResponse_apart (h : Apart count near far held held' reader c d)
    (response : Response) :
    Call.Alike (Apart count near far held held' reader) c d (sendInformationalResponse response)
      (sendInformationalResponse response) := by
  have hevent : c.informationalEvent response.status response.httpVersion response.headers =
      d.informationalEvent response.status response.httpVersion response.headers := by
    obtain ⟨_, _, _, rfl⟩ := h
    rfl
  have hread : c.role = d.role ∧ c.peerVersion = d.peerVersion := by
    obtain ⟨_, _, _, rfl⟩ := h
    exact ⟨rfl, rfl⟩
  unfold sendInformationalResponse
  refine .get_bind (.failIf_bind (by rw [hread.1]) rfl h fun _ => ?_)
  refine .failIf_bind (by rw [hread.2]) rfl h fun _ => ?_
  refine .ofExcept_bind rfl h fun _ _ => .ofExcept_bind rfl h fun _ _ => ?_
  refine .ofExcept_bind rfl h fun _ _ => .failIf_bind Iff.rfl rfl h fun _ => ?_
  refine .ofExcept_bind (by rw [hevent]) h fun event _ => ?_
  refine .bind (advanceLocal_apart h event) fun _ c1 d1 h1 => ?_
  exact .modify_bind (.pure (recordInformational_apart h1 _) _)

theorem sendDataFraming_apart (h : Apart count near far held held' reader c d) (length : Nat) :
    Call.Alike (Apart count near far held held' reader) c d (sendDataFraming length)
      (sendDataFraming length) := by
  have hwriter : c.cycle.writer = d.cycle.writer := by
    obtain ⟨_, _, _, rfl⟩ := h
    rfl
  unfold sendDataFraming
  refine .get_bind ?_
  rw [hwriter]
  refine .ofExcept_bind rfl h fun plan _ => ?_
  refine .bind (advanceLocal_apart h .data) fun _ c1 d1 h1 => ?_
  obtain ⟨hinput, hheld, hreader, rfl⟩ := h1
  exact .modify_bind (.pure ⟨hinput, hheld, hreader, rfl⟩ _)

theorem sendData_apart (h : Apart count near far held held' reader c d) (data : Bytes) :
    Call.Alike (Apart count near far held held' reader) c d (sendData data) (sendData data) := by
  unfold sendData
  exact .bind (sendDataFraming_apart h _) fun _ _ _ h1 => .pure h1 _

theorem endOfMessage_apart (h : Apart count near far held held' reader c d) (trailers : Headers) :
    Call.Alike (Apart count near far held held' reader) c d (endOfMessage trailers)
      (endOfMessage trailers) := by
  have hwriter : c.cycle.writer = d.cycle.writer := by
    obtain ⟨_, _, _, rfl⟩ := h
    rfl
  unfold endOfMessage
  refine .ofExcept_bind rfl h fun _ _ => .get_bind ?_
  rw [hwriter]
  refine .ofExcept_bind rfl h fun bytes _ => ?_
  refine .bind (advanceLocal_apart h .endOfMessage) fun _ c1 d1 h1 => ?_
  obtain ⟨hinput, hheld, hreader, rfl⟩ := h1
  exact .modify_bind (.pure ⟨hinput, hheld, hreader, rfl⟩ _)

theorem close_apart (h : Apart count near far held held' reader c d) :
    Call.Alike (Apart count near far held held' reader) c d close close := by
  unfold close
  refine .bind (advanceLocal_apart h _) fun _ c1 d1 h1 => ?_
  obtain ⟨hinput, hheld, hreader, rfl⟩ := h1
  exact .modify ⟨hinput, hheld, hreader, rfl⟩

/-- What is left of a body and of the bytes that are there says whether content
has yet to come. -/
def unreadOf (reader : Reader) (held : Nat) (buffer : Buffer) : Bool :=
  match reader with
  | .fixed remaining => decide (remaining > usizeAdd held buffer.asSlice.length)
  | _ => true

theorem unread_eq (c : Connection) : c.unread = unreadOf c.cycle.reader c.held c.input := rfl

theorem sendResponse_apart (h : Apart count near far held held' reader c d)
    (hunread : unreadOf (reader.after count) held' far = unreadOf reader held near)
    (response : Response) :
    Call.Alike (Apart count near far held held' reader) c d (sendResponse response)
      (sendResponse response) := by
  have hread : c.role = d.role ∧ c.opensTunnel response.status = d.opensTunnel response.status ∧
      c.responseFraming response = d.responseFraming response ∧
      c.finalResponseEvent response.status = d.finalResponseEvent response.status := by
    obtain ⟨_, _, _, rfl⟩ := h
    exact ⟨rfl, rfl, rfl, rfl⟩
  obtain ⟨hrole, htunnel, hframing, hevent⟩ := hread
  unfold sendResponse
  refine .get_bind (.failIf_bind (by rw [hrole]) rfl h fun _ => ?_)
  refine .ofExcept_bind rfl h fun _ _ => .ofExcept_bind rfl h fun _ _ => ?_
  refine .ofExcept_bind rfl h fun _ _ => .failIf_bind Iff.rfl rfl h fun _ => ?_
  rw [htunnel, hframing, hevent]
  refine .failIf_bind Iff.rfl rfl h fun _ => .ofExcept_bind rfl h fun plan _ => ?_
  refine .bind (advanceLocal_apart h _) fun _ c1 d1 h1 => ?_
  have hreasons : Apart count near far held held' reader
      (recordReasonsToClose plan.1 (Fields.scan response.headers) c1)
      (recordReasonsToClose plan.1 (Fields.scan response.headers) d1) := by
    have hsame : d1.peerState = c1.peerState ∧ d1.unread = c1.unread := by
      obtain ⟨hinput, hheld, hreader, rfl⟩ := h1
      rw [unread_eq c1, hinput, hheld, hreader, ← hunread, unread_eq]
      unfold ahead
      rw [hreader]
      exact ⟨rfl, rfl⟩
    unfold recordReasonsToClose
    rw [hsame.1, hsame.2]
    exact h1.disableKeepAliveIf _
  refine .modify_bind (.modify_bind (.get_bind ?_))
  obtain ⟨hinput, hheld, hreader, hd⟩ := hreasons
  rw [hd]
  exact .modify_bind (.pure ⟨hinput, hheld, hreader, rfl⟩ _)

theorem sendRest_apart (h : Apart count near far held held' reader c d) (before : Bytes)
    (length : Nat) :
    Call.Alike (Apart count near far held held' reader) c d (sendRest before length)
      (sendRest before length) := by
  have hlocal : c.localState = d.localState := by
    obtain ⟨_, _, _, rfl⟩ := h
    rfl
  unfold sendRest
  refine .get_bind ?_
  rw [hlocal]
  split
  · exact .failIf_bind Iff.rfl rfl h fun _ => .pure h _
  · have hend : ∀ (around : Bytes × Bytes) (c1 d1 : Connection),
        Apart count near far held held' reader c1 d1 →
        Call.Alike (Apart count near far held held' reader) c1 d1
          (endOfMessage Headers.new >>= fun last =>
            pure (before ++ around.1, around.2 ++ last))
          (endOfMessage Headers.new >>= fun last =>
            pure (before ++ around.1, around.2 ++ last)) :=
      fun around c1 d1 h1 => .bind (endOfMessage_apart h1 _) fun _ _ _ h2 => .pure h2 _
    dsimp only
    split
    · exact .bind (sendDataFraming_apart h length) hend
    · exact .bind (.pure h _) hend

/-- What is put back after a failure is put back on both sides. -/
theorem sendComplete_apart {head : LocalCall Bytes} (h : Apart count near far held held' reader c d)
    (hhead : Call.Alike (Apart count near far held held' reader) c d head head) (length : Nat) :
    Call.Alike (Apart count near far held held' reader) c d (sendComplete head length)
      (sendComplete head length) := by
  obtain ⟨hresult, hstate⟩ : Call.Alike (Apart count near far held held' reader) c d
      (head >>= fun before => sendRest before length)
      (head >>= fun before => sendRest before length) :=
    .bind hhead fun before _ _ h1 => sendRest_apart h1 before length
  unfold Call.Alike sendComplete
  rcases hc : (head >>= fun before => sendRest before length) c with ⟨r, c1⟩
  rcases hd : (head >>= fun before => sendRest before length) d with ⟨r', d1⟩
  rw [hc, hd] at hresult hstate
  cases hresult
  cases r with
  | ok parts => exact ⟨rfl, hstate⟩
  | error error =>
    obtain ⟨hinput, hheld, hreader, rfl⟩ := hstate
    obtain ⟨_, _, hreader', rfl⟩ := h
    exact ⟨rfl, hinput, hheld, hreader', rfl⟩

theorem sendResponseWithBodyFraming_apart (h : Apart count near far held held' reader c d)
    (hunread : unreadOf (reader.after count) held' far = unreadOf reader held near)
    (response : Response) (length : Nat) :
    Call.Alike (Apart count near far held held' reader) c d
      (sendResponseWithBodyFraming response length)
      (sendResponseWithBodyFraming response length) := by
  have hlength : c.responseWithLength response length = d.responseWithLength response length := by
    obtain ⟨_, _, _, rfl⟩ := h
    rfl
  unfold sendResponseWithBodyFraming
  refine .get_bind ?_
  rw [hlength]
  exact sendComplete_apart h (sendResponse_apart h hunread _) length

theorem sendResponseWithBody_apart (h : Apart count near far held held' reader c d)
    (hunread : unreadOf (reader.after count) held' far = unreadOf reader held near)
    (response : Response) (body : Bytes) :
    Call.Alike (Apart count near far held held' reader) c d (sendResponseWithBody response body)
      (sendResponseWithBody response body) := by
  unfold sendResponseWithBody
  exact .bind (sendResponseWithBodyFraming_apart h hunread _ _) fun _ _ _ h1 => .pure h1 _

/-! A request is sent only between two messages, where no body bytes can be
missing, and from an empty buffer. -/

theorem recordRequest_apart (h : Apart 0 near far held held' reader c d) (method : Method)
    (version : Version) (fields : Fields) (framing : Framing) (upgrades : List Bytes) :
    Apart 0 near far held held' reader (c.recordRequest method version fields framing upgrades)
      (d.recordRequest method version fields framing upgrades) := by
  obtain ⟨hinput, hheld, hreader, hd⟩ :=
    h.disableKeepAliveIf !(fields.persistent version)
  unfold recordRequest
  rw [hd, ahead_zero]
  refine ⟨hinput, hheld, hreader, ?_⟩
  rw [ahead_zero]
  rfl

theorem sendRequest_apart (h : Apart 0 near far held held' reader c d)
    (hempty : far.asSlice = [] ↔ near.asSlice = []) (request : Request) :
    Call.Alike (Apart 0 near far held held' reader) c d (sendRequest request)
      (sendRequest request) := by
  have hread : c.role = d.role ∧ (d.input.asSlice = [] ↔ c.input.asSlice = []) := by
    obtain ⟨hinput, _, _, rfl⟩ := h
    rw [hinput]
    exact ⟨rfl, hempty⟩
  unfold sendRequest
  refine .get_bind (.failIf_bind (by rw [hread.1]) rfl h fun _ => ?_)
  refine .failIf_bind (not_congr hread.2.symm) rfl h fun _ => .ofExcept_bind rfl h fun _ _ => ?_
  refine .ofExcept_bind rfl h fun framing _ => .failIf_bind Iff.rfl rfl h fun _ => ?_
  refine .failIf_bind Iff.rfl rfl h fun _ => .ofExcept_bind rfl h fun offered _ => ?_
  refine .failIf_bind Iff.rfl rfl h fun _ => ?_
  refine .bind (advanceLocal_apart h _) fun _ c1 d1 h1 => ?_
  refine .modify_bind (.modify_bind (.pure ?_ _))
  obtain ⟨hinput, hheld, hreader, hd⟩ := recordRequest_apart h1 request.method request.httpVersion
    (Fields.scan request.headers) framing (if request.httpVersion = .http11 then offered else [])
  rw [hd]
  exact ⟨hinput, hheld, hreader, rfl⟩

theorem sendRequestWithBodyFraming_apart (h : Apart 0 near far held held' reader c d)
    (hempty : far.asSlice = [] ↔ near.asSlice = []) (request : Request) (length : Nat) :
    Call.Alike (Apart 0 near far held held' reader) c d (sendRequestWithBodyFraming request length)
      (sendRequestWithBodyFraming request length) :=
  sendComplete_apart h (sendRequest_apart h hempty _) length

theorem sendRequestWithBody_apart (h : Apart 0 near far held held' reader c d)
    (hempty : far.asSlice = [] ↔ near.asSlice = []) (request : Request) (body : Bytes) :
    Call.Alike (Apart 0 near far held held' reader) c d (sendRequestWithBody request body)
      (sendRequestWithBody request body) := by
  unfold sendRequestWithBody
  exact .bind (sendRequestWithBodyFraming_apart h hempty _ _) fun _ _ _ h1 => .pure h1 _

end Sends

end Connection

end H11r
