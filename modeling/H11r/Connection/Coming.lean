import H11r.Connection.Arrive

/-!
# A message that is still being written

The peer is in the middle of its message, so what is left of it is not known;
`Completes` says what its writer may still make of it. `Coming` says that the
decoder gets a message out of the bytes whichever of these the peer goes on
with, and whatever it sends after that. So a poll never fails, and at the end of
the body the decoder stands exactly behind what the writer has written
(`Reads.poll`). The writer takes its part by making progress (`Goes`).
-/

namespace H11r

open Lib (Call)

namespace Connection

variable {hp : Httparse} {c c' : Connection} {limits : Limits} {framing : Framing}
  {writer : Option Framing}
  {untilEof : Bool} {text later rest : Bytes}

/-! ## What the writer may go on with -/

/-- A piece of a chunked body whose size line a receiver with these limits takes. -/
def PieceFits (limits : Limits) (piece : Bytes) : Prop :=
  piece ≠ [] → piece.length ≤ usizeMax ∧ hexDigits piece.length ≤ limits.maxHeadBytes

/-- Trailers that a receiver with these limits takes. -/
structure TrailersFit (limits : Limits) (trailers : Headers) : Prop where
  count : trailers.iter.length ≤ limits.maxHeaderCount
  section_ : (writeHeaders trailers ++ crlf).length ≤ limits.maxHeadBytes

/-- What a writer may still write of its message: nothing if it is at the end. -/
def Completes (limits : Limits) : Option Framing → Bytes → Prop
  | none, more => more = []
  | some framing, more => ∃ pieces trailers, BodyText framing pieces trailers more ∧
      (∀ field ∈ trailers.iter, validField field) ∧
      (framing = .chunked → BodyFits limits pieces trailers)

/-- A piece, and then what is left. -/
theorem Completes.piece {piece more : Bytes} (hholds : framing.Holds piece.length)
    (hfits : framing = .chunked → PieceFits limits piece)
    (h : Completes limits (some (framing.left piece.length)) more) :
    Completes limits (some framing) (framing.write piece ++ more) := by
  obtain ⟨pieces, trailers, htext, hvalid, hbody⟩ := h
  refine ⟨piece :: pieces, trailers, ?_, hvalid, fun hchunked => ?_⟩
  · cases framing with
    | fixed remaining =>
      change piece.length ≤ remaining at hholds
      change BodyText (.fixed (remaining - piece.length)) pieces trailers more at htext
      generalize hleft : Framing.fixed (remaining - piece.length) = left at htext
      cases htext with
      | fixed hnone =>
        have hlength : remaining = (piece :: pieces).flatten.length := by
          have hsame := Framing.fixed.inj hleft
          rw [List.flatten_cons, List.length_append]
          omega
        subst hlength
        have hall : BodyText _ (piece :: pieces) trailers (piece :: pieces).flatten := .fixed hnone
        exact hall
      | closeDelimited | chunked => cases hleft
    | closeDelimited =>
      change BodyText .closeDelimited pieces trailers more at htext
      cases htext with
      | closeDelimited hnone =>
        have hall : BodyText _ (piece :: pieces) trailers (piece :: pieces).flatten :=
          .closeDelimited hnone
        exact hall
    | chunked =>
      change BodyText .chunked pieces trailers more at htext
      cases htext with
      | chunked =>
        have hall := BodyText.chunked (piece :: pieces) trailers
        rw [← flatMap_write_chunked, List.flatMap_cons, List.append_assoc,
          flatMap_write_chunked] at hall
        exact hall
  · subst hchunked
    obtain ⟨hsizes, hcount, hsection⟩ := hbody rfl
    refine ⟨fun other hmem hne => ?_, hcount, hsection⟩
    rcases List.mem_cons.mp hmem with rfl | hmem
    · exact hfits rfl hne
    · exact hsizes other hmem hne

/-- There is always a way to finish, if there is room for the end of a section. -/
theorem exists_completes (hroom : 2 ≤ limits.maxHeadBytes) (writer : Option Framing) :
    ∃ more, Completes limits writer more := by
  have hnone : ∀ field ∈ Headers.new.iter, validField field :=
    fun _ hmem => absurd hmem List.not_mem_nil
  cases writer with
  | none => exact ⟨[], rfl⟩
  | some framing =>
    cases framing with
    | fixed remaining =>
      -- Zeros are as good as any content.
      have htext : BodyText (.fixed [List.replicate remaining (0 : UInt8)].flatten.length)
          [List.replicate remaining 0] .new [List.replicate remaining 0].flatten := .fixed rfl
      rw [List.flatten_singleton, List.length_replicate] at htext
      exact ⟨_, _, _, htext, hnone, nofun⟩
    | closeDelimited => exact ⟨_, [], .new, .closeDelimited rfl, hnone, nofun⟩
    | chunked =>
      refine ⟨_, [], .new, .chunked [] .new, hnone,
        fun _ => ⟨fun _ hmem => absurd hmem List.not_mem_nil, ?_, ?_⟩⟩
      · exact Nat.zero_le _
      · exact hroom

/-- The writer has nothing more to write, although it may not have said so yet. -/
def AtEnd (writer : Option Framing) : Prop := writer = none ∨ writer = some (.fixed 0)

theorem AtEnd.completes (h : AtEnd writer) : Completes limits writer [] := by
  rcases h with rfl | rfl
  · rfl
  · have htext : BodyText (.fixed ([] : List Bytes).flatten.length) [] .new
      ([] : List Bytes).flatten := .fixed rfl
    exact ⟨[], .new, htext, fun _ hmem => absurd hmem List.not_mem_nil, nofun⟩

/-- Where nothing is all that may be written, the writer is at its end. -/
theorem atEnd_of_completes (hroom : 2 ≤ limits.maxHeadBytes)
    (h : ∀ more, Completes limits writer more → more = []) :
    AtEnd writer := by
  cases writer with
  | none => exact Or.inl rfl
  | some framing =>
    have hnone : ∀ field ∈ Headers.new.iter, validField field :=
      fun _ hmem => absurd hmem List.not_mem_nil
    cases framing with
    | fixed remaining =>
      have htext : BodyText (.fixed [List.replicate remaining (0 : UInt8)].flatten.length)
          [List.replicate remaining 0] .new [List.replicate remaining 0].flatten := .fixed rfl
      rw [List.flatten_singleton, List.length_replicate] at htext
      -- What completes it has the length that is left, so nothing is.
      have hnil := congrArg List.length (h _ ⟨_, _, htext, hnone, nofun⟩)
      rw [List.length_replicate] at hnil
      exact Or.inr (by rw [hnil]; rfl)
    | closeDelimited =>
      have htext : BodyText .closeDelimited [[(0 : UInt8)]] .new [[(0 : UInt8)]].flatten :=
        .closeDelimited rfl
      cases h _ ⟨_, _, htext, hnone, nofun⟩
    | chunked =>
      obtain ⟨more, pieces, trailers, htext, hvalid, hfits⟩ :=
        exists_completes hroom (some .chunked)
      have hnil := h more ⟨pieces, trailers, htext, hvalid, hfits⟩
      subst hnil
      -- Even an empty chunked body has a last chunk.
      generalize hempty : ([] : Bytes) = nothing at htext
      cases htext with
      | chunked =>
        have hlast := (List.append_eq_nil_iff.mp hempty.symm).2
        cases (List.append_eq_nil_iff.mp hlast).1

/-! ## Progress of the writer -/

/-- The writer has gone on: what completes its message now completes it behind
the bytes that it has written. -/
structure Goes (limits : Limits) (writer : Option Framing) (bytes : Bytes)
    (writer' : Option Framing) : Prop where
  completes : ∀ more, Completes limits writer' more → Completes limits writer (bytes ++ more)
  kept : writer' ≠ none → writer ≠ none

section Goes

variable {w w' : Connection} {bytes : Bytes} {writer' : Option Framing}

theorem Goes.refl (limits : Limits) (writer : Option Framing) : Goes limits writer [] writer :=
  ⟨fun _ hmore => hmore, fun hsome => hsome⟩

theorem Goes.trans {bytes' : Bytes} {writer'' : Option Framing}
    (h : Goes limits writer bytes writer')
    (h' : Goes limits writer' bytes' writer'') : Goes limits writer (bytes ++ bytes') writer'' := by
  refine ⟨fun more hmore => ?_, fun hsome => h.kept (h'.kept hsome)⟩
  rw [List.append_assoc]
  exact h.completes _ (h'.completes more hmore)

/-- A piece of the body has been written. -/
theorem Goes.piece {piece : Bytes} (hsent : sendData piece w = (.ok bytes, w'))
    (hfits : w.cycle.writer = some .chunked → PieceFits limits piece) :
    Goes limits w.cycle.writer bytes w'.cycle.writer := by
  obtain ⟨around, hframing, _⟩ := sendData_ok hsent
  obtain ⟨framing, _, _, hwriter, _, _, _⟩ := sendDataFraming_ok hframing
  obtain ⟨hwriter', hholds, rfl⟩ := sendData_written hwriter hsent
  rw [hwriter] at hfits ⊢
  rw [hwriter']
  exact ⟨fun more hmore => hmore.piece hholds fun hchunked => hfits (by rw [hchunked]),
    fun _ => nofun⟩

/-- The end of the message has been written. -/
theorem Goes.ends (hp : Httparse) {trailers : Headers}
    (hend : endOfMessage trailers w = (.ok bytes, w'))
    (hfits : w.cycle.writer = some .chunked → TrailersFit limits trailers) :
    Goes limits w.cycle.writer bytes w'.cycle.writer := by
  obtain ⟨framing, _, _, hwriter, _, _, rfl⟩ := endOfMessage_ok hend
  have hnone : Lib.Run (step hp) (writesBody hp) w [] w := .start
  obtain ⟨hvalid, htext⟩ := message_written hwriter hnone hend
  refine ⟨fun more hmore => ?_, fun hsome => absurd rfl hsome⟩
  have hnothing : more = [] := hmore
  subst hnothing
  rw [hwriter] at hfits ⊢
  rw [List.append_nil]
  refine ⟨[], trailers, htext, hvalid, fun hchunked => ?_⟩
  have hfits := hfits (by rw [hchunked])
  exact ⟨fun _ hmem => absurd hmem List.not_mem_nil, hfits.count, hfits.section_⟩

theorem AtEnd.nothing {more : Bytes} (h : AtEnd writer) (hmore : Completes limits writer more) :
    more = [] := by
  rcases h with rfl | rfl
  · exact hmore
  · obtain ⟨pieces, trailers, htext, _⟩ := hmore
    generalize hframing : Framing.fixed 0 = framing at htext
    cases htext with
    | fixed =>
      have hzero := Framing.fixed.inj hframing
      exact List.eq_nil_of_length_eq_zero hzero.symm
    | closeDelimited | chunked => cases hframing

/-- At its end a writer writes nothing more. -/
theorem AtEnd.goes (hroom : 2 ≤ limits.maxHeadBytes) (h : AtEnd writer)
    (hgoes : Goes limits writer bytes writer') :
    bytes = [] ∧ AtEnd writer' := by
  have hnothing : ∀ more, Completes limits writer' more → bytes = [] ∧ more = [] :=
    fun more hmore => List.append_eq_nil_iff.mp (h.nothing (hgoes.completes more hmore))
  obtain ⟨more, hmore⟩ := exists_completes hroom writer'
  exact ⟨(hnothing more hmore).1,
    atEnd_of_completes hroom fun more hmore => (hnothing more hmore).2⟩

end Goes

/-! ## The decoder in front of what may come -/

/-- The decoder is inside the body of a message that is being written with
`writer`: whatever comes behind `text` to complete it, and whatever comes `later`
than the message, the body arrives. -/
structure Coming (hp : Httparse) (limits : Limits) (c : Connection) (untilEof : Bool)
    (writer : Option Framing)
    (text later : Bytes) : Prop where
  arrives : ∀ more, Completes limits writer more → ∀ next, (untilEof = true → next = []) →
    ∃ items trailers, Arrives hp c untilEof (text ++ (more ++ next)) items trailers (later ++ next)
  alone : writer ≠ none → later = []
  room : 2 ≤ limits.maxHeadBytes

/-- The decoder is behind the message, and the writer is at its end. -/
structure Behind (limits : Limits) (c : Connection) (writer : Option Framing) (text later : Bytes) :
    Prop where
  isOver : c.Over
  atEnd : AtEnd writer
  text : text = later
  alone : writer ≠ none → later = []
  room : 2 ≤ limits.maxHeadBytes

/-- The decoder is inside the message, or behind it. -/
inductive Reads (hp : Httparse) (limits : Limits) (c : Connection) (untilEof : Bool)
    (writer : Option Framing)
    (text later : Bytes) : (ended : Bool) → Prop
  | inside (h : Coming hp limits c untilEof writer text later) :
      Reads hp limits c untilEof writer text later false
  | behind (h : Behind limits c writer text later) :
      Reads hp limits c untilEof writer text later true

section Reads

variable {ended : Bool}

theorem Coming.peer (h : Coming hp limits c untilEof writer text later) :
    c.peerState = .sendBody := by
  obtain ⟨more, hmore⟩ := exists_completes h.room writer
  obtain ⟨items, trailers, harrives⟩ := h.arrives more hmore [] fun _ => rfl
  exact harrives.peer

/-- Only a body that lasts until the end of the input is read so. -/
theorem Coming.reader (h : Coming hp limits c true writer text later) :
    c.cycle.reader = .closeDelimited := by
  obtain ⟨more, hmore⟩ := exists_completes h.room writer
  obtain ⟨items, trailers, harrives⟩ := h.arrives more hmore [] fun _ => rfl
  generalize text ++ (more ++ []) = all at harrives
  cases harrives with
  | plain hc => exact hc.reader
  | chunked huntil => cases huntil

theorem Reads.room (h : Reads hp limits c untilEof writer text later ended) :
    2 ≤ limits.maxHeadBytes := by
  cases h with
  | inside h => exact h.room
  | behind h => exact h.room

/-- A poll inside a message that is being written. -/
theorem Coming.poll (hhp : hp.Stable)
    (h : Coming hp limits c untilEof writer (c.input.asSlice ++ rest) later)
    (heof : c.eof = false) : ∃ next c', nextEvent hp c = (.ok next, c') ∧
      (Coming hp limits c' untilEof writer (c'.input.asSlice ++ rest) later ∨
        Behind limits c' writer (c'.input.asSlice ++ rest) later) ∧
      (next.Rests → writer = none → rest = [] → untilEof = true) := by
  rcases hpoll : nextEvent hp c with ⟨r, c'⟩
  have hgives : ∀ more, Completes limits writer more → ∀ next, (untilEof = true → next = []) →
      ∃ items trailers,
          Gives hp c (rest ++ (more ++ next)) untilEof items trailers (later ++ next) r c' := by
    intro more hmore next hnext
    obtain ⟨items, trailers, harrives⟩ := h.arrives more hmore next hnext
    rw [List.append_assoc] at harrives
    refine ⟨items, trailers, nextEvent_arrives hhp harrives (fun hclosed => ?_) hpoll⟩
    rw [heof] at hclosed
    cases hclosed
  obtain ⟨some_, hsome⟩ := exists_completes h.room writer
  obtain ⟨items, trailers, hfirst⟩ := hgives some_ hsome [] fun _ => rfl
  -- What the poll returns does not depend on what is to come.
  cases hfirst with
  | waits _ hrest =>
    refine ⟨_, _, rfl, Or.inl ⟨fun more hmore next hnext => ?_, h.alone, h.room⟩,
      fun _ hnone hnil => ?_⟩
    · obtain ⟨items', trailers', hgive⟩ := hgives more hmore next hnext
      cases hgive with
      | waits _ _ hafter => exact ⟨_, _, by rw [List.append_assoc]; exact hafter⟩
    · subst hnone
      have hnothing : some_ = [] := hsome
      exact hrest (by rw [hnil, hnothing]; rfl)
  | data =>
    refine ⟨_, _, rfl, Or.inl ⟨fun more hmore next hnext => ?_, h.alone, h.room⟩,
      fun hrests => nomatch hrests.closes⟩
    obtain ⟨items', trailers', hgive⟩ := hgives more hmore next hnext
    cases hgive with
    | data _ _ hafter => exact ⟨_, _, by rw [List.append_assoc]; exact hafter⟩
  | ends _ hthrough =>
    have hends : ∀ more, Completes limits writer more → c'.input.asSlice ++ (rest ++ more) =
        later := by
      intro more hmore
      obtain ⟨items', trailers', hgive⟩ := hgives more hmore [] fun _ => rfl
      cases hgive with
      | ends _ _ hinput =>
        rw [List.append_nil, List.append_nil] at hinput
        exact hinput
    have hfine : c.peerState ≠ .error := by
      rw [h.peer]
      decide
    have hover : c'.Over := ⟨hthrough, nextEvent_unpoisoned hpoll hfine⟩
    have hatEnd : AtEnd writer := by
      -- While the writer is in its message nothing comes later, so nothing is left to
      -- write.
      by_cases hnone : writer = none
      · exact Or.inl hnone
      · refine atEnd_of_completes h.room fun more hmore => ?_
        have hall := hends more hmore
        rw [h.alone hnone] at hall
        exact (List.append_eq_nil_iff.mp (List.append_eq_nil_iff.mp hall).2).2
    refine ⟨_, _, rfl, Or.inr ⟨hover, hatEnd, ?_, h.alone, h.room⟩,
      fun hrests => nomatch hrests.closes⟩
    have hall := hends [] hatEnd.completes
    rw [List.append_nil] at hall
    exact hall

/-- Behind the message a poll has nothing more of it. -/
theorem Behind.poll (hp : Httparse) (h : Behind limits c writer (c.input.asSlice ++ rest) later) :
    ∃ next c', nextEvent hp c = (.ok next, c') ∧
    Behind limits c' writer (c'.input.asSlice ++ rest) later := by
  obtain ⟨next, c', hpoll, _, hover, hinput⟩ := nextEvent_over hp h.isOver
  refine ⟨next, c', hpoll, hover, h.atEnd, ?_, h.alone, h.room⟩
  rw [hinput]
  exact h.text

/-- A poll does not fail. One that rests when the whole message has come is behind
it, unless the message lasts until the end of the input. -/
theorem Reads.poll (hhp : hp.Stable)
    (h : Reads hp limits c untilEof writer (c.input.asSlice ++ rest) later ended)
    (heof : c.eof = false) : ∃ next c' ended', nextEvent hp c = (.ok next, c') ∧
      Reads hp limits c' untilEof writer (c'.input.asSlice ++ rest) later ended' ∧
      (next.Rests → writer = none → rest = [] → untilEof = false → ended = true) := by
  cases h with
  | inside h =>
    obtain ⟨next, c', hpoll, hc', hwaits⟩ := h.poll hhp heof
    have hmore : next.Rests → writer = none → rest = [] → untilEof = false → false = true := by
      intro hrests hnone hnil huntil
      rw [hwaits hrests hnone hnil] at huntil
      exact huntil.symm
    rcases hc' with hc' | hc'
    · exact ⟨next, c', false, hpoll, .inside hc', hmore⟩
    · exact ⟨next, c', true, hpoll, .behind hc', hmore⟩
  | behind h =>
    obtain ⟨next, c', hpoll, hc'⟩ := h.poll hp
    exact ⟨next, c', true, hpoll, .behind hc', fun _ _ _ _ => rfl⟩

/-! ## What the caller of the decoder does beside polling -/

theorem Reads.same (h : Reads hp limits c untilEof writer text later ended)
    (hsame : SameDecoder c c')
    (hpeer : c.peerState = .sendBody → c'.peerState = .sendBody) (hover : c.Over → c'.Over) :
    Reads hp limits c' untilEof writer text later ended := by
  cases h with
  | inside h =>
    refine .inside ⟨fun more hmore next hnext => ?_, h.alone, h.room⟩
    obtain ⟨items, trailers, harrives⟩ := h.arrives more hmore next hnext
    exact ⟨items, trailers, harrives.same hsame (hpeer h.peer)⟩
  | behind h => exact .behind ⟨hover h.isOver, h.atEnd, h.text, h.alone, h.room⟩

theorem Reads.extend (h : Reads hp limits c untilEof writer text later ended) (data : Bytes) :
    Reads hp limits { c with input := c.input.extend data } untilEof writer text later ended := by
  cases h with
  | inside h =>
    refine .inside ⟨fun more hmore next hnext => ?_, h.alone, h.room⟩
    obtain ⟨items, trailers, harrives⟩ := h.arrives more hmore next hnext
    exact ⟨items, trailers, harrives.extend data⟩
  | behind h => exact .behind ⟨⟨h.isOver.through, h.isOver.fine⟩, h.atEnd, h.text, h.alone, h.room⟩

/-! ## What the writer does -/

variable {bytes : Bytes} {writer' : Option Framing}

/-- The writer goes on with its message. -/
theorem Reads.wrote (h : Reads hp limits c untilEof writer text [] ended)
    (hgoes : Goes limits writer bytes writer') :
    Reads hp limits c untilEof writer' (text ++ bytes) [] ended := by
  cases h with
  | inside h =>
    refine .inside ⟨fun more hmore next hnext => ?_, fun _ => rfl, h.room⟩
    obtain ⟨items, trailers, harrives⟩ := h.arrives _ (hgoes.completes more hmore) next hnext
    refine ⟨items, trailers, ?_⟩
    rw [List.append_assoc, ← List.append_assoc bytes]
    exact harrives
  | behind h =>
    obtain ⟨rfl, hatEnd⟩ := h.atEnd.goes h.room hgoes
    rw [List.append_nil]
    exact .behind ⟨h.isOver, hatEnd, h.text, fun _ => rfl, h.room⟩

/-- The next message of the writer comes behind this one. -/
theorem Reads.next (h : Reads hp limits c false none text later ended) (bytes : Bytes) :
    Reads hp limits c false none (text ++ bytes) (later ++ bytes) ended := by
  cases h with
  | inside h =>
    refine .inside ⟨fun more hmore next hnext => ?_, fun hnone => absurd rfl hnone, h.room⟩
    have hnothing : more = [] := hmore
    subst hnothing
    obtain ⟨items, trailers, harrives⟩ := h.arrives [] rfl (bytes ++ next) nofun
    refine ⟨items, trailers, ?_⟩
    rw [List.append_assoc, List.append_assoc]
    exact harrives
  | behind h =>
    exact .behind ⟨h.isOver, h.atEnd, by rw [h.text], fun hnone => absurd rfl hnone, h.room⟩

end Reads

end Connection

end H11r
