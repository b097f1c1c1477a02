import H11r.Headers
import H11r.Lib.Lines

/-!
# Receive buffering, framing state, and field-section scheduling

`wire/buffer.rs`. The receive buffer keeps consumed bytes in front of the live
ones until compaction moves the live ones to the front; `asSlice` is all the
decoder sees of it.

The source's `consume` adds to `start` and would make the next slice panic if
the count went past the live bytes. The decoder never asks for that, and the
model's `consume` stops at the end instead, so that `start_le` can be a field of
the structure; on the live bytes it is `List.drop` either way.
-/

namespace H11r

inductive Framing where
  | fixed (remaining : Nat)
  | chunked
  | closeDelimited
  deriving DecidableEq, Repr

inductive Chunk where
  | size (scanned : Nat)
  | data (remaining : Nat) (first : Bool)
  | dataEnd
  | trailers
  deriving DecidableEq, Repr

inductive Reader where
  | head
  | fixed (remaining : Nat)
  | chunked (chunk : Chunk)
  | closeDelimited
  deriving DecidableEq, Repr

/-- The reader that decodes a body with the given framing. -/
def reader : Framing → Reader
  | .fixed size => .fixed size
  | .chunked => .chunked (.size 0)
  | .closeDelimited => .closeDelimited

/-- The receive buffer: `start` bytes of `bytes` are already consumed. -/
structure Buffer where
  bytes : Bytes
  start : Nat
  start_le : start ≤ bytes.length

namespace Buffer

/-- `Buffer::default`. -/
def empty : Buffer := ⟨[], 0, Nat.le_refl 0⟩

def asSlice (buffer : Buffer) : Bytes := buffer.bytes.drop buffer.start

/-- Moves the live bytes to the front once they are no more than the discarded
ones. -/
def compact (buffer : Buffer) : Buffer :=
  if buffer.start > 0 ∧ buffer.start ≥ buffer.bytes.length - buffer.start then
    ⟨buffer.bytes.drop buffer.start, 0, Nat.zero_le _⟩
  else buffer

def extend (buffer : Buffer) (data : Bytes) : Buffer :=
  let buffer := buffer.compact
  ⟨buffer.bytes ++ data, buffer.start, by
    rw [List.length_append]
    exact Nat.le_trans buffer.start_le (Nat.le_add_right _ _)⟩

def consume (buffer : Buffer) (count : Nat) : Buffer :=
  ⟨buffer.bytes, min (buffer.start + count) buffer.bytes.length, Nat.min_le_right _ _⟩

@[simp] theorem asSlice_empty : empty.asSlice = [] := rfl

theorem asSlice_compact (buffer : Buffer) : buffer.compact.asSlice = buffer.asSlice := by
  unfold compact
  split
  next => exact List.drop_zero
  next => rfl

@[simp] theorem asSlice_extend (buffer : Buffer) (data : Bytes) :
    (buffer.extend data).asSlice = buffer.asSlice ++ data := by
  rw [← asSlice_compact buffer]
  exact List.drop_append_of_le_length buffer.compact.start_le

@[simp] theorem asSlice_consume (buffer : Buffer) (count : Nat) :
    (buffer.consume count).asSlice = buffer.asSlice.drop count := by
  show buffer.bytes.drop (min (buffer.start + count) buffer.bytes.length)
    = (buffer.bytes.drop buffer.start).drop count
  rw [List.drop_drop]
  rcases Nat.le_total (buffer.start + count) buffer.bytes.length with h | h
  · rw [Nat.min_eq_left h]
  · rw [Nat.min_eq_right h, List.drop_length, List.drop_eq_nil_of_le h]

theorem consume_consume (buffer : Buffer) (m n : Nat) :
    (buffer.consume m).consume n = buffer.consume (m + n) := by
  unfold consume
  dsimp only
  congr 1
  omega

/-- Inside the live bytes `consume` is the source's addition. -/
theorem consume_start (buffer : Buffer) {count : Nat} (h : count ≤ buffer.asSlice.length) :
    (buffer.consume count).start = buffer.start + count := by
  have hlive : buffer.asSlice.length = buffer.bytes.length - buffer.start := List.length_drop
  have hle := buffer.start_le
  exact Nat.min_eq_left (by omega)

end Buffer

/-- Schedules `httparse` runs over an incomplete field section. `position` is
the source's `at`. -/
structure SectionProgress where
  position : Nat
  lineStart : Nat
  started : Bool
  parsed : Nat
  deriving DecidableEq, Repr

namespace SectionProgress

/-- `SectionProgress::default`. -/
def new : SectionProgress := ⟨0, 0, false, 0⟩

/-- Resumes the line scan: the end of the empty line that ends the section,
when the buffer holds it, and the scan's new position. -/
def poll (progress : SectionProgress) (data : Bytes) (skipLeadingEmpty : Bool) :
    Option Nat × SectionProgress :=
  if _h : progress.position < data.length then
    let next := progress.position + 1
    if data[progress.position] = lf then
      let line := Span.slice ⟨progress.lineStart, progress.position⟩ data
      if line.isEmpty ∨ line = [cr] then
        if progress.started ∨ !skipLeadingEmpty then
          (some next, { progress with position := next, lineStart := next })
        else poll { progress with position := next, lineStart := next } data skipLeadingEmpty
      else
        poll { progress with position := next, lineStart := next, started := true } data
          skipLeadingEmpty
    else poll { progress with position := next } data skipLeadingEmpty
  else (none, progress)
  termination_by data.length - progress.position

/-- Whether the buffered section prefix should be parsed now. The size test
comes first and, when it holds, the line scan is left where it stopped. -/
def due (progress : SectionProgress) (data : Bytes) (skipLeadingEmpty : Bool) :
    Bool × SectionProgress :=
  if data.length ≥ saturatingMul progress.parsed 2 then
    (true, { progress with parsed := data.length })
  else
    match progress.poll data skipLeadingEmpty with
    | (some _, progress) => (true, { progress with parsed := data.length })
    | (none, progress) => (false, progress)

end SectionProgress

/-- Whether `data` holds only complete empty lines, CRLF or bare LF. -/
def onlyEmptyLines (data : Bytes) : Bool :=
  (Lib.splitInclusive (· == lf) data).all fun line => line == [lf] || line == [cr, lf]

end H11r
