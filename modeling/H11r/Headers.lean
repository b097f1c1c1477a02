import H11r.Basic
import H11r.Lib.Refine

/-!
# `Headers`: ordered header and trailer fields

All names and values of a field section share one buffer, and a field is a pair
of ranges into it. `retain` drops ranges and leaves the bytes of the removed
fields where they were, and `valid` remembers that every field pushed so far
was valid to send, so that a section is not scanned again on each send.

The two facts everything else rests on are fields of the structure: the ranges
lie in the buffer (`inRange`), and a set `valid` flag is the truth (`sound`).
A `Headers` value that would let an invalid field past `is_valid` cannot be
built, by `push`, by `retain` or from a parsed section.

What the other modules see of it is `iter`, the list of name and value pairs.
`HeadersIter` is the iterator that yields them, one range at a time.
-/

namespace H11r

/-- A `Range<usize>` into a buffer. -/
structure Span where
  start : Nat
  stop : Nat
  deriving DecidableEq, Repr

namespace Span

/-- `&bytes[range]`. -/
def slice (span : Span) (bytes : Bytes) : Bytes :=
  (bytes.drop span.start).take (span.stop - span.start)

/-- The range can be taken from a buffer of `length` bytes. -/
def InRange (span : Span) (length : Nat) : Prop := span.start ≤ span.stop ∧ span.stop ≤ length

theorem InRange.mono {span : Span} {m n : Nat} (h : span.InRange m) (hmn : m ≤ n) :
    span.InRange n := ⟨h.1, Nat.le_trans h.2 hmn⟩

theorem slice_append {span : Span} {bytes : Bytes} (more : Bytes)
    (h : span.InRange bytes.length) : span.slice (bytes ++ more) = span.slice bytes := by
  obtain ⟨hle, hstop⟩ := h
  unfold slice
  rw [List.drop_append_of_le_length (by omega), List.take_append_of_le_length]
  rw [List.length_drop]
  omega

/-- The range of what has just been appended. -/
theorem slice_appended (bytes part more : Bytes) :
    (Span.mk bytes.length (bytes.length + part.length)).slice (bytes ++ part ++ more) = part := by
  unfold slice
  rw [List.append_assoc, List.drop_left, Nat.add_sub_cancel_left, List.take_left]

end Span

/-- Ordered header or trailer fields, preserving input order and name casing. -/
structure Headers where
  bytes : Bytes
  /-- Byte ranges of each field's name and value in `bytes`. -/
  fields : List (Span × Span)
  /-- Whether every field is known to be valid to send. -/
  valid : Bool
  inRange : ∀ field ∈ fields, field.1.InRange bytes.length ∧ field.2.InRange bytes.length
  sound : valid = true → ∀ field ∈ fields,
    validName (field.1.slice bytes) = true ∧ validValue (field.2.slice bytes) = true

namespace Headers

/-- Creates an empty field section. -/
def new : Headers where
  bytes := []
  fields := []
  valid := true
  inRange := by simp
  sound := by simp

/-- An empty field section with room for more; the room is not modelled. -/
def withCapacity (_fields _bytes : Nat) : Headers where
  bytes := []
  fields := []
  valid := true
  inRange := by simp
  sound := by simp

/-- A parsed section in one piece; received fields are checked only if sent. -/
def fromSection (section_ : Bytes) (fields : List (Span × Span))
    (inRange : ∀ field ∈ fields, field.1.InRange section_.length ∧ field.2.InRange section_.length) :
    Headers where
  bytes := section_
  fields := fields
  valid := false
  inRange := inRange
  sound := by simp

/-- Appends one field. An invalid name or value is rejected when sent. -/
def push (headers : Headers) (name value : Bytes) : Headers where
  bytes := headers.bytes ++ name ++ value
  fields := headers.fields ++
    [(⟨headers.bytes.length, headers.bytes.length + name.length⟩,
      ⟨headers.bytes.length + name.length, headers.bytes.length + name.length + value.length⟩)]
  valid := headers.valid && (validName name && validValue value)
  inRange := by
    intro field hmem
    rcases List.mem_append.mp hmem with hold | hnew
    · have h := headers.inRange field hold
      have hlen : headers.bytes.length ≤ (headers.bytes ++ name ++ value).length := by
        simp only [List.length_append]
        omega
      exact ⟨h.1.mono hlen, h.2.mono hlen⟩
    · rw [List.mem_singleton] at hnew
      subst hnew
      simp only [Span.InRange, List.length_append]
      omega
  sound := by
    intro hvalid field hmem
    rw [Bool.and_eq_true, Bool.and_eq_true] at hvalid
    rcases List.mem_append.mp hmem with hold | hnew
    · have h := headers.inRange field hold
      rw [List.append_assoc, Span.slice_append _ h.1, Span.slice_append _ h.2]
      exact headers.sound hvalid.1 field hold
    · rw [List.mem_singleton] at hnew
      subst hnew
      have hname := Span.slice_appended headers.bytes name value
      have hvalue := Span.slice_appended (headers.bytes ++ name) value []
      rw [List.length_append, List.append_nil] at hvalue
      exact ⟨by rw [hname]; exact hvalid.2.1, by rw [hvalue]; exact hvalid.2.2⟩

/-- Keeps only the fields for which `keep` returns `true`. -/
def retain (headers : Headers) (keep : Bytes → Bytes → Bool) : Headers where
  bytes := headers.bytes
  fields := headers.fields.filter fun field =>
    keep (field.1.slice headers.bytes) (field.2.slice headers.bytes)
  valid := headers.valid
  inRange := fun field hmem => headers.inRange field (List.mem_filter.mp hmem).1
  sound := fun hvalid field hmem => headers.sound hvalid field (List.mem_filter.mp hmem).1

/-- `retain` with a `keep` that remembers what it has seen: an `FnMut` whose
captured state is `state`, and then the second component. -/
def retainWith {κ : Type} (headers : Headers) (keep : Bytes → Bytes → κ → Bool × κ) (state : κ) :
    Headers × κ :=
  let kept := Lib.retain
    (fun field => keep (field.1.slice headers.bytes) (field.2.slice headers.bytes)) headers.fields state
  ({ bytes := headers.bytes
     fields := kept.1
     valid := headers.valid
     inRange := fun field hmem => headers.inRange field ((Lib.retain_sublist _ _ _).mem hmem)
     sound := fun hvalid field hmem =>
      headers.sound hvalid field ((Lib.retain_sublist _ _ _).mem hmem) }, kept.2)

/-- `Extend::extend`. -/
def extend (headers : Headers) (fields : List (Bytes × Bytes)) : Headers :=
  fields.foldl (fun headers field => headers.push field.1 field.2) headers

/-- `FromIterator::from_iter`, and `From` for an array. -/
def fromIter (fields : List (Bytes × Bytes)) : Headers := new.extend fields

/-- Number of fields. -/
def len (headers : Headers) : Nat := headers.fields.length

def isEmpty (headers : Headers) : Bool := headers.fields.isEmpty

/-- The `(name, value)` pairs in order. -/
def iter (headers : Headers) : List (Bytes × Bytes) :=
  headers.fields.map fun field => (field.1.slice headers.bytes, field.2.slice headers.bytes)

/-- The values of every field named `name`, compared ASCII case-insensitively. -/
def getAll (headers : Headers) (name : Bytes) : List Bytes :=
  (headers.iter.filter fun field => eqIgnoreAsciiCase field.1 name).map (·.2)

def isValid (headers : Headers) : Bool :=
  headers.valid || headers.iter.all fun field => validName field.1 && validValue field.2

end Headers

/-! ## The iterator -/

/-- Iterator over the `(name, value)` pairs of `Headers`. -/
structure HeadersIter where
  bytes : Bytes
  fields : List (Span × Span)

namespace HeadersIter

def next (iter : HeadersIter) : Option ((Bytes × Bytes) × HeadersIter) :=
  match iter.fields with
  | [] => none
  | (name, value) :: fields =>
    some ((name.slice iter.bytes, value.slice iter.bytes), { bytes := iter.bytes, fields := fields })

def sizeHint (iter : HeadersIter) : Nat × Option Nat := (iter.fields.length, some iter.fields.length)

theorem next_nil (bytes : Bytes) : (HeadersIter.mk bytes []).next = none := rfl

theorem next_cons (bytes : Bytes) (field : Span × Span) (fields : List (Span × Span)) :
    (HeadersIter.mk bytes (field :: fields)).next =
      some ((field.1.slice bytes, field.2.slice bytes), ⟨bytes, fields⟩) := rfl

theorem next_shorter {iter rest : HeadersIter} {field : Bytes × Bytes}
    (h : iter.next = some (field, rest)) : rest.fields.length < iter.fields.length := by
  obtain ⟨bytes, fields⟩ := iter
  cases fields with
  | nil => cases h
  | cons range fields =>
    cases h
    exact Nat.lt_succ_self _

/-- Everything the iterator yields: `Iterator::collect`. -/
def collect (iter : HeadersIter) : List (Bytes × Bytes) :=
  match _h : iter.next with
  | none => []
  | some (field, rest) => field :: rest.collect
termination_by iter.fields.length
decreasing_by exact next_shorter _h

/-- `Iterator::eq`: both yield the same fields and end together. -/
def eq (iter other : HeadersIter) : Bool :=
  match _h : iter.next, other.next with
  | none, none => true
  | some (field, rest), some (field', rest') => field == field' && rest.eq rest'
  | _, _ => false
termination_by iter.fields.length
decreasing_by exact next_shorter _h

theorem collect_eq (bytes : Bytes) (fields : List (Span × Span)) :
    (HeadersIter.mk bytes fields).collect =
      fields.map fun field => (field.1.slice bytes, field.2.slice bytes) := by
  induction fields with
  | nil => rw [collect]; rfl
  | cons field fields ih =>
    rw [collect, List.map_cons, ← ih]
    rfl

theorem eq_iff (iter other : HeadersIter) : iter.eq other = true ↔ iter.collect = other.collect := by
  obtain ⟨bytes, fields⟩ := iter
  obtain ⟨bytes', fields'⟩ := other
  rw [collect_eq, collect_eq]
  induction fields generalizing fields' with
  | nil =>
    rw [eq]
    cases fields' with
    | nil => simp [next_nil]
    | cons field' fields' => simp [next_nil, next_cons]
  | cons field fields ih =>
    rw [eq]
    cases fields' with
    | nil => simp [next_nil, next_cons]
    | cons field' fields' =>
      rw [next_cons, next_cons]
      simp only [Bool.and_eq_true, beq_iff_eq, List.map_cons, List.cons.injEq]
      rw [ih]

end HeadersIter

namespace Headers

/-- The iterator that `iter` and `into_iter` return. -/
def intoIter (headers : Headers) : HeadersIter where
  bytes := headers.bytes
  fields := headers.fields

/-- `PartialEq::eq`. -/
def eq (headers other : Headers) : Bool := headers.intoIter.eq other.intoIter

/-- What `Hash::hash` writes to the hasher. -/
inductive HashWrite where
  /-- `write_usize`, also the length prefix of a slice. -/
  | usize (n : Nat)
  | bytes (bytes : Bytes)
  deriving DecidableEq

/-- `<[u8] as Hash>::hash`. -/
def hashBytes (bytes : Bytes) : List HashWrite := [.usize bytes.length, .bytes bytes]

/-- `Hash::hash`: the number of fields, then each field. -/
def hash (headers : Headers) : List HashWrite :=
  .usize headers.len ::
    headers.intoIter.collect.flatMap fun field => hashBytes field.1 ++ hashBytes field.2

/-! ## The list model -/

@[simp] theorem iter_new : new.iter = [] := rfl

@[simp] theorem iter_push (headers : Headers) (name value : Bytes) :
    (headers.push name value).iter = headers.iter ++ [(name, value)] := by
  have hold : ∀ field ∈ headers.fields,
      (field.1.slice (headers.bytes ++ name ++ value), field.2.slice (headers.bytes ++ name ++ value))
        = (field.1.slice headers.bytes, field.2.slice headers.bytes) := by
    intro field hmem
    have h := headers.inRange field hmem
    rw [List.append_assoc, Span.slice_append _ h.1, Span.slice_append _ h.2]
  have hname := Span.slice_appended headers.bytes name value
  have hvalue := Span.slice_appended (headers.bytes ++ name) value []
  rw [List.length_append, List.append_nil] at hvalue
  unfold iter push
  rw [List.map_append, List.map_congr_left hold, List.map_singleton, hname, hvalue]

@[simp] theorem iter_retain (headers : Headers) (keep : Bytes → Bytes → Bool) :
    (headers.retain keep).iter = headers.iter.filter fun field => keep field.1 field.2 := by
  unfold iter retain
  rw [List.filter_map]
  rfl

@[simp] theorem iter_withCapacity (fields bytes : Nat) : (withCapacity fields bytes).iter = [] := rfl

@[simp] theorem iter_extend (headers : Headers) (fields : List (Bytes × Bytes)) :
    (headers.extend fields).iter = headers.iter ++ fields := by
  unfold extend
  induction fields generalizing headers with
  | nil => rw [List.foldl_nil, List.append_nil]
  | cons field fields ih => rw [List.foldl_cons, ih, iter_push, List.append_assoc, List.singleton_append]

@[simp] theorem iter_fromIter (fields : List (Bytes × Bytes)) : (fromIter fields).iter = fields := by
  unfold fromIter
  rw [iter_extend, iter_new, List.nil_append]

/-- `keep` sees every pair once and in order, also the pairs it removes. -/
theorem retainWith_eq {κ : Type} (headers : Headers) (keep : Bytes → Bytes → κ → Bool × κ)
    (state : κ) : ((headers.retainWith keep state).1.iter, (headers.retainWith keep state).2) =
      Lib.retain (fun field => keep field.1 field.2) headers.iter state := by
  unfold iter retainWith
  rw [Lib.retain_map]

/-- `retain` is the case of a `keep` that remembers nothing. -/
theorem retainWith_pure (headers : Headers) (keep : Bytes → Bytes → Bool) :
    (headers.retainWith (fun name value state => (keep name value, state)) ()).1 =
      headers.retain keep := by
  unfold retainWith retain
  simp only [Lib.retain_eq_filter]

theorem collect_intoIter (headers : Headers) : headers.intoIter.collect = headers.iter :=
  HeadersIter.collect_eq _ _

theorem len_eq (headers : Headers) : headers.len = headers.iter.length := by
  unfold len iter
  rw [List.length_map]

/-- Two field sections are equal when their pairs are, wherever the pairs lie
in the two buffers. -/
theorem eq_iff (headers other : Headers) : headers.eq other = true ↔ headers.iter = other.iter := by
  unfold eq
  rw [HeadersIter.eq_iff, collect_intoIter, collect_intoIter]

theorem hash_eq (headers : Headers) : headers.hash = .usize headers.iter.length ::
    headers.iter.flatMap fun field => hashBytes field.1 ++ hashBytes field.2 := by
  unfold hash
  rw [len_eq, collect_intoIter]

/-- What is equal writes the same to the hasher. -/
theorem hash_of_eq {headers other : Headers} (h : headers.eq other = true) :
    headers.hash = other.hash := by
  rw [hash_eq, hash_eq, (eq_iff headers other).mp h]

theorem isEmpty_eq (headers : Headers) : headers.isEmpty = headers.iter.isEmpty := by
  unfold isEmpty iter
  rw [List.isEmpty_map]

/-- `is_valid` is the truth about the current fields, cached or not. -/
theorem isValid_iff (headers : Headers) : headers.isValid = true ↔
    ∀ field ∈ headers.iter, validName field.1 = true ∧ validValue field.2 = true := by
  unfold isValid
  rw [Bool.or_eq_true, List.all_eq_true]
  constructor
  · rintro (hvalid | hall) field hmem
    · obtain ⟨span, hspan, rfl⟩ := List.mem_map.mp hmem
      exact headers.sound hvalid span hspan
    · have h := hall field hmem
      rw [Bool.and_eq_true] at h
      exact h
  · intro hall
    right
    intro field hmem
    rw [Bool.and_eq_true]
    exact hall field hmem

end Headers

end H11r
