import H11r.Headers

/-!
# `Headers` is an ordered list of pairs

A program that uses `Headers` has variables, and calls the functions of the
type on them. `Op` is one such call: it builds a field section, changes one,
copies one into another variable, or looks at one. `step` runs it on the
`Headers` values, with their shared buffers, ranges and cached flags.

`listStep` is what the calls are for. Its variables hold lists of pairs, and
there is nothing else in them. The first refines the second (`step_refines`), so
whatever the calls and whatever their order, a program sees a list of pairs.

`Past` is what the list leaves out: the section a value has been parsed from
and every pair pushed since, the removed ones too. The buffer holds exactly
these bytes, and the cached flag is exactly whether all of it was checked.
-/

namespace H11r.Pairs

open Lib (trace trace_silent Refines Pointwise silent)

/-- A field section as its user sees it. -/
abbrev FieldList := List (Bytes × Bytes)

/-- A call on the variables `x`, `y` of a program. `κ` is what the closures
that it passes to `retain` remember. -/
inductive Op (κ : Type) where
  | new (x : Nat)
  | withCapacity (x fields bytes : Nat)
  /-- A section whose ranges lie in its bytes, as the parser makes them. -/
  | fromSection (x : Nat) (section_ : Bytes) (fields : List (Span × Span))
      (inRange : ∀ field ∈ fields,
        field.1.InRange section_.length ∧ field.2.InRange section_.length)
  | fromIter (x : Nat) (fields : FieldList)
  /-- `x = y.clone()`. -/
  | clone (x y : Nat)
  | push (x : Nat) (name value : Bytes)
  | extend (x : Nat) (fields : FieldList)
  | retain (x : Nat) (keep : Bytes → Bytes → κ → Bool × κ) (state : κ)
  | iter (x : Nat)
  | len (x : Nat)
  | isEmpty (x : Nat)
  | getAll (x : Nat) (name : Bytes)
  | isValid (x : Nat)
  /-- `x == y`. -/
  | eq (x y : Nat)
  | hash (x : Nat)

/-- What a call returns. -/
inductive Outcome (κ : Type) where
  | done
  /-- What the closure of a `retain` remembers after its last call. -/
  | kept (state : κ)
  | fields (fields : FieldList)
  | count (n : Nat)
  | values (values : List Bytes)
  | answer (b : Bool)
  | hashed (writes : List Headers.HashWrite)

section

variable {κ : Type}

/-- The call on the values of `headers.rs`. -/
def step (op : Op κ) (store : Nat → Headers) : Outcome κ × (Nat → Headers) :=
  match op with
  | .new x => (.done, Function.update store x .new)
  | .withCapacity x fields bytes => (.done, Function.update store x (.withCapacity fields bytes))
  | .fromSection x section_ fields inRange =>
    (.done, Function.update store x (.fromSection section_ fields inRange))
  | .fromIter x fields => (.done, Function.update store x (.fromIter fields))
  | .clone x y => (.done, Function.update store x (store y))
  | .push x name value => (.done, Function.update store x ((store x).push name value))
  | .extend x fields => (.done, Function.update store x ((store x).extend fields))
  | .retain x keep state =>
    (.kept ((store x).retainWith keep state).2,
      Function.update store x ((store x).retainWith keep state).1)
  | .iter x => (.fields (store x).intoIter.collect, store)
  | .len x => (.count (store x).len, store)
  | .isEmpty x => (.answer (store x).isEmpty, store)
  | .getAll x name => (.values ((store x).getAll name), store)
  | .isValid x => (.answer (store x).isValid, store)
  | .eq x y => (.answer ((store x).eq (store y)), store)
  | .hash x => (.hashed (store x).hash, store)

/-! ## The list of pairs -/

/-- Every name and value of the list may be sent. -/
def Sendable (fields : FieldList) : Prop :=
  ∀ field ∈ fields, validName field.1 = true ∧ validValue field.2 = true

instance (fields : FieldList) : Decidable (Sendable fields) :=
  inferInstanceAs (Decidable (∀ field ∈ fields, _ ∧ _))

/-- The same call on lists of pairs. -/
def listStep (op : Op κ) (lists : Nat → FieldList) : Outcome κ × (Nat → FieldList) :=
  match op with
  | .new x | .withCapacity x _ _ => (.done, Function.update lists x [])
  | .fromSection x section_ fields _ =>
    (.done, Function.update lists x
      (fields.map fun field => (field.1.slice section_, field.2.slice section_)))
  | .fromIter x fields => (.done, Function.update lists x fields)
  | .clone x y => (.done, Function.update lists x (lists y))
  | .push x name value => (.done, Function.update lists x (lists x ++ [(name, value)]))
  | .extend x fields => (.done, Function.update lists x (lists x ++ fields))
  | .retain x keep state =>
    let kept := Lib.retain (fun field => keep field.1 field.2) (lists x) state
    (.kept kept.2, Function.update lists x kept.1)
  | .iter x => (.fields (lists x), lists)
  | .len x => (.count (lists x).length, lists)
  | .isEmpty x => (.answer (lists x).isEmpty, lists)
  | .getAll x name =>
    (.values (((lists x).filter fun field => eqIgnoreAsciiCase field.1 name).map (·.2)), lists)
  | .isValid x => (.answer (decide (Sendable (lists x))), lists)
  | .eq x y => (.answer (decide (lists x = lists y)), lists)
  | .hash x => (.hashed (.usize (lists x).length ::
      (lists x).flatMap fun field => Headers.hashBytes field.1 ++ Headers.hashBytes field.2), lists)

/-- A `Headers` value stands for the pairs it yields. -/
def Represents (headers : Headers) (fields : FieldList) : Prop := headers.iter = fields

namespace Represents

variable {headers other : Headers} {fields fields' : FieldList}

theorem len (h : Represents headers fields) : headers.len = fields.length := by
  rw [Headers.len_eq, h]

theorem isEmpty (h : Represents headers fields) : headers.isEmpty = fields.isEmpty := by
  rw [Headers.isEmpty_eq, h]

theorem getAll (h : Represents headers fields) (name : Bytes) : headers.getAll name =
    (fields.filter fun field => eqIgnoreAsciiCase field.1 name).map (·.2) := by
  unfold Headers.getAll
  rw [h]

theorem isValid_iff (h : Represents headers fields) : headers.isValid = true ↔ Sendable fields := by
  rw [Headers.isValid_iff, h]
  rfl

theorem eq_iff (h : Represents headers fields) (h' : Represents other fields') :
    headers.eq other = true ↔ fields = fields' := by
  rw [Headers.eq_iff, h, h']

theorem push (h : Represents headers fields) (name value : Bytes) :
    Represents (headers.push name value) (fields ++ [(name, value)]) := by
  unfold Represents
  rw [Headers.iter_push, h]

theorem extend (h : Represents headers fields) (more : FieldList) :
    Represents (headers.extend more) (fields ++ more) := by
  unfold Represents
  rw [Headers.iter_extend, h]

theorem retain (h : Represents headers fields) (keep : Bytes → Bytes → κ → Bool × κ) (state : κ) :
    (headers.retainWith keep state).2 =
        (Lib.retain (fun field => keep field.1 field.2) fields state).2 ∧
      Represents (headers.retainWith keep state).1
        (Lib.retain (fun field => keep field.1 field.2) fields state).1 := by
  have heq := headers.retainWith_eq keep state
  rw [h] at heq
  unfold Represents
  rw [← heq]
  exact ⟨rfl, rfl⟩

end Represents

/-- One call has the same outcome on both sides and leaves values that stand
for the lists. -/
theorem step_refines : Refines (@step κ) listStep (Pointwise Represents) := by
  intro op store lists h
  cases op with
  | new x => exact ⟨rfl, h.update x rfl⟩
  | withCapacity x fields bytes => exact ⟨rfl, h.update x rfl⟩
  | fromSection x section_ fields inRange => exact ⟨rfl, h.update x rfl⟩
  | fromIter x fields => exact ⟨rfl, h.update x (Headers.iter_fromIter fields)⟩
  | clone x y => exact ⟨rfl, h.update x (h y)⟩
  | push x name value => exact ⟨rfl, h.update x ((h x).push name value)⟩
  | extend x fields => exact ⟨rfl, h.update x ((h x).extend fields)⟩
  | retain x keep state =>
    obtain ⟨hstate, hkept⟩ := (h x).retain keep state
    exact ⟨congrArg Outcome.kept hstate, h.update x hkept⟩
  | iter x =>
    refine ⟨congrArg Outcome.fields ?_, h⟩
    rw [Headers.collect_intoIter]
    exact h x
  | len x => exact ⟨congrArg Outcome.count (h x).len, h⟩
  | isEmpty x => exact ⟨congrArg Outcome.answer (h x).isEmpty, h⟩
  | getAll x name => exact ⟨congrArg Outcome.values ((h x).getAll name), h⟩
  | isValid x =>
    refine ⟨congrArg Outcome.answer ?_, h⟩
    rw [Bool.eq_iff_iff, (h x).isValid_iff, decide_eq_true_iff]
  | eq x y =>
    refine ⟨congrArg Outcome.answer ?_, h⟩
    rw [Bool.eq_iff_iff, (h x).eq_iff (h y), decide_eq_true_iff]
  | hash x =>
    refine ⟨congrArg Outcome.hashed ?_, h⟩
    rw [Headers.hash_eq, h x]

/-! ## A program -/

/-- The history of a program, and what its variables hold at its end. All of
them start as `Headers::new()`. -/
def run (program : List (Op κ)) : List (Op κ × Outcome κ) × (Nat → Headers) :=
  trace step (fun _ => .new) program

/-- The same program on lists of pairs. -/
def listRun (program : List (Op κ)) : List (Op κ × Outcome κ) × (Nat → FieldList) :=
  trace listStep (fun _ => []) program

theorem run_refines (program : List (Op κ)) : (run program).1 = (listRun program).1 ∧
    Pointwise Represents (run program).2 (listRun program).2 :=
  step_refines.trace program fun _ => rfl

/-- A program cannot tell `Headers` from a list of pairs: it has the same
history with both. At its end every variable yields exactly the pairs of its
list, its ranges lie in its buffer, two variables of any two programs are equal
exactly when their lists are, and `is_valid` is the truth about the list. -/
theorem headers_is_a_list_of_pairs (program : List (Op κ)) :
    (run program).1 = (listRun program).1 ∧
      ∀ x,
        ((run program).2 x).intoIter.collect = (listRun program).2 x ∧
        ((run program).2 x).len = ((listRun program).2 x).length ∧
        (∀ name, ((run program).2 x).getAll name =
          (((listRun program).2 x).filter fun field => eqIgnoreAsciiCase field.1 name).map (·.2)) ∧
        (∀ (program' : List (Op κ)) (y : Nat),
          ((run program).2 x).eq ((run program').2 y) = true ↔
            (listRun program).2 x = (listRun program').2 y) ∧
        (∀ field ∈ ((run program).2 x).fields,
          field.1.InRange ((run program).2 x).bytes.length ∧
            field.2.InRange ((run program).2 x).bytes.length) ∧
        (((run program).2 x).isValid = true ↔
          ∀ field ∈ (listRun program).2 x, validName field.1 = true ∧ validValue field.2 = true) := by
  obtain ⟨hhistory, hstore⟩ := run_refines program
  refine ⟨hhistory, fun x => ⟨?_, (hstore x).len, (hstore x).getAll, ?_, ?_, (hstore x).isValid_iff⟩⟩
  · rw [Headers.collect_intoIter]
    exact hstore x
  · intro program' y
    exact (hstore x).eq_iff ((run_refines program').2 y)
  · exact ((run program).2 x).inRange

/-! ## What the list leaves out -/

/-- Where the bytes of a value come from: the section it was parsed from, if
any, and all pairs pushed since. A `retain` takes nothing away from it. -/
structure Past where
  section_ : Option Bytes
  pushed : FieldList

namespace Past

def bytes (past : Past) : Bytes :=
  past.section_.getD [] ++ past.pushed.flatMap fun field => field.1 ++ field.2

/-- Nothing came from a parser, and every pair was valid when it was pushed. -/
def checked (past : Past) : Bool :=
  past.section_.isNone && past.pushed.all fun field => validName field.1 && validValue field.2

def push (past : Past) (fields : FieldList) : Past where
  section_ := past.section_
  pushed := past.pushed ++ fields

theorem push_nil (past : Past) : past.push [] = past := by
  unfold push
  rw [List.append_nil]

theorem push_cons (past : Past) (field : Bytes × Bytes) (fields : FieldList) :
    past.push (field :: fields) = (past.push [field]).push fields := by
  unfold push
  rw [List.append_assoc, List.singleton_append]

theorem bytes_push (past : Past) (fields : FieldList) :
    (past.push fields).bytes = past.bytes ++ fields.flatMap fun field => field.1 ++ field.2 := by
  unfold bytes push
  rw [List.flatMap_append, List.append_assoc]

theorem checked_push (past : Past) (fields : FieldList) : (past.push fields).checked =
    (past.checked && fields.all fun field => validName field.1 && validValue field.2) := by
  unfold checked push
  rw [List.all_append, Bool.and_assoc]

end Past

/-- What a call adds to the past. -/
def pastStep (op : Op κ) (pasts : Nat → Past) : Unit × (Nat → Past) :=
  match op with
  | .new x | .withCapacity x _ _ => ((), Function.update pasts x ⟨none, []⟩)
  | .fromSection x section_ _ _ => ((), Function.update pasts x ⟨some section_, []⟩)
  | .fromIter x fields => ((), Function.update pasts x ⟨none, fields⟩)
  | .clone x y => ((), Function.update pasts x (pasts y))
  | .push x name value => ((), Function.update pasts x ((pasts x).push [(name, value)]))
  | .extend x fields => ((), Function.update pasts x ((pasts x).push fields))
  | _ => ((), pasts)

/-- The buffer holds the bytes of the past, and the flag is set when all of it
has been checked. -/
structure Remembers (headers : Headers) (past : Past) : Prop where
  bytes : headers.bytes = past.bytes
  valid : headers.valid = past.checked

namespace Remembers

variable {headers : Headers} {past : Past}

theorem push (h : Remembers headers past) (name value : Bytes) :
    Remembers (headers.push name value) (past.push [(name, value)]) := by
  constructor
  · rw [Past.bytes_push, ← h.bytes]
    simp [Headers.push]
  · rw [Past.checked_push, ← h.valid]
    simp [Headers.push]

theorem extend (h : Remembers headers past) (fields : FieldList) :
    Remembers (headers.extend fields) (past.push fields) := by
  induction fields generalizing headers past with
  | nil =>
    rw [Past.push_nil]
    exact h
  | cons field fields ih =>
    rw [Past.push_cons]
    exact ih (h.push field.1 field.2)

end Remembers

theorem step_remembers : Refines (silent (@step κ)) pastStep (Pointwise Remembers) := by
  have hnew : Remembers .new ⟨none, []⟩ := ⟨rfl, rfl⟩
  intro op store pasts h
  refine ⟨rfl, ?_⟩
  cases op with
  | new x => exact h.update x hnew
  | withCapacity x fields bytes => exact h.update x ⟨rfl, rfl⟩
  | fromSection x section_ fields inRange =>
    exact h.update x ⟨(List.append_nil _).symm, rfl⟩
  | fromIter x fields => exact h.update x (hnew.extend fields)
  | clone x y => exact h.update x (h y)
  | push x name value => exact h.update x ((h x).push name value)
  | extend x fields => exact h.update x ((h x).extend fields)
  | retain x keep state =>
    -- The buffer and the flag are those from before.
    have hsame := h.update x (s := ((store x).retainWith keep state).1) ⟨(h x).bytes, (h x).valid⟩
    rwa [Function.update_eq_self] at hsame
  | _ => exact h

/-- The past of every variable of a program. -/
def past (program : List (Op κ)) : Nat → Past := (trace pastStep (fun _ => ⟨none, []⟩) program).2

/-- The flag never claims more than was checked, and never forgets a check:
after any program it is set exactly when no parsed section is behind the value
and every pair ever pushed to it was valid. The removed pairs count, as their
bytes are still in the buffer. -/
theorem run_remembers (program : List (Op κ)) (x : Nat) :
    Remembers ((run program).2 x) (past program x) := by
  have htrace := step_remembers.trace program (s := fun _ => Headers.new) (a := fun _ => ⟨none, []⟩)
    fun _ => ⟨rfl, rfl⟩
  have hend := htrace.2 x
  rw [trace_silent] at hend
  exact hend

end

end H11r.Pairs
