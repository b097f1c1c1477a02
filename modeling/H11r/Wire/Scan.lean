import H11r.Wire.Fields
import Mathlib.Tactic.SplitIfs

/-!
# What `Fields::scan` finds, field by field

The scan walks a section once and keeps fifteen notes. Each note is about the
fields of one name, so it is a fold over their values in order (`scan_note`),
whatever stands between them. Two sections with the same values for a name
give the same note: that is how a sender's section and the one its peer reads
are compared.
-/

namespace H11r

/-- The values of the fields of a list whose name is `name`. -/
def valuesOf (fields : List (Bytes × Bytes)) (name : Bytes) : List Bytes :=
  (fields.filter fun field => eqIgnoreAsciiCase field.1 name).map (·.2)

theorem getAll_eq (headers : Headers) (name : Bytes) :
    headers.getAll name = valuesOf headers.iter name := rfl

theorem valuesOf_cons (field : Bytes × Bytes) (fields : List (Bytes × Bytes)) (name : Bytes) :
    valuesOf (field :: fields) name =
      if eqIgnoreAsciiCase field.1 name then field.2 :: valuesOf fields name
      else valuesOf fields name := by
  unfold valuesOf
  rw [List.filter_cons]
  split <;> rfl

theorem valuesOf_append (before after : List (Bytes × Bytes)) (name : Bytes) :
    valuesOf (before ++ after) name = valuesOf before name ++ valuesOf after name := by
  unfold valuesOf
  rw [List.filter_append, List.map_append]

/-- A name does not match two literals that differ by more than case. -/
theorem names_disjoint {name left right : Bytes} (hleft : eqIgnoreAsciiCase name left = true)
    (hright : eqIgnoreAsciiCase name right = true) (hne : eqIgnoreAsciiCase left right = false) :
    False := by
  unfold eqIgnoreAsciiCase at *
  rw [beq_iff_eq] at hleft hright
  rw [← hleft, ← hright, beq_self_eq_true] at hne
  cases hne

/-- A name that matches `name` takes the place of `name` in a comparison. -/
theorem eqIgnoreAsciiCase_left {left right other : Bytes} (h : eqIgnoreAsciiCase left right = true) :
    eqIgnoreAsciiCase left other = eqIgnoreAsciiCase right other := by
  unfold eqIgnoreAsciiCase at *
  rw [beq_iff_eq] at h
  rw [h]

namespace Fields

/-- A note that only the fields named `name` change is a fold over their values. -/
theorem scanFrom_note {α : Type} {note : Fields → α} {update : α → Bytes → α} {name : Bytes}
    (h : ∀ fields index field value, note (scanField fields index field value) =
      if eqIgnoreAsciiCase field name then update (note fields) value else note fields)
    (fields : Fields) (index : Nat) (list : List (Bytes × Bytes)) :
    note (scanFrom fields index list) = (valuesOf list name).foldl update (note fields) := by
  induction list generalizing fields index with
  | nil => rfl
  | cons field list ih =>
    obtain ⟨fieldName, value⟩ := field
    rw [scanFrom, ih, h, valuesOf_cons]
    split <;> rfl

theorem scan_note {α : Type} (note : Fields → α) {update : α → Bytes → α} {name : Bytes}
    (h : ∀ fields index field value, note (scanField fields index field value) =
      if eqIgnoreAsciiCase field name then update (note fields) value else note fields)
    (headers : Headers) :
    note (scan headers) = (headers.getAll name).foldl update (note new) :=
  scanFrom_note h new 0 headers.iter

/-- One option of the Connection lines, as the scan looks for it. -/
def hasOption (value option : Bytes) : Bool := (elements value false).any (eqIgnoreAsciiCase · option)

theorem scan_close (headers : Headers) : (scan headers).close =
    (headers.getAll (ascii "connection")).foldl (fun seen value => seen || hasOption value (ascii "close"))
      false := by
  refine scan_note Fields.close (fun fields index field value => ?_) headers
  unfold scanField
  split_ifs
  all_goals first
    | rfl
    | (rename_i h1 h2; exact (names_disjoint h1 h2 (by decide)).elim)

theorem foldl_or_any {α : Type} (p : α → Bool) (values : List α) (seen : Bool) :
    values.foldl (fun seen value => seen || p value) seen = (seen || values.any p) := by
  induction values generalizing seen with
  | nil => simp
  | cons value values ih => rw [List.foldl_cons, ih, List.any_cons, Bool.or_assoc]

/-- The `close` note is the `close` option of the Connection lines. -/
theorem scan_close_eq_hasToken (headers : Headers) :
    (scan headers).close = hasToken headers (ascii "connection") (ascii "close") := by
  rw [scan_close, foldl_or_any, Bool.false_or]
  unfold hasToken hasOption
  rw [List.any_flatMap]

theorem scan_keepAlive (headers : Headers) : (scan headers).keepAlive =
    (headers.getAll (ascii "connection")).foldl
      (fun seen value => seen || hasOption value (ascii "keep-alive")) false := by
  refine scan_note Fields.keepAlive (fun fields index field value => ?_) headers
  unfold scanField
  split_ifs
  all_goals first
    | rfl
    | (rename_i h1 h2; exact (names_disjoint h1 h2 (by decide)).elim)

/-- The `keep-alive` note is the `keep-alive` option of the Connection lines. -/
theorem scan_keepAlive_eq_hasToken (headers : Headers) :
    (scan headers).keepAlive = hasToken headers (ascii "connection") (ascii "keep-alive") := by
  rw [scan_keepAlive, foldl_or_any, Bool.false_or]
  unfold hasToken hasOption
  rw [List.any_flatMap]

theorem scan_length (headers : Headers) : (scan headers).length =
    (headers.getAll (ascii "content-length")).foldl (fun length value => (elements value false).foldl noteLength length)
      none := by
  refine scan_note Fields.length (fun fields index field value => ?_) headers
  unfold scanField
  split_ifs
  all_goals first
    | rfl
    | (rename_i h1 h2; exact (names_disjoint h1 h2 (by decide)).elim)

theorem scan_upgrade (headers : Headers) : (scan headers).upgrade =
    (headers.getAll (ascii "connection")).foldl
      (fun seen value => seen || hasOption value (ascii "upgrade")) false := by
  refine scan_note Fields.upgrade (fun fields index field value => ?_) headers
  unfold scanField
  split_ifs
  all_goals first
    | rfl
    | (rename_i h1 h2; exact (names_disjoint h1 h2 (by decide)).elim)

/-- The `upgrade` note is the `upgrade` option of the Connection lines. -/
theorem scan_upgrade_eq_hasToken (headers : Headers) :
    (scan headers).upgrade = hasToken headers (ascii "connection") (ascii "upgrade") := by
  rw [scan_upgrade, foldl_or_any, Bool.false_or]
  unfold hasToken hasOption
  rw [List.any_flatMap]

/-- A field that is noted when it comes is noted when there is one. -/
theorem foldl_seen (values : List Bytes) (seen : Bool) :
    values.foldl (fun _ _ => true) seen = (seen || !values.isEmpty) := by
  induction values generalizing seen with
  | nil => simp
  | cons value values ih => rw [List.foldl_cons, ih]; simp

theorem scan_upgradeField (headers : Headers) :
    (scan headers).upgradeField = hasField headers (ascii "upgrade") := by
  have hfold : (scan headers).upgradeField =
      (headers.getAll (ascii "upgrade")).foldl (fun _ _ => true) false := by
    refine scan_note Fields.upgradeField (fun fields index field value => ?_) headers
    unfold scanField
    split_ifs
    all_goals first
      | rfl
      | (rename_i h1 h2; exact (names_disjoint h1 h2 (by decide)).elim)
  rw [hfold, foldl_seen, Bool.false_or]
  rfl

theorem scan_connectionTe (headers : Headers) : (scan headers).connectionTe =
    (headers.getAll (ascii "connection")).foldl
      (fun seen value => seen || hasOption value (ascii "te")) false := by
  refine scan_note Fields.connectionTe (fun fields index field value => ?_) headers
  unfold scanField
  split_ifs
  all_goals first
    | rfl
    | (rename_i h1 h2; exact (names_disjoint h1 h2 (by decide)).elim)

/-- The `te` note is the `te` option of the Connection lines. -/
theorem scan_connectionTe_eq_hasToken (headers : Headers) :
    (scan headers).connectionTe = hasToken headers (ascii "connection") (ascii "te") := by
  rw [scan_connectionTe, foldl_or_any, Bool.false_or]
  unfold hasToken hasOption
  rw [List.any_flatMap]

theorem scan_teField (headers : Headers) :
    (scan headers).teField = hasField headers (ascii "te") := by
  have hfold : (scan headers).teField =
      (headers.getAll (ascii "te")).foldl (fun _ _ => true) false := by
    refine scan_note Fields.teField (fun fields index field value => ?_) headers
    unfold scanField
    split_ifs <;> rfl
  rw [hfold, foldl_seen, Bool.false_or]
  rfl

/-- A TE line that names the chunked coding. -/
def namesChunked (value : Bytes) : Bool :=
  (elements value true).any fun element =>
    eqIgnoreAsciiCase (element.take (tokenEnd element 0)) (ascii "chunked")

theorem scan_teChunked (headers : Headers) :
    (scan headers).teChunked = (headers.getAll (ascii "te")).any namesChunked := by
  have hfold : (scan headers).teChunked =
      (headers.getAll (ascii "te")).foldl (fun seen value => seen || namesChunked value) false := by
    refine scan_note Fields.teChunked (fun fields index field value => ?_) headers
    unfold scanField
    split_ifs <;> rfl
  rw [hfold, foldl_or_any, Bool.false_or]

theorem scan_lengths (headers : Headers) : (scan headers).lengths =
    (headers.getAll (ascii "content-length")).foldl
      (fun count value => count + (elements value false).length) 0 := by
  refine scan_note Fields.lengths (fun fields index field value => ?_) headers
  unfold scanField
  split_ifs
  all_goals first
    | rfl
    | (rename_i h1 h2; exact (names_disjoint h1 h2 (by decide)).elim)

theorem scan_codings (headers : Headers) : (scan headers).codings =
    (headers.getAll (ascii "transfer-encoding")).foldl
      (fun codings value => some ((codings.getD .new).read value)) none := by
  refine scan_note Fields.codings (fun fields index field value => ?_) headers
  unfold scanField
  split_ifs
  all_goals first
    | rfl
    | (rename_i h1 h2; exact (names_disjoint h1 h2 (by decide)).elim)

/-! ## Which framing fields there are -/

/-- A note that every value sets is there when there is a value. -/
theorem foldl_isSome {α : Type} {update : Option α → Bytes → Option α}
    (h : ∀ note value, (update note value).isSome = true) (values : List Bytes) (note : Option α) :
    (values.foldl update note).isSome = (note.isSome || !values.isEmpty) := by
  induction values generalizing note with
  | nil => simp
  | cons value values ih => rw [List.foldl_cons, ih, h]; simp

theorem scan_codings_isSome (headers : Headers) :
    (scan headers).codings.isSome = hasField headers (ascii "transfer-encoding") := by
  rw [scan_codings, foldl_isSome (fun _ _ => rfl)]
  rfl

theorem splitElements_ne_nil (quoting quoted escaped : Bool) (value : Bytes) :
    splitElements quoting quoted escaped value ≠ [] := by
  cases value with
  | nil => exact List.cons_ne_nil _ _
  | cons byte rest =>
    rw [splitElements]
    split
    · exact List.cons_ne_nil _ _
    · dsimp only
      split <;> exact List.cons_ne_nil _ _

theorem elements_ne_nil (value : Bytes) (quoting : Bool) : elements value quoting ≠ [] := by
  unfold elements
  rw [Ne, List.map_eq_nil_iff]
  exact splitElements_ne_nil quoting false false value

theorem noteLength_isSome (length : Option (Except String Nat)) (element : Bytes) :
    (noteLength length element).isSome = true := by
  unfold noteLength
  split
  · split <;> rfl
  · split <;> rfl
  · rfl

theorem scan_length_isSome (headers : Headers) :
    (scan headers).length.isSome = hasField headers (ascii "content-length") := by
  rw [scan_length, foldl_isSome fun length value => ?_]
  · rfl
  · rw [foldl_isSome noteLength_isSome, List.isEmpty_eq_false_iff.mpr (elements_ne_nil value false)]
    simp

/-! ## Empty list elements -/

/-- The scan looks for empty elements in four fields. -/
def emptyField (name value : Bytes) : Bool :=
  if eqIgnoreAsciiCase name (ascii "te") || eqIgnoreAsciiCase name (ascii "expect") then
    noteEmpty value true
  else if eqIgnoreAsciiCase name (ascii "upgrade") || eqIgnoreAsciiCase name (ascii "connection") then
    noteEmpty value false
  else false

theorem scanField_emptyElements (fields : Fields) (index : Nat) (name value : Bytes) :
    (scanField fields index name value).emptyElements =
      (fields.emptyElements || emptyField name value) := by
  have hhost : eqIgnoreAsciiCase name (ascii "host") = true → emptyField name value = false := by
    intro h
    unfold emptyField
    rw [eqIgnoreAsciiCase_left h, eqIgnoreAsciiCase_left h, eqIgnoreAsciiCase_left h,
      eqIgnoreAsciiCase_left h]
    rfl
  by_cases hname : eqIgnoreAsciiCase name (ascii "host") = true
  · rw [hhost hname, Bool.or_false]
    unfold scanField
    split_ifs with hte
    · exact (names_disjoint hte hname (by decide)).elim
    · rfl
  · unfold scanField emptyField
    split_ifs <;> simp_all

/-- No list field of the section has an empty element, or some field has. -/
theorem scan_emptyElements (headers : Headers) : (scan headers).emptyElements =
    headers.iter.any fun field => emptyField field.1 field.2 := by
  have hfrom : ∀ (list : List (Bytes × Bytes)) (fields : Fields) (index : Nat),
      (scanFrom fields index list).emptyElements =
        (fields.emptyElements || list.any fun field => emptyField field.1 field.2) := by
    intro list
    induction list with
    | nil =>
      intro fields index
      rw [List.any_nil, Bool.or_false]
      rfl
    | cons field list ih =>
      intro fields index
      obtain ⟨name, value⟩ := field
      rw [scanFrom, ih, scanField_emptyElements, List.any_cons, Bool.or_assoc]
  unfold scan
  rw [hfrom, show new.emptyElements = false from rfl, Bool.false_or]

end Fields

end H11r
