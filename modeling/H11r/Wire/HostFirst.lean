import H11r.Wire.Head
import H11r.Wire.Scan

/-!
# The Host field goes first

A request is written with its Host field in front, so the receiver scans the
fields in another order. There is one Host field, and of every name the values
stay in their order, so the receiver notes the same. Only `hostAt` differs,
which it does not use.
-/

namespace H11r

variable {headers headers' : Headers}

theorem valuesOf_nil (name : Bytes) : valuesOf [] name = [] := rfl

namespace Fields

theorem scan_hosts (headers : Headers) :
    (scan headers).hosts = (headers.getAll (ascii "host")).foldl (fun count _ => count + 1) 0 := by
  refine scan_note Fields.hosts (fun fields index field value => ?_) headers
  unfold scanField
  split_ifs
  all_goals first
    | rfl
    | (rename_i h1 h2; exact (names_disjoint h1 h2 (by decide)).elim)

theorem scan_validHost (headers : Headers) : (scan headers).validHost =
    (headers.getAll (ascii "host")).foldl (fun _ value => (authorityPort value).isSome)
      new.validHost := by
  refine scan_note Fields.validHost (fun fields index field value => ?_) headers
  unfold scanField
  split_ifs
  all_goals first
    | rfl
    | (rename_i h1 h2; exact (names_disjoint h1 h2 (by decide)).elim)

theorem scan_expectContinue (headers : Headers) : (scan headers).expectContinue =
    (headers.getAll (ascii "expect")).foldl (fun expects value =>
      expects || (elements value true).any fun element =>
        eqIgnoreAsciiCase element (ascii "100-continue")) false := by
  refine scan_note Fields.expectContinue (fun fields index field value => ?_) headers
  unfold scanField
  split_ifs
  all_goals first
    | rfl
    | (rename_i h1 h2; exact (names_disjoint h1 h2 (by decide)).elim)

theorem foldl_count {α : Type} (values : List α) (count : Nat) :
    values.foldl (fun count _ => count + 1) count = count + values.length := by
  induction values generalizing count with
  | nil => rfl
  | cons value values ih =>
    rw [List.foldl_cons, ih, List.length_cons]
    omega

theorem scan_hosts_length (headers : Headers) :
    (scan headers).hosts = (valuesOf headers.iter (ascii "host")).length := by
  rw [scan_hosts, foldl_count, getAll_eq]
  omega

theorem scanField_hostAt (fields : Fields) (index : Nat) (name value : Bytes) :
    (scanField fields index name value).hostAt =
      if eqIgnoreAsciiCase name (ascii "host") then index else fields.hostAt := by
  unfold scanField
  split_ifs
  all_goals first
    | rfl
    | (rename_i h1 h2; exact (names_disjoint h1 h2 (by decide)).elim)

/-- The scan remembers where the last Host field is. -/
theorem scanFrom_hostAt (fields : Fields) (index : Nat) (list : List (Bytes × Bytes)) :
    (valuesOf list (ascii "host") = [] ∧ (scanFrom fields index list).hostAt = fields.hostAt) ∨
    ∃ before host after, list = before ++ host :: after ∧
      eqIgnoreAsciiCase host.1 (ascii "host") = true ∧
      valuesOf after (ascii "host") = [] ∧
      (scanFrom fields index list).hostAt = index + before.length := by
  induction list generalizing fields index with
  | nil => exact Or.inl ⟨rfl, rfl⟩
  | cons field list ih =>
    obtain ⟨name, value⟩ := field
    rw [scanFrom, valuesOf_cons]
    rcases ih (scanField fields index name value) (index + 1) with
      ⟨hnone, hat⟩ | ⟨before, host, after, rfl, hhost, hafter, hat⟩
    · rw [hat, scanField_hostAt]
      by_cases hname : eqIgnoreAsciiCase name (ascii "host") = true
      · refine Or.inr ⟨[], (name, value), list, rfl, hname, hnone, ?_⟩
        exact if_pos hname
      · refine Or.inl ⟨?_, if_neg hname⟩
        rw [if_neg hname, hnone]
    · refine Or.inr ⟨(name, value) :: before, host, after, rfl, hhost, hafter, ?_⟩
      rw [hat, List.length_cons]
      omega

end Fields

/-- Two names of one field have the same values. -/
theorem valuesOf_same (fields : List (Bytes × Bytes)) {name left right : Bytes}
    (hleft : eqIgnoreAsciiCase name left = true) (hright : eqIgnoreAsciiCase name right = true) :
    valuesOf fields right = valuesOf fields left := by
  have hsame : ∀ other, eqIgnoreAsciiCase other right = eqIgnoreAsciiCase other left := by
    intro other
    unfold eqIgnoreAsciiCase at hleft hright ⊢
    rw [beq_iff_eq] at hleft hright
    rw [← hleft, ← hright]
  unfold valuesOf
  simp only [hsame]

/-- The values of a name stay as they are when the one Host field goes first. -/
theorem valuesOf_hostFirst (hone : (Fields.scan headers).hosts = 1) (name : Bytes) :
    valuesOf (hostFirst headers.iter (Fields.scan headers).hostAt) name =
      valuesOf headers.iter name := by
  rw [Fields.scan_hosts_length] at hone
  rcases Fields.scanFrom_hostAt .new 0 headers.iter with
    ⟨hnone, _⟩ | ⟨before, host, after, hiter, hhost, hafter, hat⟩
  · rw [hnone] at hone
    cases hone
  · have hposition : (Fields.scan headers).hostAt = before.length := by
      unfold Fields.scan
      rw [hat]
      omega
    have hfirst : hostFirst headers.iter (Fields.scan headers).hostAt =
        host :: (before ++ after) := by
      unfold hostFirst
      rw [hposition, hiter, List.getElem?_append_right (Nat.le_refl _), Nat.sub_self,
        List.eraseIdx_append_of_length_le (Nat.le_refl _), Nat.sub_self]
      rfl
    rw [hfirst, hiter, valuesOf_cons, valuesOf_append, valuesOf_append, valuesOf_cons]
    by_cases hname : eqIgnoreAsciiCase host.1 name = true
    · -- It is the name of the Host field, which no field in front of that one has.
      rw [valuesOf_same before hhost hname, valuesOf_same after hhost hname, if_pos hname,
        if_pos hname]
      have hbefore : valuesOf before (ascii "host") = [] := by
        rw [hiter, valuesOf_append, valuesOf_cons, if_pos hhost, List.length_append,
          List.length_cons] at hone
        apply List.eq_nil_of_length_eq_zero
        omega
      rw [hbefore]
      rfl
    · rw [if_neg hname, if_neg hname]

/-- Two sections with the same values for every name are noted alike. -/
theorem Fields.scan_congr (h : ∀ name, headers'.getAll name = headers.getAll name) :
    (∀ version response,
      (scan headers').framing version response = (scan headers).framing version response) ∧
      (∀ version, (scan headers').hostValid version = (scan headers).hostValid version) ∧
      (∀ version, (scan headers').persistent version = (scan headers).persistent version) ∧
      (scan headers').upgrade = (scan headers).upgrade ∧
      ∀ version framing, (scan headers').expectsContinue version framing =
        (scan headers).expectsContinue version framing := by
  refine ⟨fun version response => ?_, fun version => ?_, fun version => ?_, ?_,
    fun version framing => ?_⟩
  · unfold framing
    rw [scan_codings, scan_codings, scan_length, scan_length, h, h]
  · unfold hostValid
    rw [scan_hosts, scan_hosts, scan_validHost, scan_validHost, h]
  · unfold persistent
    rw [scan_close, scan_close, scan_keepAlive, scan_keepAlive, h]
  · rw [scan_upgrade, scan_upgrade, h]
  · unfold expectsContinue
    rw [scan_expectContinue, scan_expectContinue, h]

theorem upgradeProtocols_congr (h : ∀ name, headers'.getAll name = headers.getAll name) :
    upgradeProtocols headers' = upgradeProtocols headers := by
  unfold upgradeProtocols hasField
  rw [h]

end H11r
