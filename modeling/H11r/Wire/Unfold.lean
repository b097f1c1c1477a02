import H11r.Wire.EmptyLine
import H11r.Wire.Reference

/-!
# Obsolete folding

`normalize_obs_fold` against its meaning. A fold is a line break, LF or CRLF,
and the whitespace after it; `Unfolded data result` says that `result` is
`data` with a space for every fold and every other byte kept. The loop computes
that for every text, although it looks back into its own output for the CR.

Where no empty line is followed by whitespace, which is so up to the first
empty line of a text, unfolding leaves no fold behind and neither removes nor
makes an empty line. So a trailer section still ends after it has been unfolded.
-/

namespace H11r

open Lib

/-- A line break and the whitespace the next line starts with. -/
def IsFold (fold : Bytes) : Prop :=
  ∃ gap, gap ≠ [] ∧ (∀ byte ∈ gap, isOws byte = true) ∧ (fold = lf :: gap ∨ fold = cr :: lf :: gap)

/-- The text starts with a fold. -/
def FoldsHere (data : Bytes) : Prop := ∃ fold rest, data = fold ++ rest ∧ IsFold fold

/-- `result` is `data` with each fold replaced by a space. -/
inductive Unfolded : Bytes → Bytes → Prop where
  | nil : Unfolded [] []
  | fold {fold rest result : Bytes} (hfold : IsFold fold) (hstop : Stops isOws rest)
      (hrest : Unfolded rest result) : Unfolded (fold ++ rest) (sp :: result)
  | keep {byte : UInt8} {rest result : Bytes} (hkeep : ¬FoldsHere (byte :: rest))
      (hrest : Unfolded rest result) : Unfolded (byte :: rest) (byte :: result)

/-- No empty line is followed by a line that starts with whitespace. -/
def FoldsNoEmptyLine (data : Bytes) : Prop :=
  ∀ before line after : Bytes, data = before ++ (line ++ after) →
    (before = [] ∨ before.getLast? = some lf) → IsEmptyLine line → startsWithOws after = false

/-- The number of empty lines. -/
def emptyLines (data : Bytes) : Nat :=
  (splitInclusive (· == lf) data).countP fun line => line == [lf] || line == [cr, lf]

/-! ## Where a fold starts -/

theorem startsWithOws_gap {gap : Bytes} (rest : Bytes) (hne : gap ≠ [])
    (hgap : ∀ byte ∈ gap, isOws byte = true) : startsWithOws (gap ++ rest) = true := by
  cases gap with
  | nil => exact absurd rfl hne
  | cons byte gap => exact hgap byte (List.mem_cons_self ..)

theorem startsWithOws_cons (byte : UInt8) (rest : Bytes) : startsWithOws (byte :: rest) = isOws byte := rfl

/-- A text that starts with whitespace, cut where the whitespace ends. -/
theorem exists_gap {rest : Bytes} (h : startsWithOws rest = true) :
    ∃ gap after, rest = gap ++ after ∧ gap ≠ [] ∧ (∀ byte ∈ gap, isOws byte = true) ∧
      Stops isOws after := by
  obtain ⟨gap, after, rfl, hgap, hstop, _⟩ := exists_run isOws rest
  refine ⟨gap, after, rfl, ?_, hgap, hstop⟩
  rintro rfl
  cases after with
  | nil => cases h
  | cons byte after =>
    rw [List.nil_append, startsWithOws_cons, hstop byte rfl] at h
    cases h

theorem foldsHere_lf {rest : Bytes} (h : startsWithOws rest = true) : FoldsHere (lf :: rest) := by
  obtain ⟨gap, after, rfl, hne, hgap, _⟩ := exists_gap h
  exact ⟨lf :: gap, after, rfl, gap, hne, hgap, Or.inl rfl⟩

theorem foldsHere_crlf {rest : Bytes} (h : startsWithOws rest = true) :
    FoldsHere (cr :: lf :: rest) := by
  obtain ⟨gap, after, rfl, hne, hgap, _⟩ := exists_gap h
  exact ⟨cr :: lf :: gap, after, rfl, gap, hne, hgap, Or.inr rfl⟩

/-- At the start of a line a fold folds an empty line. -/
theorem FoldsNoEmptyLine.not_foldsHere {data : Bytes} (h : FoldsNoEmptyLine data) : ¬FoldsHere data := by
  rintro ⟨_, rest, rfl, gap, hne, hgap, rfl | rfl⟩
  · have hows := h [] [lf] (gap ++ rest) rfl (Or.inl rfl) (Or.inl rfl)
    rw [startsWithOws_gap rest hne hgap] at hows
    cases hows
  · have hows := h [] [cr, lf] (gap ++ rest) rfl (Or.inl rfl) (Or.inr rfl)
    rw [startsWithOws_gap rest hne hgap] at hows
    cases hows

/-! ## The loop -/

namespace Unfolded

variable {data result rest : Bytes}

/-- The loop, with its output so far. It takes a CR back only when the fold has
begun with it. -/
theorem unfoldLoop_eq (h : Unfolded data result) {normalized : Bytes}
    (hback : normalized.getLast? = some cr → ¬FoldsHere (cr :: data)) :
    unfoldLoop normalized data = normalized ++ result := by
  induction h generalizing normalized with
  | nil => rw [unfoldLoop, List.append_nil]
  | @fold _ rest result hfold hstop _ ih =>
    have hnext : (normalized ++ [sp]).getLast? = some cr → ¬FoldsHere (cr :: rest) := by
      rw [List.getLast?_concat]
      intro hcr
      cases hcr
    obtain ⟨gap, hne, hgap, rfl | rfl⟩ := hfold
    · have hows := startsWithOws_gap rest hne hgap
      have hlast : ¬normalized.getLast? = some cr := fun hcr => hback hcr (foldsHere_crlf hows)
      rw [List.cons_append, unfoldLoop, if_pos ⟨rfl, hows⟩, if_neg hlast, dropWhile_run hgap hstop,
        ih hnext, List.append_assoc]
      rfl
    · have hows := startsWithOws_gap rest hne hgap
      rw [List.cons_append, List.cons_append, unfoldLoop, if_neg fun hlf => absurd hlf.1 (by decide), unfoldLoop,
        if_pos ⟨rfl, hows⟩, List.getLast?_concat, if_pos rfl, List.dropLast_concat,
        dropWhile_run hgap hstop, ih hnext, List.append_assoc]
      rfl
  | @keep byte rest result hkeep _ ih =>
    have hnot : ¬(byte = lf ∧ startsWithOws rest = true) := by
      rintro ⟨rfl, hows⟩
      exact hkeep (foldsHere_lf hows)
    rw [unfoldLoop, if_neg hnot, ih, List.append_assoc]
    · rfl
    · rw [List.getLast?_concat]
      intro hcr
      cases hcr
      exact hkeep

theorem exists_of (data : Bytes) : ∃ result, Unfolded data result := by
  induction hsize : data.length using Nat.strongRecOn generalizing data with
  | ind size ih =>
  subst hsize
  by_cases hfold : FoldsHere data
  · -- The fold is taken with all the whitespace that follows it.
    obtain ⟨_, rest, rfl, gap, hne, hgap, hbreak⟩ := hfold
    obtain ⟨all, after, heq, hall, hows, hstop⟩ := exists_gap (startsWithOws_gap rest hne hgap)
    have hlen := congrArg List.length heq
    rw [List.length_append, List.length_append] at hlen
    obtain ⟨result, hresult⟩ := ih after.length (by
      rcases hbreak with rfl | rfl <;> simp <;> omega) after rfl
    rcases hbreak with rfl | rfl
    · refine ⟨sp :: result, ?_⟩
      rw [List.cons_append, heq]
      exact fold ⟨all, hall, hows, Or.inl rfl⟩ hstop hresult
    · refine ⟨sp :: result, ?_⟩
      rw [List.cons_append, List.cons_append, heq]
      exact fold ⟨all, hall, hows, Or.inr rfl⟩ hstop hresult
  · cases data with
    | nil => exact ⟨[], nil⟩
    | cons byte rest =>
      obtain ⟨result, hresult⟩ := ih rest.length (by simp) rest rfl
      exact ⟨byte :: result, keep hfold hresult⟩

theorem unfoldLoop_nil (h : Unfolded data result) : unfoldLoop [] data = result := by
  have hback : ([] : Bytes).getLast? = some cr → ¬FoldsHere (cr :: data) := by
    intro hcr
    cases hcr
  exact h.unfoldLoop_eq hback

theorem unique {other : Bytes} (h : Unfolded data result) (h' : Unfolded data other) :
    result = other := h.unfoldLoop_nil.symm.trans h'.unfoldLoop_nil

/-- Without a fold nothing is replaced. -/
theorem self (h : hasFold data = false) : Unfolded data data := by
  induction data with
  | nil => exact nil
  | cons byte rest ih =>
    rw [hasFold, Bool.or_eq_false_iff] at h
    refine keep ?_ (ih h.2)
    rintro ⟨_, after, heq, gap, hne, hgap, rfl | rfl⟩
    · rw [List.cons_append] at heq
      obtain ⟨rfl, rfl⟩ := List.cons.inj heq
      have hows := h.1
      rw [startsWithOws_gap after hne hgap] at hows
      cases hows
    · rw [List.cons_append, List.cons_append] at heq
      obtain ⟨rfl, rfl⟩ := List.cons.inj heq
      have hows := h.2
      rw [hasFold, startsWithOws_gap after hne hgap] at hows
      cases hows

/-- A fold that is replaced makes the text shorter. -/
theorem length_le (h : Unfolded data result) :
    result.length ≤ data.length ∧ (hasFold data = true → result.length < data.length) := by
  induction h with
  | nil => exact ⟨Nat.le_refl _, fun hfold => by cases hfold⟩
  | @fold fold rest result hfold _ _ ih =>
    have hlt : (sp :: result).length < (fold ++ rest).length := by
      obtain ⟨gap, hne, _, hbreak⟩ := hfold
      have hpos := List.length_pos_iff.mpr hne
      rcases hbreak with rfl | rfl <;> simp <;> omega
    exact ⟨Nat.le_of_lt hlt, fun _ => hlt⟩
  | @keep byte rest result hkeep _ ih =>
    refine ⟨Nat.succ_le_succ ih.1, fun hfold => Nat.succ_lt_succ (ih.2 ?_)⟩
    rw [hasFold, Bool.or_eq_true, Bool.and_eq_true, beq_iff_eq] at hfold
    rcases hfold with ⟨rfl, hows⟩ | hfold
    · exact absurd (foldsHere_lf hows) hkeep
    · exact hfold

theorem self_iff : Unfolded data data ↔ hasFold data = false := by
  constructor
  · intro h
    cases hfold : hasFold data with
    | false => rfl
    | true => exact absurd (h.length_le.2 hfold) (Nat.lt_irrefl _)
  · exact self

end Unfolded

/-- What `normalize_obs_fold` returns, whichever way it takes. -/
theorem normalizeObsFold_unfolded (data : Bytes) : Unfolded data (normalizeObsFold data) := by
  unfold normalizeObsFold
  cases hfold : hasFold data with
  | false =>
    rw [if_neg (by decide)]
    exact Unfolded.self hfold
  | true =>
    obtain ⟨result, hresult⟩ := Unfolded.exists_of data
    rw [if_pos rfl, hresult.unfoldLoop_nil]
    exact hresult

/-! ## Parts of a text whose empty lines are not folded -/

namespace FoldsNoEmptyLine

variable {front rest body : Bytes}

theorem after_lf (h : FoldsNoEmptyLine (front ++ lf :: rest)) : FoldsNoEmptyLine rest := by
  rintro before line after rfl hbefore hline
  refine h (front ++ lf :: before) line after (by simp) (Or.inr ?_) hline
  rcases hbefore with rfl | hlast
  · rw [List.getLast?_concat]
  · obtain ⟨init, rfl⟩ := List.getLast?_eq_some_iff.mp hlast
    have hsplit : front ++ lf :: (init ++ [lf]) = (front ++ lf :: init) ++ [lf] := by simp
    rw [hsplit, List.getLast?_concat]

/-- In the middle of a line it does not matter what the line starts with. -/
theorem inside (h : FoldsNoEmptyLine (front ++ rest)) : FoldsNoEmptyLine (sp :: rest) := by
  intro before line after heq hbefore hline
  cases before with
  | nil =>
    rcases hline with rfl | rfl
    · exact absurd (List.cons.inj heq).1 (by decide)
    · exact absurd (List.cons.inj heq).1 (by decide)
  | cons byte before =>
    obtain ⟨rfl, rfl⟩ := List.cons.inj heq
    rcases hbefore with hnil | hlast
    · cases hnil
    · obtain ⟨init, hinit⟩ := List.getLast?_eq_some_iff.mp hlast
      cases init with
      | nil => exact absurd (List.cons.inj hinit).1 (by decide)
      | cons byte init =>
        obtain ⟨rfl, rfl⟩ := List.cons.inj hinit
        refine h (front ++ (init ++ [lf])) line after (by simp) (Or.inr ?_) hline
        rw [← List.append_assoc, List.getLast?_concat]

theorem of_line (hbody : lf ∉ body)
    (hempty : body = [] ∨ body = [cr] → startsWithOws rest = false) (h : FoldsNoEmptyLine rest) :
    FoldsNoEmptyLine (body ++ lf :: rest) := by
  intro before line after heq hbefore hline
  rcases exists_line before with hnone | ⟨first, more, rfl, hfirst⟩
  · -- The empty line is the first one.
    rcases hbefore with rfl | hlast
    · obtain ⟨other, rfl, hother⟩ := isEmptyLine_iff.mp hline
      have heq' : body ++ lf :: rest = other ++ lf :: after := by simpa using heq
      obtain ⟨rfl, rfl⟩ := line_unique hbody (lf_not_mem_empty hother) heq'
      exact hempty hother
    · obtain ⟨init, rfl⟩ := List.getLast?_eq_some_iff.mp hlast
      exact absurd (by simp) hnone
  · have heq' : body ++ lf :: rest = first ++ lf :: (more ++ (line ++ after)) := by simpa using heq
    obtain ⟨rfl, rfl⟩ := line_unique hbody hfirst heq'
    refine h more line after rfl ?_ hline
    rcases hbefore with hnil | hlast
    · simp at hnil
    · cases hmore : more.getLast? with
      | none => exact Or.inl (List.getLast?_eq_none_iff.mp hmore)
      | some byte =>
        obtain ⟨init, rfl⟩ := List.getLast?_eq_some_iff.mp hmore
        have hsplit : body ++ lf :: (init ++ [byte]) = (body ++ lf :: init) ++ [byte] := by simp
        rw [hsplit, List.getLast?_concat] at hlast
        exact Or.inr hlast

end FoldsNoEmptyLine

/-! ## Counting empty lines -/

theorem emptyLines_line {body : Bytes} (rest : Bytes) (hbody : lf ∉ body) :
    emptyLines (body ++ lf :: rest) =
      emptyLines rest + if body = [] ∨ body = [cr] then 1 else 0 := by
  have hrun : ∀ byte ∈ body, (byte == lf) = false := by
    intro byte hmem
    rw [beq_eq_false_iff_ne]
    rintro rfl
    exact hbody hmem
  have hline : (body ++ [lf] == [lf] || body ++ [lf] == [cr, lf]) = true ↔ body = [] ∨ body = [cr] := by
    rw [Bool.or_eq_true, beq_iff_eq, beq_iff_eq]
    refine or_congr ⟨fun heq => ?_, fun heq => by rw [heq]; rfl⟩ ⟨fun heq => ?_, fun heq => by rw [heq]; rfl⟩
    · exact List.append_cancel_right (heq : body ++ [lf] = [] ++ [lf])
    · exact List.append_cancel_right (heq : body ++ [lf] = [cr] ++ [lf])
  unfold emptyLines
  rw [splitInclusive_line rest hrun (beq_self_eq_true lf), List.countP_cons]
  simp only [hline]

theorem emptyLines_unfinished {body : Bytes} (hbody : lf ∉ body) : emptyLines body = 0 := by
  have hpiece : ∀ line ∈ splitInclusive (· == lf) body, lf ∉ line := by
    intro line hline hmem
    refine hbody ?_
    rw [← flatten_splitInclusive (· == lf) body]
    exact List.mem_flatten.mpr ⟨line, hline, hmem⟩
  unfold emptyLines
  rw [List.countP_eq_zero]
  intro line hline hempty
  rw [Bool.or_eq_true, beq_iff_eq, beq_iff_eq] at hempty
  rcases hempty with rfl | rfl
  · exact hpiece _ hline (by decide)
  · exact hpiece _ hline (by decide)

/-- In the middle of a line it does not matter what the line starts with. -/
theorem emptyLines_inside {front rest : Bytes} (hfront : lf ∉ front) (hne : front ≠ [])
    (hcr : front = [cr] → rest.head? ≠ some lf) : emptyLines (front ++ rest) = emptyLines (sp :: rest) := by
  rcases exists_line rest with hnone | ⟨body, more, rfl, hbody⟩
  · rw [emptyLines_unfinished (by simp [hfront, hnone]),
      emptyLines_unfinished (by simp [hnone]; decide)]
  · have hfull : ¬(front ++ body = [] ∨ front ++ body = [cr]) := by
      rintro (hnil | hone)
      · exact hne (List.append_eq_nil_iff.mp hnil).1
      · rcases List.append_eq_singleton_iff.mp hone with ⟨hnil, _⟩ | ⟨hfirst, rfl⟩
        · exact hne hnil
        · exact hcr hfirst rfl
    have hother : ¬(sp :: body = [] ∨ sp :: body = [cr]) := by
      rintro (hnil | hone)
      · cases hnil
      · exact absurd (List.cons.inj hone).1 (by decide)
    have hsp : lf ∉ sp :: body := by
      rw [List.mem_cons, not_or]
      exact ⟨by decide, hbody⟩
    rw [← List.append_assoc, ← List.cons_append, emptyLines_line more (by simp [hfront, hbody]),
      emptyLines_line more hsp, if_neg hfull, if_neg hother]

theorem emptyLines_lf (rest : Bytes) : emptyLines (lf :: rest) = emptyLines rest + 1 :=
  emptyLines_line rest (List.not_mem_nil : lf ∉ [])

theorem emptyLines_crlf (rest : Bytes) : emptyLines (cr :: lf :: rest) = emptyLines rest + 1 :=
  emptyLines_line rest (by decide : lf ∉ [cr])

theorem emptyLines_sp_lf (rest : Bytes) : emptyLines (sp :: lf :: rest) = emptyLines rest :=
  emptyLines_line rest (by decide : lf ∉ [sp])

theorem emptyLines_sp_cons {byte : UInt8} (rest : Bytes) (h : byte ≠ lf) :
    emptyLines (sp :: byte :: rest) = emptyLines (sp :: rest) := by
  have hfront : lf ∉ [sp, byte] := by
    rw [List.mem_cons, List.mem_singleton, not_or]
    exact ⟨by decide, Ne.symm h⟩
  exact emptyLines_inside hfront (List.cons_ne_nil _ _) fun heq => absurd (List.cons.inj heq).1 (by decide)

theorem hasFold_cons {byte : UInt8} (rest : Bytes) (h : byte ≠ lf) :
    hasFold (byte :: rest) = hasFold rest := by
  rw [hasFold, beq_false_of_ne h, Bool.false_and, Bool.false_or]

theorem hasFold_lf (rest : Bytes) : hasFold (lf :: rest) = (startsWithOws rest || hasFold rest) := by
  rw [hasFold, beq_self_eq_true, Bool.true_and]

/-! ## What unfolding keeps -/

namespace Unfolded

variable {data result : Bytes}

/-- The result starts as the text does, or with the space of a fold. -/
theorem head?_eq (h : Unfolded data result) (hhere : ¬FoldsHere data) : result.head? = data.head? := by
  cases h with
  | nil => rfl
  | fold hfold _ _ => exact absurd ⟨_, _, rfl, hfold⟩ hhere
  | keep _ _ => rfl

/-- A result that starts with an LF comes from a text that does. -/
theorem head?_lf (h : Unfolded data result) (hlf : result.head? = some lf) : data.head? = some lf := by
  cases h with
  | nil => cases hlf
  | fold _ _ _ => exact absurd (Option.some.inj hlf) (by decide)
  | keep _ _ => exact hlf

/-- At the start of a line, and in the middle of one, where the line is taken to
start with a space. -/
theorem keeps_lines (h : Unfolded data result) :
    (FoldsNoEmptyLine data →
      hasFold result = false ∧ emptyLines result = emptyLines data) ∧
    (FoldsNoEmptyLine (sp :: data) →
      hasFold result = false ∧ emptyLines (sp :: result) = emptyLines (sp :: data)) := by
  induction h with
  | nil => exact ⟨fun _ => ⟨rfl, rfl⟩, fun _ => ⟨rfl, rfl⟩⟩
  | @fold fold rest result hfold _ _ ih =>
    refine ⟨fun hdata => absurd ⟨fold, rest, rfl, hfold⟩ hdata.not_foldsHere, fun hdata => ?_⟩
    have hline : FoldsNoEmptyLine ((sp :: fold) ++ rest) := hdata
    obtain ⟨hnone, hcount⟩ := ih.2 hline.inside
    refine ⟨by rw [hasFold_cons result (by decide), hnone], ?_⟩
    obtain ⟨gap, hne, hgap, hbreak⟩ := hfold
    have hlf : lf ∉ gap := fun hmem => absurd (hgap lf hmem) (by decide)
    have hcr : gap = [cr] → rest.head? ≠ some lf := by
      rintro rfl
      exact absurd (hgap cr (List.mem_singleton.mpr rfl)) (by decide)
    rw [emptyLines_sp_cons result (by decide), hcount, ← emptyLines_inside hlf hne hcr]
    rcases hbreak with rfl | rfl
    · rw [List.cons_append, emptyLines_sp_lf]
    · rw [List.cons_append, List.cons_append, emptyLines_sp_cons _ (by decide), emptyLines_sp_lf]
  | @keep byte rest result hkeep hrest ih =>
    -- After a line break the text goes on without whitespace, so the result does.
    have hlfCase : FoldsNoEmptyLine rest → byte = lf →
        hasFold (byte :: result) = false ∧ emptyLines result = emptyLines rest := by
      rintro hnext rfl
      obtain ⟨hnone, hcount⟩ := ih.1 hnext
      refine ⟨?_, hcount⟩
      rw [hasFold_lf, hnone, Bool.or_false]
      unfold startsWithOws
      rw [hrest.head?_eq hnext.not_foldsHere]
      cases hows : startsWithOws rest with
      | false => exact hows
      | true => exact absurd (foldsHere_lf hows) hkeep
    refine ⟨fun hdata => ?_, fun hdata => ?_⟩
    · by_cases hlf : byte = lf
      · have hline : FoldsNoEmptyLine ([] ++ lf :: rest) := hlf ▸ hdata
        have hnext := hline.after_lf
        obtain ⟨hnone, hcount⟩ := hlfCase hnext hlf
        subst hlf
        exact ⟨hnone, by rw [emptyLines_lf, emptyLines_lf, hcount]⟩
      · by_cases hcr : byte = cr ∧ rest.head? = some lf
        · -- The rest of an empty line.
          obtain ⟨rfl, hhead⟩ := hcr
          obtain ⟨after, rfl⟩ := List.head?_eq_some_iff.mp hhead
          have hows : startsWithOws after = false :=
            Bool.eq_false_iff.mpr fun hows => hkeep (foldsHere_crlf hows)
          have hline : FoldsNoEmptyLine ([cr] ++ lf :: after) := hdata
          have hnext : FoldsNoEmptyLine ([] ++ lf :: after) :=
            FoldsNoEmptyLine.of_line List.not_mem_nil (fun _ => hows) hline.after_lf
          obtain ⟨hnone, hcount⟩ := ih.1 hnext
          obtain ⟨tail, rfl⟩ := List.head?_eq_some_iff.mp (hrest.head?_eq hnext.not_foldsHere)
          rw [emptyLines_lf, emptyLines_lf] at hcount
          exact ⟨by rw [hasFold_cons _ hlf, hnone], by rw [emptyLines_crlf, emptyLines_crlf, hcount]⟩
        · have hline : FoldsNoEmptyLine ([byte] ++ rest) := hdata
          obtain ⟨hnone, hcount⟩ := ih.2 hline.inside
          have hfront : lf ∉ [byte] := fun hmem => hlf (List.mem_singleton.mp hmem).symm
          have hinside : ∀ text : Bytes, (text.head? = some lf → rest.head? = some lf) →
              emptyLines (byte :: text) = emptyLines (sp :: text) := by
            intro text htext
            refine emptyLines_inside hfront (List.cons_ne_nil _ _) fun heq hhead => hcr ?_
            exact ⟨(List.cons.inj heq).1, htext hhead⟩
          exact ⟨by rw [hasFold_cons result hlf, hnone],
            by rw [hinside result hrest.head?_lf, hinside rest id, hcount]⟩
    · by_cases hlf : byte = lf
      · have hline : FoldsNoEmptyLine ([sp] ++ lf :: rest) := hlf ▸ hdata
        have hnext := hline.after_lf
        obtain ⟨hnone, hcount⟩ := hlfCase hnext hlf
        subst hlf
        exact ⟨hnone, by rw [emptyLines_sp_lf, emptyLines_sp_lf, hcount]⟩
      · have hline : FoldsNoEmptyLine ([sp, byte] ++ rest) := hdata
        obtain ⟨hnone, hcount⟩ := ih.2 hline.inside
        exact ⟨by rw [hasFold_cons result hlf, hnone],
          by rw [emptyLines_sp_cons result hlf, emptyLines_sp_cons rest hlf, hcount]⟩

end Unfolded

/-! ## A section cut at its empty line -/

theorem exists_endsSection {data : Bytes} (h : 0 < emptyLines data) : ∃ stop, EndsSection data false stop := by
  induction hsize : data.length using Nat.strongRecOn generalizing data with
  | ind size ih =>
  subst hsize
  rcases exists_line data with hnone | ⟨body, more, rfl, hbody⟩
  · rw [emptyLines_unfinished hnone] at h
    exact absurd h (Nat.lt_irrefl 0)
  · by_cases hempty : body = [] ∨ body = [cr]
    · exact ⟨_, [], [], body ++ [lf], more, by simp, by simp, by simp,
        isEmptyLine_iff.mpr ⟨body, rfl, hempty⟩, rfl, rfl⟩
    · rw [emptyLines_line more hbody, if_neg hempty] at h
      obtain ⟨_, leading, lines, last, rest, rfl, _, hlines, hlast, hleading, _⟩ :=
        ih more.length (by simp; omega) h rfl
      obtain rfl : leading = [] := hleading
      have hfull : IsFullLine (body ++ [lf]) :=
        ⟨body, rfl, hbody, (not_or.mp hempty).1, (not_or.mp hempty).2⟩
      exact ⟨_, [], (body ++ [lf]) :: lines, last, rest, by simp, by simp,
        List.forall_mem_cons.mpr ⟨hfull, hlines⟩, hlast, rfl, rfl⟩

/-- Up to its first empty line a section folds no empty line, and has one. -/
theorem cut_section {data : Bytes} {stop : Nat} (h : EndsSection data false stop) :
    FoldsNoEmptyLine (data.take stop) ∧ emptyLines (data.take stop) = 1 := by
  obtain ⟨leading, lines, last, rest, rfl, _, hlines, hlast, hleading, rfl⟩ := h
  obtain rfl : leading = [] := hleading
  have htake : ([] : List Bytes).flatten ++ (lines.flatten ++ (last ++ rest)) =
      (([] : List Bytes).flatten ++ (lines.flatten ++ last)) ++ rest := by simp
  rw [htake, List.take_left, List.flatten_nil, List.nil_append]
  clear htake
  induction lines with
  | nil =>
    obtain ⟨body, rfl, hempty⟩ := isEmptyLine_iff.mp hlast
    have hnil : FoldsNoEmptyLine [] := by
      intro before line after heq _ hline
      obtain ⟨other, rfl, _⟩ := isEmptyLine_iff.mp hline
      simp at heq
    have hbody := lf_not_mem_empty hempty
    refine ⟨FoldsNoEmptyLine.of_line hbody (fun _ => rfl) hnil, ?_⟩
    rw [List.flatten_nil, List.nil_append, emptyLines_line [] hbody, if_pos hempty]
    rfl
  | cons line lines ih =>
    obtain ⟨ihFolds, ihCount⟩ := ih fun other hmem => hlines other (List.mem_cons_of_mem _ hmem)
    obtain ⟨body, rfl, hbody, hne, hcr⟩ := hlines line (List.mem_cons_self ..)
    have hfull : ¬(body = [] ∨ body = [cr]) := not_or.mpr ⟨hne, hcr⟩
    have hsplit : ((body ++ [lf]) :: lines).flatten ++ last = body ++ lf :: (lines.flatten ++ last) := by
      simp
    rw [hsplit]
    exact ⟨FoldsNoEmptyLine.of_line hbody (fun hempty => absurd hempty hfull) ihFolds,
      by rw [emptyLines_line _ hbody, if_neg hfull, ihCount]⟩

theorem not_ows_after_lf {data before after : Bytes} {byte : UInt8} (h : hasFold data = false)
    (heq : data = before ++ lf :: byte :: after) : isOws byte = false := by
  subst heq
  induction before with
  | nil =>
    rw [List.nil_append, hasFold_lf, Bool.or_eq_false_iff] at h
    exact h.1
  | cons first before ih =>
    rw [List.cons_append, hasFold, Bool.or_eq_false_iff] at h
    exact ih h.2

/-- A text with an empty line is a section the parser has an answer for. -/
theorem parseTrailers_answers {hp : Httparse} {data : Bytes} {stop : Nat} (maxHeaders : Nat)
    (normalizeFolding : Bool)
    (hwaits : ∀ (buffer : Bytes) (slots : Nat),
      hp.headers buffer slots = .ok none → emptyLineEnd buffer false = none)
    (h : EndsSection data false stop) : parseTrailers hp data maxHeaders normalizeFolding ≠ .ok none := by
  obtain ⟨hfolds, hone⟩ := cut_section h
  have hlines : 0 < emptyLines
      (if normalizeFolding then normalizeObsFold (data.take stop) else data.take stop) := by
    cases normalizeFolding with
    | false => exact hone ▸ Nat.one_pos
    | true =>
      rw [if_pos rfl, ((normalizeObsFold_unfolded (data.take stop)).keeps_lines.1 hfolds).2, hone]
      exact Nat.one_pos
  have hcut : data.take ((SectionProgress.new.poll data false).1.getD data.length) = data.take stop := by
    have hend : (SectionProgress.new.poll data false).1 = some stop := (emptyLineEnd_iff data false stop).mpr h
    rw [hend, Option.getD_some]
  unfold parseTrailers
  intro hnone
  dsimp only at hnone
  split at hnone
  · cases hnone
  · next hincomplete =>
    obtain ⟨found, hfound⟩ := exists_endsSection hlines
    have hno := hwaits _ maxHeaders (congrArg (parsedAs RawSection.parts) hincomplete)
    rw [hcut, (emptyLineEnd_iff _ _ _).mpr hfound] at hno
    cases hno
  · cases hnone

/-- Unfolding removes the folds, all of them and nothing else, and keeps the
empty lines, so that a section still ends. -/
theorem obsolete_folding_is_removed (hp : Httparse)
    (hwaits : ∀ (buffer : Bytes) (slots : Nat),
      hp.headers buffer slots = .ok none → emptyLineEnd buffer false = none) :
    (∀ data result : Bytes, Unfolded data result ↔ result = normalizeObsFold data) ∧
    (∀ data : Bytes, hasFold data = false ↔ Unfolded data data) ∧
    (∀ data : Bytes, FoldsNoEmptyLine data →
      (∀ before byte after, normalizeObsFold data = before ++ lf :: byte :: after → isOws byte = false) ∧
      normalizeObsFold (normalizeObsFold data) = normalizeObsFold data ∧
      emptyLines (normalizeObsFold data) = emptyLines data) ∧
    (∀ (data : Bytes) (stop maxHeaders : Nat) (normalizeFolding : Bool), EndsSection data false stop →
      FoldsNoEmptyLine (data.take stop) ∧ emptyLines (normalizeObsFold (data.take stop)) = 1 ∧
      emptyLines (data.take stop) = 1 ∧
      parseTrailers hp data maxHeaders normalizeFolding ≠ .ok none) := by
  refine ⟨fun data result => ⟨fun h => ?_, ?_⟩, fun data => Unfolded.self_iff.symm, fun data h => ?_,
    fun data stop maxHeaders normalizeFolding h => ?_⟩
  · exact h.unique (normalizeObsFold_unfolded data)
  · rintro rfl
    exact normalizeObsFold_unfolded data
  · obtain ⟨hnone, hcount⟩ := (normalizeObsFold_unfolded data).keeps_lines.1 h
    refine ⟨fun before byte after heq => not_ows_after_lf hnone heq, ?_, hcount⟩
    exact (normalizeObsFold_unfolded (normalizeObsFold data)).unique (Unfolded.self hnone)
  · obtain ⟨hfolds, hone⟩ := cut_section h
    have hcount := ((normalizeObsFold_unfolded (data.take stop)).keeps_lines.1 hfolds).2
    exact ⟨hfolds, hcount.trans hone, hone, parseTrailers_answers maxHeaders normalizeFolding hwaits h⟩

/-- A trailer section of two lines, the second folded, with its empty line. -/
theorem folded_section_answered : EndsSection (ascii "a: b\r\n c\r\n\r\n") false 12 ∧
    parseTrailers Reference.httparse (ascii "a: b\r\n c\r\n\r\n") 4 true ≠ .ok none := by
  have hsection : EndsSection (ascii "a: b\r\n c\r\n\r\n") false 12 :=
    (emptyLineEnd_iff _ _ _).mp (by decide +kernel)
  have hwaits : ∀ (buffer : Bytes) (slots : Nat), Reference.httparse.headers buffer slots = .ok none →
      emptyLineEnd buffer false = none := fun _ slots => (Reference.stable.headers slots).waits
  exact ⟨hsection,
    ((obsolete_folding_is_removed Reference.httparse hwaits).2.2.2 _ 12 4 true hsection).2.2.2⟩

end H11r
