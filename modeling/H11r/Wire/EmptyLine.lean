import H11r.Wire.Section
import H11r.Lib.Lines

/-!
# The empty line that ends a field section

What `SectionProgress` looks for, said of the text alone: the first empty line,
or the first after a line with content where leading empty lines are skipped
(`EndsSection`). A scan that is resumed on a longer and longer buffer finds the
line a fresh scan of the last buffer finds, however many calls the size test
kept from scanning (`SectionProgress.Watched`).
-/

namespace H11r

open Lib

/-- An LF or CRLF on its own. -/
def IsEmptyLine (line : Bytes) : Prop := line = [lf] ∨ line = [cr, lf]

/-- A line with content, and the LF that ends it. -/
def IsFullLine (line : Bytes) : Prop :=
  ∃ body, line = body ++ [lf] ∧ lf ∉ body ∧ body ≠ [] ∧ body ≠ [cr]

/-- Up to `stop` stand empty lines, lines with content, and an empty line.
Leading empty lines are skipped only in front of a line with content. -/
def EndsSection (data : Bytes) (skip : Bool) (stop : Nat) : Prop :=
  ∃ (leading lines : List Bytes) (last rest : Bytes), data = leading.flatten ++ (lines.flatten ++ (last ++ rest)) ∧
    (∀ line ∈ leading, IsEmptyLine line) ∧ (∀ line ∈ lines, IsFullLine line) ∧ IsEmptyLine last ∧
    (if skip then lines ≠ [] else leading = []) ∧
    stop = (leading.flatten ++ (lines.flatten ++ last)).length

/-! ## Lines of a text -/

theorem exists_line (text : Bytes) : lf ∉ text ∨ ∃ body rest, text = body ++ lf :: rest ∧ lf ∉ body := by
  obtain ⟨body, rest, rfl, hbody, hstop, _⟩ := exists_run (· != lf) text
  have hnot : lf ∉ body := fun hmem => by simpa using hbody lf hmem
  cases rest with
  | nil => exact Or.inl (by simpa using hnot)
  | cons byte rest =>
    have hbyte : byte = lf := by simpa using hstop byte rfl
    subst hbyte
    exact Or.inr ⟨body, rest, rfl, hnot⟩

/-- The first line of a text is determined. -/
theorem line_unique {body body' rest rest' : Bytes} (h : lf ∉ body) (h' : lf ∉ body')
    (heq : body ++ lf :: rest = body' ++ lf :: rest') : body = body' ∧ rest = rest' := by
  have hrun : ∀ {text : Bytes}, lf ∉ text → ∀ byte ∈ text, (byte != lf) = true := by
    intro text htext byte hmem
    rw [bne_iff_ne]
    rintro rfl
    exact htext hmem
  have hstop : ∀ more : Bytes, Stops (· != lf) (lf :: more) := fun more => stops_cons more (by simp)
  have hbody : body = body' := by
    rw [← takeWhile_run (hrun h) (hstop rest), heq, takeWhile_run (hrun h') (hstop rest')]
  subst hbody
  exact ⟨rfl, (List.cons.inj (List.append_cancel_left heq)).2⟩

/-- An empty line is a body of nothing or of a CR, and its LF. -/
theorem isEmptyLine_iff {line : Bytes} :
    IsEmptyLine line ↔ ∃ body, line = body ++ [lf] ∧ (body = [] ∨ body = [cr]) := by
  constructor
  · rintro (rfl | rfl)
    · exact ⟨[], rfl, Or.inl rfl⟩
    · exact ⟨[cr], rfl, Or.inr rfl⟩
  · rintro ⟨body, rfl, rfl | rfl⟩
    · exact Or.inl rfl
    · exact Or.inr rfl

theorem lf_not_mem_empty {body : Bytes} (h : body = [] ∨ body = [cr]) : lf ∉ body := by
  rcases h with rfl | rfl <;> decide

namespace SectionProgress

variable {data text : Bytes} {start stop parsed : Nat} {started skip : Bool}

/-! ## What the scan finds -/

theorem poll_started (h : At data start text) (hstarted : started = true ∨ skip = false) :
    (poll ⟨start, start, started, parsed⟩ data skip).1 = some stop ↔
      ∃ (lines : List Bytes) (last rest : Bytes), text = lines.flatten ++ (last ++ rest) ∧ (∀ line ∈ lines, IsFullLine line) ∧
        IsEmptyLine last ∧ stop = start + (lines.flatten ++ last).length := by
  induction hsize : text.length using Nat.strongRecOn generalizing text start started with
  | ind size ih =>
  subst hsize
  rcases exists_line text with hnone | ⟨body, more, rfl, hbody⟩
  · rw [poll_unfinished h hnone]
    constructor
    · intro hfound
      cases hfound
    · rintro ⟨lines, last, rest, rfl, _, hlast, _⟩
      obtain ⟨body, rfl, _⟩ := isEmptyLine_iff.mp hlast
      exact absurd (by simp) hnone
  · have hnext : At data (start + body.length + 1) more := h.skip.next
    rw [poll_line h hbody]
    by_cases hempty : body = [] ∨ body = [cr]
    · rw [if_pos hempty, if_pos hstarted]
      constructor
      · intro hfound
        cases hfound
        exact ⟨[], body ++ [lf], more, by simp, by simp, isEmptyLine_iff.mpr ⟨body, rfl, hempty⟩,
          by simp; omega⟩
      · rintro ⟨lines, last, rest, heq, hlines, hlast, rfl⟩
        cases lines with
        | nil =>
          obtain ⟨body', rfl, hempty'⟩ := isEmptyLine_iff.mp hlast
          have heq' : body ++ lf :: more = body' ++ lf :: rest := by simpa using heq
          obtain ⟨rfl, _⟩ := line_unique hbody (lf_not_mem_empty hempty') heq'
          simp
          omega
        | cons line lines =>
          obtain ⟨body', rfl, hbody', hne, hcr⟩ := hlines line (List.mem_cons_self ..)
          have heq' : body ++ lf :: more = body' ++ lf :: (lines.flatten ++ (last ++ rest)) := by
            simpa using heq
          obtain ⟨rfl, _⟩ := line_unique hbody hbody' heq'
          exact absurd hempty (not_or.mpr ⟨hne, hcr⟩)
    · rw [if_neg hempty, ih more.length (by simp; omega) hnext (Or.inl rfl) rfl]
      rw [not_or] at hempty
      constructor
      · rintro ⟨lines, last, rest, rfl, hlines, hlast, rfl⟩
        refine ⟨(body ++ [lf]) :: lines, last, rest, by simp, fun line hmem => ?_, hlast,
          by simp; omega⟩
        rcases List.mem_cons.mp hmem with rfl | hmem
        · exact ⟨body, rfl, hbody, hempty.1, hempty.2⟩
        · exact hlines line hmem
      · rintro ⟨lines, last, rest, heq, hlines, hlast, rfl⟩
        cases lines with
        | nil =>
          obtain ⟨body', rfl, hempty'⟩ := isEmptyLine_iff.mp hlast
          have heq' : body ++ lf :: more = body' ++ lf :: rest := by simpa using heq
          obtain ⟨rfl, _⟩ := line_unique hbody (lf_not_mem_empty hempty') heq'
          exact absurd hempty' (not_or.mpr hempty)
        | cons line lines =>
          obtain ⟨body', rfl, hbody', _, _⟩ := hlines line (List.mem_cons_self ..)
          have heq' : body ++ lf :: more = body' ++ lf :: (lines.flatten ++ (last ++ rest)) := by
            simpa using heq
          obtain ⟨rfl, hmore⟩ := line_unique hbody hbody' heq'
          exact ⟨lines, last, rest, hmore,
            fun other hmem => hlines other (List.mem_cons_of_mem _ hmem), hlast, by simp; omega⟩

theorem poll_leading (h : At data start text) :
    (poll ⟨start, start, false, parsed⟩ data true).1 = some stop ↔
      ∃ (leading lines : List Bytes) (last rest : Bytes), text = leading.flatten ++ (lines.flatten ++ (last ++ rest)) ∧
        (∀ line ∈ leading, IsEmptyLine line) ∧ (∀ line ∈ lines, IsFullLine line) ∧ IsEmptyLine last ∧
        lines ≠ [] ∧ stop = start + (leading.flatten ++ (lines.flatten ++ last)).length := by
  induction hsize : text.length using Nat.strongRecOn generalizing text start with
  | ind size ih =>
  subst hsize
  rcases exists_line text with hnone | ⟨body, more, rfl, hbody⟩
  · rw [poll_unfinished h hnone]
    constructor
    · intro hfound
      cases hfound
    · rintro ⟨leading, lines, last, rest, rfl, _, _, hlast, _, _⟩
      obtain ⟨body, rfl, _⟩ := isEmptyLine_iff.mp hlast
      exact absurd (by simp) hnone
  · have hnext : At data (start + body.length + 1) more := h.skip.next
    rw [poll_line h hbody]
    by_cases hempty : body = [] ∨ body = [cr]
    · rw [if_pos hempty, if_neg (by simp), ih more.length (by simp; omega) hnext rfl]
      constructor
      · rintro ⟨leading, lines, last, rest, rfl, hleading, hlines, hlast, hne, rfl⟩
        refine ⟨(body ++ [lf]) :: leading, lines, last, rest, by simp, fun line hmem => ?_, hlines,
          hlast, hne, by simp; omega⟩
        rcases List.mem_cons.mp hmem with rfl | hmem
        · exact isEmptyLine_iff.mpr ⟨body, rfl, hempty⟩
        · exact hleading line hmem
      · rintro ⟨leading, lines, last, rest, heq, hleading, hlines, hlast, hne, rfl⟩
        cases leading with
        | nil =>
          obtain ⟨line, lines, rfl⟩ := List.exists_cons_of_ne_nil hne
          obtain ⟨body', rfl, hbody', hne', hcr⟩ := hlines line (List.mem_cons_self ..)
          have heq' : body ++ lf :: more = body' ++ lf :: (lines.flatten ++ (last ++ rest)) := by
            simpa using heq
          obtain ⟨rfl, _⟩ := line_unique hbody hbody' heq'
          exact absurd hempty (not_or.mpr ⟨hne', hcr⟩)
        | cons line leading =>
          obtain ⟨body', rfl, hempty'⟩ := isEmptyLine_iff.mp (hleading line (List.mem_cons_self ..))
          have heq' : body ++ lf :: more =
              body' ++ lf :: (leading.flatten ++ (lines.flatten ++ (last ++ rest))) := by
            simpa using heq
          obtain ⟨rfl, hmore⟩ := line_unique hbody (lf_not_mem_empty hempty') heq'
          exact ⟨leading, lines, last, rest, hmore,
            fun other hmem => hleading other (List.mem_cons_of_mem _ hmem), hlines, hlast, hne,
            by simp; omega⟩
    · rw [if_neg hempty, poll_started hnext (Or.inl rfl)]
      have hfull : IsFullLine (body ++ [lf]) :=
        ⟨body, rfl, hbody, (not_or.mp hempty).1, (not_or.mp hempty).2⟩
      constructor
      · rintro ⟨lines, last, rest, rfl, hlines, hlast, rfl⟩
        refine ⟨[], (body ++ [lf]) :: lines, last, rest, by simp, by simp, fun line hmem => ?_, hlast,
          by simp, by simp; omega⟩
        rcases List.mem_cons.mp hmem with rfl | hmem
        · exact hfull
        · exact hlines line hmem
      · rintro ⟨leading, lines, last, rest, heq, hleading, hlines, hlast, hne, rfl⟩
        cases leading with
        | nil =>
          obtain ⟨line, lines, rfl⟩ := List.exists_cons_of_ne_nil hne
          obtain ⟨body', rfl, hbody', _, _⟩ := hlines line (List.mem_cons_self ..)
          have heq' : body ++ lf :: more = body' ++ lf :: (lines.flatten ++ (last ++ rest)) := by
            simpa using heq
          obtain ⟨rfl, hmore⟩ := line_unique hbody hbody' heq'
          exact ⟨lines, last, rest, hmore,
            fun other hmem => hlines other (List.mem_cons_of_mem _ hmem), hlast, by simp; omega⟩
        | cons line leading =>
          obtain ⟨body', rfl, hempty'⟩ := isEmptyLine_iff.mp (hleading line (List.mem_cons_self ..))
          have heq' : body ++ lf :: more =
              body' ++ lf :: (leading.flatten ++ (lines.flatten ++ (last ++ rest))) := by
            simpa using heq
          obtain ⟨rfl, _⟩ := line_unique hbody (lf_not_mem_empty hempty') heq'
          exact absurd hempty' hempty

end SectionProgress

/-- A fresh scan finds the end of the section. -/
theorem emptyLineEnd_iff (data : Bytes) (skip : Bool) (stop : Nat) :
    emptyLineEnd data skip = some stop ↔ EndsSection data skip stop := by
  unfold emptyLineEnd EndsSection
  cases skip with
  | true =>
    show (SectionProgress.poll ⟨0, 0, false, 0⟩ data true).1 = some stop ↔ _
    rw [SectionProgress.poll_leading (At.start data)]
    simp only [if_true, Nat.zero_add]
  | false =>
    show (SectionProgress.poll ⟨0, 0, false, 0⟩ data false).1 = some stop ↔ _
    rw [SectionProgress.poll_started (At.start data) (Or.inr rfl)]
    constructor
    · rintro ⟨lines, last, rest, rfl, hlines, hlast, rfl⟩
      exact ⟨[], lines, last, rest, rfl, by simp, hlines, hlast, rfl, by simp⟩
    · rintro ⟨_, lines, last, rest, rfl, _, hlines, hlast, rfl, rfl⟩
      exact ⟨lines, last, rest, rfl, hlines, hlast, by simp⟩

/-! ## A scan that is resumed -/

namespace SectionProgress

/-- Whether a call of `due` runs the line scan, and the scan finds the line. -/
def finds (progress : SectionProgress) (data : Bytes) (skip : Bool) : Bool :=
  decide (data.length < saturatingMul progress.parsed 2) && (progress.poll data skip).1.isSome

/-- `Watched skip data progress found`: calls of `due` on longer and longer
buffers, the last of them `data`, have left the notes `progress`; `found` says
whether the line scan has found the line. -/
inductive Watched (skip : Bool) : Bytes → SectionProgress → Bool → Prop where
  | fresh : Watched skip [] new false
  | looked {data : Bytes} {progress : SectionProgress} {found : Bool} (more : Bytes)
      (h : Watched skip data progress found) :
      Watched skip (data ++ more) (progress.due (data ++ more) skip).2
        (found || progress.finds (data ++ more) skip)

variable {progress : SectionProgress} {data : Bytes} {skip found : Bool}

/-- The size of the last parse plays no part in the scan. -/
theorem poll_parsed (progress : SectionProgress) (data : Bytes) (skip : Bool) (parsed : Nat) :
    poll { progress with parsed := parsed } data skip =
      ((progress.poll data skip).1, { (progress.poll data skip).2 with parsed := parsed }) := by
  fun_induction progress.poll data skip with
  | case1 progress hlt next hlf line hempty hstarted =>
    rw [poll, dif_pos hlt]
    dsimp only
    rw [if_pos hlf]
    exact (if_pos hempty).trans (if_pos hstarted)
  | case2 progress hlt next hlf line hempty hstarted ih =>
    rw [← ih, poll, dif_pos hlt]
    dsimp only
    rw [if_pos hlf]
    exact (if_pos hempty).trans (if_neg hstarted)
  | case3 progress hlt next hlf line hempty ih =>
    rw [← ih, poll, dif_pos hlt]
    dsimp only
    rw [if_pos hlf]
    exact if_neg hempty
  | case4 progress hlt next hlf ih =>
    rw [← ih, poll, dif_pos hlt]
    dsimp only
    rw [if_neg hlf]
  | case5 progress hlt =>
    rw [poll, dif_neg hlt]

/-- The positions stay in order and in the buffer. -/
theorem poll_inside (hline : progress.lineStart ≤ progress.position)
    (hposition : progress.position ≤ data.length) :
    (progress.poll data skip).2.lineStart ≤ (progress.poll data skip).2.position ∧
      (progress.poll data skip).2.position ≤ data.length := by
  fun_induction progress.poll data skip with
  | case1 progress hlt next hlf line hempty hstarted => exact ⟨Nat.le_refl _, hlt⟩
  | case2 progress hlt next hlf line hempty hstarted ih => exact ih (Nat.le_refl _) hlt
  | case3 progress hlt next hlf line hempty ih => exact ih (Nat.le_refl _) hlt
  | case4 progress hlt next hlf ih => exact ih (Nat.le_succ_of_le hline) hlt
  | case5 progress hlt => exact ⟨hline, hposition⟩

/-- The notes a call of `due` leaves are those it was given, with or without the
line scan. -/
theorem due_notes (progress : SectionProgress) (data : Bytes) (skip : Bool) :
    (data.length ≥ saturatingMul progress.parsed 2 ∧
      progress.due data skip = (true, { progress with parsed := data.length })) ∨
    (data.length < saturatingMul progress.parsed 2 ∧
      ∃ parsed, progress.due data skip =
        ((progress.poll data skip).1.isSome, { (progress.poll data skip).2 with parsed := parsed })) := by
  unfold due
  split
  next hsize => exact Or.inl ⟨hsize, rfl⟩
  next hsize =>
    refine Or.inr ⟨Nat.lt_of_not_le hsize, ?_⟩
    split
    next stop after hpoll => exact ⟨data.length, by rw [hpoll]; rfl⟩
    next after hpoll => exact ⟨after.parsed, by rw [hpoll]; rfl⟩

theorem Watched.inside (h : Watched skip data progress found) :
    progress.lineStart ≤ progress.position ∧ progress.position ≤ data.length := by
  induction h with
  | fresh => exact ⟨Nat.le_refl _, Nat.le_refl _⟩
  | @looked data progress found more _ ih =>
    have hlonger : progress.position ≤ (data ++ more).length := by
      rw [List.length_append]
      omega
    rcases progress.due_notes (data ++ more) skip with ⟨_, hdue⟩ | ⟨_, parsed, hdue⟩
    · rw [hdue]
      exact ⟨ih.1, hlonger⟩
    · rw [hdue]
      exact poll_inside ih.1 hlonger

/-- There is no line to find in an empty buffer. -/
theorem Watched.nil (h : Watched skip [] progress found) : found = false := by
  generalize hdata : ([] : Bytes) = data at h
  induction h with
  | fresh => rfl
  | @looked data progress found more _ ih =>
    obtain ⟨hbefore, _⟩ := List.append_eq_nil_iff.mp hdata.symm
    have hnothing : ¬progress.position < ([] : Bytes).length := Nat.not_lt_zero _
    rw [ih hbefore.symm, ← hdata, Bool.false_or]
    unfold finds
    rw [poll, dif_neg hnothing]
    exact Bool.and_false _

/-- Until it finds the line, the scan stands where a fresh scan of some part of
the buffer has stopped. -/
theorem Watched.stopped (h : Watched skip data progress false) :
    ∃ seen rest parsed, data = seen ++ rest ∧ (new.poll seen skip).1 = none ∧
      progress = { (new.poll seen skip).2 with parsed := parsed } := by
  generalize hfound : false = found at h
  induction h with
  | fresh =>
    refine ⟨[], [], 0, rfl, ?_, ?_⟩
    · rw [poll, dif_neg (by decide)]
    · rw [poll, dif_neg (by decide)]
      rfl
  | @looked data progress found more _ ih =>
    obtain ⟨hbefore, hnow⟩ := Bool.or_eq_false_iff.mp hfound.symm
    obtain ⟨seen, rest, parsed, rfl, hnone, rfl⟩ := ih hbefore.symm
    rcases due_notes { (new.poll seen skip).2 with parsed := parsed } (seen ++ rest ++ more) skip with
      ⟨_, hdue⟩ | ⟨hscans, parsed', hdue⟩
    · rw [hdue]
      exact ⟨seen, rest ++ more, _, by simp, hnone, rfl⟩
    · have hpoll : poll { (new.poll seen skip).2 with parsed := parsed } (seen ++ rest ++ more) skip =
          ((new.poll (seen ++ rest ++ more) skip).1,
            { (new.poll (seen ++ rest ++ more) skip).2 with parsed := parsed }) := by
        rw [poll_parsed, List.append_assoc, poll_resume _ hnone]
      unfold finds at hnow
      rw [decide_eq_true hscans, Bool.true_and, hpoll, Option.isSome_eq_false_iff,
        Option.isNone_iff_eq_none] at hnow
      rw [hdue, hpoll]
      exact ⟨seen ++ rest ++ more, [], parsed', by simp, hnow, rfl⟩

/-- The next look finds what a fresh scan finds. -/
theorem Watched.poll_eq (h : Watched skip data progress false) (more : Bytes) :
    (progress.poll (data ++ more) skip).1 = emptyLineEnd (data ++ more) skip := by
  obtain ⟨seen, rest, parsed, rfl, hnone, rfl⟩ := h.stopped
  rw [poll_parsed, List.append_assoc, poll_resume _ hnone]
  rfl

/-- The first call on a buffer that holds the line says so. -/
theorem Watched.due_eq (h : Watched skip data progress false) {more : Bytes} {stop : Nat}
    (hstop : EndsSection (data ++ more) skip stop) : (progress.due (data ++ more) skip).1 = true := by
  rcases progress.due_notes (data ++ more) skip with ⟨_, hdue⟩ | ⟨_, parsed, hdue⟩
  · rw [hdue]
  · rw [hdue, h.poll_eq, (emptyLineEnd_iff _ _ _).mpr hstop]
    rfl

end SectionProgress

end H11r
