import H11r.Wire.Chunked
import H11r.Lib.Text

/-!
# The line scan of a field section

`SectionProgress::poll` looks for the empty line that ends a field section, and
goes on where it stopped when more bytes have come. Stopping and going on
cannot be told from one scan over everything (`poll_resume`), and a scan that
has found the line finds the same one whatever follows (`poll_append`).
-/

namespace H11r

/-- A range that ends in the first part of a buffer. -/
theorem Span.slice_append_left {start stop : Nat} {bytes : Bytes} (more : Bytes)
    (h : stop ≤ bytes.length) :
    Span.slice ⟨start, stop⟩ (bytes ++ more) = Span.slice ⟨start, stop⟩ bytes := by
  rcases Nat.le_total start stop with hle | hle
  · exact slice_append more ⟨hle, h⟩
  · unfold slice
    simp only [Nat.sub_eq_zero_of_le hle, List.take_zero]

namespace SectionProgress

/-- The branch the scan takes at a position depends on the bytes up to it. -/
theorem poll_append_step {progress : SectionProgress} {data : Bytes} {skip : Bool} (more : Bytes)
    (h : progress.position < data.length) :
    progress.poll (data ++ more) skip =
      if data[progress.position] = lf then
        let line := Span.slice ⟨progress.lineStart, progress.position⟩ data
        let next := progress.position + 1
        if line.isEmpty ∨ line = [cr] then
          if progress.started ∨ !skip then
            (some next, { progress with position := next, lineStart := next })
          else poll { progress with position := next, lineStart := next } (data ++ more) skip
        else
          poll { progress with position := next, lineStart := next, started := true } (data ++ more)
            skip
      else poll { progress with position := progress.position + 1 } (data ++ more) skip := by
  rw [poll, dif_pos (by rw [List.length_append]; omega)]
  simp only [List.getElem_append_left h, Span.slice_append_left more (Nat.le_of_lt h)]

theorem poll_le {progress : SectionProgress} {data : Bytes} {skip : Bool} {stop : Nat}
    (h : (progress.poll data skip).1 = some stop) : stop ≤ data.length := by
  fun_induction progress.poll data skip with
  | case1 progress hlt next hlf line hempty hstarted =>
    rw [← Option.some.inj h]
    exact hlt
  | case2 progress hlt next hlf line hempty hstarted ih => exact ih h
  | case3 progress hlt next hlf line hempty ih => exact ih h
  | case4 progress hlt next hlf ih => exact ih h
  | case5 progress hlt => cases h

theorem poll_pos {progress : SectionProgress} {data : Bytes} {skip : Bool} {stop : Nat}
    (h : (progress.poll data skip).1 = some stop) : 0 < stop := by
  fun_induction progress.poll data skip with
  | case1 progress hlt next hlf line hempty hstarted =>
    rw [← Option.some.inj h]
    exact Nat.succ_pos _
  | case2 progress hlt next hlf line hempty hstarted ih => exact ih h
  | case3 progress hlt next hlf line hempty ih => exact ih h
  | case4 progress hlt next hlf ih => exact ih h
  | case5 progress hlt => cases h

/-- What has been found stays found. -/
theorem poll_append {progress : SectionProgress} {data : Bytes} {skip : Bool} {stop : Nat}
    (more : Bytes) (h : (progress.poll data skip).1 = some stop) :
    progress.poll (data ++ more) skip = progress.poll data skip := by
  fun_induction progress.poll data skip with
  | case1 progress hlt next hlf line hempty hstarted =>
    rw [poll_append_step more hlt, if_pos hlf]
    exact (if_pos hempty).trans (if_pos hstarted)
  | case2 progress hlt next hlf line hempty hstarted ih =>
    rw [poll_append_step more hlt, if_pos hlf, ← ih h]
    exact (if_pos hempty).trans (if_neg hstarted)
  | case3 progress hlt next hlf line hempty ih =>
    rw [poll_append_step more hlt, if_pos hlf, ← ih h]
    exact if_neg hempty
  | case4 progress hlt next hlf ih =>
    rw [poll_append_step more hlt, if_neg hlf, ← ih h]
  | case5 progress hlt => cases h

/-- A scan that found nothing goes on where it stopped. -/
theorem poll_resume {progress : SectionProgress} {data : Bytes} {skip : Bool} (more : Bytes)
    (h : (progress.poll data skip).1 = none) :
    (progress.poll data skip).2.poll (data ++ more) skip = progress.poll (data ++ more) skip := by
  fun_induction progress.poll data skip with
  | case1 progress hlt next hlf line hempty hstarted => cases h
  | case2 progress hlt next hlf line hempty hstarted ih =>
    rw [poll_append_step more hlt, if_pos hlf, ih h]
    exact ((if_pos hempty).trans (if_neg hstarted)).symm
  | case3 progress hlt next hlf line hempty ih =>
    rw [poll_append_step more hlt, if_pos hlf, ih h]
    exact (if_neg hempty).symm
  | case4 progress hlt next hlf ih =>
    rw [poll_append_step more hlt, if_neg hlf, ih h]
  | case5 progress hlt => rfl

/-! ## The scan, line by line -/

section ByLine

open Lib

variable {data run rest body : Bytes} {start lineStart parsed : Nat} {started skip : Bool}

/-- The scan passes over bytes that are no line break. -/
theorem poll_run (h : At data start (run ++ rest)) (hrun : lf ∉ run) :
    poll ⟨start, lineStart, started, parsed⟩ data skip =
      poll ⟨start + run.length, lineStart, started, parsed⟩ data skip := by
  induction run generalizing start with
  | nil => rfl
  | cons byte run ih =>
    rw [List.mem_cons, not_or] at hrun
    have hbyte := h.getElem?
    rw [List.cons_append, List.head?_cons] at hbyte
    obtain ⟨hlt, hget⟩ := List.getElem?_eq_some_iff.mp hbyte
    rw [poll, dif_pos hlt]
    have hne : ¬data[start] = lf := fun hlf => hrun.1 (hlf.symm.trans hget)
    dsimp only
    rw [if_neg hne, ih h.next hrun.2, List.length_cons]
    congr 2
    omega

/-- The scan of a whole line. -/
theorem poll_line (h : At data start (body ++ lf :: rest)) (hbody : lf ∉ body) :
    poll ⟨start, start, started, parsed⟩ data skip =
      if body = [] ∨ body = [cr] then
        if started = true ∨ skip = false then
          (some (start + body.length + 1),
            ⟨start + body.length + 1, start + body.length + 1, started, parsed⟩)
        else poll ⟨start + body.length + 1, start + body.length + 1, started, parsed⟩ data skip
      else poll ⟨start + body.length + 1, start + body.length + 1, true, parsed⟩ data skip := by
  have hbyte := h.skip.getElem?
  rw [List.head?_cons] at hbyte
  obtain ⟨hlt, hget⟩ := List.getElem?_eq_some_iff.mp hbyte
  have hline : Span.slice ⟨start, start + body.length⟩ data = body := by
    unfold Span.slice
    rw [h.drop, Nat.add_sub_cancel_left, List.take_left]
  rw [poll_run h hbody, poll, dif_pos hlt]
  dsimp only
  rw [if_pos hget, hline]
  simp only [List.isEmpty_iff, Bool.not_eq_true']

/-- The scan stops in an unfinished line. -/
theorem poll_unfinished (h : At data start run) (hrun : lf ∉ run) :
    poll ⟨start, lineStart, started, parsed⟩ data skip =
      (none, ⟨data.length, lineStart, started, parsed⟩) := by
  have hlength := h.length
  have hat : At data start (run ++ []) := by simpa using h
  rw [poll_run hat hrun, hlength, poll, dif_neg (Nat.lt_irrefl _)]

end ByLine

end SectionProgress

/-- The end of the first empty line, after a start line or not. -/
def emptyLineEnd (data : Bytes) (afterStartLine : Bool) : Option Nat :=
  (SectionProgress.new.poll data afterStartLine).1

theorem emptyLineEnd_le {data : Bytes} {afterStartLine : Bool} {stop : Nat}
    (h : emptyLineEnd data afterStartLine = some stop) : stop ≤ data.length :=
  SectionProgress.poll_le h

theorem emptyLineEnd_append {data : Bytes} {afterStartLine : Bool} {stop : Nat} (more : Bytes)
    (h : emptyLineEnd data afterStartLine = some stop) :
    emptyLineEnd (data ++ more) afterStartLine = some stop := by
  unfold emptyLineEnd at h ⊢
  rw [SectionProgress.poll_append more h]
  exact h

/-! ## End positions lie in the section -/

theorem unfoldLoop_length (normalized data : Bytes) :
    (unfoldLoop normalized data).length ≤ normalized.length + data.length := by
  induction normalized, data using unfoldLoop.induct with
  | case1 normalized => rw [unfoldLoop]; simp
  | case2 normalized byte rest hfold kept ih =>
    rw [unfoldLoop, if_pos hfold]
    change (unfoldLoop (kept ++ [sp]) _).length ≤ _
    have hkept : kept.length ≤ normalized.length := by
      show (if normalized.getLast? = some cr then normalized.dropLast else normalized).length ≤ _
      split
      · rw [List.length_dropLast]
        omega
      · exact Nat.le_refl _
    have hrest := (List.dropWhile_sublist (p := isOws) (l := rest)).length_le
    simp only [List.length_append, List.length_cons, List.length_nil] at ih ⊢
    omega
  | case3 normalized byte rest hfold ih =>
    rw [unfoldLoop, if_neg hfold]
    simp only [List.length_append, List.length_cons, List.length_nil] at ih ⊢
    omega

theorem normalizeObsFold_length (data : Bytes) : (normalizeObsFold data).length ≤ data.length := by
  unfold normalizeObsFold
  split
  · simpa using unfoldLoop_length [] data
  · exact Nat.le_refl _

theorem parseRequestHead_le {hp : Httparse} {head : Bytes} {maxHeaders stop : Nat}
    {request : Request} (h : parseRequestHead hp head maxHeaders = .ok (some (stop, request))) :
    stop ≤ head.length := by
  unfold parseRequestHead at h
  split at h
  · cases h
  · cases h
  next parsed _ =>
    cases h
    exact parsed.stop_le

theorem parseResponseHead_le {hp : Httparse} {head : Bytes} {maxHeaders stop : Nat}
    {lenient dropped : Bool} {response : Response}
    (h : parseResponseHead hp head maxHeaders lenient = .ok (some (stop, response, dropped))) :
    stop ≤ head.length := by
  unfold parseResponseHead at h
  split at h
  · cases h
  · cases h
  next parsed _ =>
    split at h
    · cases h
    · cases h
      exact parsed.stop_le

theorem parseTrailers_le {hp : Httparse} {data : Bytes} {maxHeaders stop : Nat}
    {normalizeFolding : Bool} {trailers : Headers}
    (h : parseTrailers hp data maxHeaders normalizeFolding = .ok (some (stop, trailers))) :
    stop ≤ data.length := by
  unfold parseTrailers at h
  dsimp only at h
  split at h
  · cases h
  · cases h
  next parsed _ =>
    cases h
    have hsection : parsed.stop ≤ data.length := by
      refine Nat.le_trans parsed.stop_le ?_
      split
      · refine Nat.le_trans (normalizeObsFold_length _) ?_
        rw [List.length_take]
        exact Nat.min_le_right _ _
      · rw [List.length_take]
        exact Nat.min_le_right _ _
    have hscan : ∀ found, (SectionProgress.new.poll data false).1 = some found →
        found ≤ data.length := fun _ => SectionProgress.poll_le
    generalize parsed.stop = parsedStop at hsection ⊢
    cases hend : (SectionProgress.new.poll data false).1 with
    | some found => exact hscan found hend
    | none => exact hsection

end H11r
