import Mathlib.Data.List.TakeWhile

/-!
# Positions in a text

A scanner that keeps an index into a text is read as one that keeps what is
left of the text. `At text index rest` says that `rest` stands at `index`; the
lemmas move it along, byte by byte or run by run.

The other half is about runs. A run of elements of one class that is followed
by none is what a greedy scan takes, and a greedy scan always leaves a run and
something that does not go on with it.
-/

namespace Lib

variable {α : Type}

/-- What is left of `text` at `index` is `rest`. -/
structure At (text : List α) (index : Nat) (rest : List α) : Prop where
  le : index ≤ text.length
  drop : text.drop index = rest

namespace At

variable {text rest run : List α} {index : Nat} {a : α}

theorem start (text : List α) : At text 0 text := ⟨Nat.zero_le _, rfl⟩

theorem of_le (h : index ≤ text.length) : At text index (text.drop index) := ⟨h, rfl⟩

theorem length (h : At text index rest) : index + rest.length = text.length := by
  have hle := h.le
  rw [← h.drop, List.length_drop]
  omega

theorem getElem? (h : At text index rest) : text[index]? = rest.head? := by
  rw [← h.drop, List.head?_drop]

theorem skip (h : At text index (run ++ rest)) : At text (index + run.length) rest := by
  have hlength := h.length
  rw [List.length_append] at hlength
  refine ⟨by omega, ?_⟩
  rw [← List.drop_drop, h.drop, List.drop_left]

theorem after (run rest : List α) : At (run ++ rest) run.length rest :=
  ⟨by rw [List.length_append]; omega, List.drop_left⟩

theorem next (h : At text index (a :: rest)) : At text (index + 1) rest := by
  have hcons : At text index ([a] ++ rest) := h
  exact hcons.skip

/-- Two descriptions of what stands at a position agree. -/
theorem unique {other : List α} (h : At text index rest) (h' : At text index other) :
    rest = other := h.drop.symm.trans h'.drop

theorem eq_length (h : At text index []) : index = text.length := by
  have hlength := h.length
  rwa [List.length_nil, Nat.add_zero] at hlength

theorem nil_iff (h : At text index rest) : rest = [] ↔ text.length ≤ index := by
  have hlength := h.length
  rw [← List.length_eq_zero_iff]
  omega

end At

/-! ## Runs -/

/-- The text does not go on with an element of the class. -/
def Stops (p : α → Bool) (rest : List α) : Prop := ∀ a, rest.head? = some a → p a = false

theorem stops_nil (p : α → Bool) : Stops p [] := fun _ h => by cases h

theorem stops_cons {p : α → Bool} {a : α} (rest : List α) (h : p a = false) : Stops p (a :: rest) := by
  intro b hb
  cases hb
  exact h

variable {p : α → Bool} {run rest text : List α}

/-- The greedy scan takes a run up to where it stops. -/
theorem takeWhile_run (hrun : ∀ a ∈ run, p a = true) (hstop : Stops p rest) :
    (run ++ rest).takeWhile p = run := by
  rw [List.takeWhile_append_of_pos hrun]
  cases rest with
  | nil => rw [List.takeWhile_nil, List.append_nil]
  | cons a rest =>
    rw [List.takeWhile_cons_of_neg (by simp [hstop a rfl]), List.append_nil]

theorem dropWhile_run (hrun : ∀ a ∈ run, p a = true) (hstop : Stops p rest) :
    (run ++ rest).dropWhile p = rest := by
  have hsplit := List.takeWhile_append_dropWhile (p := p) (l := run ++ rest)
  rw [takeWhile_run hrun hstop] at hsplit
  exact List.append_cancel_left hsplit

/-- Every text is a run and what it stops at. -/
theorem exists_run (p : α → Bool) (text : List α) : ∃ run rest, text = run ++ rest ∧
    (∀ a ∈ run, p a = true) ∧ Stops p rest ∧ text.takeWhile p = run := by
  refine ⟨text.takeWhile p, text.dropWhile p, List.takeWhile_append_dropWhile.symm,
    fun a ha => ?_, fun a ha => ?_, rfl⟩
  · exact List.mem_takeWhile_imp ha
  · have hne : text.dropWhile p ≠ [] := by
      intro hnil
      rw [hnil] at ha
      cases ha
    have hhead := List.head_dropWhile_not p hne
    rw [List.head?_eq_some_head hne] at ha
    cases ha
    simpa using hhead

end Lib
