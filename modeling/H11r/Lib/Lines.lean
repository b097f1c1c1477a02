/-!
# Cutting a list after its separators

`splitInclusive p l` cuts `l` after every element that satisfies `p`, so each
piece but possibly the last ends with its separator and the pieces put together
give `l` back. The empty list has no pieces.
-/

namespace Lib

variable {α : Type}

/-- The pieces of a list, each ended by the element that satisfies `p`. -/
def splitInclusive (p : α → Bool) : List α → List (List α)
  | [] => []
  | a :: rest =>
    if p a then [a] :: splitInclusive p rest
    else
      match splitInclusive p rest with
      | [] => [[a]]
      | piece :: pieces => (a :: piece) :: pieces

theorem flatten_splitInclusive (p : α → Bool) (l : List α) : (splitInclusive p l).flatten = l := by
  induction l with
  | nil => rfl
  | cons a rest ih =>
    rw [splitInclusive]
    split
    · rw [List.flatten_cons, ih]
      rfl
    · split
      next hnil =>
        rw [hnil, List.flatten_nil] at ih
        rw [← ih]
        rfl
      next piece pieces hpieces =>
        rw [hpieces, List.flatten_cons] at ih
        rw [List.flatten_cons, List.cons_append, ih]

theorem splitInclusive_ne_nil {p : α → Bool} {l : List α} (h : l ≠ []) : splitInclusive p l ≠ [] := by
  cases l with
  | nil => exact absurd rfl h
  | cons a rest =>
    rw [splitInclusive]
    split
    · exact List.cons_ne_nil _ _
    · split <;> exact List.cons_ne_nil _ _

theorem splitInclusive_line {p : α → Bool} {body : List α} {a : α} (rest : List α)
    (hbody : ∀ b ∈ body, p b = false) (ha : p a = true) :
    splitInclusive p (body ++ a :: rest) = (body ++ [a]) :: splitInclusive p rest := by
  induction body with
  | nil => rw [List.nil_append, splitInclusive, if_pos ha, List.nil_append]
  | cons b body ih =>
    rw [List.cons_append, splitInclusive, ih fun c hc => hbody c (List.mem_cons_of_mem _ hc),
      if_neg (by simp [hbody b (List.mem_cons_self ..)])]
    rfl

/-- A list cut after a separator is cut as its two parts are. -/
theorem splitInclusive_append {p : α → Bool} {a : α} (before rest : List α) (ha : p a = true) :
    splitInclusive p (before ++ a :: rest) =
      splitInclusive p (before ++ [a]) ++ splitInclusive p rest := by
  induction before with
  | nil =>
    rw [List.nil_append, List.nil_append, splitInclusive, if_pos ha, splitInclusive, if_pos ha,
      splitInclusive]
    rfl
  | cons b before ih =>
    rw [List.cons_append, List.cons_append, splitInclusive, splitInclusive, ih]
    split
    · rfl
    · cases hpieces : splitInclusive p (before ++ [a]) with
      | nil => exact absurd hpieces (splitInclusive_ne_nil (by simp))
      | cons piece pieces => rfl

end Lib
