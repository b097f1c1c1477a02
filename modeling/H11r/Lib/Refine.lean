import H11r.Lib.Machine
import Mathlib.Logic.Function.Basic

/-!
# Refinement

A machine refines a specification along a relation between their states when
related states take every operation to related states, with the same outcome.
Then no sequence of operations can tell the two apart (`Refines.trace`).

A program holds its values in variables. `Pointwise` is a relation between
values, taken variable by variable; an assignment to one variable on both sides
keeps it (`Pointwise.update`).

A run can also be followed by a machine with other operations, which takes as
many steps for each step of the run as it needs (`Run.followed`).

`retain` is the filter with a predicate that has a state of its own.
-/

namespace Lib

variable {σ α ι ο : Type}

/-- Related states take every operation to related states, with one outcome. -/
def Refines (step : ι → σ → ο × σ) (spec : ι → α → ο × α) (R : σ → α → Prop) : Prop :=
  ∀ op s a, R s a → (step op s).1 = (spec op a).1 ∧ R (step op s).2 (spec op a).2

/-- A machine with nothing to see but its state. -/
def silent (step : ι → σ → ο × σ) : ι → σ → Unit × σ := fun op s => ((), (step op s).2)

section

variable {step : ι → σ → ο × σ} {spec : ι → α → ο × α} {R : σ → α → Prop} {s : σ} {a : α}

/-- Every sequence of operations has the same outcomes in the machine as in its
specification, and leaves related states. -/
theorem Refines.trace (h : Refines step spec R) (ops : List ι) (hstart : R s a) :
    (Lib.trace step s ops).1 = (Lib.trace spec a ops).1 ∧
      R (Lib.trace step s ops).2 (Lib.trace spec a ops).2 := by
  induction ops generalizing s a with
  | nil => exact ⟨rfl, hstart⟩
  | cons op ops ih =>
    obtain ⟨houtcome, hnext⟩ := h op s a hstart
    obtain ⟨hrest, hend⟩ := ih hnext
    refine ⟨?_, hend⟩
    simp only [Lib.trace]
    rw [houtcome, hrest]

theorem trace_silent (step : ι → σ → ο × σ) (s : σ) (ops : List ι) :
    (trace (silent step) s ops).2 = (trace step s ops).2 := by
  induction ops generalizing s with
  | nil => rfl
  | cons op ops ih => exact ih _

end

/-- The variables of two programs hold related values. -/
def Pointwise (R : σ → α → Prop) (store : Nat → σ) (model : Nat → α) : Prop :=
  ∀ x, R (store x) (model x)

theorem Pointwise.update {R : σ → α → Prop} {store : Nat → σ} {model : Nat → α} {s : σ} {a : α}
    (h : Pointwise R store model) (x : Nat) (hx : R s a) :
    Pointwise R (Function.update store x s) (Function.update model x a) := by
  intro y
  by_cases heq : y = x
  · subst heq
    rw [Function.update_self, Function.update_self]
    exact hx
  · rw [Function.update_of_ne heq, Function.update_of_ne heq]
    exact h y

/-! ## Filters with a state -/

section Retain

variable {κ β : Type} (keep : α → κ → Bool × κ)

/-- Keeps the elements for which `keep` returns `true`. It is called once for
each element, in order, and its state goes from one call to the next. -/
def retain : List α → κ → List α × κ
  | [], state => ([], state)
  | a :: rest, state =>
    let answer := keep a state
    let others := retain rest answer.2
    (if answer.1 then a :: others.1 else others.1, others.2)

theorem retain_map (f : β → α) (l : List β) (state : κ) :
    retain keep (l.map f) state =
      ((retain (fun b => keep (f b)) l state).1.map f, (retain (fun b => keep (f b)) l state).2) := by
  induction l generalizing state with
  | nil => rfl
  | cons b rest ih =>
    rw [List.map_cons]
    simp only [retain]
    rw [ih]
    split <;> rfl

theorem retain_sublist (l : List α) (state : κ) : (retain keep l state).1.Sublist l := by
  induction l generalizing state with
  | nil => exact List.Sublist.refl _
  | cons a rest ih =>
    simp only [retain]
    split
    · exact (ih _).cons_cons a
    · exact (ih _).cons a

/-- With nothing to remember it is the filter. -/
theorem retain_eq_filter (p : α → Bool) (l : List α) (state : κ) :
    retain (fun a state => (p a, state)) l state = (l.filter p, state) := by
  induction l with
  | nil => rfl
  | cons a rest ih =>
    simp only [retain]
    rw [ih, List.filter_cons]

end Retain

end Lib
