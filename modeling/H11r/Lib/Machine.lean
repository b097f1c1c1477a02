import Mathlib.Logic.Relation

/-!
# Runs of a machine

A machine takes an operation in a state and returns an outcome and the next
state. A run starts in a given state and applies operations that `allowed`
permits, one after the other; its history lists each operation with its
outcome, the last one at the end.

`Run.invariant` is the rule for what holds in every state of every run, and
`Run.invariant_history` the one for what also depends on what has happened.
`trace` is the one run of a list of operations.
-/

namespace Lib

variable {σ ι ο : Type}

/-- `Run step allowed start history s`: from `start`, `history` leads to `s`. -/
inductive Run (step : ι → σ → ο × σ) (allowed : σ → ι → Prop) (start : σ) :
    List (ι × ο) → σ → Prop
  | start : Run step allowed start [] start
  | step {history : List (ι × ο)} {s : σ} (op : ι) (h : Run step allowed start history s)
      (hallowed : allowed s op) :
      Run step allowed start (history ++ [(op, (step op s).1)]) (step op s).2

namespace Run

variable {step : ι → σ → ο × σ} {allowed : σ → ι → Prop} {start s : σ} {history : List (ι × ο)}

/-- A property of the history and the state that every step preserves. -/
theorem invariant_history {P : List (ι × ο) → σ → Prop} (hstart : P [] start)
    (hstep : ∀ history s op, P history s → allowed s op →
      P (history ++ [(op, (step op s).1)]) (step op s).2)
    (h : Run step allowed start history s) : P history s := by
  induction h with
  | start => exact hstart
  | step op _ hallowed ih => exact hstep _ _ op ih hallowed

/-- A property of the state that every step preserves. -/
theorem invariant {P : σ → Prop} (hstart : P start)
    (hstep : ∀ s op, P s → allowed s op → P (step op s).2)
    (h : Run step allowed start history s) : P s :=
  invariant_history (P := fun _ s => P s) hstart (fun _ => hstep) h

/-- What an operation returns in any state with an invariant holds of every
entry of the history. -/
theorem entries {P : σ → Prop} {Q : ι × ο → Prop} (hstart : P start)
    (hstep : ∀ s op, P s → allowed s op → P (step op s).2)
    (hentry : ∀ s op, P s → allowed s op → Q (op, (step op s).1))
    (h : Run step allowed start history s) : ∀ entry ∈ history, Q entry := by
  have hboth : P s ∧ ∀ entry ∈ history, Q entry := by
    refine invariant_history (P := fun history s => P s ∧ ∀ entry ∈ history, Q entry)
      ⟨hstart, by simp⟩ ?_ h
    rintro history s op ⟨hs, hall⟩ hallowed
    refine ⟨hstep s op hs hallowed, fun entry hmem => ?_⟩
    rcases List.mem_append.mp hmem with hold | hnew
    · exact hall entry hold
    · rw [List.mem_singleton.mp hnew]
      exact hentry s op hs hallowed
  exact hboth.2

/-- A run that goes on from where another ended is one run. -/
theorem append {middle : σ} {before after : List (ι × ο)}
    (h : Run step allowed start before middle) (h' : Run step allowed middle after s) :
    Run step allowed start (before ++ after) s := by
  induction h' with
  | start =>
    rw [List.append_nil]
    exact h
  | step op _ hallowed ih =>
    rw [← List.append_assoc]
    exact .step op ih hallowed

/-- The last step of a run. -/
theorem last {op : ι} {outcome : ο} (h : Run step allowed start (history ++ [(op, outcome)]) s) :
    ∃ s', Run step allowed start history s' ∧ allowed s' op ∧ step op s' = (outcome, s) := by
  generalize hlist : history ++ [(op, outcome)] = whole at h
  cases h with
  | start => simp at hlist
  | step other h hallowed =>
    obtain ⟨rfl, hentry⟩ := List.append_inj' hlist rfl
    cases hentry
    exact ⟨_, h, hallowed, rfl⟩

/-- What is allowed by a narrower rule is allowed by a wider one. -/
theorem mono {wider : σ → ι → Prop} (hmono : ∀ s op, allowed s op → wider s op)
    (h : Run step allowed start history s) : Run step wider start history s := by
  induction h with
  | start => exact .start
  | step op _ hallowed ih => exact .step op ih (hmono _ _ hallowed)

end Run

/-! ## The run of a list of operations -/

section Trace

variable (step : ι → σ → ο × σ)

/-- The history of a list of operations, and the state it leads to. -/
def trace : σ → List ι → List (ι × ο) × σ
  | s, [] => ([], s)
  | s, op :: ops =>
    ((op, (step op s).1) :: (trace (step op s).2 ops).1, (trace (step op s).2 ops).2)

/-- Every operation of the list is allowed where it comes. -/
def Permitted (allowed : σ → ι → Prop) : σ → List ι → Prop
  | _, [] => True
  | s, op :: ops => allowed s op ∧ Permitted allowed (step op s).2 ops

variable {step} {allowed : σ → ι → Prop}

theorem Run.trace (s : σ) (ops : List ι) (h : Permitted step allowed s ops) :
    Run step allowed s (trace step s ops).1 (trace step s ops).2 := by
  induction ops generalizing s with
  | nil => exact .start
  | cons op ops ih =>
    have hfirst : Run step allowed s [(op, (step op s).1)] (step op s).2 := .step op .start h.1
    exact hfirst.append (ih _ h.2)

/-- Where every operation is allowed, every list of them is a run. -/
theorem Run.trace_of_forall (s : σ) (ops : List ι) (h : ∀ s op, allowed s op) :
    Run step allowed s (Lib.trace step s ops).1 (Lib.trace step s ops).2 := by
  refine Run.trace s ops ?_
  induction ops generalizing s with
  | nil => trivial
  | cons op ops ih => exact ⟨h s op, ih _⟩

end Trace

/-! ## Loops -/

/-- A loop for at most `turns` turns: each turn leaves it with a result or goes
on in another state. `none` if it is still running. -/
def loop {β : Type} (turn : σ → β ⊕ σ) : (turns : Nat) → σ → Option β
  | 0, _ => none
  | turns + 1, s =>
    match turn s with
    | .inl result => some result
    | .inr s' => loop turn turns s'

/-- A loop whose state gets smaller with every turn ends, and within as many
turns as its state is large. -/
theorem loop_ends {β : Type} {turn : σ → β ⊕ σ} (result : σ → β) (size : σ → Nat)
    (hdone : ∀ s b, turn s = .inl b → result s = b)
    (hgoes : ∀ s s', turn s = .inr s' → size s' < size s ∧ result s = result s')
    {turns : Nat} {s : σ} (h : size s < turns) : loop turn turns s = some (result s) := by
  induction turns generalizing s with
  | zero => omega
  | succ turns ih =>
    rw [loop]
    cases hturn : turn s with
    | inl b => rw [hdone s b hturn]
    | inr s' =>
      obtain ⟨hsmaller, hsame⟩ := hgoes s s' hturn
      rw [hsame]
      exact ih (by omega)

/-- A property that every change preserves holds after any number of changes. -/
theorem preserve {change : σ → σ → Prop} {P : σ → Prop}
    (hchange : ∀ s s', change s s' → P s → P s') {s s' : σ}
    (h : Relation.ReflTransGen change s s') (hs : P s) : P s' := by
  induction h with
  | refl => exact hs
  | tail _ hlast ih => exact hchange _ _ hlast ih

end Lib
