import H11r.Lib.Machine

/-!
# Monitors

A monitor reads what happens one entry after the other and keeps notes of it.
It stops, with `none`, at an entry that does not fit its notes; `foldlM` lets it
read a whole history.

`Run.reads` is the rule for a machine that never stops its monitor: as long as
the notes describe the state, the monitor takes whatever the next operation
returns, and its new notes describe the next state.
-/

namespace Lib

variable {σ ι ο μ : Type} {step : ι → σ → ο × σ} {allowed : σ → ι → Prop} {start s : σ}
  {observe : μ → ι × ο → Option μ} {first : μ}

theorem Run.reads {R : μ → σ → Prop} (hstart : R first start)
    (hstep : ∀ {history s m} op, Run step allowed start history s → R m s → allowed s op →
      ∃ m', observe m (op, (step op s).1) = some m' ∧ R m' (step op s).2)
    {history : List (ι × ο)} (h : Run step allowed start history s) :
    ∃ m, history.foldlM observe first = some m ∧ R m s := by
  induction h with
  | start => exact ⟨first, rfl, hstart⟩
  | step op hrun hallowed ih =>
    obtain ⟨m, hread, hm⟩ := ih
    obtain ⟨m', hobserve, hnext⟩ := hstep op hrun hm hallowed
    refine ⟨m', ?_, hnext⟩
    rw [List.foldlM_append, hread, Option.bind_eq_bind, Option.bind_some,
      List.foldlM_cons, hobserve]
    rfl

end Lib
