import H11r.Lib.Machine

/-!
# Two machines joined by channels

Two copies of a machine send each other items. A call of one end puts what it
gives out behind the channel to the other, and an arrival takes the first items
off a channel and hands them to the machine there; between a call and the
arrivals of what it gave out anything may happen. `Joined.step` is the two
together as one machine, so that the rules for runs hold of it.

Seen from one end, a run of both is a run of the machine that is there
(`Joined.run_left`, `Joined.run_right`).
-/

namespace Lib

/-- Two machines, and what is on its way between them, oldest first. -/
structure Joined (σ β : Type) where
  left : σ
  right : σ
  toRight : List β
  toLeft : List β

/-- A call of one end, or the arrival of the first items of a channel. -/
inductive JoinedOp (ι β : Type) where
  | left (op : ι)
  | right (op : ι)
  | arriveRight (items : List β)
  | arriveLeft (items : List β)

namespace Joined

variable {σ ι ο β : Type} (act : ι → σ → ο × σ) (gives : ο → List β) (takes : List β → ι)

/-- Takes a step of one of the machines. -/
def step (op : JoinedOp ι β) (s : Joined σ β) : ο × Joined σ β :=
  match op with
  | .left op =>
    ((act op s.left).1,
      { s with left := (act op s.left).2, toRight := s.toRight ++ gives (act op s.left).1 })
  | .right op =>
    ((act op s.right).1,
      { s with right := (act op s.right).2, toLeft := s.toLeft ++ gives (act op s.right).1 })
  | .arriveRight items =>
    ((act (takes items) s.right).1,
      { s with right := (act (takes items) s.right).2, toRight := s.toRight.drop items.length })
  | .arriveLeft items =>
    ((act (takes items) s.left).1,
      { s with left := (act (takes items) s.left).2, toLeft := s.toLeft.drop items.length })

/-- What has been called at the left end. -/
def atLeft : JoinedOp ι β × ο → Option (ι × ο)
  | (.left op, outcome) => some (op, outcome)
  | (.arriveLeft items, outcome) => some (takes items, outcome)
  | _ => none

/-- What has been called at the right end. -/
def atRight : JoinedOp ι β × ο → Option (ι × ο)
  | (.right op, outcome) => some (op, outcome)
  | (.arriveRight items, outcome) => some (takes items, outcome)
  | _ => none

variable {act gives takes} {allowed : Joined σ β → JoinedOp ι β → Prop} {start s : Joined σ β}
  {history : List (JoinedOp ι β × ο)}

theorem run_left (h : Run (step act gives takes) allowed start history s) :
    Run act (fun _ _ => True) start.left (history.filterMap (atLeft takes)) s.left := by
  induction h with
  | start => exact .start
  | step op _ _ ih =>
    rw [List.filterMap_append]
    cases op with
    | left op => exact .step op ih trivial
    | arriveLeft items => exact .step (takes items) ih trivial
    | right op =>
      show Run act _ _ (_ ++ []) _
      rw [List.append_nil]
      exact ih
    | arriveRight items =>
      show Run act _ _ (_ ++ []) _
      rw [List.append_nil]
      exact ih

theorem run_right (h : Run (step act gives takes) allowed start history s) :
    Run act (fun _ _ => True) start.right (history.filterMap (atRight takes)) s.right := by
  induction h with
  | start => exact .start
  | step op _ _ ih =>
    rw [List.filterMap_append]
    cases op with
    | right op => exact .step op ih trivial
    | arriveRight items => exact .step (takes items) ih trivial
    | left op =>
      show Run act _ _ (_ ++ []) _
      rw [List.append_nil]
      exact ih
    | arriveLeft items =>
      show Run act _ _ (_ ++ []) _
      rw [List.append_nil]
      exact ih

end Joined

end Lib
