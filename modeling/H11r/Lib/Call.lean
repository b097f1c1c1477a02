/-!
# Calls on a state that can fail

A method of a stateful object takes the object, and either returns a value or
reports an error. In both cases it leaves an object behind, and nothing in the
language says that the object of a failed call is the one it was called on:
that is a property of the method, to be proved. `Call σ ε α` is such a method,
with the state of a failed call kept, so the property can be stated at all.

`Atomic` is that property. `Atomic.bind_left` and `Atomic.bind_right` are the
two shapes in which a sequence of steps has it: steps that only look come
before the rest, and steps that cannot fail come after it.
-/

namespace Lib

/-- A call on a state: a result, and the state left behind even by an error. -/
def Call (σ ε α : Type) : Type := σ → Except ε α × σ

namespace Call

variable {σ ε ε' α β : Type}

instance : Monad (Call σ ε) where
  pure a := fun s => (.ok a, s)
  bind x f := fun s =>
    match x s with
    | (.ok a, s') => f a s'
    | (.error e, s') => (.error e, s')

/-- The current state. -/
def get : Call σ ε σ := fun s => (.ok s, s)

/-- Replaces the state by a function of it. -/
def modify (f : σ → σ) : Call σ ε Unit := fun s => (.ok (), f s)

/-- Fails and leaves the state as it is. -/
def throw (e : ε) : Call σ ε α := fun s => (.error e, s)

/-- Fails when `p` holds. -/
def failIf (p : Prop) [Decidable p] (e : ε) : Call σ ε Unit :=
  fun s => if p then (.error e, s) else (.ok (), s)

/-- A computation that does not touch the state. -/
def ofExcept (x : Except ε α) : Call σ ε α := fun s => (x, s)

/-- Reports another error in the place of the call's own. -/
def mapError (f : ε → ε') (x : Call σ ε α) : Call σ ε' α := fun s =>
  match x s with
  | (.ok a, s') => (.ok a, s')
  | (.error e, s') => (.error (f e), s')

@[simp] theorem pure_apply (a : α) (s : σ) : (pure a : Call σ ε α) s = (.ok a, s) := rfl

@[simp] theorem get_apply (s : σ) : (get : Call σ ε σ) s = (.ok s, s) := rfl

@[simp] theorem modify_apply (f : σ → σ) (s : σ) : (modify f : Call σ ε Unit) s = (.ok (), f s) := rfl

@[simp] theorem throw_apply (e : ε) (s : σ) : (throw e : Call σ ε α) s = (.error e, s) := rfl

@[simp] theorem ofExcept_apply (x : Except ε α) (s : σ) : (ofExcept x : Call σ ε α) s = (x, s) := rfl

theorem bind_of_ok {x : Call σ ε α} {f : α → Call σ ε β} {s s' : σ} {a : α}
    (h : x s = (.ok a, s')) : (x >>= f) s = f a s' := by
  show (match x s with | (.ok a, s') => f a s' | (.error e, s') => (.error e, s')) = _
  rw [h]

theorem bind_of_error {x : Call σ ε α} {f : α → Call σ ε β} {s s' : σ} {e : ε}
    (h : x s = (.error e, s')) : (x >>= f) s = (.error e, s') := by
  show (match x s with | (.ok a, s') => f a s' | (.error e, s') => (.error e, s')) = _
  rw [h]

/-- A sequence succeeds exactly when both of its steps do. -/
theorem bind_eq_ok {x : Call σ ε α} {f : α → Call σ ε β} {s s'' : σ} {b : β} :
    (x >>= f) s = (.ok b, s'') ↔ ∃ a s', x s = (.ok a, s') ∧ f a s' = (.ok b, s'') := by
  rcases hx : x s with ⟨e | a, s'⟩
  · rw [bind_of_error hx]
    simp
  · rw [bind_of_ok hx]
    constructor
    · intro h
      exact ⟨a, s', rfl, h⟩
    · rintro ⟨a', t, ha, h⟩
      cases ha
      exact h

/-- A sequence fails in its first step, or in its second after the first. -/
theorem bind_eq_error {x : Call σ ε α} {f : α → Call σ ε β} {s s'' : σ} {e : ε} :
    (x >>= f) s = (.error e, s'') ↔
      x s = (.error e, s'') ∨ ∃ a s', x s = (.ok a, s') ∧ f a s' = (.error e, s'') := by
  rcases hx : x s with ⟨e' | a, s'⟩
  · rw [bind_of_error hx]
    simp
  · rw [bind_of_ok hx]
    constructor
    · intro h
      exact Or.inr ⟨a, s', rfl, h⟩
    · rintro (h | ⟨a', t, ha, h⟩)
      · cases h
      · cases ha
        exact h

/-- A call that does not fail has a result. -/
theorem exists_ok (x : Call σ ε α) (s : σ) (h : (x s).1.isOk = true) : ∃ a s', x s = (.ok a, s') := by
  rcases hx : x s with ⟨e | a, s'⟩
  · rw [hx] at h
    cases h
  · exact ⟨a, s', rfl⟩

/-! ## Running a sequence step by step -/

@[simp] theorem pure_bind (a : α) (f : α → Call σ ε β) (s : σ) : (pure a >>= f) s = f a s := rfl

@[simp] theorem get_bind (f : σ → Call σ ε β) (s : σ) : (get >>= f) s = f s s := rfl

@[simp] theorem modify_bind (g : σ → σ) (f : Unit → Call σ ε β) (s : σ) :
    (modify g >>= f) s = f () (g s) := rfl

@[simp] theorem throw_bind (e : ε) (f : α → Call σ ε β) (s : σ) :
    (throw e >>= f) s = (.error e, s) := rfl

@[simp] theorem failIf_bind (p : Prop) [Decidable p] (e : ε) (f : Unit → Call σ ε β) (s : σ) :
    (failIf p e >>= f) s = if p then (.error e, s) else f () s := by
  by_cases h : p
  · rw [if_pos h]
    exact bind_of_error (by unfold failIf; rw [if_pos h])
  · rw [if_neg h]
    exact bind_of_ok (by unfold failIf; rw [if_neg h])

theorem ofExcept_ok_bind (a : α) (f : α → Call σ ε β) (s : σ) :
    (ofExcept (.ok a) >>= f) s = f a s := rfl

theorem ofExcept_bind (x : Except ε α) (f : α → Call σ ε β) (s : σ) :
    (ofExcept x >>= f) s = match x with
      | .ok a => f a s
      | .error e => (.error e, s) := by
  cases x <;> rfl

/-- Peels a check off a sequence that succeeded. -/
theorem failIf_bind_eq_ok {p : Prop} [Decidable p] {e : ε} {f : Unit → Call σ ε β} {s s' : σ}
    {b : β} : (failIf p e >>= f) s = (.ok b, s') ↔ ¬p ∧ f () s = (.ok b, s') := by
  rw [failIf_bind]
  split
  next h => simp [h]
  next h => simp [h]

/-- Peels a computation that does not touch the state off a sequence that
succeeded. -/
theorem ofExcept_bind_eq_ok {x : Except ε α} {f : α → Call σ ε β} {s s' : σ} {b : β} :
    (ofExcept x >>= f) s = (.ok b, s') ↔ ∃ a, x = .ok a ∧ f a s = (.ok b, s') := by
  rw [ofExcept_bind]
  cases x <;> simp

theorem failIf_eq_ok {p : Prop} [Decidable p] {e : ε} {s s' : σ} {u : Unit} :
    (failIf p e : Call σ ε Unit) s = (.ok u, s') ↔ ¬p ∧ s' = s := by
  unfold failIf
  split
  next h => simp [h]
  next h => simp [h, eq_comm]

theorem ofExcept_eq_ok {x : Except ε α} {s s' : σ} {a : α} :
    (ofExcept x : Call σ ε α) s = (.ok a, s') ↔ x = .ok a ∧ s' = s := by
  rw [ofExcept_apply, Prod.mk.injEq, eq_comm (a := s)]

theorem mapError_eq_ok {g : ε → ε'} {x : Call σ ε α} {s s' : σ} {a : α} :
    mapError g x s = (.ok a, s') ↔ x s = (.ok a, s') := by
  unfold mapError
  rcases x s with ⟨e | a', t⟩ <;> simp

theorem mapError_eq_error {g : ε → ε'} {x : Call σ ε α} {s s' : σ} {e : ε'} :
    mapError g x s = (.error e, s') ↔ ∃ e', x s = (.error e', s') ∧ g e' = e := by
  unfold mapError
  rcases x s with ⟨e' | a, t⟩
  · simp only [Prod.mk.injEq, Except.error.injEq]
    constructor
    · rintro ⟨he, ht⟩
      exact ⟨e', ⟨rfl, ht⟩, he⟩
    · rintro ⟨e'', ⟨he, ht⟩, hg⟩
      exact ⟨by rw [he]; exact hg, ht⟩
  · simp

/-! ## Calls that only look, calls that cannot fail, atomic calls -/

/-- The call leaves the state as it was, whatever it returns. -/
def ReadOnly (x : Call σ ε α) : Prop := ∀ s r s', x s = (r, s') → s' = s

/-- The call never fails. -/
def Total (x : Call σ ε α) : Prop := ∀ s e s', x s ≠ (.error e, s')

/-- A failed call leaves the state as it was. -/
def Atomic (x : Call σ ε α) : Prop := ∀ s e s', x s = (.error e, s') → s' = s

theorem ReadOnly.get : ReadOnly (get : Call σ ε σ) := by
  intro s r s' h
  cases h
  rfl

theorem ReadOnly.failIf (p : Prop) [Decidable p] (e : ε) :
    ReadOnly (failIf p e : Call σ ε Unit) := by
  intro s r s' h
  unfold Call.failIf at h
  split at h
  · cases h; rfl
  · cases h; rfl

theorem ReadOnly.ofExcept (x : Except ε α) : ReadOnly (ofExcept x : Call σ ε α) := by
  intro s r s' h
  cases h
  rfl

theorem ReadOnly.atomic {x : Call σ ε α} (h : ReadOnly x) : Atomic x :=
  fun s e s' hx => h s (.error e) s' hx

theorem Total.pure (a : α) : Total (pure a : Call σ ε α) := by
  intro s e s' h
  cases h

theorem Total.modify (f : σ → σ) : Total (modify f : Call σ ε Unit) := by
  intro s e s' h
  cases h

theorem Total.get : Total (get : Call σ ε σ) := by
  intro s e s' h
  cases h

theorem Total.bind {x : Call σ ε α} {f : α → Call σ ε β} (hx : Total x) (hf : ∀ a, Total (f a)) :
    Total (x >>= f) := by
  intro s e s' h
  rcases bind_eq_error.mp h with h1 | ⟨a, t, _, h2⟩
  · exact hx s e s' h1
  · exact hf a t e s' h2

theorem Total.atomic {x : Call σ ε α} (h : Total x) : Atomic x :=
  fun s e s' hx => absurd hx (h s e s')

/-- Looking first keeps a sequence atomic. -/
theorem Atomic.bind_left {x : Call σ ε α} {f : α → Call σ ε β} (hx : ReadOnly x)
    (hf : ∀ a, Atomic (f a)) : Atomic (x >>= f) := by
  intro s e s' h
  rcases bind_eq_error.mp h with h1 | ⟨a, t, h1, h2⟩
  · exact hx s _ s' h1
  · have ht : t = s := hx s _ t h1
    subst ht
    exact hf a t e s' h2

/-- Nothing that follows can fail, so the sequence is atomic when its first step is. -/
theorem Atomic.bind_right {x : Call σ ε α} {f : α → Call σ ε β} (hx : Atomic x)
    (hf : ∀ a, Total (f a)) : Atomic (x >>= f) := by
  intro s e s' h
  rcases bind_eq_error.mp h with h1 | ⟨a, t, _, h2⟩
  · exact hx s e s' h1
  · exact absurd h2 (hf a t e s')

/-! ## Two runs side by side -/

/-- From `s` and from `t` the two calls return the same, and leave states that
are related again. -/
def Alike (R : σ → σ → Prop) (s t : σ) (x y : Call σ ε α) : Prop :=
  (x s).1 = (y t).1 ∧ R (x s).2 (y t).2

namespace Alike

variable {R : σ → σ → Prop} {s t : σ}

theorem pure (h : R s t) (a : α) : Alike R s t (pure a : Call σ ε α) (Pure.pure a) := ⟨rfl, h⟩

theorem throw (h : R s t) (e : ε) : Alike R s t (throw e : Call σ ε α) (Call.throw e) := ⟨rfl, h⟩

theorem modify {f g : σ → σ} (h : R (f s) (g t)) :
    Alike R s t (modify f : Call σ ε Unit) (Call.modify g) := ⟨rfl, h⟩

theorem get_bind {f g : σ → Call σ ε β} (h : Alike R s t (f s) (g t)) :
    Alike R s t (get >>= f) (get >>= g) := h

theorem modify_bind {f g : σ → σ} {k l : Unit → Call σ ε β}
    (h : Alike R (f s) (g t) (k ()) (l ())) : Alike R s t (Call.modify f >>= k) (Call.modify g >>= l) := h

theorem failIf_bind {p q : Prop} [Decidable p] [Decidable q] {e e' : ε} {f g : Unit → Call σ ε β}
    (hpq : p ↔ q) (he : e = e') (hfail : R s t) (hrest : ¬p → Alike R s t (f ()) (g ())) :
    Alike R s t (failIf p e >>= f) (failIf q e' >>= g) := by
  subst he
  unfold Alike
  rw [Call.failIf_bind, Call.failIf_bind]
  by_cases h : p
  · rw [if_pos h, if_pos (hpq.mp h)]
    exact ⟨rfl, hfail⟩
  · rw [if_neg h, if_neg (fun hq => h (hpq.mpr hq))]
    exact hrest h

theorem ofExcept_bind {x y : Except ε α} {f g : α → Call σ ε β} (hxy : x = y) (hfail : R s t)
    (hrest : ∀ a, x = .ok a → Alike R s t (f a) (g a)) :
    Alike R s t (ofExcept x >>= f) (ofExcept y >>= g) := by
  subst hxy
  unfold Alike
  rw [Call.ofExcept_bind, Call.ofExcept_bind]
  cases x with
  | error e => exact ⟨rfl, hfail⟩
  | ok a => exact hrest a rfl

/-- Two sequences are alike when their first steps are, and the rest is from
every pair of related states. -/
theorem bind {x y : Call σ ε α} {f g : α → Call σ ε β} (hx : Alike R s t x y)
    (hf : ∀ a s' t', R s' t' → Alike R s' t' (f a) (g a)) :
    Alike R s t (x >>= f) (y >>= g) := by
  obtain ⟨hresult, hstate⟩ := hx
  rcases hxs : x s with ⟨e | a, s'⟩
  · rcases hyt : y t with ⟨e' | a', t'⟩
    · rw [hxs, hyt] at hresult hstate
      cases hresult
      unfold Alike
      rw [bind_of_error hxs, bind_of_error hyt]
      exact ⟨rfl, hstate⟩
    · rw [hxs, hyt] at hresult
      cases hresult
  · rcases hyt : y t with ⟨e' | a', t'⟩
    · rw [hxs, hyt] at hresult
      cases hresult
    · rw [hxs, hyt] at hresult hstate
      cases hresult
      unfold Alike
      rw [bind_of_ok hxs, bind_of_ok hyt]
      exact hf a s' t' hstate

end Alike

end Call

end Lib
