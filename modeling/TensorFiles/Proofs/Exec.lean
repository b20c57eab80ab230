import TensorFiles.Error
/-!
This module contains the laws of running calls that change a state and can fail. A call is followed
step by step: what a sequence does is what its first call does, and then, if that succeeds, what the
others do from the state it leaves.
-/

namespace TensorFiles

variable {σ α β : Type}

/--
What a call gives from a state, and the state it leaves.
-/
def exec (x : ExceptT Error (StateM σ) α) (s : σ) : Except Error α × σ :=
  x.run.run s

@[simp]
theorem exec_pure (a : α) (s : σ) : exec (pure a) s = (.ok a, s) := rfl

@[simp]
theorem exec_throw (e : Error) (s : σ)
    : exec (throw e : ExceptT Error (StateM σ) α) s = (.error e, s) := rfl

@[simp]
theorem exec_get (s : σ) : exec (getThe σ : ExceptT Error (StateM σ) σ) s = (.ok s, s) := rfl

@[simp]
theorem exec_set (s t : σ)
    : exec (set t : ExceptT Error (StateM σ) PUnit) s = (.ok ⟨⟩, t) := rfl

@[simp]
theorem exec_modify (f : σ → σ) (s : σ)
    : exec (modify f : ExceptT Error (StateM σ) PUnit) s = (.ok ⟨⟩, f s) := rfl

@[simp]
theorem exec_lift (x : Except Error α) (s : σ)
    : exec (liftM x : ExceptT Error (StateM σ) α) s = (x, s) := rfl

theorem exec_pure_eq_ok_iff {a b : α} {s t : σ} : exec (pure a) s = (.ok b, t) ↔ a = b ∧ s = t := by
  rw [exec_pure, Prod.mk.injEq, Except.ok.injEq]

theorem exec_lift_eq_iff {x r : Except Error α} {s t : σ}
    : exec (liftM x : ExceptT Error (StateM σ) α) s = (r, t) ↔ x = r ∧ s = t := by
  rw [exec_lift, Prod.mk.injEq]

theorem exec_bind (x : ExceptT Error (StateM σ) α) (f : α → ExceptT Error (StateM σ) β) (s : σ)
    : exec (x >>= f) s
        =
      match exec x s with
      | (.ok a, s) => exec (f a) s
      | (.error e, s) => (.error e, s) := by
  unfold exec
  rw [ExceptT.run_bind, StateT.run_bind]
  change (match x.run.run s with | (a, s) => _) = _
  generalize x.run.run s = r
  obtain ⟨a | a, t⟩ := r
  . rfl
  . rfl

theorem exec_map (f : α → β) (x : ExceptT Error (StateM σ) α) (s : σ)
    : exec (f <$> x) s = ((exec x s).1.map f, (exec x s).2) := by
  unfold exec
  rw [ExceptT.run_map, StateT.run_map]
  rfl

theorem exec_map_of_ok {x : ExceptT Error (StateM σ) α} {s t : σ} {a : α}
    (h : exec x s = (.ok a, t)) (f : α → β) : exec (f <$> x) s = (.ok (f a), t) := by
  rw [exec_map, h]
  rfl

theorem exec_map_eq_ok_iff {f : α → β} {x : ExceptT Error (StateM σ) α} {s t : σ} {b : β}
    : exec (f <$> x) s = (.ok b, t) ↔ ∃ a, exec x s = (.ok a, t) ∧ f a = b := by
  rw [exec_map]
  rcases exec x s with ⟨e | a, r⟩
  . simp [Except.map]
  . simp only [Except.map, Prod.mk.injEq, Except.ok.injEq]
    constructor
    . rintro ⟨rfl, rfl⟩
      exact ⟨a, ⟨rfl, rfl⟩, rfl⟩
    . rintro ⟨_, ⟨rfl, rfl⟩, rfl⟩
      exact ⟨rfl, rfl⟩

theorem exec_map_eq_error_iff {f : α → β} {x : ExceptT Error (StateM σ) α} {s t : σ} {e : Error}
    : exec (f <$> x) s = (.error e, t) ↔ exec x s = (.error e, t) := by
  rw [exec_map]
  rcases exec x s with ⟨e' | a, r⟩
  . simp [Except.map]
  . simp [Except.map]

theorem exec_bind_of_ok {x : ExceptT Error (StateM σ) α} {f : α → ExceptT Error (StateM σ) β}
    {s t : σ} {a : α} (h : exec x s = (.ok a, t))
    : exec (x >>= f) s = exec (f a) t := by
  rw [exec_bind, h]

theorem exec_bind_of_error {x : ExceptT Error (StateM σ) α}
    {f : α → ExceptT Error (StateM σ) β} {s t : σ} {e : Error} (h : exec x s = (.error e, t))
    : exec (x >>= f) s = (.error e, t) := by
  rw [exec_bind, h]

theorem exec_bind_eq_ok {x : ExceptT Error (StateM σ) α} {f : α → ExceptT Error (StateM σ) β}
    {s t : σ} {b : β} (h : exec (x >>= f) s = (.ok b, t))
    : ∃ a r, exec x s = (.ok a, r) ∧ exec (f a) r = (.ok b, t) := by
  rw [exec_bind] at h
  split at h
  . next a r hx => exact ⟨a, r, hx, h⟩
  . simp at h

theorem exec_bind_eq_error_iff {x : ExceptT Error (StateM σ) α}
    {f : α → ExceptT Error (StateM σ) β} {s t : σ} {e : Error}
    : exec (x >>= f) s = (.error e, t) ↔ exec x s = (.error e, t) ∨
      ∃ a r, exec x s = (.ok a, r) ∧ exec (f a) r = (.error e, t) := by
  rw [exec_bind]
  constructor
  . intro h
    split at h
    . next a r hx => exact .inr ⟨a, r, hx, h⟩
    . next e' r hx =>
      rw [Prod.mk.injEq, Except.error.injEq] at h
      rw [hx, h.1, h.2]
      exact .inl rfl
  . rintro (hx | ⟨a, r, hx, hf⟩)
    . rw [hx]
    . rw [hx]
      exact hf

/--
What each call of a sequence leaves is related to what it is made on, and so is what the sequence
leaves, also when it stops early.
-/
theorem rel_snd_exec_bind {R : σ → σ → Prop} (htrans : ∀ s t u, R s t → R t u → R s u)
    {x : ExceptT Error (StateM σ) α} {f : α → ExceptT Error (StateM σ) β}
    (hx : ∀ s, R s (exec x s).2) (hf : ∀ a s, R s (exec (f a) s).2) (s : σ)
    : R s (exec (x >>= f) s).2 := by
  have hfirst := hx s
  rw [exec_bind]
  split
  . next a t hok =>
    rw [hok] at hfirst
    exact htrans s t _ hfirst (hf a t)
  . next e t herror =>
    rw [herror] at hfirst
    exact hfirst

theorem fst_exec_bind_eq_ok_iff {x : ExceptT Error (StateM σ) α}
    {f : α → ExceptT Error (StateM σ) β} {s : σ} {b : β}
    : (exec (x >>= f) s).1 = .ok b ↔ ∃ a t, exec x s = (.ok a, t) ∧ (exec (f a) t).1 = .ok b := by
  rw [exec_bind]
  constructor
  . intro h
    split at h
    . next a t hx => exact ⟨a, t, hx, h⟩
    . simp at h
  . rintro ⟨a, t, hx, h⟩
    rw [hx]
    exact h

section

variable {p : Prop} [Decidable p] {x : ExceptT Error (StateM σ) α}
  {k : β → ExceptT Error (StateM σ) α} {s t : σ} {e : Error}

theorem exec_guard_eq_ok_iff {a : α}
    : exec (if p then throw e >>= k else x) s = (.ok a, t) ↔ ¬p ∧ exec x s = (.ok a, t) := by
  split
  . next hp =>
    rw [exec_bind_of_error (exec_throw e s)]
    simp [hp]
  . next hp => simp [hp]

/--
What fails behind a check leaves the state as it was, or has passed the check.
-/
theorem exec_guard_eq_error {e' : Error}
    (h : exec (if p then throw e >>= k else x) s = (.error e', t))
    : t = s ∨ exec x s = (.error e', t) := by
  split at h
  . rw [exec_bind_of_error (exec_throw e s), Prod.mk.injEq] at h
    exact .inl h.2.symm
  . exact .inr h

end

end TensorFiles
