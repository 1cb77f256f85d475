import LazyCall.Machine

/-!
# Runs, taken apart

The equations that open a `Run` computation without unfolding `EStateM`: a bind succeeds exactly when its first
part succeeds and the rest succeeds from the machine it left (`bind_eq_ok`), and fails when one of the two parts
fails (`bind_eq_error`). Each primitive of the machine has its equation (`count_apply`, `freshId_apply`,
`newCell_apply`, `setCell_apply`, ...), tagged for `simp`, so a straight-line piece of a run evaluates by
`simp only [bind_of_ok, ...]`.
-/

namespace LazyCall.Run

variable {α β : Type}

/-! ## The monad -/

@[simp] theorem pure_apply (a : α) (m : Machine) : (pure a : Run α) m = .ok a m := rfl

@[simp] theorem throw_apply (e : Abort) (m : Machine) : (throw e : Run α) m = .error e m := rfl

theorem bind_of_ok {x : Run α} {f : α → Run β} {m m₁ : Machine} {a : α} (h : x m = .ok a m₁) :
    (x >>= f) m = f a m₁ := by
  show EStateM.bind x f m = _
  unfold EStateM.bind
  rw [h]

theorem bind_of_error {x : Run α} {f : α → Run β} {m m₁ : Machine} {e : Abort} (h : x m = .error e m₁) :
    (x >>= f) m = .error e m₁ := by
  show EStateM.bind x f m = _
  unfold EStateM.bind
  rw [h]

/-- A run that starts as another one did, from another machine, goes on as it did. -/
theorem bind_apply_of_eq {x y : Run α} {f : α → Run β} {m m₀ : Machine} (h : x m = y m₀) :
    (x >>= f) m = (y >>= f) m₀ := by
  show EStateM.bind x f m = EStateM.bind y f m₀
  unfold EStateM.bind
  rw [h]

theorem map_of_ok {f : α → β} {x : Run α} {m m₁ : Machine} {a : α} (h : x m = .ok a m₁) :
    (f <$> x) m = .ok (f a) m₁ := by
  show EStateM.map f x m = _
  unfold EStateM.map
  rw [h]

theorem map_of_error {f : α → β} {x : Run α} {m m₁ : Machine} {e : Abort} (h : x m = .error e m₁) :
    (f <$> x) m = .error e m₁ := by
  show EStateM.map f x m = _
  unfold EStateM.map
  rw [h]

theorem bind_eq_ok {x : Run α} {f : α → Run β} {m m' : Machine} {b : β} :
    (x >>= f) m = .ok b m' ↔ ∃ a m₁, x m = .ok a m₁ ∧ f a m₁ = .ok b m' := by
  constructor
  · intro h
    cases hx : x m with
    | ok a m₁ => exact ⟨a, m₁, rfl, by rwa [bind_of_ok hx] at h⟩
    | error e m₁ => rw [bind_of_error hx] at h; cases h
  · rintro ⟨a, m₁, hx, h⟩
    rw [bind_of_ok hx, h]

theorem bind_eq_error {x : Run α} {f : α → Run β} {m m' : Machine} {e : Abort} :
    (x >>= f) m = .error e m' ↔
      x m = .error e m' ∨ ∃ a m₁, x m = .ok a m₁ ∧ f a m₁ = .error e m' := by
  constructor
  · intro h
    cases hx : x m with
    | ok a m₁ => exact .inr ⟨a, m₁, rfl, by rwa [bind_of_ok hx] at h⟩
    | error e₁ m₁ => rw [bind_of_error hx] at h; cases h; exact .inl rfl
  · rintro (hx | ⟨a, m₁, hx, h⟩)
    · rw [bind_of_error hx]
    · rw [bind_of_ok hx, h]

theorem map_eq_ok {f : α → β} {x : Run α} {m m' : Machine} {b : β} :
    (f <$> x) m = .ok b m' ↔ ∃ a, x m = .ok a m' ∧ f a = b := by
  constructor
  · intro h
    cases hx : x m with
    | ok a m₁ =>
      rw [map_of_ok hx] at h
      cases h
      exact ⟨a, rfl, rfl⟩
    | error e m₁ => rw [map_of_error hx] at h; cases h
  · rintro ⟨a, hx, rfl⟩
    rw [map_of_ok hx]

/-! ## The primitives of the machine -/

@[simp] theorem fault_apply (f : Fault) (m : Machine) : (fault f : Run α) m = .error (.fault f) m := rfl

@[simp] theorem failWith_apply (text : String) (m : Machine) :
    (failWith text : Run α) m = .error (.fault (.body (.message text))) m := rfl

@[simp] theorem ofExcept_ok (a : α) : ofExcept (.ok a : Except Fault α) = pure a := rfl

@[simp] theorem ofExcept_error (f : Fault) : ofExcept (.error f : Except Fault α) = fault f := rfl

theorem attempt_of_ok {x : Run α} {m m₁ : Machine} {a : α} (h : x m = .ok a m₁) : attempt x m = .ok (.ok a) m₁ := by
  unfold attempt
  rw [h]

theorem attempt_of_error {x : Run α} {m m₁ : Machine} {e : Abort} (h : x m = .error e m₁) :
    attempt x m = .ok (.error e) m₁ := by
  unfold attempt
  rw [h]

@[simp] theorem count_apply (c : Counter) (m : Machine) :
    count c m = .ok () { m with counters := m.counters.bump c } := rfl

@[simp] theorem emit_apply (e : Event) (m : Machine) : emit e m = .ok () { m with events := m.events.push e } :=
  rfl

@[simp] theorem freshId_apply (m : Machine) : freshId m = .ok m.fresh { m with fresh := m.fresh + 1 } := rfl

@[simp] theorem newCell_apply (c : Cell) (m : Machine) :
    newCell c m = .ok m.cells.size
      { m with counters := m.counters.bump .thunks, cells := m.cells.push c } := rfl

@[simp] theorem setCell_apply (i : Nat) (c : Cell) (m : Machine) :
    setCell i c m = .ok () { m with cells := m.cells.set! i c } := rfl

@[simp] theorem addHome_apply (f : Fn) (m : Machine) : addHome f m = .ok () { m with homes := m.homes.push f } :=
  rfl

@[simp] theorem home_apply (slot : Nat) (m : Machine) : home slot m = .ok m.homes[slot]? m := rfl

theorem cellOf_thunk (i : Nat) : cellOf (.thunk i) = pure i := rfl

theorem cellOf_apply {v : Value} (hv : ∀ i, v ≠ .thunk i) (m : Machine) :
    cellOf v m = newCell (.done v) m := by
  cases v with
  | thunk i => exact absurd rfl (hv i)
  | _ => rfl

end LazyCall.Run
