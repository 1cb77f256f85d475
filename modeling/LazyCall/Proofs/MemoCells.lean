import LazyCall.Proofs.Sessions

/-!
# Memo cells settle once

Main statement (`memo_cells_settle_once`): forcing a memo cell acts on its state as `Run.forceCell` says, and over
every run of evaluation from a sound machine each cell moves only along `Cell.Next`.

Since `Cell.Next` has no move into `pending` (`Cell.Next.eq_of_pending`), a cell that a force claimed is never pending
again: its computation, which only a force of a pending cell starts, runs at most once, and a settled or failed cell
keeps its outcome for good (`Cell.Next.eq_of_done`, `Cell.Next.eq_of_failed`). Along a whole session the same holds
between the machines the reports show (`Session.Sound.steps`).
-/

namespace LazyCall

/-! ## Moves of a cell -/

namespace Cell.Next

variable {c : Cell}

theorem eq_of_done {v : Value} (h : (Cell.done v).Next c) : c = .done v := by
  cases h; rfl

theorem eq_of_failed {f : Fault} (h : (Cell.failed f).Next c) : c = .failed f := by
  cases h; rfl

/-- A cell that is pending after a move was pending with the same job before it: nothing moves back to `pending`. -/
theorem eq_of_pending {job : Job} (h : c.Next (.pending job)) : c = .pending job := by
  cases h; rfl

end Cell.Next

/-! ## Runs -/

/-- The machine a run ended in, with a value or without one. -/
def Run.final {α : Type} : EStateM.Result Abort Machine α → Machine
  | .ok _ m => m
  | .error _ m => m

theorem Run.Kept.grows {α : Type} {m : Machine} {Q : α → Nat → Prop} {res : EStateM.Result Abort Machine α}
    (h : Run.Kept m Q res) : m.Grows (Run.final res) := by
  cases res with
  | ok a m' => exact h.2.1
  | error e m' => exact h.2

/-- Forcing a memo cell with fuel left is `Run.forceCell`, with the evaluator one level down. -/
theorem force_thunk (cx : Context) (fuel i : Nat) :
    force cx (fuel + 1) (.thunk i) = Run.forceCell (fun job => eval cx fuel job.expr job.scope) (force cx fuel) i := by
  rw [force]

/-- `peek?` sees exactly the settled cells. -/
theorem Machine.peek_eq_some {m : Machine} {i : Nat} {v : Value} : m.peek? i = some v ↔ m.cell i = .done v := by
  unfold Machine.peek?
  split <;> simp_all

/-- **Memo cells settle once.** Forcing a cell acts on its state as `Run.forceCell` says, and along every run from a
sound machine each cell moves only along `Cell.Next`. -/
theorem memo_cells_settle_once (cx : Context) (fuel i : Nat) (m : Machine) :
    (∀ v, m.cell i = .done v →
      force cx (fuel + 1) (.thunk i) m = .ok v { m with counters := m.counters.bump .cacheHits }) ∧
    (∀ f, m.cell i = .failed f → force cx (fuel + 1) (.thunk i) m = .error (.fault f) m) ∧
    (m.cell i = .running → force cx (fuel + 1) (.thunk i) m =
      .error (.fault .cyclicForce) { m with counters := m.counters.bump .cyclicForces, events := m.events.push .cyclic }) ∧
    (∀ job, m.cell i = .pending job →
      (∀ v m', (eval cx fuel job.expr job.scope >>= force cx fuel) (m.claim i) = .ok v m' →
        force cx (fuel + 1) (.thunk i) m = .ok v (m'.settle i (.done v))) ∧
      (∀ f m', (eval cx fuel job.expr job.scope >>= force cx fuel) (m.claim i) = .error (.fault f) m' →
        force cx (fuel + 1) (.thunk i) m = .error (.fault f) (m'.settle i (.failed f))) ∧
      (∀ e m', (∀ f, e ≠ .fault f) → (eval cx fuel job.expr job.scope >>= force cx fuel) (m.claim i) = .error e m' →
        force cx (fuel + 1) (.thunk i) m = .error e (m'.settle i (.failed .panicked)))) ∧
    (∀ v, m.peek? i = some v ↔ m.cell i = .done v) ∧
    (m.Sound → cx.Below m.fresh → ∀ (e : Expr) (s : Scope), s.Below m.fresh →
      ∀ c < m.cells.size, (m.cell c).Next ((Run.final (eval cx fuel e s m)).cell c)) := by
  rw [force_thunk]
  refine ⟨fun v hc => Run.forceCell_done hc, fun f hc => Run.forceCell_failed hc, Run.forceCell_running,
    fun job hc => ⟨fun v m' hrun => Run.forceCell_pending_ok hc hrun, fun f m' hrun => Run.forceCell_pending_fault hc hrun,
      fun e m' he hrun => Run.forceCell_pending_abort hc he hrun⟩, fun v => Machine.peek_eq_some, ?_⟩
  intro hm hcx e s hs
  have hkept := (evalKeeps hcx fuel).eval e s m.fresh (Nat.le_refl _) hs m hm (Nat.le_refl _)
  exact hkept.grows.cells

/-- A machine whose only cell is pending: forcing the cell it delays is a run the invariant covers. -/
theorem pending_cell_settles_once :
    ({ cells := #[.pending ⟨.int 1, {}⟩] } : Machine).cell 0 = .pending ⟨.int 1, {}⟩ ∧
      ({ cells := #[.pending ⟨.int 1, {}⟩] } : Machine).Sound ∧ ({} : Context).Below 1 ∧ ({} : Scope).Below 1 ∧
      ∀ c < 1, (({ cells := #[.pending ⟨.int 1, {}⟩] } : Machine).cell c).Next
        ((Run.final (eval {} 3 (.force (.this)) { this := some 0 } { cells := #[.pending ⟨.int 1, {}⟩] })).cell c) := by
  have hm : ({ cells := #[.pending ⟨.int 1, {}⟩] } : Machine).Sound :=
    ⟨Nat.one_pos, by simp [Cell.Sound, Scope.Below], by simp⟩
  have hcx : ({} : Context).Below 1 := fun _ h => by cases h
  have hs : ({ this := some 0 } : Scope).Below 1 := by simp [Scope.Below]
  exact ⟨rfl, hm, hcx, Scope.below_top,
    (memo_cells_settle_once {} 3 0 { cells := #[.pending ⟨.int 1, {}⟩] }).2.2.2.2.2 hm hcx (.force .this) _ hs⟩

end LazyCall
