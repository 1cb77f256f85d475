import LazyCall.Proofs.Run

/-!
# Forcing a memo cell, state by state

`Run.forceCell` looks at the cell once and acts on its state:

* a settled cell (`forceCell_done`) gives its value and counts one cache hit;
* a failed cell (`forceCell_failed`) gives its fault again, counts nothing and changes nothing;
* a claimed cell (`forceCell_running`) is a cyclic force: counted, reported, and the cell stays claimed;
* a pending cell is claimed (`Machine.claim`: marked running, reported, counted), its computation runs and its
  value is forced; the cell is then settled (`Machine.settle`) with the value (`forceCell_pending_ok`), with the
  fault (`forceCell_pending_fault`), or, when the computation stopped otherwise, with `Panicked`
  (`forceCell_pending_abort`).
-/

namespace LazyCall

namespace Machine

/-- The machine once a force claimed the cell `i`: the cell runs, and the claim is reported and counted. -/
def claim (m : Machine) (i : Nat) : Machine :=
  { m with cells := m.cells.set! i .running, events := m.events.push .computing,
           counters := m.counters.bump .computations }

/-- The machine once the cell `i` is settled to `c`. -/
def settle (m : Machine) (i : Nat) (c : Cell) : Machine := { m with cells := m.cells.set! i c }

end Machine

namespace Run

variable {compute : Job → Run Value} {whnf : Value → Run Value} {i : Nat} {m : Machine}

theorem forceCell_done {v : Value} (hc : m.cell i = .done v) :
    forceCell compute whnf i m = .ok v { m with counters := m.counters.bump .cacheHits } := by
  unfold forceCell
  rw [bind_of_ok (rfl : (get : Run Machine) m = .ok m m)]
  simp only [hc]
  rfl

theorem forceCell_failed {f : Fault} (hc : m.cell i = .failed f) : forceCell compute whnf i m = .error (.fault f) m := by
  unfold forceCell
  rw [bind_of_ok (rfl : (get : Run Machine) m = .ok m m)]
  simp only [hc]
  rfl

theorem forceCell_running (hc : m.cell i = .running) :
    forceCell compute whnf i m =
      .error (.fault .cyclicForce) { m with counters := m.counters.bump .cyclicForces, events := m.events.push .cyclic } := by
  unfold forceCell
  rw [bind_of_ok (rfl : (get : Run Machine) m = .ok m m)]
  simp only [hc]
  rfl

theorem forceCell_pending {job : Job} (hc : m.cell i = .pending job) :
    forceCell compute whnf i m =
      (attempt (compute job >>= whnf) >>= fun r => match r with
        | .ok v => do setCell i (.done v); pure v
        | .error (.fault f) => do setCell i (.failed f); fault f
        | .error e => do setCell i (.failed .panicked); throw e) (m.claim i) := by
  unfold forceCell
  rw [bind_of_ok (rfl : (get : Run Machine) m = .ok m m)]
  simp only [hc]
  rfl

theorem forceCell_pending_ok {job : Job} {v : Value} {m' : Machine} (hc : m.cell i = .pending job)
    (hrun : (compute job >>= whnf) (m.claim i) = .ok v m') :
    forceCell compute whnf i m = .ok v (m'.settle i (.done v)) := by
  rw [forceCell_pending hc, bind_of_ok (attempt_of_ok hrun)]
  rfl

theorem forceCell_pending_fault {job : Job} {f : Fault} {m' : Machine} (hc : m.cell i = .pending job)
    (hrun : (compute job >>= whnf) (m.claim i) = .error (.fault f) m') :
    forceCell compute whnf i m = .error (.fault f) (m'.settle i (.failed f)) := by
  rw [forceCell_pending hc, bind_of_ok (attempt_of_error hrun)]
  rfl

theorem forceCell_pending_abort {job : Job} {e : Abort} {m' : Machine} (hc : m.cell i = .pending job)
    (he : ∀ f, e ≠ .fault f) (hrun : (compute job >>= whnf) (m.claim i) = .error e m') :
    forceCell compute whnf i m = .error e (m'.settle i (.failed .panicked)) := by
  rw [forceCell_pending hc, bind_of_ok (attempt_of_error hrun)]
  cases e with
  | fault f => exact absurd rfl (he f)
  | panic msg => rfl
  | exhausted => rfl

end Run

end LazyCall
