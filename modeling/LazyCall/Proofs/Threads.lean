import LazyCall.Proofs.MemoCells

/-!
# One cell forced from several threads

`Run.forceCell` forces a cell in one go. Threads that force the same cell take turns under the cell's lock
instead. A thread *looks* at the cell under the lock (`Run.look`): an unevaluated cell it claims; an evaluated cell
gives it the value, counted as a cache hit; a failed cell gives it the fault again; a cell that another thread
evaluates makes it wait on the cell's condition variable. A waiting thread looks again once it is woken, by the
settler's `notify_all` or spuriously, so any step of a waiting thread may wake it. The claimant runs the computation
outside the lock, forces its value and settles the cell under the lock (`Run.publish`), as panicked when the
computation stopped otherwise than with a value or a fault; then, with the lock released, it wakes every waiter
and returns. While the computation runs the other threads only look at the claimed cell or wait, which changes
nothing the computation sees, so the computation with its settle is one step. `Forcers.run` takes the steps a
schedule names, whatever the schedule.

A run of the threads stands in one of three places relative to forcing the cell in a row (`Forcers.Reach`): nobody
has looked yet (`Unclaimed`); one thread has claimed the cell and the others wait or are about to look (`Claimed`);
or the cell is settled and the `k` threads whose force has ended got what `k` forces in a row give (`Settled`).

Main statement (`forcing_threads_agree`): for every number of threads and every schedule, at most one thread
claims the cell, the cell is unevaluated only until then, every thread that returned without computing got what
the cell was settled to, no thread waits on a settled cell once the settler has woken the waiters, four more
rounds let every thread return, and once all have returned the threads got, in some order, what forcing the cell
as many times in a row gives (`forceRepeatedly`), and left the same machine.
-/

namespace LazyCall

/-! ## The protocol -/

/-- Where a thread forcing the shared cell stands. -/
inductive Forcers.Stage where
  /-- About to take the lock and look at the cell. -/
  | ready
  /-- Blocked on the cell's condition variable. -/
  | waiting
  /-- Holds the claim on the cell, whose computation is `job`. -/
  | computing (job : Job)
  /-- Ran the computation and settled the cell with how it ended, `r`; the waiters are not woken yet. -/
  | notifying (r : Except Abort Value)
  /-- Returned what the cell held: a cached value or a replayed fault. -/
  | returned (r : Except Abort Value)
  /-- Woke the waiters and returned how the computation ended, `r`. -/
  | published (r : Except Abort Value)

namespace Forcers.Stage

/-- How the thread returned, once it has. -/
def result? : Stage → Option (Except Abort Value)
  | .returned r | .published r => some r
  | _ => none

/-- How the thread's force ended, once it has: the claimant knows it before it wakes the waiters. -/
def outcome? : Stage → Option (Except Abort Value)
  | .notifying r | .returned r | .published r => some r
  | _ => none

/-- The settler's `notify_all` wakes a waiting thread. -/
def wake : Stage → Stage
  | .waiting => .ready
  | s => s

/-- The thread has claimed the cell. -/
def isClaimant : Stage → Bool
  | .computing _ | .notifying _ | .published _ => true
  | _ => false

def isWaiting : Stage → Bool
  | .waiting => true
  | _ => false

def isNotifying : Stage → Bool
  | .notifying _ => true
  | _ => false

@[simp] theorem result?_wake (s : Stage) : (wake s).result? = s.result? := by
  cases s <;> rfl

@[simp] theorem outcome?_wake (s : Stage) : (wake s).outcome? = s.outcome? := by
  cases s <;> rfl

@[simp] theorem isClaimant_wake (s : Stage) : (wake s).isClaimant = s.isClaimant := by
  cases s <;> rfl

@[simp] theorem isNotifying_wake (s : Stage) : (wake s).isNotifying = s.isNotifying := by
  cases s <;> rfl

@[simp] theorem isWaiting_wake (s : Stage) : (wake s).isWaiting = false := by
  cases s <;> rfl

/-- A thread that has returned knows how its force ended: what it returned. -/
theorem outcome?_of_result? {s : Stage} (h : s.result?.isSome) : s.outcome? = s.result? := by
  cases s <;> simp_all [result?, outcome?]

/-- A thread whose force has ended has returned, unless it has the waiters still to wake. -/
theorem result?_of_outcome? {s : Stage} (h : s.outcome?.isSome) (hn : s.isNotifying = false) :
    s.result?.isSome := by
  cases s <;> simp_all [result?, outcome?, isNotifying]

end Forcers.Stage

open Forcers (Stage)

namespace Run

/-- A thread's look at the cell `i`, under the cell's lock. -/
def look (i : Nat) : Run Stage := do
  match (← get).cell i with
  | .pending job => do
    setCell i .running
    emit .computing
    count .computations
    pure (.computing job)
  | .done v => do
    count .cacheHits
    pure (.returned (.ok v))
  | .failed f => pure (.returned (.error (.fault f)))
  | .running => pure .waiting

/-- The claimant runs the computation `job`, forces its value, and settles the cell `i` with how that ended. -/
def publish (compute : Job → Run Value) (whnf : Value → Run Value) (i : Nat) (job : Job) : Run Stage := do
  let r ← attempt (do whnf (← compute job))
  match r with
  | .ok v => setCell i (.done v)
  | .error (.fault f) => setCell i (.failed f)
  | .error _ => setCell i (.failed .panicked)
  pure (.notifying r)

end Run

/-- Threads forcing one cell: the machine they share, and where each of them stands. -/
structure Forcers where
  machine : Machine
  stages : List Stage

namespace Forcers

variable (compute : Job → Run Value) (whnf : Value → Run Value) (i : Nat)

/-- `n` threads about to force the cell, in the machine `m`. -/
def start (m : Machine) (n : Nat) : Forcers := ⟨m, List.replicate n .ready⟩

/-- Thread `t` takes its next step; a thread that has returned, or that does not exist, takes none. -/
def step (c : Forcers) (t : Nat) : Forcers :=
  match c.stages[t]? with
  | some .ready =>
    match Run.look i c.machine with
    | .ok s m => ⟨m, c.stages.set t s⟩
    | .error _ _ => c
  | some .waiting => ⟨c.machine, c.stages.set t .ready⟩
  | some (.computing job) =>
    match Run.publish compute whnf i job c.machine with
    | .ok s m => ⟨m, c.stages.set t s⟩
    | .error _ _ => c
  | some (.notifying r) => ⟨c.machine, (c.stages.set t (.published r)).map Stage.wake⟩
  | _ => c

/-- The threads take the steps the schedule names, in order. -/
def run (c : Forcers) : List Nat → Forcers
  | [] => c
  | t :: ts => run (step compute whnf i c t) ts

/-- Every thread has returned. -/
def Finished (c : Forcers) : Prop := ∀ s ∈ c.stages, (Stage.result? s).isSome

/-- What the threads that returned got. -/
def results (c : Forcers) : List (Except Abort Value) := c.stages.filterMap Stage.result?

/-- Four rounds in which every one of `n` threads takes a step. -/
def drain (n : Nat) : List Nat := List.range n ++ List.range n ++ List.range n ++ List.range n

/-- The computation of a cell's job, as a top-level force runs it. -/
def evalJob (cx : Context) (job : Job) : Run Value := eval cx (stepFuel - 1) job.expr job.scope

/-- Threads that force the cell `i` as a top-level force does take the steps `ts`. -/
def runEval (cx : Context) (c : Forcers) (ts : List Nat) : Forcers :=
  c.run (evalJob cx) (force cx (stepFuel - 1)) i ts

end Forcers

/-! ## The steps refine a force -/

/-- A cell that holds its outcome for good. -/
def Cell.Settled : Cell → Prop
  | .done _ | .failed _ => True
  | _ => False

/-- How many computations a force of a cell in this state starts. -/
def Cell.claims : Cell → Nat
  | .pending _ => 1
  | _ => 0

/-- What a force of a settled cell gives. -/
def Cell.outcome? : Cell → Option (Except Abort Value)
  | .done v => some (.ok v)
  | .failed f => some (.error (.fault f))
  | _ => none

/-- Setting a cell to an outcome settles it, also when the place is missing. -/
theorem Machine.cell_set_settled {m : Machine} {i : Nat} {c : Cell} (hc : c.Settled) :
    (({ m with cells := m.cells.set! i c } : Machine).cell i).Settled := by
  by_cases hi : i < m.cells.size
  · rw [Machine.cell_set_self hi]; exact hc
  · unfold Machine.cell
    simp only [Array.getD_eq_getD_getElem?, Array.set!_eq_setIfInBounds]
    rw [Array.getElem?_eq_none (by simpa using hi)]
    trivial

theorem Machine.claim_cell {m : Machine} {i : Nat} {job : Job} (hc : m.cell i = .pending job) :
    (m.claim i).cell i = .running :=
  Machine.cell_set_self (Machine.lt_size_of_cell hc (by simp))

namespace Forcers

open Run

variable (compute : Job → Run Value) (whnf : Value → Run Value) (i : Nat)

/-- How one force of the cell `i` from `m` ends, and the machine it leaves. -/
def forceOnce (m : Machine) : Except Abort Value × Machine :=
  match Run.forceCell compute whnf i m with
  | .ok v m' => (.ok v, m')
  | .error e m' => (.error e, m')

/-- The machine after `k` forces of the cell in a row from `m₀`. -/
def afterForces (m₀ : Machine) : Nat → Machine
  | 0 => m₀
  | k + 1 => (forceOnce compute whnf i (afterForces m₀ k)).2

/-- What `k` forces of the cell in a row from `m₀` give, in order. -/
def forcesFrom (m₀ : Machine) (k : Nat) : List (Except Abort Value) :=
  (List.range k).map fun j => (forceOnce compute whnf i (afterForces compute whnf i m₀ j)).1

variable {compute whnf i}

theorem attempt_forceCell (m : Machine) :
    Run.attempt (Run.forceCell compute whnf i) m =
      .ok (forceOnce compute whnf i m).1 (forceOnce compute whnf i m).2 := by
  unfold forceOnce Run.attempt
  cases Run.forceCell compute whnf i m <;> rfl

theorem forcesFrom_succ (m₀ : Machine) (k : Nat) :
    forcesFrom compute whnf i m₀ (k + 1) =
      forcesFrom compute whnf i m₀ k ++ [(forceOnce compute whnf i (afterForces compute whnf i m₀ k)).1] := by
  simp [forcesFrom, List.range_succ]

/-- `k + 1` forces in a row are one force, then `k` more. -/
theorem afterForces_cons (m : Machine) (k : Nat) :
    afterForces compute whnf i m (k + 1) = afterForces compute whnf i (forceOnce compute whnf i m).2 k := by
  induction k with
  | zero => rfl
  | succ k ih =>
    show (forceOnce compute whnf i (afterForces compute whnf i m (k + 1))).2 = _
    rw [ih]
    rfl

theorem forcesFrom_cons (m : Machine) (k : Nat) :
    forcesFrom compute whnf i m (k + 1) =
      (forceOnce compute whnf i m).1 :: forcesFrom compute whnf i (forceOnce compute whnf i m).2 k := by
  simp only [forcesFrom, List.range_succ_eq_map, List.map_cons, List.map_map, Function.comp_def,
    afterForces_cons]
  rfl

theorem look_pending {m : Machine} {job : Job} (hc : m.cell i = .pending job) :
    Run.look i m = .ok (.computing job) (m.claim i) := by
  unfold Run.look
  rw [bind_of_ok (rfl : (get : Run Machine) m = .ok m m)]
  simp only [hc]
  rfl

theorem look_running {m : Machine} (hc : m.cell i = .running) : Run.look i m = .ok .waiting m := by
  unfold Run.look
  rw [bind_of_ok (rfl : (get : Run Machine) m = .ok m m)]
  simp only [hc]
  rfl

/-- A look at a settled cell is a force of it. -/
theorem look_settled {m : Machine} (hs : (m.cell i).Settled) :
    Run.look i m = .ok (.returned (forceOnce compute whnf i m).1) (forceOnce compute whnf i m).2 := by
  unfold forceOnce Run.look
  rw [bind_of_ok (rfl : (get : Run Machine) m = .ok m m)]
  cases hc : m.cell i with
  | done v => rw [Run.forceCell_done hc]; rfl
  | failed f => rw [Run.forceCell_failed hc]; rfl
  | pending job => rw [hc] at hs; exact hs.elim
  | running => rw [hc] at hs; exact hs.elim

/-- The claimant's computation with its settle is the rest of a force of the pending cell. -/
theorem publish_claimed {m : Machine} {job : Job} (hc : m.cell i = .pending job) :
    Run.publish compute whnf i job (m.claim i) =
      .ok (.notifying (forceOnce compute whnf i m).1) (forceOnce compute whnf i m).2 := by
  unfold forceOnce Run.publish
  rw [Run.forceCell_pending hc]
  cases hrun : (compute job >>= whnf) (m.claim i) with
  | ok v m' => rw [bind_of_ok (attempt_of_ok hrun), bind_of_ok (attempt_of_ok hrun)]; rfl
  | error e m' =>
    rw [bind_of_ok (attempt_of_error hrun), bind_of_ok (attempt_of_error hrun)]
    cases e <;> rfl

theorem forceOnce_settled {m : Machine} (hs : (m.cell i).Settled) :
    (forceOnce compute whnf i m).2.cell i = m.cell i := by
  unfold forceOnce
  cases hc : m.cell i with
  | done v => rw [Run.forceCell_done hc]; exact hc
  | failed f => rw [Run.forceCell_failed hc]; exact hc
  | pending job => rw [hc] at hs; exact hs.elim
  | running => rw [hc] at hs; exact hs.elim

/-- A force of a settled cell gives what the cell holds. -/
theorem forceOnce_outcome {m : Machine} (hs : (m.cell i).Settled) :
    (m.cell i).outcome? = some (forceOnce compute whnf i m).1 := by
  unfold forceOnce
  cases hc : m.cell i with
  | done v => rw [Run.forceCell_done hc]; rfl
  | failed f => rw [Run.forceCell_failed hc]; rfl
  | pending job => rw [hc] at hs; exact hs.elim
  | running => rw [hc] at hs; exact hs.elim

/-- The first force of a pending cell settles it. -/
theorem forceOnce_pending {m : Machine} {job : Job} (hc : m.cell i = .pending job) :
    ((forceOnce compute whnf i m).2.cell i).Settled := by
  unfold forceOnce
  rw [Run.forceCell_pending hc]
  cases hrun : (compute job >>= whnf) (m.claim i) with
  | ok v m' =>
    rw [bind_of_ok (attempt_of_ok hrun)]
    exact Machine.cell_set_settled trivial
  | error e m' =>
    rw [bind_of_ok (attempt_of_error hrun)]
    cases e <;> exact Machine.cell_set_settled trivial

/-! ## One step of one thread -/

variable {c : Forcers} {t : Nat}

theorem step_of_none (ht : c.stages[t]? = none) : c.step compute whnf i t = c := by
  unfold step
  rw [ht]

theorem step_of_result {s : Stage} (ht : c.stages[t]? = some s) (hs : (Stage.result? s).isSome) :
    c.step compute whnf i t = c := by
  unfold step
  rw [ht]
  cases s <;> simp_all [Stage.result?]

theorem step_of_look {s : Stage} {m : Machine} (ht : c.stages[t]? = some .ready) (hl : Run.look i c.machine = .ok s m) :
    c.step compute whnf i t = ⟨m, c.stages.set t s⟩ := by
  unfold step
  rw [ht]
  simp only [hl]

theorem step_of_waiting (ht : c.stages[t]? = some .waiting) :
    c.step compute whnf i t = ⟨c.machine, c.stages.set t .ready⟩ := by
  unfold step
  rw [ht]

theorem step_of_publish {job : Job} {s : Stage} {m : Machine} (ht : c.stages[t]? = some (.computing job))
    (hp : Run.publish compute whnf i job c.machine = .ok s m) :
    c.step compute whnf i t = ⟨m, c.stages.set t s⟩ := by
  unfold step
  rw [ht]
  simp only [hp]

theorem step_of_notify {r : Except Abort Value} (ht : c.stages[t]? = some (.notifying r)) :
    c.step compute whnf i t = ⟨c.machine, (c.stages.set t (.published r)).map Stage.wake⟩ := by
  unfold step
  rw [ht]

theorem length_step (c : Forcers) (t : Nat) : (c.step compute whnf i t).stages.length = c.stages.length := by
  unfold step
  split
  · split <;> simp
  · simp
  · split <;> simp
  · simp
  · rfl

variable (compute whnf i) in
/-- A step of another thread leaves a thread where it stands, or wakes it. -/
theorem stage_step_ne (c : Forcers) {t' : Nat} (htt : t' ≠ t) :
    (c.step compute whnf i t').stages[t]? = c.stages[t]? ∨
      (c.step compute whnf i t').stages[t]? = (c.stages[t]?).map Stage.wake := by
  unfold step
  split
  · split
    · exact Or.inl (List.getElem?_set_ne htt)
    · exact Or.inl rfl
  · exact Or.inl (List.getElem?_set_ne htt)
  · split
    · exact Or.inl (List.getElem?_set_ne htt)
    · exact Or.inl rfl
  · exact Or.inr (by rw [List.getElem?_map, List.getElem?_set_ne htt])
  · exact Or.inl rfl

/-- Setting an entry that `f` drops to one that it keeps adds the kept value to what `f` keeps, up to order. -/
theorem filterMap_set_perm {α β : Type} {f : α → Option β} {l : List α} {a : α} {b : β} (ht : t < l.length)
    (hnone : f l[t] = none) (hs : f a = some b) :
    ((l.set t a).filterMap f).Perm (l.filterMap f ++ [b]) := by
  have hl : l = l.take t ++ l[t] :: l.drop (t + 1) := by rw [List.getElem_cons_drop ht, List.take_append_drop]
  rw [List.set_eq_take_append_cons_drop, if_pos ht]
  conv => rhs; rw [hl]
  simp only [List.filterMap_append, List.filterMap_cons, hnone, hs]
  exact List.perm_middle.trans (List.perm_append_singleton _ _).symm

theorem filterMap_set_of_eq {α β : Type} {f : α → Option β} {l : List α} {a : α} (ht : t < l.length)
    (h : f l[t] = f a) : (l.set t a).filterMap f = l.filterMap f := by
  have hl : l = l.take t ++ l[t] :: l.drop (t + 1) := by rw [List.getElem_cons_drop ht, List.take_append_drop]
  rw [List.set_eq_take_append_cons_drop, if_pos ht]
  conv => rhs; rw [hl]
  simp only [List.filterMap_append, List.filterMap_cons, h]

theorem countP_set_of_eq {α : Type} {p : α → Bool} {l : List α} {a : α} (ht : t < l.length) (h : p l[t] = p a) :
    (l.set t a).countP p = l.countP p := by
  rw [List.countP_set ht, h]
  cases ha : p a
  · simp
  · have : 0 < l.countP p := List.countP_pos_iff.2 ⟨l[t], List.getElem_mem ht, h.trans ha⟩
    simp
    omega

/-! ## Where the threads stand -/

variable {m₀ : Machine} {job : Job}

variable (i) in
/-- Nobody has looked at the cell, whose computation is `job`, yet. -/
structure Unclaimed (m₀ : Machine) (job : Job) (c : Forcers) : Prop where
  cell : m₀.cell i = .pending job
  machine : c.machine = m₀
  ready : ∀ s ∈ c.stages, s = .ready

variable (i) in
/-- Thread `T` has claimed the cell and runs its computation `job`; every other thread waits or is about to look. -/
structure Claimed (m₀ : Machine) (job : Job) (T : Nat) (c : Forcers) : Prop where
  cell : m₀.cell i = .pending job
  machine : c.machine = m₀.claim i
  claimant : c.stages[T]? = some (.computing job)
  others : ∀ t ≠ T, ∀ s, c.stages[t]? = some s → s = .ready ∨ s = .waiting

variable (compute whnf i) in
/-- The cell is settled, and the `k` threads whose force has ended got what `k` forces in a row from `m₀` give. -/
structure Settled (m₀ : Machine) (k : Nat) (c : Forcers) : Prop where
  machine : c.machine = afterForces compute whnf i m₀ k
  cell : (c.machine.cell i).Settled
  stages : ∀ s ∈ c.stages, s = .ready ∨ s = .waiting ∨ (Stage.outcome? s).isSome
  /-- A thread waits only while the settler has the waiters still to wake. -/
  woken : 0 < c.stages.countP Stage.isWaiting → 0 < c.stages.countP Stage.isNotifying
  /-- A thread that returned without computing got what the cell holds. -/
  returned : ∀ r, Stage.returned r ∈ c.stages → (c.machine.cell i).outcome? = some r
  forced : c.stages.countP (fun s => (Stage.outcome? s).isSome) = k
  outcomes : (c.stages.filterMap Stage.outcome?).Perm (forcesFrom compute whnf i m₀ k)
  claimants : c.stages.countP Stage.isClaimant = (m₀.cell i).claims

/-- A thread about to look at the settled cell forces it. -/
theorem Settled.step_of_ready {k : Nat} (h : Settled compute whnf i m₀ k c) (ht : c.stages[t]? = some .ready) :
    c.step compute whnf i t =
      ⟨(forceOnce compute whnf i c.machine).2, c.stages.set t (.returned (forceOnce compute whnf i c.machine).1)⟩ :=
  step_of_look ht (look_settled h.cell)

/-- The first look at an unclaimed cell claims it. -/
theorem Unclaimed.step_claims (h : Unclaimed i m₀ job c) (ht : t < c.stages.length) :
    Claimed i m₀ job t (c.step compute whnf i t) := by
  have hready : c.stages[t]? = some .ready := by
    rw [List.getElem?_eq_getElem ht, h.ready _ (List.getElem_mem ht)]
  have hpend : c.machine.cell i = .pending job := by rw [h.machine]; exact h.cell
  rw [step_of_look hready (look_pending hpend)]
  refine ⟨h.cell, by rw [← h.machine], List.getElem?_set_self ht, fun t' ht' s hs => ?_⟩
  rw [List.getElem?_set_ne (Ne.symm ht')] at hs
  exact Or.inl (h.ready s (List.mem_of_getElem? hs))

theorem Unclaimed.step (h : Unclaimed i m₀ job c) (t : Nat) :
    Unclaimed i m₀ job (c.step compute whnf i t) ∨ Claimed i m₀ job t (c.step compute whnf i t) := by
  by_cases ht : t < c.stages.length
  · exact Or.inr (h.step_claims ht)
  · rw [step_of_none (List.getElem?_eq_none (by omega))]
    exact Or.inl h

/-- While the claimant computes, every other thread looks at a running cell and waits, or is woken. -/
theorem Claimed.step_other {T : Nat} (h : Claimed i m₀ job T c) (htT : t ≠ T) :
    Claimed i m₀ job T (c.step compute whnf i t) := by
  have hrun : c.machine.cell i = .running := by rw [h.machine]; exact Machine.claim_cell h.cell
  cases ht : c.stages[t]? with
  | none => rw [step_of_none ht]; exact h
  | some s =>
    have hlt : t < c.stages.length := (List.getElem?_eq_some_iff.1 ht).1
    have keep : ∀ x : Stage, x = .ready ∨ x = .waiting → Claimed i m₀ job T ⟨c.machine, c.stages.set t x⟩ :=
      fun x hx => ⟨h.cell, h.machine, by rw [List.getElem?_set_ne htT]; exact h.claimant, fun t' ht' s' hs' => by
        by_cases htt : t = t'
        · subst htt
          rw [List.getElem?_set_self hlt] at hs'
          obtain rfl := Option.some.inj hs'
          exact hx
        · rw [List.getElem?_set_ne htt] at hs'
          exact h.others t' ht' s' hs'⟩
    rcases h.others t htT s ht with rfl | rfl
    · rw [step_of_look ht (look_running hrun)]
      exact keep .waiting (Or.inr rfl)
    · rw [step_of_waiting ht]
      exact keep .ready (Or.inl rfl)

/-- Every thread but the claimant waits or is about to look. -/
theorem Claimed.mem_set {T : Nat} (h : Claimed i m₀ job T c) {x s : Stage} (hs : s ∈ c.stages.set T x) :
    s = x ∨ s = .ready ∨ s = .waiting := by
  obtain ⟨t', hts⟩ := List.mem_iff_getElem?.1 hs
  by_cases htT : T = t'
  · subst htT
    obtain ⟨hlt, -⟩ := List.getElem?_eq_some_iff.1 h.claimant
    rw [List.getElem?_set_self hlt] at hts
    exact Or.inl (Option.some.inj hts).symm
  · rw [List.getElem?_set_ne htT] at hts
    exact Or.inr (h.others t' (Ne.symm htT) s hts)

theorem Claimed.mem_stages {T : Nat} (h : Claimed i m₀ job T c) {s : Stage} (hs : s ∈ c.stages) :
    s = .computing job ∨ s = .ready ∨ s = .waiting := by
  obtain ⟨hlt, hT⟩ := List.getElem?_eq_some_iff.1 h.claimant
  rw [← List.set_getElem_self hlt, hT] at hs
  exact h.mem_set hs

/-- Only the claimant has claimed the cell. -/
theorem Claimed.claimants {T : Nat} (h : Claimed i m₀ job T c) : c.stages.countP Stage.isClaimant = 1 := by
  obtain ⟨hlt, hT⟩ := List.getElem?_eq_some_iff.1 h.claimant
  have hzero : (c.stages.set T .ready).countP Stage.isClaimant = 0 :=
    List.countP_eq_zero.2 fun s hs => by rcases h.mem_set hs with rfl | rfl | rfl <;> simp [Stage.isClaimant]
  rw [List.countP_set hlt, hT] at hzero
  have hpos : 0 < c.stages.countP Stage.isClaimant :=
    List.countP_pos_iff.2 ⟨_, List.mem_of_getElem? h.claimant, rfl⟩
  simp [Stage.isClaimant] at hzero
  omega

/-- The claimant's step runs the computation and settles the cell; the waiters are still to be woken. -/
theorem Claimed.step_publishes {T : Nat} (h : Claimed i m₀ job T c) :
    Settled compute whnf i m₀ 1 (c.step compute whnf i T) := by
  obtain ⟨hlt, hT⟩ := List.getElem?_eq_some_iff.1 h.claimant
  have hnone : ∀ s ∈ c.stages, Stage.outcome? s = none := fun s hs => by
    rcases h.mem_stages hs with rfl | rfl | rfl <;> rfl
  rw [step_of_publish h.claimant (by rw [h.machine]; exact publish_claimed h.cell)]
  refine ⟨rfl, forceOnce_pending h.cell, fun s hs => ?_, fun _ => ?_, fun r hr => ?_, ?_, ?_, ?_⟩
  · rcases h.mem_set hs with rfl | rfl | rfl
    · exact Or.inr (Or.inr rfl)
    · exact Or.inl rfl
    · exact Or.inr (Or.inl rfl)
  · exact List.countP_pos_iff.2 ⟨_, List.mem_of_getElem? (List.getElem?_set_self hlt), rfl⟩
  · rcases h.mem_set hr with h' | h' | h' <;> cases h'
  · rw [List.countP_set hlt, hT, List.countP_eq_zero.2 fun s hs => by simp [hnone s hs]]
    simp [Stage.outcome?]
  · refine (filterMap_set_perm (f := Stage.outcome?) hlt (by rw [hT]; rfl) rfl).trans ?_
    rw [List.filterMap_eq_nil_iff.2 hnone]
    simp [forcesFrom, afterForces]
  · rw [List.countP_set hlt, h.claimants, hT, h.cell]
    simp [Stage.isClaimant, Cell.claims]

theorem Claimed.step {T : Nat} (h : Claimed i m₀ job T c) (t : Nat) :
    Claimed i m₀ job T (c.step compute whnf i t) ∨ Settled compute whnf i m₀ 1 (c.step compute whnf i t) := by
  by_cases htT : t = T
  · subst htT
    exact Or.inr h.step_publishes
  · exact Or.inl (h.step_other htT)

/-- A thread that looks at the settled cell returns what one more force in a row gives. -/
theorem Settled.step_ready {k : Nat} (h : Settled compute whnf i m₀ k c) (ht : c.stages[t]? = some .ready) :
    Settled compute whnf i m₀ (k + 1) (c.step compute whnf i t) := by
  obtain ⟨hlt, hready⟩ := List.getElem?_eq_some_iff.1 ht
  have hcell : (forceOnce compute whnf i c.machine).2.cell i = c.machine.cell i := forceOnce_settled h.cell
  rw [h.step_of_ready ht]
  refine ⟨by rw [h.machine]; rfl, by rw [hcell]; exact h.cell, fun s hs => ?_, fun hw => ?_, fun r hr => ?_,
    ?_, ?_, ?_⟩
  · rcases List.mem_or_eq_of_mem_set hs with hs | rfl
    · exact h.stages s hs
    · exact Or.inr (Or.inr rfl)
  · rw [countP_set_of_eq hlt (p := Stage.isWaiting) (by rw [hready]; rfl)] at hw
    rw [countP_set_of_eq hlt (p := Stage.isNotifying) (by rw [hready]; rfl)]
    exact h.woken hw
  · rw [hcell]
    rcases List.mem_or_eq_of_mem_set hr with hr | hr
    · exact h.returned r hr
    · cases hr
      exact forceOnce_outcome h.cell
  · rw [List.countP_set hlt, h.forced, hready]
    simp [Stage.outcome?]
  · refine (filterMap_set_perm (f := Stage.outcome?) hlt (by rw [hready]; rfl) rfl).trans ?_
    rw [forcesFrom_succ, ← h.machine]
    exact h.outcomes.append_right _
  · rw [countP_set_of_eq hlt (by rw [hready]; rfl), h.claimants]

/-- A waiting thread that takes a step is woken, by the settler or spuriously. -/
theorem Settled.step_waiting {k : Nat} (h : Settled compute whnf i m₀ k c) (ht : c.stages[t]? = some .waiting) :
    Settled compute whnf i m₀ k (c.step compute whnf i t) := by
  obtain ⟨hlt, hwait⟩ := List.getElem?_eq_some_iff.1 ht
  rw [step_of_waiting ht]
  refine ⟨h.machine, h.cell, fun s hs => ?_, fun hw => ?_, fun r hr => ?_, ?_, ?_, ?_⟩
  · rcases List.mem_or_eq_of_mem_set hs with hs | rfl
    · exact h.stages s hs
    · exact Or.inl rfl
  · rw [countP_set_of_eq hlt (p := Stage.isNotifying) (by rw [hwait]; rfl)]
    rw [List.countP_set hlt, hwait] at hw
    simp [Stage.isWaiting] at hw
    exact h.woken (by omega)
  · rcases List.mem_or_eq_of_mem_set hr with hr | hr
    · exact h.returned r hr
    · cases hr
  · rw [countP_set_of_eq hlt (by rw [hwait]; rfl), h.forced]
  · rw [filterMap_set_of_eq hlt (by rw [hwait]; rfl)]
    exact h.outcomes
  · rw [countP_set_of_eq hlt (by rw [hwait]; rfl), h.claimants]

/-- The settler wakes every waiting thread and returns. -/
theorem Settled.step_notify {k : Nat} {r : Except Abort Value} (h : Settled compute whnf i m₀ k c)
    (ht : c.stages[t]? = some (.notifying r)) : Settled compute whnf i m₀ k (c.step compute whnf i t) := by
  obtain ⟨hlt, hnot⟩ := List.getElem?_eq_some_iff.1 ht
  rw [step_of_notify ht]
  refine ⟨h.machine, h.cell, fun s hs => ?_, fun hw => ?_, fun r' hr => ?_, ?_, ?_, ?_⟩
  · obtain ⟨s', hs', rfl⟩ := List.mem_map.1 hs
    rcases List.mem_or_eq_of_mem_set hs' with hs' | rfl
    · rcases h.stages s' hs' with rfl | rfl | hsome
      · exact Or.inl rfl
      · exact Or.inl rfl
      · exact Or.inr (Or.inr (by rw [Stage.outcome?_wake]; exact hsome))
    · exact Or.inr (Or.inr rfl)
  · have hnone : ((c.stages.set t (.published r)).map Stage.wake).countP Stage.isWaiting = 0 :=
      List.countP_eq_zero.2 fun s hs => by
        obtain ⟨s', -, rfl⟩ := List.mem_map.1 hs
        simp
    dsimp only at hw
    omega
  · obtain ⟨s', hs', hs⟩ := List.mem_map.1 hr
    have hret : s' = .returned r' := by cases s' <;> simp_all [Stage.wake]
    subst hret
    rcases List.mem_or_eq_of_mem_set hs' with hs' | hs'
    · exact h.returned r' hs'
    · cases hs'
  · rw [List.countP_map, show (fun s : Stage => (Stage.outcome? s).isSome) ∘ Stage.wake =
      fun s => (Stage.outcome? s).isSome from funext fun s => by simp, countP_set_of_eq hlt (by rw [hnot]; rfl),
      h.forced]
  · rw [List.filterMap_map, show Stage.outcome? ∘ Stage.wake = Stage.outcome? from funext Stage.outcome?_wake,
      filterMap_set_of_eq hlt (by rw [hnot]; rfl)]
    exact h.outcomes
  · rw [List.countP_map, show Stage.isClaimant ∘ Stage.wake = Stage.isClaimant from funext Stage.isClaimant_wake,
      countP_set_of_eq hlt (by rw [hnot]; rfl), h.claimants]

theorem Settled.step {k : Nat} (h : Settled compute whnf i m₀ k c) (t : Nat) :
    Settled compute whnf i m₀ k (c.step compute whnf i t) ∨
      Settled compute whnf i m₀ (k + 1) (c.step compute whnf i t) := by
  cases ht : c.stages[t]? with
  | none => rw [step_of_none ht]; exact Or.inl h
  | some s =>
    rcases h.stages s (List.mem_of_getElem? ht) with rfl | rfl | hs
    · exact Or.inr (h.step_ready ht)
    · exact Or.inl (h.step_waiting ht)
    · cases s with
      | notifying r => exact Or.inl (h.step_notify ht)
      | returned r | published r => rw [step_of_result ht rfl]; exact Or.inl h
      | ready | waiting | computing _ => simp [Stage.outcome?] at hs

theorem Settled.step_settled {k : Nat} (h : Settled compute whnf i m₀ k c) (t : Nat) :
    ∃ k', Settled compute whnf i m₀ k' (c.step compute whnf i t) := by
  rcases h.step t with h' | h'
  · exact ⟨k, h'⟩
  · exact ⟨k + 1, h'⟩

theorem Settled.run {k : Nat} (h : Settled compute whnf i m₀ k c) (ts : List Nat) :
    ∃ k', Settled compute whnf i m₀ k' (c.run compute whnf i ts) := by
  induction ts generalizing c k with
  | nil => exact ⟨k, h⟩
  | cons t ts ih =>
    obtain ⟨k', h'⟩ := h.step_settled t
    exact ih h'

/-! ## Every schedule -/

variable (compute whnf i) in
/-- The threads stand as a schedule from the start can leave them. -/
def Reach (m₀ : Machine) (c : Forcers) : Prop :=
  (∃ job, Unclaimed i m₀ job c) ∨ (∃ job T, Claimed i m₀ job T c) ∨ ∃ k, Settled compute whnf i m₀ k c

theorem Reach.step (h : Reach compute whnf i m₀ c) (t : Nat) : Reach compute whnf i m₀ (c.step compute whnf i t) := by
  rcases h with ⟨job, h⟩ | ⟨job, T, h⟩ | ⟨k, h⟩
  · rcases h.step t with h' | h'
    · exact Or.inl ⟨job, h'⟩
    · exact Or.inr (Or.inl ⟨job, t, h'⟩)
  · rcases h.step t with h' | h'
    · exact Or.inr (Or.inl ⟨job, T, h'⟩)
    · exact Or.inr (Or.inr ⟨1, h'⟩)
  · exact Or.inr (Or.inr (h.step_settled t))

theorem Reach.run (h : Reach compute whnf i m₀ c) (ts : List Nat) :
    Reach compute whnf i m₀ (c.run compute whnf i ts) := by
  induction ts generalizing c with
  | nil => exact h
  | cons t ts ih => exact ih (h.step t)

theorem settled_start (hs : (m₀.cell i).Settled) (n : Nat) : Settled compute whnf i m₀ 0 (start m₀ n) where
  machine := rfl
  cell := hs
  stages s hs := Or.inl (List.eq_of_mem_replicate hs)
  woken hw := by simp [start, List.countP_replicate, Stage.isWaiting] at hw
  returned r hr := by cases List.eq_of_mem_replicate hr
  forced := by simp [start, List.countP_replicate, Stage.outcome?]
  outcomes := by simp [start, forcesFrom, Stage.outcome?]
  claimants := by
    cases hc : m₀.cell i with
    | pending job => rw [hc] at hs; exact hs.elim
    | running => rw [hc] at hs; exact hs.elim
    | done v | failed f => simp [start, List.countP_replicate, Stage.isClaimant, Cell.claims]

theorem reach_start (hm : m₀.cell i ≠ .running) (n : Nat) : Reach compute whnf i m₀ (start m₀ n) := by
  cases hc : m₀.cell i with
  | pending job => exact Or.inl ⟨job, hc, rfl, fun s hs => List.eq_of_mem_replicate hs⟩
  | running => exact absurd hc hm
  | done v => exact Or.inr (Or.inr ⟨0, settled_start (by rw [hc]; trivial) n⟩)
  | failed f => exact Or.inr (Or.inr ⟨0, settled_start (by rw [hc]; trivial) n⟩)

theorem length_run (c : Forcers) (ts : List Nat) : (c.run compute whnf i ts).stages.length = c.stages.length := by
  induction ts generalizing c with
  | nil => rfl
  | cons t ts ih => rw [run, ih, length_step]

theorem run_append (c : Forcers) (ts us : List Nat) :
    c.run compute whnf i (ts ++ us) = (c.run compute whnf i ts).run compute whnf i us := by
  induction ts generalizing c with
  | nil => rfl
  | cons t ts ih => exact ih _

/-! ## What every schedule keeps -/

/-- At most one thread claims the cell. -/
theorem Reach.claimants_le (h : Reach compute whnf i m₀ c) : c.stages.countP Stage.isClaimant ≤ 1 := by
  rcases h with ⟨job, h⟩ | ⟨job, T, h⟩ | ⟨k, h⟩
  · rw [List.countP_eq_zero.2 fun s hs => by rw [h.ready s hs]; simp [Stage.isClaimant]]
    omega
  · exact Nat.le_of_eq h.claimants
  · rw [h.claimants]
    cases m₀.cell i <;> simp [Cell.claims]

/-- The cell is unevaluated only while no thread has claimed it. -/
theorem Reach.unclaimed_of_pending (h : Reach compute whnf i m₀ c) (hc : c.machine.cell i = .pending job) :
    c.stages.countP Stage.isClaimant = 0 := by
  rcases h with ⟨job', h⟩ | ⟨job', T, h⟩ | ⟨k, h⟩
  · exact List.countP_eq_zero.2 fun s hs => by rw [h.ready s hs]; simp [Stage.isClaimant]
  · rw [h.machine, Machine.claim_cell h.cell] at hc
    cases hc
  · have hs := h.cell
    rw [hc] at hs
    exact hs.elim

/-- Every thread that returned without computing got what the cell was settled to. -/
theorem Reach.returned_outcome (h : Reach compute whnf i m₀ c) {r : Except Abort Value}
    (hr : Stage.returned r ∈ c.stages) : (c.machine.cell i).outcome? = some r := by
  rcases h with ⟨job, h⟩ | ⟨job, T, h⟩ | ⟨k, h⟩
  · cases h.ready _ hr
  · rcases h.mem_stages hr with h' | h' | h' <;> cases h'
  · exact h.returned r hr

/-- No thread waits on a settled cell once the settler has woken the waiters. -/
theorem Reach.not_waiting (h : Reach compute whnf i m₀ c) (hs : (c.machine.cell i).Settled)
    (hn : ∀ r, Stage.notifying r ∉ c.stages) : Stage.waiting ∉ c.stages := by
  rcases h with ⟨job, h⟩ | ⟨job, T, h⟩ | ⟨k, h⟩
  · rw [h.machine, h.cell] at hs
    exact hs.elim
  · rw [h.machine, Machine.claim_cell h.cell] at hs
    exact hs.elim
  · intro hw
    obtain ⟨s, hs', hnot⟩ := List.countP_pos_iff.1 (h.woken (List.countP_pos_iff.2 ⟨_, hw, rfl⟩))
    cases s with
    | notifying r => exact hn r hs'
    | _ => simp [Stage.isNotifying] at hnot

/-- Once every thread has returned, every force has ended. -/
theorem Reach.settled_of_finished (h : Reach compute whnf i m₀ c) (hf : c.Finished) (hn : 0 < c.stages.length) :
    Settled compute whnf i m₀ c.stages.length c := by
  rcases h with ⟨job, h⟩ | ⟨job, T, h⟩ | ⟨k, h⟩
  · have hs := hf _ (List.getElem_mem hn)
    rw [h.ready _ (List.getElem_mem hn)] at hs
    simp [Stage.result?] at hs
  · have hs := hf _ (List.mem_of_getElem? h.claimant)
    simp [Stage.result?] at hs
  · have hk : k = c.stages.length := by
      rw [← h.forced]
      exact List.countP_eq_length.2 fun s hs => by rw [Stage.outcome?_of_result? (hf s hs)]; exact hf s hs
    rw [← hk]
    exact h

/-- Once every thread has returned, what they returned is how their forces ended. -/
theorem results_eq_outcomes {l : List Stage} (hf : ∀ s ∈ l, (Stage.result? s).isSome) :
    l.filterMap Stage.result? = l.filterMap Stage.outcome? := by
  induction l with
  | nil => rfl
  | cons s l ih =>
    rw [List.filterMap_cons, List.filterMap_cons, Stage.outcome?_of_result? (hf s List.mem_cons_self),
      ih fun s' hs' => hf s' (List.mem_cons_of_mem _ hs')]

/-! ## Every thread returns -/

/-- Thread `t` has returned. -/
def Done (c : Forcers) (t : Nat) : Prop := ∃ s, c.stages[t]? = some s ∧ (Stage.result? s).isSome

/-- Thread `t` has not the waiters still to wake. -/
def Calm (c : Forcers) (t : Nat) : Prop := ∀ s, c.stages[t]? = some s → s.isNotifying = false

/-- No thread is waiting or has the waiters still to wake: each is about to look, or has returned. -/
def Quiet (c : Forcers) : Prop := ∀ s ∈ c.stages, s = .ready ∨ (Stage.result? s).isSome

theorem Done.step (hd : Done c t) (t' : Nat) : Done (c.step compute whnf i t') t := by
  obtain ⟨s, hs, hsome⟩ := hd
  by_cases htt : t' = t
  · subst htt
    rw [step_of_result hs hsome]
    exact ⟨s, hs, hsome⟩
  · rcases stage_step_ne compute whnf i c htt with h' | h'
    · exact ⟨s, by rw [h', hs], hsome⟩
    · exact ⟨s.wake, by rw [h', hs]; rfl, by rw [Stage.result?_wake]; exact hsome⟩

theorem Done.run (hd : Done c t) (ts : List Nat) : Done (c.run compute whnf i ts) t := by
  induction ts generalizing c with
  | nil => exact hd
  | cons t' ts ih => exact ih (hd.step t')

/-- Only a thread's own step makes it the one to wake the waiters. -/
theorem Calm.step_ne (hc : Calm c t) {t' : Nat} (htt : t' ≠ t) : Calm (c.step compute whnf i t') t := by
  intro s hs
  rcases stage_step_ne compute whnf i c htt with h' | h'
  · exact hc s (h'.symm.trans hs)
  · rw [h'] at hs
    obtain ⟨s₀, hs₀, rfl⟩ := Option.map_eq_some_iff.1 hs
    rw [Stage.isNotifying_wake]
    exact hc s₀ hs₀

/-- Once the cell is settled, a thread that takes a step is left with no waiters to wake. -/
theorem Settled.step_calm {k : Nat} (h : Settled compute whnf i m₀ k c) (t : Nat) :
    Calm (c.step compute whnf i t) t := by
  intro s hs
  cases ht : c.stages[t]? with
  | none =>
    rw [step_of_none ht, ht] at hs
    cases hs
  | some s₀ =>
    have hlt : t < c.stages.length := (List.getElem?_eq_some_iff.1 ht).1
    rcases h.stages s₀ (List.mem_of_getElem? ht) with rfl | rfl | hsome
    · rw [h.step_of_ready ht] at hs
      dsimp only at hs
      rw [List.getElem?_set_self hlt] at hs
      cases hs
      rfl
    · rw [step_of_waiting ht] at hs
      dsimp only at hs
      rw [List.getElem?_set_self hlt] at hs
      cases hs
      rfl
    · cases s₀ with
      | notifying r =>
        rw [step_of_notify ht] at hs
        dsimp only at hs
        rw [List.getElem?_map, List.getElem?_set_self hlt] at hs
        cases hs
        rfl
      | returned r | published r =>
        rw [step_of_result ht rfl, ht] at hs
        cases hs
        rfl
      | ready | waiting | computing _ => simp [Stage.outcome?] at hsome

theorem Settled.calm_step {k : Nat} (h : Settled compute whnf i m₀ k c) (hc : Calm c t) (t' : Nat) :
    Calm (c.step compute whnf i t') t := by
  by_cases htt : t' = t
  · subst htt
    exact h.step_calm t'
  · exact hc.step_ne htt

theorem Settled.calm_run {k : Nat} (h : Settled compute whnf i m₀ k c) (hc : Calm c t) (ts : List Nat) :
    Calm (c.run compute whnf i ts) t := by
  induction ts generalizing c k with
  | nil => exact hc
  | cons t' ts ih =>
    obtain ⟨k', h'⟩ := h.step_settled t'
    exact ih h' (h.calm_step hc t')

/-- Once the cell is settled, every thread that takes a step is left with no waiters to wake. -/
theorem Settled.run_calm {k : Nat} (h : Settled compute whnf i m₀ k c) (ts : List Nat) :
    ∀ t ∈ ts, Calm (c.run compute whnf i ts) t := by
  induction ts generalizing c k with
  | nil => intro t ht; cases ht
  | cons t' ts ih =>
    intro t ht
    obtain ⟨k', h'⟩ := h.step_settled t'
    rcases List.mem_cons.1 ht with rfl | ht
    · exact h'.calm_run (h.step_calm t) ts
    · exact ih h' t ht

/-- With nobody left to wake the waiters, nobody waits. -/
theorem Settled.quiet {k : Nat} (h : Settled compute whnf i m₀ k c) (hc : ∀ t < c.stages.length, Calm c t) :
    Quiet c := by
  have hcalm : ∀ s ∈ c.stages, s.isNotifying = false := fun s hs => by
    obtain ⟨t, ht⟩ := List.mem_iff_getElem?.1 hs
    exact hc t (List.getElem?_eq_some_iff.1 ht).1 s ht
  have hwait : c.stages.countP Stage.isWaiting = 0 := by
    cases hw : c.stages.countP Stage.isWaiting with
    | zero => rfl
    | succ w =>
      have := h.woken (by omega)
      rw [List.countP_eq_zero.2 fun s hs => by simp [hcalm s hs]] at this
      omega
  intro s hs
  rcases h.stages s hs with rfl | rfl | hsome
  · exact Or.inl rfl
  · exact absurd hwait (Nat.pos_iff_ne_zero.1 (List.countP_pos_iff.2 ⟨_, hs, rfl⟩))
  · exact Or.inr (Stage.result?_of_outcome? hsome (hcalm s hs))

theorem Settled.step_quiet {k : Nat} (h : Settled compute whnf i m₀ k c) (hq : Quiet c) (t : Nat) :
    Quiet (c.step compute whnf i t) := by
  cases ht : c.stages[t]? with
  | none => rw [step_of_none ht]; exact hq
  | some s =>
    rcases hq s (List.mem_of_getElem? ht) with rfl | hsome
    · rw [h.step_of_ready ht]
      intro s hs
      rcases List.mem_or_eq_of_mem_set hs with hs | rfl
      · exact hq s hs
      · exact Or.inr rfl
    · rw [step_of_result ht hsome]
      exact hq

/-- Once nobody waits on the settled cell, a thread that takes a step returns. -/
theorem Settled.step_done {k : Nat} (h : Settled compute whnf i m₀ k c) (hq : Quiet c) (ht : t < c.stages.length) :
    Done (c.step compute whnf i t) t := by
  have hs : c.stages[t]? = some c.stages[t] := List.getElem?_eq_getElem ht
  rcases hq _ (List.getElem_mem ht) with hr | hsome
  · rw [hr] at hs
    rw [h.step_of_ready hs]
    exact ⟨_, List.getElem?_set_self ht, rfl⟩
  · rw [step_of_result hs hsome]
    exact ⟨_, hs, hsome⟩

theorem Settled.run_done {k : Nat} (h : Settled compute whnf i m₀ k c) (hq : Quiet c) (ts : List Nat) :
    ∀ t ∈ ts, t < c.stages.length → Done (c.run compute whnf i ts) t := by
  induction ts generalizing c k with
  | nil => intro t ht; cases ht
  | cons t' ts ih =>
    intro t ht hlt
    obtain ⟨k', h'⟩ := h.step_settled t'
    rcases List.mem_cons.1 ht with rfl | ht
    · exact (h.step_done hq hlt).run ts
    · exact ih h' (h.step_quiet hq t') t ht (by rw [length_step]; exact hlt)

variable (compute whnf) in
/-- The claimant's step, whenever the schedule gives it one, settles the cell. -/
theorem Claimed.run_settles {T : Nat} (h : Claimed i m₀ job T c) (ts : List Nat) (hT : T ∈ ts) :
    ∃ k, Settled compute whnf i m₀ k (c.run compute whnf i ts) := by
  induction ts generalizing c with
  | nil => cases hT
  | cons t ts ih =>
    by_cases htT : t = T
    · subst htT
      exact h.step_publishes.run ts
    · exact ih (h.step_other htT) ((List.mem_cons.1 hT).resolve_left (Ne.symm htT))

variable (compute whnf) in
theorem Claimed.run {T : Nat} (h : Claimed i m₀ job T c) (ts : List Nat) :
    Claimed i m₀ job T (c.run compute whnf i ts) ∨ ∃ k, Settled compute whnf i m₀ k (c.run compute whnf i ts) := by
  by_cases hT : T ∈ ts
  · exact Or.inr (h.run_settles compute whnf ts hT)
  · left
    induction ts generalizing c with
    | nil => exact h
    | cons t ts ih =>
      have htT : t ≠ T := fun htT => hT (htT ▸ List.mem_cons_self)
      exact ih (h.step_other htT) fun hT' => hT (List.mem_cons_of_mem _ hT')

/-- A round in which every thread takes a step leaves no thread before its claim. -/
theorem Reach.run_round (h : Reach compute whnf i m₀ c) (hn : 0 < c.stages.length) :
    (∃ job T, T < c.stages.length ∧ Claimed i m₀ job T (c.run compute whnf i (List.range c.stages.length))) ∨
      ∃ k, Settled compute whnf i m₀ k (c.run compute whnf i (List.range c.stages.length)) := by
  rcases h with ⟨job, h⟩ | ⟨job, T, h⟩ | ⟨k, h⟩
  · obtain ⟨n, hn'⟩ : ∃ n, c.stages.length = n + 1 := ⟨_, (Nat.succ_pred_eq_of_pos hn).symm⟩
    rw [hn', List.range_succ_eq_map]
    rcases (h.step_claims hn).run compute whnf (List.map Nat.succ (List.range n)) with h' | h'
    · exact Or.inl ⟨job, 0, by omega, h'⟩
    · exact Or.inr h'
  · exact Or.inr (h.run_settles compute whnf _ (List.mem_range.2 (List.getElem?_eq_some_iff.1 h.claimant).1))
  · exact Or.inr (h.run _)

/-- **Four rounds let every thread return**, from wherever a schedule left the threads: the first leaves the
cell claimed or settled, the second settled, the third with nobody left to wake the waiters, so nobody waits, and
in the fourth every thread returns. -/
theorem Reach.finishes (h : Reach compute whnf i m₀ c) (hn : 0 < c.stages.length) :
    (c.run compute whnf i (drain c.stages.length)).Finished := by
  unfold drain
  rw [run_append, run_append, run_append]
  have h₂ : ∃ k, Settled compute whnf i m₀ k
      ((c.run compute whnf i (List.range c.stages.length)).run compute whnf i (List.range c.stages.length)) := by
    rcases h.run_round hn with ⟨job, T, hT, h₁⟩ | ⟨k, h₁⟩
    · exact h₁.run_settles compute whnf _ (List.mem_range.2 hT)
    · exact h₁.run _
  obtain ⟨k, h₂⟩ := h₂
  obtain ⟨k', h₃⟩ := h₂.run (List.range c.stages.length)
  have hq := h₃.quiet fun t ht => h₂.run_calm _ t (List.mem_range.2 (by rwa [length_run, length_run, length_run] at ht))
  intro s hs
  obtain ⟨t, hts⟩ := List.mem_iff_getElem?.1 hs
  have hlt : t < c.stages.length := by
    have := (List.getElem?_eq_some_iff.1 hts).1
    rwa [length_run, length_run, length_run, length_run] at this
  obtain ⟨s', hs', hsome⟩ := h₃.run_done hq (List.range c.stages.length) t (List.mem_range.2 hlt)
    (by rwa [length_run, length_run, length_run])
  rw [hs'] at hts
  obtain rfl := Option.some.inj hts
  exact hsome

/-! ## Threads of the evaluator -/

theorem force_stepFuel (cx : Context) (i : Nat) :
    force cx stepFuel (.thunk i) = Run.forceCell (evalJob cx) (force cx (stepFuel - 1)) i :=
  force_thunk cx (stepFuel - 1) i

/-- Forcing a cell `n` times in a row, as a session does, gives what `n` forces in a row give. -/
theorem forceRepeatedly_eq (cx : Context) (i : Nat) : ∀ (n : Nat) (m : Machine),
    forceRepeatedly cx i n m =
      .ok ((forcesFrom (evalJob cx) (force cx (stepFuel - 1)) i m n).map Outcome.ofExcept)
        (afterForces (evalJob cx) (force cx (stepFuel - 1)) i m n)
  | 0, m => rfl
  | n + 1, m => by
    rw [forceRepeatedly, force_stepFuel, bind_of_ok (attempt_forceCell m), bind_of_ok (forceRepeatedly_eq cx i n _), forcesFrom_cons, afterForces_cons]
    rfl

/-- **Threads forcing one cell agree with forcing it in a row.** Under every schedule at most one thread claims and
computes the cell, and once all have returned they got what `n` forces in a row give. -/
theorem forcing_threads_agree (cx : Context) (i : Nat) {m₀ : Machine} (hm : m₀.cell i ≠ .running) {n : Nat}
    (hn : 0 < n) (ts : List Nat) :
    let c := (start m₀ n).runEval i cx ts
    c.stages.countP Stage.isClaimant ≤ 1 ∧
    (∀ job, c.machine.cell i = .pending job → c.stages.countP Stage.isClaimant = 0) ∧
    (∀ r, Stage.returned r ∈ c.stages → (c.machine.cell i).outcome? = some r) ∧
    ((c.machine.cell i).Settled → (∀ r, Stage.notifying r ∉ c.stages) → Stage.waiting ∉ c.stages) ∧
    (c.runEval i cx (drain n)).Finished ∧
    (c.Finished → c.stages.countP Stage.isClaimant = (m₀.cell i).claims ∧
      ∃ outs, forceRepeatedly cx i n m₀ = .ok outs c.machine ∧ (c.results.map Outcome.ofExcept).Perm outs) := by
  intro c
  have h : Reach (evalJob cx) (force cx (stepFuel - 1)) i m₀ c := (reach_start hm n).run ts
  have hlen : c.stages.length = n := by
    show ((start m₀ n).run _ _ i ts).stages.length = n
    rw [length_run]
    simp [start]
  refine ⟨h.claimants_le, fun job hc => h.unclaimed_of_pending hc, fun r hr => h.returned_outcome hr,
    fun hs hn' => h.not_waiting hs hn', ?_, fun hf => ?_⟩
  · rw [← hlen]
    exact h.finishes (by omega)
  · have hs := h.settled_of_finished hf (by omega)
    rw [hlen] at hs
    refine ⟨hs.claimants, _, by rw [hs.machine]; exact forceRepeatedly_eq cx i n m₀, ?_⟩
    rw [show c.results = c.stages.filterMap Stage.outcome? from results_eq_outcomes hf]
    exact hs.outcomes.map _

/-- Two threads forcing an unevaluated cell, the second looking first and waiting while the first computes. -/
theorem two_threads_force_one_cell :
    ({ cells := #[.pending ⟨.int 1, {}⟩] } : Machine).cell 0 ≠ .running ∧ 0 < 2 ∧
    let c := (start { cells := #[.pending ⟨.int 1, {}⟩] } 2).runEval 0 {} [0, 1, 0, 1, 0]
    c.stages.countP Stage.isClaimant ≤ 1 ∧
    (∀ job, c.machine.cell 0 = .pending job → c.stages.countP Stage.isClaimant = 0) ∧
    (∀ r, Stage.returned r ∈ c.stages → (c.machine.cell 0).outcome? = some r) ∧
    ((c.machine.cell 0).Settled → (∀ r, Stage.notifying r ∉ c.stages) → Stage.waiting ∉ c.stages) ∧
    (c.runEval 0 {} (drain 2)).Finished ∧
    (c.Finished → c.stages.countP Stage.isClaimant =
        (({ cells := #[.pending ⟨.int 1, {}⟩] } : Machine).cell 0).claims ∧
      ∃ outs, forceRepeatedly {} 0 2 { cells := #[.pending ⟨.int 1, {}⟩] } = .ok outs c.machine ∧
        (c.results.map Outcome.ofExcept).Perm outs) :=
  have hm : ({ cells := #[.pending ⟨.int 1, {}⟩] } : Machine).cell 0 ≠ .running := by simp [Machine.cell]
  ⟨hm, by decide, forcing_threads_agree {} 0 hm (by decide) [0, 1, 0, 1, 0]⟩

end Forcers

end LazyCall
