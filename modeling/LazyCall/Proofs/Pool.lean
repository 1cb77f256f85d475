import Mathlib.Data.List.Forall2
import LazyCall.Proofs.CellChains

/-!
# The pool forces a list of cells in order

Main statement (`pool_forces_in_order`): forcing a list of cells in the pool (`forceCells`) ends as forcing them one
after another on one thread (`forceEach`) does, with the same values or with the first failure in list order. When
no computation on the way panics or runs out of fuel, the two are the same run, machine included, so the cells after
the first fault are left as they were. A panic is the one difference: the pool still forces the second half of every
halving whose first half panicked before the panic surfaces.

The pool's halving is undone in two steps. Forcing in order and raising what stopped it is `forceEach`
(`forceInOrder_raise`), and `sweep` agrees with `forceInOrder` on the list it halves: it is the same
run while nothing panics (`sweep_eq_of_quiet`), and raises the same panic otherwise (`sweep_panics_alike`). The second step follows `sweep`'s own recursion and
cuts the in-order run where the pool halves the list (`forceInOrder_append`).
-/

namespace LazyCall

open Run

variable {cx : Context}

/-- Forces cells one after another on one thread, stopping at the first that fails. -/
def forceEach (cx : Context) : List Nat → Run (List Value)
  | [] => pure []
  | i :: is => do
    let v ← force cx stepFuel (.thunk i)
    let vs ← forceEach cx is
    pure (v :: vs)

/-- What the caller of the pool makes of a sweep: its panic, else its fault, else its values. -/
def Sweep.raise (s : Sweep) : Run (List Value) :=
  match s.abort, s.fault with
  | some a, _ => throw a
  | none, some f => throw (.fault f)
  | none, none => pure s.values

/-- How a run ended, without the machine it ended in. -/
def Run.outcome {α : Type} : EStateM.Result Abort Machine α → Except Abort α
  | .ok a _ => .ok a
  | .error e _ => .error e

theorem forceCells_eq (cells : List Nat) :
    forceCells cx cells = sweep cx poolWorkers false false cells >>= Sweep.raise := rfl

/-! ## Forcing in order -/

/-- Forcing in order never stops the run itself: a fault or a panic is kept in the sweep, never a fault as a panic. -/
theorem forceInOrder_ok (cells : List Nat) (m : Machine) :
    ∃ s m', forceInOrder cx cells m = .ok s m' ∧ ∀ f, s.abort ≠ some (.fault f) := by
  induction cells generalizing m with
  | nil => exact ⟨{}, m, rfl, fun _ h => by cases h⟩
  | cons i is ih =>
    rw [forceInOrder]
    cases h : force cx stepFuel (.thunk i) m with
    | ok v m₁ =>
      obtain ⟨s, m', hs, hf⟩ := ih m₁
      rw [bind_of_ok (attempt_of_ok h)]
      exact ⟨_, m', bind_of_ok hs, hf⟩
    | error e m₁ =>
      rw [bind_of_ok (attempt_of_error h)]
      cases e with
      | fault f => exact ⟨_, m₁, rfl, fun _ h => by cases h⟩
      | panic msg => exact ⟨_, m₁, rfl, fun _ h => by cases h⟩
      | exhausted => exact ⟨_, m₁, rfl, fun _ h => by cases h⟩

theorem Sweep.raise_cons (v : Value) (s : Sweep) :
    (s.raise >>= fun vs => pure (v :: vs)) = Sweep.raise { s with values := v :: s.values } := by
  rcases s with ⟨vs, _ | f, _ | a⟩ <;> rfl

/-- Forcing in order and raising what stopped it is forcing each cell in turn. -/
theorem forceInOrder_raise (cells : List Nat) : forceInOrder cx cells >>= Sweep.raise = forceEach cx cells := by
  induction cells with
  | nil => rfl
  | cons i is ih =>
    funext m
    rw [forceInOrder, forceEach, bind_assoc]
    cases h : force cx stepFuel (.thunk i) m with
    | ok v m₁ =>
      rw [bind_of_ok (attempt_of_ok h), bind_of_ok h, ← ih, bind_assoc, bind_assoc]
      simp only [pure_bind, Sweep.raise_cons]
    | error e m₁ =>
      rw [bind_of_ok (attempt_of_error h), bind_of_error h]
      cases e <;> rfl

/-- Forcing `l ++ r` in order forces `l`, then `r` if nothing in `l` failed. -/
theorem forceInOrder_append (l r : List Nat) :
    forceInOrder cx (l ++ r) = (do
      let s ← forceInOrder cx l
      if s.fault.isNone && s.abort.isNone then
        let t ← forceInOrder cx r
        pure { t with values := s.values ++ t.values }
      else pure s) := by
  induction l with
  | nil =>
    rw [List.nil_append, forceInOrder]
    simp
  | cons i l ih =>
    funext m
    rw [List.cons_append, forceInOrder, forceInOrder, bind_assoc]
    cases h : force cx stepFuel (.thunk i) m with
    | ok v m₁ =>
      rw [bind_of_ok (attempt_of_ok h), bind_of_ok (attempt_of_ok h)]
      dsimp only
      rw [ih, bind_assoc, bind_assoc]
      refine congrFun (congrArg _ (funext fun s => ?_)) m₁
      split <;> simp_all
    | error e m₁ =>
      rw [bind_of_ok (attempt_of_error h), bind_of_ok (attempt_of_error h)]
      cases e <;> rfl

/-! ## The pool's halving -/

/-- A sweep told to stop forces nothing. -/
theorem sweep_stopped (halves : Nat) (resumed : Bool) (cells : List Nat) :
    sweep cx halves resumed true cells = pure {} := by
  rw [sweep]
  rfl

/-- A piece of fewer than two cells is not halved. -/
theorem sweep_of_short {cells : List Nat} (h : cells.length < 2) (halves : Nat) (resumed stopped : Bool) :
    sweep cx halves resumed stopped cells = if stopped then pure {} else forceInOrder cx cells := by
  rw [sweep]
  split
  · rfl
  · split
    · rfl
    · next k hk => exact absurd (two_le_of_halving hk) (by omega)

/-- The pool never stops the run itself. -/
theorem sweep_ok (halves : Nat) (resumed stopped : Bool) (cells : List Nat) (m : Machine) :
    ∃ s m', sweep cx halves resumed stopped cells m = .ok s m' := by
  fun_induction sweep cx halves resumed stopped cells generalizing m with
  | case1 => exact ⟨{}, m, rfl⟩
  | case2 =>
    obtain ⟨s, m', h, -⟩ := forceInOrder_ok _ m
    exact ⟨s, m', h⟩
  | case3 _ _ _ _ _ _ _ _ ihl ihra ihr =>
    obtain ⟨left, m₁, hl⟩ := ihl m
    rw [bind_of_ok hl]
    cases ha : left.abort with
    | some a =>
      obtain ⟨right, m₂, hr⟩ := ihra left m₁
      exact ⟨_, m₂, bind_of_ok hr⟩
    | none =>
      obtain ⟨right, m₂, hr⟩ := ihr left m₁
      exact ⟨_, m₂, bind_of_ok hr⟩

/-- While the in-order run meets no panic, the pool's halving changes nothing. -/
theorem sweep_eq_of_quiet (halves : Nat) (resumed stopped : Bool) (cells : List Nat) (hst : stopped = false)
    {m m' : Machine} {s : Sweep} (h : forceInOrder cx cells m = .ok s m') (hs : s.abort = none) :
    sweep cx halves resumed stopped cells m = .ok s m' := by
  fun_induction sweep cx halves resumed stopped cells generalizing m m' s with
  | case1 => cases hst
  | case2 => exact h
  | case3 _ _ _ cells _ _ _ _ ihl _ ihr =>
    -- cut the in-order run where the pool halves the list
    rw [← List.take_append_drop (cells.length / 2) cells, forceInOrder_append] at h
    obtain ⟨left, m₁, hl, h⟩ := bind_eq_ok.1 h
    cases ha : left.abort with
    | some a =>
      simp [ha] at h
      obtain ⟨rfl, rfl⟩ := h
      rw [ha] at hs
      cases hs
    | none =>
      rw [bind_of_ok (ihl rfl hl ha)]
      simp only [ha]
      cases hf : left.fault with
      | some f =>
        simp [ha, hf] at h
        obtain ⟨rfl, rfl⟩ := h
        simp only [Option.isSome_some, sweep_stopped, pure_bind, pure_apply]
        cases left
        simp_all
      | none =>
        simp [ha, hf] at h
        obtain ⟨right, hr, rfl⟩ := map_eq_ok.1 h
        have hright := ihr left (by simp [hf]) hr hs
        rw [hf] at hright
        rw [bind_of_ok hright]
        rfl

/-- When the in-order run stops at a panic, the pool raises the same panic, though it may force more cells on the
way. -/
theorem sweep_panics_alike (halves : Nat) (resumed stopped : Bool) (cells : List Nat) (hst : stopped = false)
    {m m' : Machine} {s : Sweep} (h : forceInOrder cx cells m = .ok s m') {a : Abort} (hs : s.abort = some a) :
    ∃ s' m'', sweep cx halves resumed stopped cells m = .ok s' m'' ∧ s'.abort = some a := by
  fun_induction sweep cx halves resumed stopped cells generalizing m m' s with
  | case1 => cases hst
  | case2 => exact ⟨s, m', h, hs⟩
  | case3 _ _ _ cells _ _ _ _ ihl _ ihr =>
    rw [← List.take_append_drop (cells.length / 2) cells, forceInOrder_append] at h
    obtain ⟨left, m₁, hl, h⟩ := bind_eq_ok.1 h
    cases ha : left.abort with
    | some b =>
      -- the panic is the first half's, and the pool raises it whatever the second half does
      simp [ha] at h
      obtain ⟨rfl, rfl⟩ := h
      obtain ⟨left', m₁', hl', ha'⟩ := ihl rfl hl hs
      rw [bind_of_ok hl']
      simp only [ha']
      obtain ⟨right, m₂, hr⟩ := @sweep_ok cx _ true left'.fault.isSome (cells.drop (cells.length / 2)) m₁'
      exact ⟨_, m₂, bind_of_ok hr, rfl⟩
    | none =>
      -- the first half ran as in order and without a fault, so the panic is the second half's
      rw [bind_of_ok (sweep_eq_of_quiet _ _ _ _ rfl hl ha)]
      simp only [ha]
      cases hf : left.fault with
      | some f =>
        simp [ha, hf] at h
        obtain ⟨rfl, rfl⟩ := h
        rw [ha] at hs
        cases hs
      | none =>
        simp [ha, hf] at h
        obtain ⟨right, hr, rfl⟩ := map_eq_ok.1 h
        obtain ⟨right', m₂', hr', hra⟩ := ihr left (by simp [hf]) hr hs
        rw [hf] at hr'
        exact ⟨_, m₂', bind_of_ok hr', hra⟩

/-! ## The pool against the in-order run -/

theorem Sweep.raise_of_abort {s : Sweep} {a : Abort} (h : s.abort = some a) : s.raise = throw a := by
  unfold Sweep.raise
  rw [h]

/-- The pool ends as the in-order run does: with the same values or the same failure. -/
theorem forceCells_outcome (cells : List Nat) (m : Machine) :
    Run.outcome (forceCells cx cells m) = Run.outcome (forceEach cx cells m) := by
  obtain ⟨s, m', h, -⟩ := forceInOrder_ok cells m
  rw [forceCells_eq, ← forceInOrder_raise, bind_of_ok h]
  cases ha : s.abort with
  | none => rw [bind_of_ok (sweep_eq_of_quiet _ _ _ _ rfl h ha)]
  | some a =>
    -- both raise the panic that stopped the in-order run
    obtain ⟨s', m'', hs', ha'⟩ := sweep_panics_alike poolWorkers false false cells rfl h ha
    rw [bind_of_ok hs', Sweep.raise_of_abort ha, Sweep.raise_of_abort ha']
    rfl

/-- When the in-order run meets no panic, the pool's run is the in-order run, machine included. -/
theorem forceCells_eq_forceEach {cells : List Nat} {m : Machine}
    (hquiet : ∀ a m', forceEach cx cells m = .error a m' → ∃ f, a = .fault f) :
    forceCells cx cells m = forceEach cx cells m := by
  obtain ⟨s, m', h, hf⟩ := forceInOrder_ok cells m
  have ha : s.abort = none := by
    cases ha : s.abort with
    | none => rfl
    | some a =>
      have herr : forceEach cx cells m = .error a m' := by
        rw [← forceInOrder_raise, bind_of_ok h, Sweep.raise_of_abort ha]
        rfl
      obtain ⟨f, rfl⟩ := hquiet a m' herr
      exact absurd ha (hf f)
  rw [forceCells_eq, ← forceInOrder_raise, bind_of_ok h, bind_of_ok (sweep_eq_of_quiet _ _ _ _ rfl h ha)]

/-! ## What the in-order run does -/

theorem keeps_forceEach {n₀ : Nat} (he : EvalKeeps cx n₀ stepFuel) :
    ∀ (cells : List Nat) {n : Nat}, n₀ ≤ n → Run.Keeps n (forceEach cx cells) fun _ _ => True
  | [], _, _ => Keeps.pure fun _ _ => trivial
  | i :: is, n, hn => by
    rw [forceEach]
    refine Keeps.bind (he.force (.thunk i) n hn trivial) fun _ k hk _ => ?_
    exact Keeps.bind (keeps_forceEach he is (by omega)) fun _ _ _ _ => Keeps.pure fun _ _ => trivial

/-- A settled cell stays settled while the machine grows. -/
theorem Machine.Grows.done {m m' : Machine} (hg : m.Grows m') {i : Nat} {v : Value} (h : m.cell i = .done v) :
    m'.cell i = .done v := by
  have hnext := hg.cells i (Machine.lt_size_of_cell h (by intro h; cases h))
  rw [h] at hnext
  exact hnext.eq_of_done

/-- A force that gives a value leaves its cell settled to that value. -/
theorem force_ok_settles {m m' : Machine} (hm : m.Sound) (hcx : cx.Below m.fresh) {c fuel : Nat} {v : Value}
    (h : force cx fuel (.thunk c) m = .ok v m') : m'.cell c = .done v := by
  by_cases hr : m.cell c = .running
  · -- forcing a cell that is being computed is a cyclic force, which fails
    cases fuel with
    | zero =>
      rw [force] at h
      cases h
    | succ fuel =>
      rw [force_thunk, forceCell_running hr] at h
      cases h
  · exact (force_settles hm hcx hr fuel).1 v m' h

/-- Forcing in order from a sound machine gives, at each position, the value its cell holds at the end; a cell that
occurs twice gives the same value at both positions. -/
theorem forceEach_settles {cells : List Nat} {m m' : Machine} {vs : List Value} (hm : m.Sound)
    (hcx : cx.Below m.fresh) (h : forceEach cx cells m = .ok vs m') :
    List.Forall₂ (fun c v => m'.peek? c = some v) cells vs := by
  induction cells generalizing m vs with
  | nil =>
    cases h
    exact .nil
  | cons i is ih =>
    obtain ⟨v, m₁, hv, h⟩ := bind_eq_ok.1 h
    obtain ⟨vs', m₂, hvs, h⟩ := bind_eq_ok.1 h
    cases h
    have he := evalKeeps hcx stepFuel
    have hk₁ := he.force (.thunk i) m.fresh (Nat.le_refl _) trivial m hm (Nat.le_refl _)
    rw [hv] at hk₁
    have hcx₁ : cx.Below m₁.fresh := hcx.mono hk₁.2.1.fresh
    have hk₂ := keeps_forceEach he is (Nat.le_refl _) m₁ hk₁.1 hk₁.2.1.fresh
    rw [hvs] at hk₂
    -- the first cell was settled by its own force and stays settled while the rest is forced
    refine .cons ?_ (ih hk₁.1 hcx₁ hvs)
    exact Machine.peek_eq_some.2 (hk₂.2.1.done (force_ok_settles hm hcx hv))

/-- A failed in-order run failed at one position: every cell before it was forced, and the run ends where the force
of that cell failed. -/
theorem forceEach_fails_at {cells : List Nat} {m m' : Machine} {e : Abort} (h : forceEach cx cells m = .error e m') :
    ∃ j, ∃ hj : j < cells.length, ∃ vs m₁,
      forceEach cx (cells.take j) m = .ok vs m₁ ∧ force cx stepFuel (.thunk cells[j]) m₁ = .error e m' := by
  induction cells generalizing m with
  | nil => cases h
  | cons i is ih =>
    rcases bind_eq_error.1 h with hi | ⟨v, m₁, hv, h⟩
    · exact ⟨0, by simp, [], m, rfl, hi⟩
    · rcases bind_eq_error.1 h with hrest | ⟨vs, m₂, _, h⟩
      · obtain ⟨j, hj, vs, m₂, hvs, hfail⟩ := ih hrest
        refine ⟨j + 1, by simpa using hj, v :: vs, m₂, ?_, by simpa using hfail⟩
        rw [List.take_succ_cons, forceEach, bind_of_ok hv, bind_of_ok hvs]
        rfl
      · cases h

/-! ## The pool -/

/-- **The pool forces in order.** Forcing a list of cells in the pool ends as forcing them one after another, with the
same values or the first failure in list order. -/
theorem pool_forces_in_order (cells : List Nat) {m : Machine} (hm : m.Sound) (hcx : cx.Below m.fresh) :
    Run.outcome (forceCells cx cells m) = Run.outcome (forceEach cx cells m) ∧
    ((∀ a m', forceEach cx cells m = .error a m' → ∃ f, a = .fault f) →
      forceCells cx cells m = forceEach cx cells m) ∧
    (∀ vs m', forceCells cx cells m = .ok vs m' → List.Forall₂ (fun c v => m'.peek? c = some v) cells vs) ∧
    (∀ e m', forceCells cx cells m = .error e m' → ∃ j, ∃ hj : j < cells.length, ∃ vs m₁ m₂,
      forceEach cx (cells.take j) m = .ok vs m₁ ∧ force cx stepFuel (.thunk cells[j]) m₁ = .error e m₂) := by
  have houtcome : Run.outcome (forceCells cx cells m) = Run.outcome (forceEach cx cells m) :=
    forceCells_outcome cells m
  refine ⟨houtcome, forceCells_eq_forceEach, fun vs m' h => ?_, fun e m' h => ?_⟩
  · -- a pool that gave values met no failure, so it ran as the in-order run
    cases hseq : forceEach cx cells m with
    | error e m'' => rw [h, hseq] at houtcome; cases houtcome
    | ok vs' m'' =>
      have hsame : forceCells cx cells m = forceEach cx cells m := forceCells_eq_forceEach fun a m₁ h => by
        rw [hseq] at h
        cases h
      rw [hsame] at h
      exact forceEach_settles hm hcx h
  · cases hseq : forceEach cx cells m with
    | ok vs m'' => rw [h, hseq] at houtcome; cases houtcome
    | error e' m'' =>
      rw [h, hseq] at houtcome
      cases houtcome
      obtain ⟨j, hj, vs, m₁, hprefix, hfail⟩ := forceEach_fails_at hseq
      exact ⟨j, hj, vs, m₁, m'', hprefix, hfail⟩

/-- A cell listed twice beside a settled one, forced from a machine where it is pending. -/
theorem pool_forces_in_order_repeated :
    ({ cells := #[.pending ⟨.int 1, {}⟩, .done (.int 2)] } : Machine).Sound ∧ ({} : Context).Below 1 ∧
    Run.outcome (forceCells {} [0, 1, 0] { cells := #[.pending ⟨.int 1, {}⟩, .done (.int 2)] }) =
      Run.outcome (forceEach {} [0, 1, 0] { cells := #[.pending ⟨.int 1, {}⟩, .done (.int 2)] }) ∧
    ((∀ a m', forceEach {} [0, 1, 0] { cells := #[.pending ⟨.int 1, {}⟩, .done (.int 2)] } = .error a m' →
        ∃ f, a = .fault f) →
      forceCells {} [0, 1, 0] { cells := #[.pending ⟨.int 1, {}⟩, .done (.int 2)] } =
        forceEach {} [0, 1, 0] { cells := #[.pending ⟨.int 1, {}⟩, .done (.int 2)] }) ∧
    (∀ vs m', forceCells {} [0, 1, 0] { cells := #[.pending ⟨.int 1, {}⟩, .done (.int 2)] } = .ok vs m' →
      List.Forall₂ (fun c v => m'.peek? c = some v) [0, 1, 0] vs) ∧
    (∀ e m', forceCells {} [0, 1, 0] { cells := #[.pending ⟨.int 1, {}⟩, .done (.int 2)] } = .error e m' →
      ∃ j, ∃ hj : j < [0, 1, 0].length, ∃ vs m₁ m₂,
        forceEach {} ([0, 1, 0].take j) { cells := #[.pending ⟨.int 1, {}⟩, .done (.int 2)] } = .ok vs m₁ ∧
          force {} stepFuel (.thunk [0, 1, 0][j]) m₁ = .error e m₂) := by
  have hm : ({ cells := #[.pending ⟨.int 1, {}⟩, .done (.int 2)] } : Machine).Sound :=
    ⟨Nat.one_pos, by simp [Cell.Sound, Scope.Below, Value.Below, Value.Whnf], by simp⟩
  have hcx : ({} : Context).Below 1 := fun _ h => by cases h
  exact ⟨hm, hcx, pool_forces_in_order [0, 1, 0] hm hcx⟩

/-- A panic does not stop the pool at once: with a panicking cell first and a pending cell after it, the pool raises
the panic after forcing the second cell, which the in-order run leaves pending. -/
theorem pool_forces_past_a_panic :
    ∃ m₁ m₂,
      forceCells {} [0, 1] { cells := #[.pending ⟨.panic "p", {}⟩, .pending ⟨.int 1, {}⟩] } =
        .error (.panic "p") m₁ ∧ m₁.cell 1 = .done (.int 1) ∧
      forceEach {} [0, 1] { cells := #[.pending ⟨.panic "p", {}⟩, .pending ⟨.int 1, {}⟩] } =
        .error (.panic "p") m₂ ∧ m₂.cell 1 = .pending ⟨.int 1, {}⟩ := by
  -- the pool halves the two cells and forces each half in order
  rw [forceCells_eq, sweep, if_neg Bool.false_ne_true]
  split
  · next h => simp [halving, poolWorkers] at h
  · have hright : ∀ halves resumed stopped, sweep {} halves resumed stopped ([0, 1].drop ([0, 1].length / 2)) =
        if stopped then pure {} else forceInOrder {} ([0, 1].drop ([0, 1].length / 2)) :=
      sweep_of_short (by decide)
    rw [sweep_of_short (by decide)]
    simp only [hright]
    exact ⟨_, _, rfl, rfl, rfl, rfl⟩

end LazyCall
