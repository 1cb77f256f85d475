import Mathlib.Data.List.Forall2
import LazyCall.Proofs.Rename
import LazyCall.Proofs.Force
import LazyCall.Proofs.Calls

/-!
# Evaluation does not see identities

Main statement (`evalSim`): for every renaming `ρ` of identities (`Renaming`), evaluating an expression, forcing a
value and invoking a function in a machine, and doing the same with every identity renamed — in the context, the
scope, the value, the machine — end alike: with the same abort, or with the value renamed, in machines related by `ρ`
(`Machine.Renamed`). Identities are only drawn and compared, so no run can tell two machines apart that differ by a
renaming; and since `Machine.Renamed` leaves out counters and events, neither can a run tell apart two machines that
differ only in what they counted and reported.

`Run.Sim ρ R x y` says that `y` runs as `x` does up to `ρ`, with results related by `R`. Its combinators follow a
run's `do` block; the primitives, `Run.forceCell` and the resolver (for hosts that are themselves alike up to `ρ`,
`Host.Sim`) each get one lemma, and the evaluator is then shown alike by induction on the fuel, one case per form
of expression.
-/

namespace LazyCall

open Run

variable {α β γ δ : Type} {ρ : Nat → Nat}

/-! ## Runs that agree up to a renaming -/

/-- Two ends of runs agree up to `ρ`: values related by `R`, or the same abort, in machines related by `ρ`. -/
def Run.Agree (ρ : Nat → Nat) (R : α → β → Prop) :
    EStateM.Result Abort Machine α → EStateM.Result Abort Machine β → Prop
  | .ok a m, .ok b m' => R a b ∧ m.Renamed ρ m'
  | .error e m, .error e' m' => e = e' ∧ m.Renamed ρ m'
  | _, _ => False

/-- `y` runs as `x` does up to `ρ`: started in machines related by `ρ`, they end alike. -/
def Run.Sim (ρ : Nat → Nat) (R : α → β → Prop) (x : Run α) (y : Run β) : Prop :=
  ∀ m m', m.Renamed ρ m' → Run.Agree ρ R (x m) (y m')

namespace Run.Sim

variable {R : α → β → Prop} {S : γ → δ → Prop}

theorem pure {a : α} {b : β} (h : R a b) : Run.Sim ρ R (pure a) (pure b) := fun _ _ hm => ⟨h, hm⟩

theorem throw {e : Abort} : Run.Sim ρ R (throw e) (throw e) := fun _ _ hm => ⟨rfl, hm⟩

theorem fault {f : Fault} : Run.Sim ρ R (Run.fault f) (Run.fault f) := throw

theorem failWith {text : String} : Run.Sim ρ R (Run.failWith text) (Run.failWith text) := throw

theorem bind {x : Run α} {y : Run β} {f : α → Run γ} {g : β → Run δ} (hx : Run.Sim ρ R x y)
    (hf : ∀ a b, R a b → Run.Sim ρ S (f a) (g b)) : Run.Sim ρ S (x >>= f) (y >>= g) := by
  intro m m' hm
  have h := hx m m' hm
  cases hxm : x m with
  | ok a m₁ =>
    cases hym : y m' with
    | ok b m₁' =>
      rw [hxm, hym] at h
      rw [bind_of_ok hxm, bind_of_ok hym]
      exact hf a b h.1 m₁ m₁' h.2
    | error e m₁' => rw [hxm, hym] at h; exact h.elim
  | error e m₁ =>
    cases hym : y m' with
    | ok b m₁' => rw [hxm, hym] at h; exact h.elim
    | error e' m₁' =>
      rw [hxm, hym] at h
      rw [bind_of_error hxm, bind_of_error hym]
      exact h

/-- A bind whose first runs give values related by a function `g₀`: the rest runs on the value and its image. -/
theorem bind_fun {g₀ : α → β} {x : Run α} {y : Run β} {f : α → Run γ} {g : β → Run δ}
    (hx : Run.Sim ρ (fun a b => b = g₀ a) x y) (hf : ∀ a, Run.Sim ρ S (f a) (g (g₀ a))) :
    Run.Sim ρ S (x >>= f) (y >>= g) :=
  bind hx fun a _ h => h ▸ hf a

theorem map {x : Run α} {y : Run β} {f : α → γ} {g : β → δ} (hx : Run.Sim ρ R x y)
    (hf : ∀ a b, R a b → S (f a) (g b)) : Run.Sim ρ S (f <$> x) (g <$> y) := by
  intro m m' hm
  have h := hx m m' hm
  cases hxm : x m with
  | ok a m₁ =>
    cases hym : y m' with
    | ok b m₁' => rw [hxm, hym] at h; rw [map_of_ok hxm, map_of_ok hym]; exact ⟨hf a b h.1, h.2⟩
    | error e m₁' => rw [hxm, hym] at h; exact h.elim
  | error e m₁ =>
    cases hym : y m' with
    | ok b m₁' => rw [hxm, hym] at h; exact h.elim
    | error e' m₁' => rw [hxm, hym] at h; rw [map_of_error hxm, map_of_error hym]; exact h

theorem ofExcept {g : α → β} (e : Except Fault α) :
    Run.Sim ρ (fun a b => b = g a) (Run.ofExcept e) (Run.ofExcept (e.map g)) := by
  cases e with
  | error f => exact fault
  | ok a => exact pure rfl

/-- Mapping alike runs over one list gives lists related item by item. -/
theorem mapM {xs : List γ} {f : γ → Run α} {f' : γ → Run β} {g : α → β}
    (hf : ∀ x ∈ xs, Run.Sim ρ (fun a b => b = g a) (f x) (f' x)) :
    Run.Sim ρ (fun as bs => bs = as.map g) (xs.mapM f) (xs.mapM f') := by
  induction xs with
  | nil => exact pure rfl
  | cons x xs ih =>
    rw [List.mapM_cons, List.mapM_cons]
    refine bind_fun (hf x (.head _)) fun a => bind_fun (ih fun y hy => hf y (.tail _ hy)) fun as => pure ?_
    rw [List.map_cons]

end Run.Sim

/-! ## Updates of related machines -/

namespace Machine.Renamed

variable {m m' : Machine}

theorem push (h : m.Renamed ρ m') (c : Cell) (k k' : Counters) :
    ({ m with cells := m.cells.push c, counters := k } : Machine).Renamed ρ
      { m' with cells := m'.cells.push (c.rename ρ), counters := k' } :=
  ⟨by simp [h.cells, Array.map_push], h.homes, h.fresh⟩

theorem set (h : m.Renamed ρ m') (i : Nat) (c : Cell) :
    ({ m with cells := m.cells.set! i c } : Machine).Renamed ρ { m' with cells := m'.cells.set! i (c.rename ρ) } :=
  ⟨by simp [h.cells, Array.set!_eq_setIfInBounds, Array.map_setIfInBounds], h.homes, h.fresh⟩

theorem claim (h : m.Renamed ρ m') (i : Nat) : (m.claim i).Renamed ρ (m'.claim i) :=
  (h.set i .running).congr rfl rfl rfl rfl rfl rfl

theorem settle (h : m.Renamed ρ m') (i : Nat) (c : Cell) : (m.settle i c).Renamed ρ (m'.settle i (c.rename ρ)) :=
  h.set i c

theorem addHome (h : m.Renamed ρ m') (f : Fn) :
    ({ m with homes := m.homes.push f } : Machine).Renamed ρ { m' with homes := m'.homes.push (f.rename ρ) } :=
  ⟨h.cells, by simp [h.homes, Array.map_push], h.fresh⟩

end Machine.Renamed

/-! ## The primitives -/

namespace Run

theorem sim_count (c : Counter) : Run.Sim ρ (fun _ _ => True) (count c) (count c) := fun m m' hm => by
  rw [count_apply, count_apply]
  exact ⟨trivial, hm.congr rfl rfl rfl rfl rfl rfl⟩

theorem sim_emit (e e' : Event) : Run.Sim ρ (fun _ _ => True) (emit e) (emit e') := fun m m' hm => by
  rw [emit_apply, emit_apply]
  exact ⟨trivial, hm.congr rfl rfl rfl rfl rfl rfl⟩

theorem sim_freshId : Run.Sim ρ (fun i j => j = ρ i) freshId freshId := fun m m' hm => by
  rw [freshId_apply, freshId_apply]
  exact ⟨hm.fresh_eq.symm, hm.next⟩

theorem sim_newCell (c : Cell) : Run.Sim ρ Eq (newCell c) (newCell (c.rename ρ)) := fun m m' hm => by
  rw [newCell_apply, newCell_apply]
  exact ⟨hm.size.symm, hm.push c _ _⟩

theorem sim_cellOf (v : Value) : Run.Sim ρ Eq (cellOf v) (cellOf (v.rename ρ)) := by
  cases v with
  | thunk i => exact Sim.pure rfl
  | _ => exact sim_newCell (.done _)

theorem sim_addHome (f : Fn) : Run.Sim ρ (fun _ _ => True) (addHome f) (addHome (f.rename ρ)) := fun m m' hm => by
  rw [addHome_apply, addHome_apply]
  exact ⟨trivial, hm.addHome f⟩

theorem sim_home (slot : Nat) :
    Run.Sim ρ (fun o o' => o' = o.map (Callable.rename ρ)) (home slot) (home slot) := fun m m' hm => by
  rw [home_apply, home_apply]
  exact ⟨hm.home slot, hm⟩

theorem sim_get : Run.Sim ρ (fun n n' => n.Renamed ρ n') get get := fun _ _ hm => ⟨hm, hm⟩

/-- Forcing the same cell of related machines, with computations and forces alike up to `ρ`, ends alike. -/
theorem sim_forceCell {compute compute' : Job → Run Value} {whnf whnf' : Value → Run Value}
    (hc : ∀ job, Run.Sim ρ (fun v w => w = v.rename ρ) (compute job) (compute' (job.rename ρ)))
    (hw : ∀ v, Run.Sim ρ (fun v w => w = v.rename ρ) (whnf v) (whnf' (v.rename ρ))) (i : Nat) :
    Run.Sim ρ (fun v w => w = v.rename ρ) (forceCell compute whnf i) (forceCell compute' whnf' i) := by
  intro m m' hm
  have hcell := hm.cell i
  cases hci : m.cell i with
  | done v =>
    rw [hci] at hcell
    rw [forceCell_done hci, forceCell_done hcell]
    exact ⟨rfl, hm.congr rfl rfl rfl rfl rfl rfl⟩
  | failed f =>
    rw [hci] at hcell
    rw [forceCell_failed hci, forceCell_failed hcell]
    exact ⟨rfl, hm⟩
  | running =>
    rw [hci] at hcell
    rw [forceCell_running hci, forceCell_running hcell]
    exact ⟨rfl, hm.congr rfl rfl rfl rfl rfl rfl⟩
  | pending job =>
    rw [hci] at hcell
    have hrun := Sim.bind_fun (hc job) hw (m.claim i) (m'.claim i) (hm.claim i)
    cases hr : (compute job >>= whnf) (m.claim i) with
    | ok v m₁ =>
      cases hr' : (compute' (job.rename ρ) >>= whnf') (m'.claim i) with
      | ok v' m₁' =>
        rw [hr, hr'] at hrun
        obtain ⟨rfl, h₁⟩ := hrun
        rw [forceCell_pending_ok hci hr, forceCell_pending_ok hcell hr']
        exact ⟨rfl, h₁.settle i (.done v)⟩
      | error e m₁' => rw [hr, hr'] at hrun; exact hrun.elim
    | error e m₁ =>
      cases hr' : (compute' (job.rename ρ) >>= whnf') (m'.claim i) with
      | ok v' m₁' => rw [hr, hr'] at hrun; exact hrun.elim
      | error e' m₁' =>
        rw [hr, hr'] at hrun
        obtain ⟨rfl, h₁⟩ := hrun
        cases e with
        | fault f =>
          rw [forceCell_pending_fault hci hr, forceCell_pending_fault hcell hr']
          exact ⟨rfl, h₁.settle i (.failed f)⟩
        | panic msg =>
          rw [forceCell_pending_abort hci (fun _ h => by cases h) hr,
            forceCell_pending_abort hcell (fun _ h => by cases h) hr']
          exact ⟨rfl, h₁.settle i (.failed .panicked)⟩
        | exhausted =>
          rw [forceCell_pending_abort hci (fun _ h => by cases h) hr,
            forceCell_pending_abort hcell (fun _ h => by cases h) hr']
          exact ⟨rfl, h₁.settle i (.failed .panicked)⟩

end Run

/-! ## The resolver -/

/-- The outcome with the function it gives renamed; a cell is a place, not an identity. -/
def Applied.rename (ρ : Nat → Nat) : Applied → Applied
  | .cell i => .cell i
  | .curried f => .curried (f.rename ρ)

@[simp] theorem Applied.toValue_rename (a : Applied) : (a.rename ρ).toValue = a.toValue.rename ρ := by
  cases a <;> rfl

/-- Binding arguments and renaming commute. -/
theorem Callable.rename_bind (f : Fn) (b : List Value) (i : Nat) :
    ({ f with bound := b, boundId := i } : Fn).rename ρ =
      { f.rename ρ with bound := b.map (Value.rename ρ), boundId := ρ i } := by
  obtain ⟨_, _, _, _, _⟩ := f
  simp [Callable.rename]

/-- Two hosts alike up to `ρ`: invoking a renamed function with renamed arguments gives the same cell, and forcing a
renamed value gives the renamed value, in machines related by `ρ`. -/
structure Host.Sim (ρ : Nat → Nat) (h h' : Host) : Prop where
  invoke : ∀ f args, Run.Sim ρ Eq (h.invoke f args) (h'.invoke (f.rename ρ) (args.map (Value.rename ρ)))
  force : ∀ v, Run.Sim ρ (fun v w => w = v.rename ρ) (h.force v) (h'.force (v.rename ρ))

theorem Run.Agree.of_error {R : α → β → Prop} {e : Abort} {m : Machine} {y : EStateM.Result Abort Machine β}
    (h : Run.Agree ρ R (.error e m) y) : ∃ m', y = .error e m' ∧ m.Renamed ρ m' := by
  cases y with
  | ok => exact h.elim
  | error e' m' => obtain ⟨rfl, hm⟩ := h; exact ⟨m', rfl, hm⟩

theorem Run.Agree.of_ok {R : α → β → Prop} {a : α} {m : Machine} {y : EStateM.Result Abort Machine β}
    (h : Run.Agree ρ R (.ok a m) y) : ∃ b m', y = .ok b m' ∧ R a b ∧ m.Renamed ρ m' := by
  cases y with
  | ok b m' => exact ⟨b, m', rfl, h⟩
  | error => exact h.elim

theorem Machine.Renamed.noted {r : Resolver} {m m' : Machine} (hm : m.Renamed ρ m') (d d' : Decision) (g g' : Fn) (n n' : Nat) :
    (r.noted d g n m).Renamed ρ (r.noted d' g' n' m') :=
  hm.congr (Resolver.noted_cells ..) (Resolver.noted_homes ..) (Resolver.noted_fresh ..) (Resolver.noted_cells ..) (Resolver.noted_homes ..) (Resolver.noted_fresh ..)

theorem Machine.Renamed.overNoted {r : Resolver} {m m' : Machine} (hm : m.Renamed ρ m') (g g' : Fn) (n n' : Nat) :
    (r.overNoted g n m).Renamed ρ (r.overNoted g' n' m') :=
  hm.congr (Resolver.noted_cells ..) (Resolver.noted_homes ..) (Resolver.noted_fresh ..) (Resolver.noted_cells ..) (Resolver.noted_homes ..) (Resolver.noted_fresh ..)

theorem Machine.Renamed.shortNoted {r : Resolver} {m m' : Machine} (hm : m.Renamed ρ m') (g g' : Fn) (n n' : Nat) :
    (r.shortNoted g n m).Renamed ρ (r.shortNoted g' n' m') :=
  hm.congr (Resolver.noted_cells ..) (Resolver.noted_homes ..) (Resolver.noted_fresh ..) (Resolver.noted_cells ..) (Resolver.noted_homes ..) (Resolver.noted_fresh ..)

namespace Resolver

variable {r : Resolver} {h h' : Host}

theorem sim_report (d d' : Decision) (g g' : Fn) (n n' : Nat) :
    Run.Sim ρ (fun _ _ => True) (r.report d g n) (r.report d' g' n') := by
  unfold report
  cases r.trace with
  | true => exact sim_emit _ _
  | false => exact Sim.pure trivial

theorem sim_bindArgs (f : Fn) (args : List Value) :
    Run.Sim ρ (fun g g' => g' = g.rename ρ) (bindArgs f args) (bindArgs (f.rename ρ) (args.map (Value.rename ρ))) := by
  unfold bindArgs
  rw [List.isEmpty_map]
  split
  · exact Sim.pure rfl
  · refine Sim.bind (sim_count _) fun _ _ _ => Sim.bind_fun sim_freshId fun i => Sim.pure ?_
    simp [Callable.rename_bind]

/-! ## Host calls up to a renaming -/

/-- Two calls alike up to `ρ`: invocations of the same closure, whatever arguments the functions have bound, on the
renamed arguments, or forces of the renamed value. A cell is a place, not an identity, so it is never renamed. -/
def Call.Agrees (ρ : Nat → Nat) : Call → Call → Prop
  | .invoke g args, .invoke g' args' => g'.unbound = (g.rename ρ).unbound ∧ args' = args.map (Value.rename ρ)
  | .force v, .force v' => v' = v.rename ρ
  | _, _ => False

/-- Two host calls alike up to `ρ`: alike calls, from and to machines related by `ρ`. -/
def HostCall.Alike (ρ : Nat → Nat) (c c' : HostCall) : Prop :=
  Call.Agrees ρ c.call c'.call ∧ c.before.Renamed ρ c'.before ∧ c.after.Renamed ρ c'.after

/-- An ending with the function it gives renamed. -/
def Ending.rename (ρ : Nat → Nat) : Ending → Ending
  | .stopped e => .stopped e
  | .cell c => .cell c
  | .curried g rest => .curried (g.rename ρ) (rest.map (Value.rename ρ))

theorem Ending.agree_result (e : Ending) {m m' : Machine} (hm : m.Renamed ρ m') :
    Run.Agree ρ (fun a a' => a' = a.rename ρ) (e.result m) ((e.rename ρ).result m') := by
  cases e <;> exact ⟨rfl, hm⟩

/-- The arguments an over-application turn of a renamed function takes are the ones it takes, renamed. -/
theorem turn_args_rename (g : Fn) (args : List Value) :
    (g.rename ρ).bound ++ (args.map (Value.rename ρ)).take (g.rename ρ).need =
      (g.bound ++ args.take g.need).map (Value.rename ρ) := by
  rw [Callable.rename_bound, Callable.need_rename, List.map_append, List.map_take]

/-- Alike hosts make alike calls in an over-application turn, and the turn ends alike. The second turn may be of
another function of the same closure on other arguments, as long as it invokes its host alike, with the arguments the
first one takes, renamed. -/
theorem TurnCalls.sim (hh : Host.Sim ρ h h') {g : Fn} {args : List Value} {m : Machine} {calls : List HostCall}
    {res : EStateM.Result Abort Machine Fn} (ht : TurnCalls r h g args m calls res) {g' : Fn} {args' : List Value}
    (hg : g'.unbound = (g.rename ρ).unbound) (hsame : ∀ xs, h'.invoke g' xs = h'.invoke (g.rename ρ) xs)
    (htake : g'.bound ++ args'.take g'.need = (g.bound ++ args.take g.need).map (Value.rename ρ)) {m' : Machine}
    (hm : m.Renamed ρ m') :
    ∃ calls' res', TurnCalls r h' g' args' m' calls' res' ∧
      List.Forall₂ (HostCall.Alike ρ) calls calls' ∧ Run.Agree ρ (fun g g' => g' = g.rename ρ) res res' := by
  have hm₀ := hm.overNoted (r := r) g g' args.length args'.length
  have hinv := hh.invoke g (g.bound ++ args.take g.need) _ _ hm₀
  rw [← htake, ← hsame] at hinv
  have hcall : ∀ {m₁ m₁' : Machine}, m₁.Renamed ρ m₁' →
      HostCall.Alike ρ (r.overCall g args m m₁) (r.overCall g' args' m' m₁') := fun hm₁ =>
    ⟨⟨hg, htake⟩, hm₀, hm₁⟩
  -- the force of the cell the invocation gave: a cell is not renamed
  have hforce : ∀ {c : Nat} {m₁ m₁' : Machine}, m₁.Renamed ρ m₁' →
      Run.Agree ρ (fun v w => w = v.rename ρ) (h.force (.thunk c) m₁) (h'.force (.thunk c) m₁') := fun {c} _ _ hm₁ => by
    have hf := hh.force (.thunk c) _ _ hm₁
    rwa [Value.rename_thunk] at hf
  cases ht with
  | invokeStops hi =>
    obtain ⟨m₁', hi', hm₁⟩ := Run.Agree.of_error (hi ▸ hinv)
    exact ⟨_, _, .invokeStops hi', .cons (hcall hm₁) .nil, rfl, hm₁⟩
  | forceStops hi hf =>
    obtain ⟨c', m₁', hi', rfl, hm₁⟩ := Run.Agree.of_ok (hi ▸ hinv)
    obtain ⟨m₂', hf', hm₂⟩ := Run.Agree.of_error (hf ▸ hforce hm₁)
    exact ⟨_, _, .forceStops hi' hf', .cons (hcall hm₁) (.cons ⟨rfl, hm₁, hm₂⟩ .nil), rfl, hm₂⟩
  | @notFunction c m₁ v m₂ f hi hf hg =>
    obtain ⟨c', m₁', hi', rfl, hm₁⟩ := Run.Agree.of_ok (hi ▸ hinv)
    obtain ⟨v', m₂', hf', rfl, hm₂⟩ := Run.Agree.of_ok (hf ▸ hforce hm₁)
    have hg' : (v.rename ρ).toFunction = Except.error f := by rw [Value.toFunction_rename, hg]; rfl
    exact ⟨_, _, .notFunction hi' hf' hg', .cons (hcall hm₁) (.cons ⟨rfl, hm₁, hm₂⟩ .nil), rfl, hm₂⟩
  | @next c m₁ v m₂ g₁ hi hf hg =>
    obtain ⟨c', m₁', hi', rfl, hm₁⟩ := Run.Agree.of_ok (hi ▸ hinv)
    obtain ⟨v', m₂', hf', rfl, hm₂⟩ := Run.Agree.of_ok (hf ▸ hforce hm₁)
    have hg' : (v.rename ρ).toFunction = Except.ok (g₁.rename ρ) := by rw [Value.toFunction_rename, hg]; rfl
    exact ⟨_, _, .next hi' hf' hg', .cons (hcall hm₁) (.cons ⟨rfl, hm₁, hm₂⟩ .nil), rfl, hm₂⟩

/-- Alike hosts make alike calls in the turn that ends an application, and it ends alike. -/
theorem LastCalls.sim (hh : Host.Sim ρ h h') {g : Fn} {args : List Value} {m : Machine} {calls : List HostCall}
    {e : Ending} {m₁ : Machine} (hl : LastCalls r h g args m calls e m₁) {m' : Machine} (hm : m.Renamed ρ m') :
    ∃ calls' m₁', LastCalls r h' (g.rename ρ) (args.map (Value.rename ρ)) m' calls' (e.rename ρ) m₁' ∧
      List.Forall₂ (HostCall.Alike ρ) calls calls' ∧ m₁.Renamed ρ m₁' := by
  have hm₀ := hm.noted (r := r) .exact .exact g (g.rename ρ) args.length (args.map (Value.rename ρ)).length
  have hargs : (g.rename ρ).bound ++ args.map (Value.rename ρ) = (g.bound ++ args).map (Value.rename ρ) := by
    rw [Callable.rename_bound, List.map_append]
  have hinv := hh.invoke g (g.bound ++ args) _ _ hm₀
  rw [← hargs] at hinv
  cases hl with
  | exact he hi =>
    obtain ⟨c', m₁', hi', rfl, hm₁⟩ := Run.Agree.of_ok (hi ▸ hinv)
    exact ⟨_, m₁', .exact (by simpa using he) hi', .cons ⟨⟨rfl, hargs⟩, hm₀, hm₁⟩ .nil, hm₁⟩
  | exactStops he hi =>
    obtain ⟨m₁', hi', hm₁⟩ := Run.Agree.of_error (hi ▸ hinv)
    exact ⟨_, m₁', .exactStops (by simpa using he) hi', .cons ⟨⟨rfl, hargs⟩, hm₀, hm₁⟩ .nil, hm₁⟩
  | short hs hb =>
    have hbind := sim_bindArgs (ρ := ρ) g args _ _
      (hm.shortNoted (r := r) g (g.rename ρ) args.length (args.map (Value.rename ρ)).length)
    obtain ⟨g', m₁', hb', rfl, hm₁⟩ := Run.Agree.of_ok (hb ▸ hbind)
    exact ⟨_, m₁', .short (by simpa using hs) hb', .nil, hm₁⟩

/-- **Alike hosts make alike calls.** Applying a function to arguments, and applying the renamed function to the
renamed arguments from a related machine with a host alike up to `ρ`, take the same turns, make the same calls
renamed, from and to related machines, and end alike. -/
theorem Calls.sim (hh : Host.Sim ρ h h') {b : Nat} {s : UInt64} {g : Fn} {args : List Value} {m : Machine} {k : Nat}
    {calls : List HostCall} {e : Ending} {m₁ : Machine} (hc : Calls r h b s g args m k calls e m₁) {m' : Machine}
    (hm : m.Renamed ρ m') :
    ∃ calls' m₁', Calls r h' b s (g.rename ρ) (args.map (Value.rename ρ)) m' k calls' (e.rename ρ) m₁' ∧
      List.Forall₂ (HostCall.Alike ρ) calls calls' ∧ m₁.Renamed ρ m₁' := by
  induction hc generalizing m' with
  | @refused _ _ g _ _ ha =>
    refine ⟨[], m', ?_, .nil, hm⟩
    rw [← Callable.arity_rename (ρ := ρ) (f := g)]
    exact .refused (by simpa using ha)
  | last ha hl hlast =>
    obtain ⟨calls', m₁', hlast', hcalls, hm₁⟩ := hlast.sim hh hm
    exact ⟨calls', m₁', .last (by simpa using ha) (by simpa using hl) hlast', hcalls, hm₁⟩
  | tooDeep ha hl hd => exact ⟨[], m', .tooDeep (by simpa using ha) (by simpa using hl) hd, .nil, hm⟩
  | exhausted ha hl hd => exact ⟨[], m', .exhausted (by simpa using ha) (by simpa using hl) hd, .nil, hm⟩
  | @turnStops _ _ g args _ _ _ _ ha hl hd ht =>
    obtain ⟨calls', res', ht', hcalls, hres⟩ := ht.sim hh rfl (fun _ => rfl) (turn_args_rename g args) hm
    obtain ⟨m₁', rfl, hm₁⟩ := Run.Agree.of_error hres
    exact ⟨calls', m₁', .turnStops (by simpa using ha) (by simpa using hl) hd ht', hcalls, hm₁⟩
  | @next _ _ g args _ _ _ _ _ _ _ _ ha hl hd ht _ ih =>
    obtain ⟨calls₁', res', ht', hcalls₁, hres⟩ := ht.sim hh rfl (fun _ => rfl) (turn_args_rename g args) hm
    obtain ⟨g₁', m₂', rfl, rfl, hm₂⟩ := Run.Agree.of_ok hres
    obtain ⟨calls', m₁', hc', hcalls, hm₁⟩ := ih hm₂
    rw [List.map_drop, ← Callable.need_rename (ρ := ρ)] at hc'
    exact ⟨_, m₁', .next (by simpa using ha) (by simpa using hl) hd ht' hc', List.rel_append hcalls₁ hcalls, hm₁⟩

/-- The loop runs alike on a renamed function and renamed arguments, turn by turn. -/
theorem sim_loop (hh : Host.Sim ρ h h') (b : Nat) (s : UInt64) (f : Fn) (args : List Value) :
    Run.Sim ρ (fun a a' => a' = a.rename ρ) (r.loop h b s f args args.length)
      (r.loop h' b s (f.rename ρ) (args.map (Value.rename ρ)) (args.map (Value.rename ρ)).length) := by
  intro m m' hm
  obtain ⟨k, calls, e, m₁, hc⟩ := loop_calls (r := r) (h := h) b s f args m
  obtain ⟨calls', m₁', hc', -, hm₁⟩ := hc.sim hh hm
  rw [hc.run, hc'.run]
  exact e.agree_result hm₁

theorem sim_applyFunction (hh : Host.Sim ρ h h') (f : Fn) (args : List Value) :
    Run.Sim ρ (fun a a' => a' = a.rename ρ) (r.applyFunction h f args)
      (r.applyFunction h' (f.rename ρ) (args.map (Value.rename ρ))) := by
  exact sim_loop hh _ _ f args

theorem sim_apply (hh : Host.Sim ρ h h') (callee : Value) (args : List Value) :
    Run.Sim ρ (fun a a' => a' = a.rename ρ) (r.apply h callee args)
      (r.apply h' (callee.rename ρ) (args.map (Value.rename ρ))) := by
  unfold apply
  refine Sim.bind_fun (hh.force callee) fun v => ?_
  rw [Value.toFunction_rename]
  exact Sim.bind_fun (Sim.ofExcept _) fun f => sim_applyFunction hh f args

theorem sim_finish (hh : Host.Sim ρ h h') (a : Applied) :
    Run.Sim ρ (fun v w => w = v.rename ρ) (finish h a) (finish h' (a.rename ρ)) := by
  cases a with
  | cell i =>
    have hforce := hh.force (.thunk i)
    rw [Value.rename_thunk] at hforce
    exact hforce
  | curried g => exact Sim.pure rfl

theorem sim_eval (hh : Host.Sim ρ h h') (callee : Value) (args : List Value) :
    Run.Sim ρ (fun v w => w = v.rename ρ) (r.eval h callee args) (r.eval h' (callee.rename ρ) (args.map (Value.rename ρ))) := by
  rw [eval_eq_finish, eval_eq_finish]
  exact Sim.bind_fun (sim_apply hh callee args) (sim_finish hh)

end Resolver

/-! ## The evaluator's pieces -/

theorem sim_needFn (v : Value) : Run.Sim ρ (fun f g => g = f.rename ρ) (needFn v) (needFn (v.rename ρ)) := by
  cases v with
  | func f => exact Sim.pure rfl
  | _ => exact Sim.failWith

section Pieces

variable (hρ : Renaming ρ)
include hρ

theorem sim_buildFunction (name : String) (arity : Nat) (body : Expr) (env : List Value) :
    Run.Sim ρ (fun v w => w = v.rename ρ) (buildFunction name arity body env)
      (buildFunction name arity body (env.map (Value.rename ρ))) := by
  unfold buildFunction
  refine Sim.bind sim_get fun n n' hn => ?_
  rw [hn.homes_size]
  refine Sim.bind_fun sim_freshId fun c => ?_
  -- the new function renamed is the new function over the renamed environment, since unbound functions carry `0`
  have hf : Callable.rename ρ ⟨⟨name, arity, body, n.homes.size⟩, env, c, [], 0⟩ =
      ⟨⟨name, arity, body, n.homes.size⟩, env.map (Value.rename ρ), ρ c, [], 0⟩ := by
    simp [Callable.rename, hρ.zero]
  have hadd := sim_addHome (ρ := ρ) ⟨⟨name, arity, body, n.homes.size⟩, env, c, [], 0⟩
  rw [hf] at hadd
  exact Sim.bind hadd fun _ _ _ => Sim.bind (sim_count _) fun _ _ _ => Sim.bind (sim_count _) fun _ _ _ =>
    Sim.pure (by rw [Value.rename_func, hf])

theorem sim_targetFunction (t : Target) (v : Value) :
    Run.Sim ρ (fun f g => g = f.rename ρ) (targetFunction t v) (targetFunction t (v.rename ρ)) := by
  unfold targetFunction
  cases t with
  | value =>
    rw [Value.toFunction_rename]
    exact Sim.ofExcept _
  | function => exact sim_needFn v
  | closure =>
    refine Sim.bind_fun (sim_needFn v) fun f => Sim.bind (sim_count _) fun _ _ _ =>
      Sim.bind_fun sim_freshId fun c => Sim.pure ?_
    obtain ⟨_, _, _, _, _⟩ := f
    simp [Callable.unbound, Callable.rename, hρ.zero]
  | lambda =>
    refine Sim.bind_fun (sim_needFn v) fun f => Sim.bind (sim_count _) fun _ _ _ => Sim.bind (sim_count _)
      fun _ _ _ => Sim.bind_fun sim_freshId fun c => Sim.pure ?_
    obtain ⟨_, _, _, _, _⟩ := f
    simp [Callable.unbound, Callable.rename, hρ.zero]

end Pieces

/-- Arithmetic reads no identity. -/
theorem Arith.onValues_rename (op : Arith) (a b : Value) : op.onValues (a.rename ρ) (b.rename ρ) = op.onValues a b := by
  cases a <;> cases b <;> rfl

theorem lessValues_rename (a b : Value) : lessValues (a.rename ρ) (b.rename ρ) = lessValues a b := by
  cases a <;> cases b <;> rfl

theorem sim_onValues (op : Arith) (a b : Value) :
    Run.Sim ρ (fun v w => w = v.rename ρ) (op.onValues a b) (op.onValues (a.rename ρ) (b.rename ρ)) := by
  rw [Arith.onValues_rename]
  unfold Arith.onValues
  split
  · split
    · exact Sim.pure rfl
    · exact Sim.failWith
  · exact Sim.pure rfl
  · exact Sim.failWith

theorem sim_lessValues (a b : Value) :
    Run.Sim ρ (fun v w => w = v.rename ρ) (lessValues a b) (lessValues (a.rename ρ) (b.rename ρ)) := by
  rw [lessValues_rename]
  unfold lessValues
  split
  · exact Sim.pure rfl
  · exact Sim.pure rfl
  · exact Sim.failWith

theorem sim_indexValues (a b : Value) :
    Run.Sim ρ (fun v w => w = v.rename ρ) (indexValues a b) (indexValues (a.rename ρ) (b.rename ρ)) := by
  cases a <;> cases b <;> first | exact Sim.failWith | skip
  rename_i items k
  simp only [indexValues, Value.rename_array, Value.rename_int, List.length_map]
  split
  · refine Sim.pure ?_
    rw [show (Value.unit : Value) = Value.unit.rename ρ from rfl, List.getD_eq_getElem?_getD,
      List.getD_eq_getElem?_getD, List.getElem?_map]
    cases items[k.toInt.toNat]? <;> rfl
  · exact Sim.failWith

theorem Value.getLastD_rename (vs : List Value) : (vs.map (Value.rename ρ)).getLastD .unit = (vs.getLastD .unit).rename ρ := by
  rw [List.getLastD_eq_getLast?, List.getLastD_eq_getLast?, List.getLast?_map]
  cases vs.getLast? <;> rfl

/-! ## The induction on fuel -/

/-- The evaluator at `fuel` runs alike on a renamed context together with a renamed scope, value or function. -/
structure EvalSim (ρ : Nat → Nat) (cx : Context) (fuel : Nat) : Prop where
  eval : ∀ e s, Run.Sim ρ (fun v w => w = v.rename ρ) (eval cx fuel e s) (eval (cx.rename ρ) fuel e (s.rename ρ))
  force : ∀ v, Run.Sim ρ (fun v w => w = v.rename ρ) (force cx fuel v) (force (cx.rename ρ) fuel (v.rename ρ))
  invoke : ∀ f args, Run.Sim ρ Eq (invoke cx fuel f args)
    (invoke (cx.rename ρ) fuel (f.rename ρ) (args.map (Value.rename ρ)))
  host : Host.Sim ρ (host cx fuel) (host (cx.rename ρ) fuel)

section Step

variable {cx : Context} {fuel : Nat}

theorem evalSim_zero (ρ : Nat → Nat) (cx : Context) : EvalSim ρ cx 0 where
  eval _ _ := by rw [eval, eval]; exact Sim.throw
  force _ := by rw [force, force]; exact Sim.throw
  invoke _ _ := by rw [invoke, invoke]; exact Sim.throw
  host := ⟨fun _ _ => Sim.throw, fun _ => Sim.throw⟩

theorem sim_force_succ (ih : EvalSim ρ cx fuel) (v : Value) :
    Run.Sim ρ (fun v w => w = v.rename ρ) (force cx (fuel + 1) v) (force (cx.rename ρ) (fuel + 1) (v.rename ρ)) := by
  rw [force.eq_def, force.eq_def]
  cases v with
  | thunk i => exact sim_forceCell (fun job => ih.eval job.expr job.scope) ih.force i
  | _ => exact Sim.pure rfl

theorem sim_invoke_succ (ih : EvalSim ρ cx fuel) (f : Fn) (args : List Value) :
    Run.Sim ρ Eq (invoke cx (fuel + 1) f args) (invoke (cx.rename ρ) (fuel + 1) (f.rename ρ) (args.map (Value.rename ρ))) := by
  rw [invoke.eq_def, invoke.eq_def]
  simp only [List.length_map, Callable.arity_rename, Callable.name_rename, Callable.rename_lambda, Callable.rename_env]
  split
  · exact Sim.fault
  · refine Sim.bind (sim_count _) fun _ _ _ => Sim.bind_fun (sim_home _) fun self => ?_
    exact Sim.bind_fun (ih.eval f.lambda.body ⟨args, f.env, self, none⟩) fun v => sim_cellOf v

theorem sim_eval_succ (hρ : Renaming ρ) (ih : EvalSim ρ cx fuel) (e : Expr) (s : Scope) :
    Run.Sim ρ (fun v w => w = v.rename ρ) (eval cx (fuel + 1) e s) (eval (cx.rename ρ) (fuel + 1) e (s.rename ρ)) := by
  have hall : ∀ es : List Expr, Run.Sim ρ (fun vs ws => ws = vs.map (Value.rename ρ))
      (es.mapM (eval cx fuel · s)) (es.mapM (eval (cx.rename ρ) fuel · (s.rename ρ))) :=
    fun es => Sim.mapM fun e _ => ih.eval e s
  have hforced : ∀ {γ δ : Type} {S : γ → δ → Prop} {g : Value → Run γ} {g' : Value → Run δ} (e : Expr),
      (∀ w, Run.Sim ρ S (g w) (g' (w.rename ρ))) →
      Run.Sim ρ S (eval cx fuel e s >>= fun v => force cx fuel v >>= g)
        (eval (cx.rename ρ) fuel e (s.rename ρ) >>= fun v => force (cx.rename ρ) fuel v >>= g') :=
    fun e hg => Sim.bind_fun (ih.eval e s) fun v => Sim.bind_fun (ih.force v) hg
  rw [eval.eq_def, eval.eq_def]
  cases e with
  | int _ | float _ | bool _ | str _ | unit | limits | sleep _ => exact Sim.pure rfl
  | array items => exact Sim.map (hall items) fun vs ws h => by rw [h, Value.rename_array]
  | foreign tag => exact Sim.bind_fun sim_freshId fun i => Sim.pure rfl
  | arg i =>
    dsimp only
    simp only [Scope.rename, List.getElem?_map]
    cases s.args[i]? with
    | none => exact Sim.failWith
    | some v => exact Sim.pure rfl
  | envSlot i =>
    dsimp only
    simp only [Scope.rename, List.getElem?_map]
    cases s.env[i]? with
    | none => exact Sim.failWith
    | some v => exact Sim.pure rfl
  | var name =>
    dsimp only
    rw [Context.lookup_rename]
    cases cx.lookup name with
    | none => exact Sim.failWith
    | some v => exact Sim.pure rfl
  | self =>
    dsimp only
    simp only [Scope.rename]
    cases s.self with
    | none => exact Sim.failWith
    | some f => exact Sim.pure rfl
  | this =>
    dsimp only
    simp only [Scope.rename]
    cases s.this with
    | none => exact Sim.failWith
    | some i => exact Sim.pure rfl
  | lambda name arity env body =>
    have hbuild : ∀ vs : List Value, Run.Sim ρ (fun v w => w = v.rename ρ)
        (if arity > maxSupportedArity then Run.fault (.arityOutOfRange arity maxSupportedArity)
          else Run.count .lambdas >>= fun _ => buildFunction name arity body vs)
        (if arity > maxSupportedArity then Run.fault (.arityOutOfRange arity maxSupportedArity)
          else Run.count .lambdas >>= fun _ => buildFunction name arity body (vs.map (Value.rename ρ))) := by
      intro vs
      split
      · exact Sim.fault
      · exact Sim.bind (sim_count _) fun _ _ _ => sim_buildFunction hρ name arity body vs
    cases env with
    | none =>
      have hnone : Run.Sim ρ (fun (a b : List Value) => b = a.map (Value.rename ρ)) (pure []) (pure []) := Sim.pure rfl
      exact Sim.bind_fun hnone hbuild
    | some es => exact Sim.bind_fun (hall es) hbuild
  | apply callee args =>
    refine Sim.bind_fun (ih.eval callee s) fun f => Sim.bind_fun (hall args) fun vs => ?_
    exact Sim.map (Resolver.sim_apply ih.host f vs) fun a b h => by rw [h, Applied.toValue_rename]
  | eval callee args =>
    refine Sim.bind_fun (ih.eval callee s) fun f => Sim.bind_fun (hall args) fun vs => ?_
    exact Resolver.sim_eval ih.host f vs
  | applied callee args =>
    refine Sim.bind_fun (ih.eval callee s) fun f => Sim.bind_fun (hall args) fun vs => ?_
    refine Sim.bind_fun (Resolver.sim_apply ih.host f vs) fun a => ?_
    cases a with
    | curried g => exact Sim.pure rfl
    | cell i => exact Sim.pure rfl
  | applyTo target callee args =>
    refine Sim.bind_fun (ih.eval callee s) fun v => Sim.bind_fun (hall args) fun vs => ?_
    refine Sim.bind_fun (sim_targetFunction hρ target v) fun f => ?_
    exact Sim.map (Resolver.sim_applyFunction ih.host f vs) fun a b h => by rw [h, Applied.toValue_rename]
  | invoke callee args =>
    refine Sim.bind_fun (ih.eval callee s) fun v => Sim.bind_fun (hall args) fun vs => ?_
    refine Sim.bind_fun (sim_needFn v) fun f => ?_
    exact Sim.map (ih.invoke f vs) fun c c' h => by rw [h]; rfl
  | force e => exact Sim.bind_fun (ih.eval e s) ih.force
  | delay e => exact Sim.map (sim_newCell (.pending ⟨e, s⟩)) fun c c' h => by rw [h]; rfl
  | delaySelf e =>
    refine Sim.bind sim_get fun n n' hn => ?_
    rw [hn.size]
    exact Sim.map (sim_newCell (.pending ⟨e, { s with this := some n.cells.size }⟩)) fun c c' h => by rw [h]; rfl
  | ready e => exact Sim.bind_fun (ih.eval e s) fun v => Sim.map (sim_cellOf v) fun c c' h => by rw [h]; rfl
  | fail message => exact Sim.failWith
  | panic message => exact Sim.throw
  | arith op a b => exact hforced a fun x => hforced b fun y => sim_onValues op x y
  | less a b => exact hforced a fun x => hforced b fun y => sim_lessValues x y
  | index a i => exact hforced a fun x => hforced i fun y => sim_indexValues x y
  | same a b =>
    refine Sim.bind_fun (ih.eval a s) fun x => Sim.bind_fun (ih.eval b s) fun y => Sim.pure ?_
    rw [Value.same_rename hρ x y]
    rfl
  | cond c t f =>
    refine hforced c fun w => ?_
    cases w with
    | bool b => cases b with
      | true => exact ih.eval t s
      | false => exact ih.eval f s
    | _ => exact Sim.failWith
  | seq es => exact Sim.bind_fun (hall es) fun vs => Sim.pure (Value.getLastD_rename vs)
  | look l e =>
    refine Sim.bind_fun (ih.eval e s) fun v => ?_
    cases l with
    | kind => exact Sim.pure (by simp)
    | display => exact Sim.bind sim_get fun n n' hn => Sim.pure (by rw [Machine.display_rename hn]; rfl)
    | debug => exact Sim.bind sim_get fun n n' hn => Sim.pure (by rw [Machine.debug_rename hn]; rfl)
    | arity => exact Sim.pure (by simp)
    | asInteger => cases v <;> exact Sim.pure rfl
    | toFunction =>
      dsimp only
      rw [Value.toFunction_rename]
      exact Sim.map (Sim.ofExcept _) fun f g h => by rw [h]; rfl
  | cellLook l e =>
    refine Sim.bind_fun (ih.eval e s) fun v => ?_
    cases v with
    | thunk i =>
      refine Sim.bind sim_get fun n n' hn => ?_
      cases l with
      | isEvaluated => exact Sim.pure (by rw [hn.peek i]; cases n.peek? i <;> rfl)
      | peek => exact Sim.pure (by rw [hn.peek i]; cases n.peek? i <;> rfl)
    | _ => exact Sim.failWith
  | part p e =>
    refine Sim.bind_fun (ih.eval e s) fun v => Sim.bind_fun (sim_needFn v) fun f => ?_
    cases p with
    | need | name | isPartial => exact Sim.pure (by simp)
    | bound | env | envLen | envIsEmpty => exact Sim.pure (by simp)
    | debugClosure => exact Sim.bind sim_get fun n n' hn => Sim.pure (by rw [Machine.debugClosure_rename hn]; rfl)
  | length e =>
    refine hforced e fun w => ?_
    cases w with
    | array items => exact Sim.pure (by simp)
    | _ => exact Sim.failWith
  | parseInt e =>
    refine hforced e fun w => ?_
    cases w with
    | str t =>
      simp only [Value.rename_str]
      split
      · exact Sim.pure rfl
      · exact Sim.fault
    | _ => exact Sim.failWith

end Step

/-- Evaluation at any fuel runs alike on renamed contexts, scopes, values and functions. -/
theorem evalSim {ρ : Nat → Nat} (hρ : Renaming ρ) (cx : Context) : ∀ fuel, EvalSim ρ cx fuel
  | 0 => evalSim_zero ρ cx
  | fuel + 1 =>
    have ih := evalSim hρ cx fuel
    { eval := sim_eval_succ hρ ih
      force := sim_force_succ ih
      invoke := sim_invoke_succ ih
      host := ⟨ih.invoke, ih.force⟩ }

end LazyCall
