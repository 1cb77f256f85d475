import LazyCall.Proofs.Sessions

/-!
# Functions keep the runtime's shape

A function is *formed* (`Callable.Formed`) when its arity is at most the supported maximum, 25, and it has fewer bound
arguments than its arity, none at all when the arity is zero; a value is formed when every function it holds, at any
depth, is. Only three things make functions: a `lambda` expression, which refuses an arity above the maximum before it
builds anything; the targets of `applyTo`, which drop the bound arguments; and the resolver's short turn, which binds
fewer arguments than the function still needs (`bindArgs_formed`). So every run keeps the machine formed
(`Machine.Formed`: its cells and the functions lambdas were built as), and gives formed values.

Main statements: evaluation at any fuel keeps machines formed (`evalFormed`), with the resolver shown first for any
host that does (`Host.KeepsFormed`, `Resolver.keepsFormed_applyFunction`); every step keeps a session formed, and
every machine and value a session from the empty one reports is formed (`Session.Formed.steps`). A function that
application hands out unfinished still needs at least one argument (`Applied.Formed`).
-/

namespace LazyCall

open Run

/-! ## The shape of a function -/

mutual
/-- Every function the value holds has the runtime's shape. -/
def Value.Formed : Value → Prop
  | .array items => Value.FormedAll items
  | .func f => Callable.Formed f
  | .int _ | .float _ | .bool _ | .str _ | .unit | .thunk _ | .foreign .. => True

/-- A function in the runtime's shape: an arity at most the supported maximum, fewer bound arguments than the arity
(none when the arity is zero), and formed values in its environment and among its bound arguments. -/
def Callable.Formed : Callable Value → Prop
  | ⟨lam, env, _, bound, _⟩ => lam.arity ≤ maxSupportedArity ∧ (bound = [] ∨ bound.length < lam.arity) ∧
      Value.FormedAll env ∧ Value.FormedAll bound

/-- Every value of the list is formed. -/
def Value.FormedAll : List Value → Prop
  | [] => True
  | v :: vs => Value.Formed v ∧ Value.FormedAll vs
end

@[simp] theorem Value.formedAll_iff {vs : List Value} : Value.FormedAll vs ↔ ∀ v ∈ vs, v.Formed := by
  induction vs with
  | nil => simp [Value.FormedAll]
  | cons v vs ih => simp [Value.FormedAll, ih]

@[simp] theorem Value.formed_array {items : List Value} : (Value.array items).Formed ↔ ∀ v ∈ items, v.Formed := by
  simp [Value.Formed]

@[simp] theorem Value.formed_func {f : Fn} : (Value.func f).Formed ↔ f.Formed := by
  simp [Value.Formed]

@[simp] theorem Value.formed_thunk {i : Nat} : (Value.thunk i).Formed := trivial

@[simp] theorem Value.formed_int {k : Int64} : (Value.int k).Formed := trivial

@[simp] theorem Value.formed_str {s : String} : (Value.str s).Formed := trivial

@[simp] theorem Value.formed_bool {b : Bool} : (Value.bool b).Formed := trivial

@[simp] theorem Value.formed_unit : Value.unit.Formed := trivial

theorem Callable.formed_iff {f : Fn} : f.Formed ↔ f.arity ≤ maxSupportedArity ∧ (f.bound = [] ∨ f.bound.length < f.arity) ∧
    (∀ v ∈ f.env, v.Formed) ∧ (∀ v ∈ f.bound, v.Formed) := by
  obtain ⟨_, _, _, _, _⟩ := f
  simp [Callable.Formed, Callable.arity]

/-- A formed function has no more bound arguments than its arity, so what it still needs is the rest. -/
theorem Callable.Formed.bound_le {f : Fn} (hf : f.Formed) : f.bound.length ≤ f.arity := by
  obtain ⟨-, hb, -, -⟩ := Callable.formed_iff.1 hf
  rcases hb with hb | hb
  · simp [hb]
  · omega

theorem Callable.Formed.need_add_bound {f : Fn} (hf : f.Formed) : f.need + f.bound.length = f.arity := by
  have := hf.bound_le
  unfold Callable.need
  omega

/-- The function a formed value holds is formed. -/
theorem Value.toFunction_formed {v : Value} {f : Fn} (hv : v.Formed) (hf : v.toFunction = .ok f) : f.Formed := by
  cases v <;> simp only [Value.toFunction, reduceCtorEq, Except.ok.injEq] at hf
  subst hf
  exact Value.formed_func.1 hv

/-- The values a scope offers are formed. -/
def Scope.Formed (s : Scope) : Prop :=
  (∀ v ∈ s.args, v.Formed) ∧ (∀ v ∈ s.env, v.Formed) ∧ ∀ f ∈ s.self, f.Formed

/-- The values bound in a context are formed. -/
def Context.Formed (cx : Context) : Prop :=
  ∀ p ∈ cx.bindings, p.2.Formed

/-- A cell whose computation's scope or value is formed. -/
def Cell.Formed : Cell → Prop
  | .pending job => job.scope.Formed
  | .done v => v.Formed
  | .running | .failed _ => True

/-- A machine whose cells and whose functions that lambdas were built as are formed. -/
structure Machine.Formed (m : Machine) : Prop where
  cells : ∀ c ∈ m.cells, c.Formed
  homes : ∀ f ∈ m.homes, f.Formed

namespace Machine.Formed

variable {m : Machine}

theorem cell (hm : m.Formed) (i : Nat) : (m.cell i).Formed := by
  unfold Machine.cell
  rw [Array.getD_eq_getD_getElem?]
  cases h : m.cells[i]? with
  | none => trivial
  | some c => exact hm.cells c (Array.mem_of_getElem? h)

theorem congr {m' : Machine} (hm : m.Formed) (hc : m'.cells = m.cells) (hh : m'.homes = m.homes) : m'.Formed :=
  ⟨by rw [hc]; exact hm.cells, by rw [hh]; exact hm.homes⟩

theorem push (hm : m.Formed) {c : Cell} (hc : c.Formed) (k : Counters) :
    ({ m with cells := m.cells.push c, counters := k } : Machine).Formed :=
  ⟨fun d hd => by
    rcases Array.mem_push.1 hd with hd | rfl
    · exact hm.cells d hd
    · exact hc, hm.homes⟩

theorem set (hm : m.Formed) (i : Nat) {c : Cell} (hc : c.Formed) :
    ({ m with cells := m.cells.set! i c } : Machine).Formed :=
  ⟨fun d hd => by
    rw [Array.set!_eq_setIfInBounds] at hd
    by_cases hi : i < m.cells.size
    · rcases Array.mem_or_eq_of_mem_setIfInBounds hd with hd | rfl
      · exact hm.cells d hd
      · exact hc
    · rw [Array.setIfInBounds_eq_of_size_le (by omega)] at hd
      exact hm.cells d hd, hm.homes⟩

end Machine.Formed

/-! ## Runs that keep the machine formed -/

variable {α β γ : Type}

/-- A run that ended in `res` left a formed machine, and a value it gave satisfies `Q`. -/
def Run.FormedEnd (Q : α → Prop) : EStateM.Result Abort Machine α → Prop
  | .ok a m' => m'.Formed ∧ Q a
  | .error _ m' => m'.Formed

/-- Started in a formed machine, `x` ends in a formed machine, and a value it gives satisfies `Q`. -/
def Run.KeepsFormed (x : Run α) (Q : α → Prop) : Prop :=
  ∀ m, m.Formed → Run.FormedEnd Q (x m)

namespace Run.KeepsFormed

variable {Q : α → Prop} {R : β → Prop}

theorem pure {a : α} (ha : Q a) : Run.KeepsFormed (pure a) Q := fun _ hm => ⟨hm, ha⟩

theorem throw {e : Abort} : Run.KeepsFormed (throw e : Run α) Q := fun _ hm => hm

theorem fault {f : Fault} : Run.KeepsFormed (Run.fault f : Run α) Q := throw

theorem failWith {text : String} : Run.KeepsFormed (Run.failWith text : Run α) Q := throw

theorem bind {x : Run α} {f : α → Run β} (hx : Run.KeepsFormed x Q) (hf : ∀ a, Q a → Run.KeepsFormed (f a) R) :
    Run.KeepsFormed (x >>= f) R := by
  intro m hm
  have h := hx m hm
  cases hxm : x m with
  | ok a m₁ =>
    rw [hxm] at h
    rw [bind_of_ok hxm]
    exact hf a h.2 m₁ h.1
  | error e m₁ =>
    rw [hxm] at h
    rw [bind_of_error hxm]
    exact h

theorem map {x : Run α} {f : α → β} (hx : Run.KeepsFormed x Q) (hf : ∀ a, Q a → R (f a)) :
    Run.KeepsFormed (f <$> x) R := by
  intro m hm
  have h := hx m hm
  cases hxm : x m with
  | ok a m₁ => rw [hxm] at h; rw [map_of_ok hxm]; exact ⟨h.1, hf a h.2⟩
  | error e m₁ => rw [hxm] at h; rw [map_of_error hxm]; exact h

theorem weaken {x : Run α} {Q' : α → Prop} (hx : Run.KeepsFormed x Q) (hq : ∀ a, Q a → Q' a) :
    Run.KeepsFormed x Q' := by
  intro m hm
  have h := hx m hm
  cases hxm : x m with
  | ok a m₁ => rw [hxm] at h; exact ⟨h.1, hq a h.2⟩
  | error e m₁ => rw [hxm] at h; exact h

theorem ofExcept {e : Except Fault α} (he : ∀ a, e = .ok a → Q a) : Run.KeepsFormed (Run.ofExcept e) Q := by
  cases e with
  | error f => exact fault
  | ok a => exact pure (he a rfl)

theorem attempt {x : Run α} {P : Except Abort α → Prop} (hx : Run.KeepsFormed x Q) (hok : ∀ a, Q a → P (.ok a))
    (herr : ∀ e, P (.error e)) : Run.KeepsFormed (Run.attempt x) P := by
  intro m hm
  have h := hx m hm
  cases hxm : x m with
  | ok a m₁ => rw [hxm] at h; rw [attempt_of_ok hxm]; exact ⟨h.1, hok a h.2⟩
  | error e m₁ => rw [hxm] at h; rw [attempt_of_error hxm]; exact ⟨h, herr e⟩

/-- An attempted run of formed values gives a formed value when it succeeds. -/
theorem attempt_formed {x : Run Value} (hx : Run.KeepsFormed x Value.Formed) :
    Run.KeepsFormed (Run.attempt x) fun r => ∀ v, r = .ok v → v.Formed :=
  attempt hx (fun v hv _ h => by cases h; exact hv) fun _ _ h => by cases h

/-- Mapping a run over a list keeps the machine formed when each run does. -/
theorem mapM {xs : List γ} {f : γ → Run α} (hf : ∀ x ∈ xs, Run.KeepsFormed (f x) Q) :
    Run.KeepsFormed (xs.mapM f) fun ys => ∀ y ∈ ys, Q y := by
  induction xs with
  | nil => exact pure fun _ h => by cases h
  | cons x xs ih =>
    rw [List.mapM_cons]
    refine bind (hf x (.head _)) fun a ha => bind (ih fun y hy => hf y (.tail _ hy)) fun ys hys => pure ?_
    intro y hy
    rcases List.mem_cons.1 hy with rfl | hy
    · exact ha
    · exact hys y hy

/-- A run that changes neither the cells nor the functions lambdas were built as keeps the machine formed. -/
theorem of_quiet {x : Run α} (hx : ∀ m, ∃ a m', x m = .ok a m' ∧ m'.cells = m.cells ∧ m'.homes = m.homes ∧ Q a) :
    Run.KeepsFormed x Q := by
  intro m hm
  obtain ⟨a, m', hxm, hc, hh, hq⟩ := hx m
  rw [hxm]
  exact ⟨hm.congr hc hh, hq⟩

end Run.KeepsFormed

/-! ## The primitives -/

namespace Run

theorem keepsFormed_count (c : Counter) : KeepsFormed (count c) fun _ => True :=
  KeepsFormed.of_quiet fun m => ⟨(), _, count_apply c m, rfl, rfl, trivial⟩

theorem keepsFormed_freshId : KeepsFormed freshId fun _ => True :=
  KeepsFormed.of_quiet fun m => ⟨_, _, freshId_apply m, rfl, rfl, trivial⟩

theorem keepsFormed_get : KeepsFormed get Machine.Formed := fun _ hm => ⟨hm, hm⟩

theorem keepsFormed_newCell {c : Cell} (hc : c.Formed) : KeepsFormed (newCell c) fun _ => True := by
  intro m hm
  rw [newCell_apply]
  exact ⟨hm.push hc _, trivial⟩

theorem keepsFormed_cellOf {v : Value} (hv : v.Formed) : KeepsFormed (cellOf v) fun _ => True := by
  cases v with
  | thunk i => exact KeepsFormed.pure trivial
  | _ => exact keepsFormed_newCell hv

theorem keepsFormed_addHome {f : Fn} (hf : f.Formed) : KeepsFormed (addHome f) fun _ => True := by
  intro m hm
  rw [addHome_apply]
  refine ⟨⟨hm.cells, fun g hg => ?_⟩, trivial⟩
  rcases Array.mem_push.1 hg with hg | rfl
  · exact hm.homes g hg
  · exact hf

theorem keepsFormed_home (slot : Nat) : KeepsFormed (home slot) fun o => ∀ f ∈ o, f.Formed := by
  intro m hm
  rw [home_apply]
  exact ⟨hm, fun f hf => hm.homes f (Array.mem_of_getElem? hf)⟩

end Run

/-! ## The resolver -/

/-- What an application gives: a cell, or a formed function that still needs an argument. -/
def Applied.Formed : Applied → Prop
  | .cell _ => True
  | .curried g => g.Formed ∧ 0 < g.need

theorem Applied.formed_toValue {a : Applied} (ha : a.Formed) : a.toValue.Formed := by
  cases a with
  | cell i => trivial
  | curried g => exact Value.formed_func.2 ha.1

/-- A host that keeps machines formed: invoking a formed function on formed arguments and forcing a formed value keep
the machine formed, and a force gives a formed value. -/
structure Host.KeepsFormed (h : Host) : Prop where
  invoke : ∀ f args, f.Formed → (∀ v ∈ args, v.Formed) → Run.KeepsFormed (h.invoke f args) fun _ => True
  force : ∀ v, v.Formed → Run.KeepsFormed (h.force v) Value.Formed

namespace Resolver

variable {r : Resolver} {h : Host}

theorem keepsFormed_report (d : Decision) (g : Fn) (s : Nat) : Run.KeepsFormed (r.report d g s) fun _ => True :=
  KeepsFormed.of_quiet fun m => ⟨(), _, report_apply r d g s m, by simp, by simp, trivial⟩

/-- Binding fewer arguments than a formed function still needs gives a formed function that still needs one. -/
theorem bindArgs_formed {f : Fn} {args : List Value} (hf : f.Formed) (ha : ∀ v ∈ args, v.Formed)
    (hl : args.length < f.need) : Run.KeepsFormed (bindArgs f args) fun g => g.Formed ∧ 0 < g.need := by
  obtain ⟨harity, -, henv, hbound⟩ := Callable.formed_iff.1 hf
  have hle := hf.bound_le
  unfold bindArgs
  split
  · exact KeepsFormed.pure ⟨hf, by omega⟩
  · refine KeepsFormed.bind (keepsFormed_count _) fun _ _ => KeepsFormed.bind keepsFormed_freshId fun i _ =>
      KeepsFormed.pure ⟨Callable.formed_iff.2 ⟨harity, .inr ?_, henv, fun v hv => ?_⟩, ?_⟩
    · simp only [List.length_append, Callable.arity] at hl hle ⊢
      unfold Callable.need Callable.arity at hl
      omega
    · rcases List.mem_append.1 hv with hv | hv
      · exact hbound v hv
      · exact ha v hv
    · simp only [Callable.need, Callable.arity, List.length_append] at hl hle ⊢
      omega

theorem keepsFormed_lastTurn (hh : h.KeepsFormed) {g : Fn} {rest : List Value} (hg : g.Formed)
    (hr : ∀ v ∈ rest, v.Formed) (hl : rest.length ≤ g.need) : Run.KeepsFormed (r.lastTurn h g rest) Applied.Formed := by
  unfold lastTurn
  split
  · refine KeepsFormed.bind (keepsFormed_report _ _ _) fun _ _ => KeepsFormed.map (hh.invoke g _ hg ?_) fun _ _ => trivial
    intro v hv
    rcases List.mem_append.1 hv with hv | hv
    · exact (Callable.formed_iff.1 hg).2.2.2 v hv
    · exact hr v hv
  · rename_i hne
    exact KeepsFormed.bind (keepsFormed_report _ _ _) fun _ _ => KeepsFormed.bind (keepsFormed_count _) fun _ _ =>
      KeepsFormed.map (bindArgs_formed hg hr (by omega)) fun _ hg' => hg'

theorem keepsFormed_overTurn (hh : h.KeepsFormed) {g : Fn} {args : List Value} (hg : g.Formed)
    (ha : ∀ v ∈ args, v.Formed) : Run.KeepsFormed (r.overTurn h g args) Callable.Formed := by
  unfold overTurn
  refine KeepsFormed.bind (keepsFormed_report _ _ _) fun _ _ => KeepsFormed.bind (keepsFormed_count _) fun _ _ => ?_
  refine KeepsFormed.bind (hh.invoke g _ hg ?_) fun c _ => ?_
  · intro v hv
    rcases List.mem_append.1 hv with hv | hv
    · exact (Callable.formed_iff.1 hg).2.2.2 v hv
    · exact ha v (List.mem_of_mem_take hv)
  exact KeepsFormed.bind (hh.force _ trivial) fun v hv => KeepsFormed.ofExcept fun f hf => Value.toFunction_formed hv hf

theorem keepsFormed_loop (hh : h.KeepsFormed) (b : Nat) (s : UInt64) (f : Fn) (args : List Value) :
    f.Formed → (∀ v ∈ args, v.Formed) → Run.KeepsFormed (r.loop h b s f args args.length) Applied.Formed := by
  refine loop_induction (P := fun _ _ f args x => f.Formed → (∀ v ∈ args, v.Formed) →
    Run.KeepsFormed x Applied.Formed) ?arity ?last ?deep ?exhausted ?turn b s f args
  case arity | deep | exhausted => intros; exact KeepsFormed.throw
  case last =>
    intro _ _ _ _ _ hl hf ha
    exact keepsFormed_lastTurn hh hf ha hl
  case turn =>
    intro _ _ _ args _ _ _ ih hf ha
    exact KeepsFormed.bind (keepsFormed_overTurn hh hf ha) fun g hg => ih g hg fun v hv => ha v (List.mem_of_mem_drop hv)

theorem keepsFormed_applyFunction (hh : h.KeepsFormed) {f : Fn} {args : List Value} (hf : f.Formed)
    (ha : ∀ v ∈ args, v.Formed) : Run.KeepsFormed (r.applyFunction h f args) Applied.Formed :=
  keepsFormed_loop hh _ _ f args hf ha

theorem keepsFormed_apply (hh : h.KeepsFormed) {callee : Value} {args : List Value} (hc : callee.Formed)
    (ha : ∀ v ∈ args, v.Formed) : Run.KeepsFormed (r.apply h callee args) Applied.Formed := by
  unfold apply
  exact KeepsFormed.bind (hh.force callee hc) fun v hv => KeepsFormed.bind
    (KeepsFormed.ofExcept fun f hf => Value.toFunction_formed hv hf) fun f hf => keepsFormed_applyFunction hh hf ha

theorem keepsFormed_eval (hh : h.KeepsFormed) {callee : Value} {args : List Value} (hc : callee.Formed)
    (ha : ∀ v ∈ args, v.Formed) : Run.KeepsFormed (r.eval h callee args) Value.Formed := by
  unfold eval
  refine KeepsFormed.bind (keepsFormed_apply hh hc ha) fun a ha' => ?_
  cases a with
  | cell i => exact hh.force _ trivial
  | curried g => exact KeepsFormed.pure (Value.formed_func.2 ha'.1)

end Resolver

/-! ## Forcing a cell -/

/-- A force keeps the machine formed whenever the computation and the force of its value do. -/
theorem keepsFormed_forceCell {compute : Job → Run Value} {whnf : Value → Run Value}
    (hc : ∀ job, job.scope.Formed → Run.KeepsFormed (compute job) Value.Formed)
    (hw : ∀ v, v.Formed → Run.KeepsFormed (whnf v) Value.Formed) (i : Nat) :
    Run.KeepsFormed (forceCell compute whnf i) Value.Formed := by
  intro m hm
  have hcell := hm.cell i
  cases hci : m.cell i with
  | done v =>
    rw [hci] at hcell
    rw [forceCell_done hci]
    exact ⟨hm.congr rfl rfl, hcell⟩
  | failed f => rw [forceCell_failed hci]; exact hm
  | running => rw [forceCell_running hci]; exact hm.congr rfl rfl
  | pending job =>
    rw [hci] at hcell
    have hclaim : (m.claim i).Formed := (hm.set i (c := .running) trivial).congr rfl rfl
    have hrun := KeepsFormed.bind (hc job hcell) hw (m.claim i) hclaim
    -- the claimed cell is settled with the value or with a failure, both formed
    cases hr : (compute job >>= whnf) (m.claim i) with
    | ok v m' =>
      rw [hr] at hrun
      rw [forceCell_pending_ok hci hr]
      exact ⟨hrun.1.set i hrun.2, hrun.2⟩
    | error e m' =>
      rw [hr] at hrun
      cases e with
      | fault f => rw [forceCell_pending_fault hci hr]; exact hrun.set i trivial
      | panic msg => rw [forceCell_pending_abort hci (fun _ h => by cases h) hr]; exact hrun.set i trivial
      | exhausted => rw [forceCell_pending_abort hci (fun _ h => by cases h) hr]; exact hrun.set i trivial

/-! ## The evaluator's pieces -/

theorem keepsFormed_needFn {v : Value} (hv : v.Formed) : Run.KeepsFormed (needFn v) Callable.Formed := by
  cases v with
  | func f => exact KeepsFormed.pure (Value.formed_func.1 hv)
  | _ => exact KeepsFormed.failWith

/-- A `lambda` expression builds a formed function once the arity check passed. -/
theorem keepsFormed_buildFunction {name : String} {arity : Nat} {body : Expr} {env : List Value}
    (harity : arity ≤ maxSupportedArity) (henv : ∀ v ∈ env, v.Formed) :
    Run.KeepsFormed (buildFunction name arity body env) Value.Formed := by
  unfold buildFunction
  have hf : ∀ slot c, Callable.Formed ⟨⟨name, arity, body, slot⟩, env, c, [], 0⟩ := fun _ _ =>
    Callable.formed_iff.2 ⟨harity, .inl rfl, henv, by simp⟩
  exact KeepsFormed.bind keepsFormed_get fun _ _ => KeepsFormed.bind keepsFormed_freshId fun _ _ =>
    KeepsFormed.bind (keepsFormed_addHome (hf _ _)) fun _ _ => KeepsFormed.bind (keepsFormed_count _) fun _ _ =>
      KeepsFormed.bind (keepsFormed_count _) fun _ _ => KeepsFormed.pure (Value.formed_func.2 (hf _ _))

/-- The targets of `applyTo` hand the resolver a formed function: the value's own, or a fresh one of its closure with
no bound arguments. -/
theorem keepsFormed_targetFunction (t : Target) {v : Value} (hv : v.Formed) :
    Run.KeepsFormed (targetFunction t v) Callable.Formed := by
  unfold targetFunction
  cases t with
  | value => exact KeepsFormed.ofExcept fun f hf => Value.toFunction_formed hv hf
  | function => exact keepsFormed_needFn hv
  | closure =>
    refine KeepsFormed.bind (keepsFormed_needFn hv) fun f hf => KeepsFormed.bind (keepsFormed_count _) fun _ _ =>
      KeepsFormed.bind keepsFormed_freshId fun c _ => KeepsFormed.pure ?_
    obtain ⟨harity, -, henv, -⟩ := Callable.formed_iff.1 hf
    exact Callable.formed_iff.2 ⟨harity, .inl rfl, henv, by simp [Callable.unbound]⟩
  | lambda =>
    refine KeepsFormed.bind (keepsFormed_needFn hv) fun f hf => KeepsFormed.bind (keepsFormed_count _) fun _ _ =>
      KeepsFormed.bind (keepsFormed_count _) fun _ _ => KeepsFormed.bind keepsFormed_freshId fun c _ =>
        KeepsFormed.pure ?_
    exact Callable.formed_iff.2 ⟨(Callable.formed_iff.1 hf).1, .inl rfl, by simp, by simp [Callable.unbound]⟩

theorem keepsFormed_onValues (op : Arith) (a b : Value) : Run.KeepsFormed (op.onValues a b) Value.Formed := by
  unfold Arith.onValues
  split
  · split
    · exact KeepsFormed.pure trivial
    · exact KeepsFormed.failWith
  · exact KeepsFormed.pure trivial
  · exact KeepsFormed.failWith

theorem keepsFormed_lessValues (a b : Value) : Run.KeepsFormed (lessValues a b) Value.Formed := by
  unfold lessValues
  split
  · exact KeepsFormed.pure trivial
  · exact KeepsFormed.pure trivial
  · exact KeepsFormed.failWith

theorem keepsFormed_indexValues {a : Value} (b : Value) (ha : a.Formed) :
    Run.KeepsFormed (indexValues a b) Value.Formed := by
  unfold indexValues
  split
  · rename_i items k
    split
    · refine KeepsFormed.pure ?_
      rw [List.getD_eq_getElem?_getD]
      cases hi : items[k.toInt.toNat]? with
      | none => trivial
      | some v => exact (Value.formed_array.1 ha) v (List.mem_of_getElem? hi)
    · exact KeepsFormed.failWith
  · exact KeepsFormed.failWith

theorem Value.formed_getLastD {vs : List Value} (h : ∀ v ∈ vs, v.Formed) : (vs.getLastD .unit).Formed := by
  rcases List.mem_cons.1 (List.getLastD_mem_cons (l := vs) (a := .unit)) with he | hm
  · rw [he]; trivial
  · exact h _ hm

theorem Context.Formed.lookup {cx : Context} (hc : cx.Formed) {name : String} {v : Value}
    (hl : cx.lookup name = some v) : v.Formed := by
  unfold Context.lookup at hl
  cases hf : cx.bindings.find? (·.1 == name) with
  | none => rw [hf] at hl; cases hl
  | some p =>
    rw [hf] at hl
    cases hl
    exact hc p (List.mem_of_find?_eq_some hf)

/-- A settled cell of a formed machine holds a formed value. -/
theorem Machine.Formed.peek {m : Machine} (hm : m.Formed) {i : Nat} : ∀ v ∈ m.peek? i, v.Formed := by
  intro v hv
  have hc := hm.cell i
  unfold Machine.peek? at hv
  split at hv
  · rename_i w hw
    rw [hw] at hc
    cases hv
    exact hc
  · cases hv

/-! ## The induction on fuel -/

/-- The evaluator at `fuel` keeps machines formed. -/
structure EvalFormed (cx : Context) (fuel : Nat) : Prop where
  eval : ∀ e s, s.Formed → Run.KeepsFormed (eval cx fuel e s) Value.Formed
  force : ∀ v, v.Formed → Run.KeepsFormed (force cx fuel v) Value.Formed
  invoke : ∀ f args, f.Formed → (∀ v ∈ args, v.Formed) → Run.KeepsFormed (invoke cx fuel f args) fun _ => True
  host : (host cx fuel).KeepsFormed

section Step

variable {cx : Context} {fuel : Nat}

theorem evalFormed_zero (cx : Context) : EvalFormed cx 0 where
  eval _ _ _ := by rw [eval]; exact KeepsFormed.throw
  force _ _ := by rw [force]; exact KeepsFormed.throw
  invoke _ _ _ _ := by rw [invoke]; exact KeepsFormed.throw
  host := ⟨fun _ _ _ _ => KeepsFormed.throw, fun _ _ => KeepsFormed.throw⟩

theorem formed_force_succ (ih : EvalFormed cx fuel) {v : Value} (hv : v.Formed) :
    Run.KeepsFormed (force cx (fuel + 1) v) Value.Formed := by
  rw [force.eq_def]
  cases v with
  | thunk i => exact keepsFormed_forceCell (fun job hs => ih.eval job.expr job.scope hs) (fun w hw => ih.force w hw) i
  | _ => exact KeepsFormed.pure hv

theorem formed_invoke_succ (ih : EvalFormed cx fuel) {f : Fn} {args : List Value} (hf : f.Formed)
    (ha : ∀ v ∈ args, v.Formed) : Run.KeepsFormed (invoke cx (fuel + 1) f args) fun _ => True := by
  rw [invoke]
  split
  · exact KeepsFormed.fault
  · refine KeepsFormed.bind (keepsFormed_count _) fun _ _ => KeepsFormed.bind (keepsFormed_home _) fun self hself => ?_
    refine KeepsFormed.bind (ih.eval _ _ ⟨ha, (Callable.formed_iff.1 hf).2.2.1, hself⟩) fun v hv => ?_
    exact keepsFormed_cellOf hv

theorem formed_eval_succ (hcx : cx.Formed) (ih : EvalFormed cx fuel) (e : Expr) {s : Scope} (hs : s.Formed) :
    Run.KeepsFormed (eval cx (fuel + 1) e s) Value.Formed := by
  have hev : ∀ e, Run.KeepsFormed (eval cx fuel e s) Value.Formed := fun e => ih.eval e s hs
  have hall : ∀ es : List Expr, Run.KeepsFormed (es.mapM (eval cx fuel · s)) fun vs => ∀ v ∈ vs, v.Formed :=
    fun es => KeepsFormed.mapM fun e _ => hev e
  have hforced : ∀ {β : Type} {R : β → Prop} {g : Value → Run β} e, (∀ w, w.Formed → Run.KeepsFormed (g w) R) →
      Run.KeepsFormed (eval cx fuel e s >>= fun v => force cx fuel v >>= g) R :=
    fun e hg => KeepsFormed.bind (hev e) fun v hv => KeepsFormed.bind (ih.force v hv) hg
  rw [eval.eq_def]
  cases e with
  | int _ | float _ | bool _ | str _ | unit | sleep _ => exact KeepsFormed.pure trivial
  | limits => exact KeepsFormed.pure (by simp)
  | array items => exact KeepsFormed.map (hall items) fun _ h => Value.formed_array.2 h
  | foreign tag => exact KeepsFormed.bind keepsFormed_freshId fun _ _ => KeepsFormed.pure trivial
  | arg i =>
    dsimp only
    split
    · rename_i v hv
      exact KeepsFormed.pure (hs.1 v (List.mem_of_getElem? hv))
    · exact KeepsFormed.failWith
  | envSlot i =>
    dsimp only
    split
    · rename_i v hv
      exact KeepsFormed.pure (hs.2.1 v (List.mem_of_getElem? hv))
    · exact KeepsFormed.failWith
  | var name =>
    dsimp only
    split
    · rename_i v hv
      exact KeepsFormed.pure (hcx.lookup hv)
    · exact KeepsFormed.failWith
  | self =>
    dsimp only
    split
    · rename_i f hf
      exact KeepsFormed.pure (Value.formed_func.2 (hs.2.2 f hf))
    · exact KeepsFormed.failWith
  | this =>
    dsimp only
    split
    · exact KeepsFormed.pure trivial
    · exact KeepsFormed.failWith
  | lambda name arity env body =>
    -- the arity check comes before anything is built
    have hbuild : ∀ vs, (∀ v ∈ vs, v.Formed) → Run.KeepsFormed
        (if arity > maxSupportedArity then Run.fault (.arityOutOfRange arity maxSupportedArity)
          else Run.count .lambdas >>= fun _ => buildFunction name arity body vs) Value.Formed := by
      intro vs hvs
      split
      · exact KeepsFormed.fault
      · rename_i harity
        exact KeepsFormed.bind (keepsFormed_count _) fun _ _ => keepsFormed_buildFunction (by omega) hvs
    cases env with
    | none =>
      exact KeepsFormed.bind (Q := fun (vs : List Value) => ∀ v ∈ vs, v.Formed) (KeepsFormed.pure fun _ h => by cases h)
        hbuild
    | some es => exact KeepsFormed.bind (hall es) hbuild
  | apply callee args =>
    refine KeepsFormed.bind (hev callee) fun f hf => KeepsFormed.bind (hall args) fun vs hvs => ?_
    exact KeepsFormed.map (Resolver.keepsFormed_apply ih.host hf hvs) fun _ => Applied.formed_toValue
  | eval callee args =>
    refine KeepsFormed.bind (hev callee) fun f hf => KeepsFormed.bind (hall args) fun vs hvs => ?_
    exact Resolver.keepsFormed_eval ih.host hf hvs
  | applied callee args =>
    refine KeepsFormed.bind (hev callee) fun f hf => KeepsFormed.bind (hall args) fun vs hvs => ?_
    refine KeepsFormed.bind (Resolver.keepsFormed_apply ih.host hf hvs) fun a ha => ?_
    cases a with
    | curried g => exact KeepsFormed.pure (by simpa using ha.1)
    | cell i => exact KeepsFormed.pure (by simp)
  | applyTo target callee args =>
    refine KeepsFormed.bind (hev callee) fun v hv => KeepsFormed.bind (hall args) fun vs hvs => ?_
    refine KeepsFormed.bind (keepsFormed_targetFunction target hv) fun f hf => ?_
    exact KeepsFormed.map (Resolver.keepsFormed_applyFunction ih.host hf hvs) fun _ => Applied.formed_toValue
  | invoke callee args =>
    refine KeepsFormed.bind (hev callee) fun v hv => KeepsFormed.bind (hall args) fun vs hvs => ?_
    refine KeepsFormed.bind (keepsFormed_needFn hv) fun f hf => ?_
    exact KeepsFormed.map (ih.invoke f vs hf hvs) fun _ _ => trivial
  | force e => exact KeepsFormed.bind (hev e) fun v hv => ih.force v hv
  | delay e => exact KeepsFormed.map (keepsFormed_newCell hs) fun _ _ => trivial
  | delaySelf e =>
    exact KeepsFormed.bind keepsFormed_get fun _ _ => KeepsFormed.map (keepsFormed_newCell hs) fun _ _ => trivial
  | ready e => exact KeepsFormed.bind (hev e) fun v hv => KeepsFormed.map (keepsFormed_cellOf hv) fun _ _ => trivial
  | fail message => exact KeepsFormed.failWith
  | panic message => exact KeepsFormed.throw
  | arith op a b => exact hforced a fun x _ => hforced b fun y _ => keepsFormed_onValues op x y
  | less a b => exact hforced a fun x _ => hforced b fun y _ => keepsFormed_lessValues x y
  | same a b =>
    exact KeepsFormed.bind (hev a) fun _ _ => KeepsFormed.bind (hev b) fun _ _ => KeepsFormed.pure trivial
  | cond c t f =>
    refine hforced c fun w _ => ?_
    cases w with
    | bool b => cases b with
      | true => exact hev t
      | false => exact hev f
    | _ => exact KeepsFormed.failWith
  | seq es => exact KeepsFormed.bind (hall es) fun vs hvs => KeepsFormed.pure (Value.formed_getLastD hvs)
  | look l e =>
    refine KeepsFormed.bind (hev e) fun v hv => ?_
    cases l with
    | kind | arity => exact KeepsFormed.pure trivial
    | display | debug => exact KeepsFormed.bind keepsFormed_get fun _ _ => KeepsFormed.pure trivial
    | asInteger =>
      dsimp only
      split <;> exact KeepsFormed.pure (by simp)
    | toFunction =>
      exact KeepsFormed.map (KeepsFormed.ofExcept fun f hf => Value.toFunction_formed hv hf) fun _ h =>
        Value.formed_func.2 h
  | cellLook l e =>
    refine KeepsFormed.bind (hev e) fun v _ => ?_
    cases v with
    | thunk i =>
      refine KeepsFormed.bind keepsFormed_get fun m hm => ?_
      cases l with
      | isEvaluated => exact KeepsFormed.pure trivial
      | peek => exact KeepsFormed.pure (Value.formed_array.2 fun w hw => hm.peek w (Option.mem_toList.1 hw))
    | _ => exact KeepsFormed.failWith
  | part p e =>
    refine KeepsFormed.bind (hev e) fun v hv => KeepsFormed.bind (keepsFormed_needFn hv) fun f hf => ?_
    obtain ⟨-, -, henv, hbound⟩ := Callable.formed_iff.1 hf
    cases p with
    | need | name | isPartial | envLen | envIsEmpty => exact KeepsFormed.pure trivial
    | bound => exact KeepsFormed.pure (Value.formed_array.2 hbound)
    | env => exact KeepsFormed.pure (Value.formed_array.2 henv)
    | debugClosure => exact KeepsFormed.bind keepsFormed_get fun _ _ => KeepsFormed.pure trivial
  | length e =>
    refine hforced e fun w _ => ?_
    cases w with
    | array items => exact KeepsFormed.pure trivial
    | _ => exact KeepsFormed.failWith
  | index a i => exact hforced a fun x hx => hforced i fun y _ => keepsFormed_indexValues y hx
  | parseInt e =>
    refine hforced e fun w _ => ?_
    cases w with
    | str t =>
      dsimp only
      split
      · exact KeepsFormed.pure trivial
      · exact KeepsFormed.fault
    | _ => exact KeepsFormed.failWith

end Step

/-- From a context whose bindings are formed, evaluation at any fuel keeps machines formed. -/
theorem evalFormed {cx : Context} (hcx : cx.Formed) : ∀ fuel, EvalFormed cx fuel
  | 0 => evalFormed_zero cx
  | fuel + 1 =>
    have ih := evalFormed hcx fuel
    { eval := fun e _ hs => formed_eval_succ hcx ih e hs
      force := fun _ hv => formed_force_succ ih hv
      invoke := fun _ _ hf ha => formed_invoke_succ ih hf ha
      host := ⟨fun f args hf ha => ih.invoke f args hf ha, fun v hv => ih.force v hv⟩ }

/-! ## Sessions -/

section Sessions

variable {cx : Context}

theorem keepsFormed_forceInOrder (he : EvalFormed cx stepFuel) :
    ∀ cells : List Nat, Run.KeepsFormed (forceInOrder cx cells) fun sw => ∀ v ∈ sw.values, v.Formed
  | [] => KeepsFormed.pure fun _ h => by cases h
  | i :: is => by
    rw [forceInOrder]
    refine KeepsFormed.bind (KeepsFormed.attempt (P := fun (r : Except Abort Value) => ∀ v, r = .ok v → v.Formed)
      (he.force (.thunk i) trivial) (fun v hv _ e => by cases e; exact hv) fun _ _ h => by cases h) fun r hr => ?_
    cases r with
    | ok v =>
      refine KeepsFormed.bind (keepsFormed_forceInOrder he is) fun sw hsw => KeepsFormed.pure fun w hw => ?_
      rcases List.mem_cons.1 hw with rfl | hw
      · exact hr w rfl
      · exact hsw w hw
    | error e =>
      cases e <;> exact KeepsFormed.pure fun _ h => by cases h

theorem keepsFormed_sweep (he : EvalFormed cx stepFuel) (halves : Nat) (resumed stopped : Bool) (cells : List Nat) :
    Run.KeepsFormed (sweep cx halves resumed stopped cells) fun sw => ∀ v ∈ sw.values, v.Formed := by
  fun_induction sweep cx halves resumed stopped cells with
  | case1 => exact KeepsFormed.pure fun _ h => by cases h
  | case2 => exact keepsFormed_forceInOrder he _
  | case3 _ _ _ _ _ _ _ _ ihl ihra ihr =>
    -- only the values of a sweep without a panic count
    refine KeepsFormed.bind ihl fun left hl => ?_
    split
    · exact KeepsFormed.bind (ihra left) fun _ _ => KeepsFormed.pure fun _ h => by cases h
    · refine KeepsFormed.bind (ihr left) fun right hr => KeepsFormed.pure fun v hv => ?_
      rcases List.mem_append.1 hv with hv | hv
      · exact hl v hv
      · exact hr v hv

theorem keepsFormed_forceCells (he : EvalFormed cx stepFuel) (cells : List Nat) :
    Run.KeepsFormed (forceCells cx cells) fun vs => ∀ v ∈ vs, v.Formed := by
  unfold forceCells
  refine KeepsFormed.bind (keepsFormed_sweep he poolWorkers false false cells) fun sw hsw => ?_
  split
  · exact KeepsFormed.throw
  · exact KeepsFormed.throw
  · exact KeepsFormed.pure hsw

theorem keepsFormed_forceRepeatedly (he : EvalFormed cx stepFuel) (i : Nat) :
    ∀ times : Nat, Run.KeepsFormed (forceRepeatedly cx i times) fun _ => True
  | 0 => KeepsFormed.pure trivial
  | times + 1 => by
    rw [forceRepeatedly]
    refine KeepsFormed.bind (KeepsFormed.attempt (P := fun _ => True) (he.force (.thunk i) trivial)
      (fun _ _ => trivial) fun _ => trivial) fun _ _ => ?_
    exact KeepsFormed.bind (keepsFormed_forceRepeatedly he i times) fun _ _ => KeepsFormed.pure trivial

end Sessions

theorem Scope.formed_top : ({} : Scope).Formed := by
  simp [Scope.Formed]

/-- A value a step gives is the value its run gave. -/
theorem Outcome.ofExcept_eq_value {r : Except Abort Value} {v : Value} (h : Outcome.ofExcept r = .value v) :
    r = .ok v := by
  cases r with
  | ok w => cases h; rfl
  | error e => cases e <;> cases h

/-- A session whose machine is formed and whose bindings are formed values. -/
structure Session.Formed (s : Session) : Prop where
  machine : s.machine.Formed
  bindings : ∀ p ∈ s.bindings, p.2.Formed

namespace Session

theorem formed_empty : ({} : Session).Formed :=
  ⟨⟨fun _ h => by simp at h, fun _ h => by simp at h⟩, fun _ h => by cases h⟩

variable {s : Session}

/-- A step runs from the session's machine with the events cleared, which changes nothing that formedness sees. -/
theorem Formed.of_run {α : Type} (hs : s.Formed) {x : Run α} {res : EStateM.Result Abort Machine α}
    (hres : x { s.machine with events := #[] } = res) {Q : α → Prop} (hx : Run.KeepsFormed x Q) :
    Run.FormedEnd Q res := by
  have h := hx { s.machine with events := #[] } (hs.machine.congr rfl rfl)
  rwa [hres] at h

theorem bindResult_formed (hs : ∀ p ∈ s.bindings, p.2.Formed) (name : Option String) {r : Except Abort Value}
    (hr : ∀ v, r = .ok v → v.Formed) : ∀ p ∈ s.bindResult name r, p.2.Formed := by
  cases r with
  | error e => exact hs
  | ok v =>
    cases name with
    | none => exact hs
    | some x =>
      rintro p (_ | ⟨_, hp⟩)
      · exact hr v rfl
      · exact hs p hp

/-- Every step keeps a session formed, and a value it gives is formed. -/
theorem Formed.step (hs : s.Formed) (opts : Options) (st : Step) :
    (s.step opts st).1.Formed ∧ ∀ v, (s.step opts st).2.outcome = .value v → v.Formed := by
  have he := @evalFormed (s.context opts) hs.bindings stepFuel
  have hnone : ∀ v, Outcome.ofExcept (.error .exhausted) ≠ .value v := fun _ h => by cases h
  unfold Session.step
  cases st with
  | expr e name =>
    dsimp only
    split
    all_goals
      rename_i hres
      have h := hs.of_run hres (KeepsFormed.attempt_formed (he.eval e {} Scope.formed_top))
    · exact ⟨⟨h.1, bindResult_formed hs.bindings name h.2⟩, fun v hv => h.2 v (Outcome.ofExcept_eq_value hv)⟩
    · exact ⟨⟨h, hs.bindings⟩, fun v hv => absurd hv (hnone v)⟩
  | forceAll es name =>
    dsimp only
    split
    all_goals
      rename_i hres
      have h := hs.of_run hres (KeepsFormed.attempt_formed
        (KeepsFormed.bind (KeepsFormed.mapM (f := (eval (s.context opts) stepFuel · {})) fun e _ =>
          he.eval e {} Scope.formed_top) fun vs hvs =>
          KeepsFormed.bind (KeepsFormed.mapM fun v hv => keepsFormed_cellOf (hvs v hv)) fun cells _ =>
            KeepsFormed.map (keepsFormed_forceCells he cells) fun _ hvs => Value.formed_array.2 hvs))
    · exact ⟨⟨h.1, bindResult_formed hs.bindings name h.2⟩, fun v hv => h.2 v (Outcome.ofExcept_eq_value hv)⟩
    · exact ⟨⟨h, hs.bindings⟩, fun v hv => absurd hv (hnone v)⟩
  | forceThreads e threads =>
    dsimp only
    split
    all_goals
      rename_i hres
      have h := hs.of_run (Q := fun _ => True) hres
        (KeepsFormed.bind (KeepsFormed.attempt_formed (he.eval e {} Scope.formed_top)) fun r hr => by
          cases r with
          | ok v =>
            exact KeepsFormed.bind (keepsFormed_cellOf (hr v rfl)) fun i _ =>
              KeepsFormed.map (keepsFormed_forceRepeatedly he i threads) fun _ _ => trivial
          | error err => exact KeepsFormed.pure trivial)
    · exact ⟨⟨h.1, hs.bindings⟩, fun v hv => by cases Outcome.ofExcept_eq_value (r := .ok .unit) hv; trivial⟩
    · rename_i err _
      exact ⟨⟨h.1, hs.bindings⟩, fun v hv => by cases Outcome.ofExcept_eq_value (r := .error err) hv⟩
    · exact ⟨⟨h, hs.bindings⟩, fun v hv => absurd hv (hnone v)⟩

/-- Along a session from a formed one, every machine a report shows is formed, and so is every value a step gives. -/
theorem Formed.steps (hs : s.Formed) (opts : Options) (sts : List Step) :
    ∀ rep ∈ Session.steps opts s sts, rep.machine.Formed ∧ ∀ v, rep.outcome = .value v → v.Formed := by
  induction sts generalizing s with
  | nil => exact fun _ h => (List.not_mem_nil h).elim
  | cons st sts ih =>
    obtain ⟨hs', hv⟩ := hs.step opts st
    rw [steps_cons]
    rintro rep (_ | ⟨_, hrep⟩)
    · rw [step_machine]
      exact ⟨hs'.machine, hv⟩
    · exact ih hs' rep hrep

end Session

end LazyCall
