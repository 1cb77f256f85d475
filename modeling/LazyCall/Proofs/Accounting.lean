import Mathlib.Algebra.BigOperators.Group.List.Basic
import Mathlib.Algebra.Group.Pi.Lemmas
import Mathlib.Tactic.Abel
import LazyCall.Proofs.ExactArity
import LazyCall.Proofs.CellChains
import LazyCall.Proofs.Calls

/-!
# What an application records

The counters grow only where a piece of work counts itself. An application splits that counting between the resolver
and the calls it makes on its host: invoking a function with the arguments it takes, and forcing a value. `Calls`
follows an application turn by turn and lists those calls in order, each with the machine it started in and the
machine it left, together with the number of over-application turns and how the application ended (`Ending`).

Main statement (`application_records_its_share`). For every host, every function and every list of arguments, and
however the application ends (with a cell, with a function, or stopped), its counters grow by the resolver's own
share plus what its host calls recorded. The share is one over-application per over-application turn and, when a
short turn ends the application, one partial application and, if that turn bound arguments, one function; nothing
else, so exact and over-applications build no function of their own. Each over-application turn calls its host twice:
it invokes the function and then forces the cell that invocation gave. `apply` forces the callee first, `eval` forces
the cell it ends with last. The evaluator's invocation records nothing when the argument count is wrong; otherwise it
records one invocation before the body runs, then what the body records, then one memo cell when the body's value is
not a cell, so a body that fails has still been invoked. A target handed to the resolver records one closure and one
function for a lambda target, one function for a closure target, nothing for the others.
-/

namespace LazyCall

open Run

/-- The counters of a machine as integers, so that what a run recorded is a difference. -/
def Machine.tally (m : Machine) : Counter → ℤ := fun c => m.counters.get c

theorem Machine.tally_of_counters {m m' : Machine} (h : m'.counters = m.counters) : m'.tally = m.tally := by
  unfold Machine.tally
  rw [h]

/-- Counting one adds one to that counter and to no other. -/
theorem Machine.tally_of_bump {m m' : Machine} {c : Counter} (h : m'.counters = m.counters.bump c) :
    m'.tally = m.tally + Pi.single c 1 := by
  funext k
  simp only [Machine.tally, h, Counters.get_bump, Pi.add_apply, Pi.single_apply]
  split <;> simp

namespace Resolver

/-! ## The resolver's own counting -/

/-- What a host call recorded. -/
def HostCall.recorded (c : HostCall) : Counter → ℤ := c.after.tally - c.before.tally

/-- What the resolver records itself over an application of `k` over-application turns that ended as `e`: one
over-application a turn and, at a short last turn, one partial application and one function if it bound any
argument. -/
def Ending.share (k : Nat) : Ending → Counter → ℤ
  | .curried _ rest =>
    Pi.single .overApplications (k : ℤ) + Pi.single .partialApplications 1 +
      if rest.isEmpty then 0 else Pi.single .functions 1
  | _ => Pi.single .overApplications (k : ℤ)

theorem Ending.share_succ (k : Nat) (e : Ending) : e.share (k + 1) = e.share k + Pi.single .overApplications 1 := by
  cases e with
  | curried g rest =>
    simp only [share, Nat.cast_add, Nat.cast_one, Pi.single_add]
    abel
  | stopped _ | cell _ => simp only [share, Nat.cast_add, Nat.cast_one, Pi.single_add]

@[simp] theorem Ending.share_zero_stopped (e : Abort) : (Ending.stopped e).share 0 = 0 := by
  simp [share]

@[simp] theorem Ending.share_zero_cell (c : Nat) : (Ending.cell c).share 0 = 0 := by
  simp [share]

variable {r : Resolver} {h : Host}

theorem noted_tally (d : Decision) (g : Fn) (n : Nat) (m : Machine) : (r.noted d g n m).tally = m.tally :=
  Machine.tally_of_counters (noted_counters ..)

theorem overNoted_tally (g : Fn) (n : Nat) (m : Machine) :
    (r.overNoted g n m).tally = m.tally + Pi.single .overApplications 1 := by
  rw [Machine.tally_of_bump (m := r.noted .over g n m) (c := .overApplications) rfl, noted_tally]

theorem shortNoted_tally (g : Fn) (n : Nat) (m : Machine) :
    (r.shortNoted g n m).tally = m.tally + Pi.single .partialApplications 1 := by
  rw [Machine.tally_of_bump (m := r.noted .short g n m) (c := .partialApplications) rfl, noted_tally]

/-- Binding arguments records one function, and binding none records nothing. -/
theorem bindArgs_tally {g g' : Fn} {rest : List Value} {m m' : Machine} (hb : bindArgs g rest m = .ok g' m') :
    m'.tally = m.tally + if rest.isEmpty then 0 else Pi.single .functions 1 := by
  unfold bindArgs at hb
  split at hb
  · rename_i he
    cases hb
    rw [if_pos he, add_zero]
  · rename_i he
    rw [bind_of_ok (count_apply ..), bind_of_ok (freshId_apply _)] at hb
    cases hb
    rw [if_neg he]
    exact Machine.tally_of_bump rfl

/-- An over-application turn records its over-application and what its calls recorded, whether it stops or not. -/
theorem TurnCalls.tally {g : Fn} {args : List Value} {m : Machine} {calls : List HostCall}
    {res : EStateM.Result Abort Machine Fn} (ht : TurnCalls r h g args m calls res) :
    (Run.left res).tally = m.tally + Pi.single .overApplications 1 + (calls.map HostCall.recorded).sum := by
  cases ht <;>
  · simp only [overCall, List.map_cons, List.map_nil, List.sum_cons, List.sum_nil, HostCall.recorded, overNoted_tally,
      Run.left]
    abel

/-- The last turn records a partial application, and a function if it bound arguments, when it is short, and
otherwise only what its invocation recorded. -/
theorem LastCalls.tally {g : Fn} {args : List Value} {m : Machine} {calls : List HostCall} {e : Ending}
    {m' : Machine} (hl : LastCalls r h g args m calls e m') :
    m'.tally = m.tally + e.share 0 + (calls.map HostCall.recorded).sum := by
  cases hl with
  | exact _ _ | exactStops _ _ =>
    simp only [List.map_cons, List.map_nil, List.sum_cons, List.sum_nil, HostCall.recorded, noted_tally,
      Ending.share_zero_cell, Ending.share_zero_stopped]
    abel
  | short _ hb =>
    rw [bindArgs_tally hb, shortNoted_tally]
    simp only [Ending.share, Nat.cast_zero, Pi.single_zero, List.map_nil, List.sum_nil]
    abel

/-- **The resolver's share.** Along the calls of an application, the counters grow by the resolver's own share and
by what each host call recorded. -/
theorem Calls.tally {b : Nat} {s : UInt64} {g : Fn} {args : List Value} {m : Machine} {k : Nat}
    {calls : List HostCall} {e : Ending} {m' : Machine} (hc : Calls r h b s g args m k calls e m') :
    m'.tally = m.tally + e.share k + (calls.map HostCall.recorded).sum := by
  induction hc with
  | refused | tooDeep | exhausted => simp
  | last _ _ hl => exact hl.tally
  | turnStops _ _ _ ht =>
    have hturn := ht.tally
    simp only [Run.left] at hturn
    rw [hturn, Ending.share_succ, Ending.share_zero_stopped]
    abel
  -- the turn's share and calls, then the rest of the application's
  | next _ _ _ ht _ ih =>
    have hturn := ht.tally
    simp only [Run.left] at hturn
    rw [ih, hturn, Ending.share_succ, List.map_append, List.sum_append]
    abel

theorem Applies.tally {callee : Value} {args : List Value} {m : Machine} {k : Nat} {calls : List HostCall}
    {e : Ending} {m' : Machine} (ha : Applies r h callee args m k calls e m') :
    m'.tally = m.tally + e.share k + (calls.map HostCall.recorded).sum := by
  cases ha with
  | calleeStops _ | notFunction _ _ =>
    simp only [List.map_cons, List.map_nil, List.sum_cons, List.sum_nil, HostCall.recorded,
      Ending.share_zero_stopped]
    abel
  | applies _ _ hc =>
    rw [hc.tally]
    simp only [List.map_cons, List.sum_cons, HostCall.recorded]
    abel

end Resolver

/-! ## The evaluator's invocation and targets -/

/-- What turning a body's outcome into a cell records: one memo cell for a value that is not a cell. -/
def cellShare : EStateM.Result Abort Machine Value → Counter → ℤ
  | .ok (.thunk _) _ => 0
  | .ok _ _ => Pi.single .thunks 1
  | .error _ _ => 0

theorem cellShare_of_ne {v : Value} (hv : ∀ i, v ≠ .thunk i) (m : Machine) : cellShare (.ok v m) = Pi.single .thunks 1 := by
  cases v <;> first | rfl | exact absurd rfl (hv _)

/-- Running a body records one invocation before the body runs, what the body records, and one memo cell when the
body's value is not a cell. -/
theorem runBody_tally {cx : Context} {fuel : Nat} {f : Fn} {args : List Value} {m : Machine}
    {res : EStateM.Result Abort Machine Value}
    (hbody : eval cx fuel f.lambda.body { args, env := f.env, self := m.homes[f.lambda.home]?, this := none }
      { m with counters := m.counters.bump .invocations } = res) :
    (Run.left (runBody cx fuel f args m)).tally = m.tally + Pi.single .invocations 1 +
      ((Run.left res).tally - ({ m with counters := m.counters.bump .invocations } : Machine).tally) +
      cellShare res := by
  have hm₁ : ({ m with counters := m.counters.bump .invocations } : Machine).tally =
      m.tally + Pi.single .invocations 1 := Machine.tally_of_bump rfl
  have hrun : runBody cx fuel f args m =
      (eval cx fuel f.lambda.body { args, env := f.env, self := m.homes[f.lambda.home]?, this := none } >>=
        Run.cellOf) { m with counters := m.counters.bump .invocations } := rfl
  rw [hrun, hm₁]
  cases res with
  | error e m₂ =>
    rw [bind_of_error hbody]
    simp only [Run.left, cellShare]
    abel
  | ok v m₂ =>
    rw [bind_of_ok hbody]
    -- a cell stays itself; any other value gets a new settled cell, counted
    by_cases hv : ∃ i, v = .thunk i
    · obtain ⟨i, rfl⟩ := hv
      simp only [Run.cellOf_thunk, pure_apply, Run.left, cellShare]
      abel
    · simp only [not_exists] at hv
      have hcell : ({ m₂ with counters := m₂.counters.bump .thunks, cells := m₂.cells.push (.done v) } : Machine).tally =
          m₂.tally + Pi.single .thunks 1 := Machine.tally_of_bump rfl
      rw [Run.cellOf_apply hv, newCell_apply]
      simp only [Run.left, hcell, cellShare_of_ne hv]
      abel

/-- The evaluator's invocation refuses a wrong argument count before anything else, and otherwise runs the body. -/
theorem invoke_succ (cx : Context) (fuel : Nat) (f : Fn) (args : List Value) :
    invoke cx (fuel + 1) f args =
      if args.length ≠ f.arity then Run.fault (.arityMismatch f.name f.arity args.length) else runBody cx fuel f args :=
  rfl

/-- What handing a value to the resolver as a target records: a new closure and a new function for a lambda
target, a new function for a closure target, and nothing for the other targets or for a value that is no function. -/
def Target.share : Target → Value → Counter → ℤ
  | .lambda, .func _ => Pi.single .closures 1 + Pi.single .functions 1
  | .closure, .func _ => Pi.single .functions 1
  | _, _ => 0

theorem needFn_of_not_func {v : Value} (hv : ∀ f, v ≠ .func f) (m : Machine) : ∃ e, needFn v m = .error e m := by
  cases v with
  | func f => exact absurd rfl (hv f)
  | _ => exact ⟨_, rfl⟩

theorem Target.share_of_not_func (t : Target) {v : Value} (hv : ∀ f, v ≠ .func f) : t.share v = 0 := by
  cases t <;> cases v <;> first | rfl | exact absurd rfl (hv _)

theorem targetFunction_tally (t : Target) (v : Value) (m : Machine) :
    (Run.left (targetFunction t v m)).tally = m.tally + t.share v := by
  by_cases hv : ∃ f, v = .func f
  · obtain ⟨f, rfl⟩ := hv
    cases t with
    | value | function => simp [targetFunction, needFn, Target.share, Value.toFunction, Run.left]
    | closure =>
      simp only [targetFunction, needFn, Target.share, pure_bind]
      rw [bind_of_ok (count_apply ..), bind_of_ok (freshId_apply _)]
      exact Machine.tally_of_bump rfl
    | lambda =>
      simp only [targetFunction, needFn, Target.share, pure_bind]
      rw [bind_of_ok (count_apply ..), bind_of_ok (count_apply ..), bind_of_ok (freshId_apply _)]
      simp only [Run.left, pure_apply]
      have h₁ : ({ m with counters := m.counters.bump .closures } : Machine).tally =
          m.tally + Pi.single .closures 1 := Machine.tally_of_bump rfl
      calc Machine.tally _
          = ({ m with counters := m.counters.bump .closures } : Machine).tally + Pi.single .functions 1 :=
            Machine.tally_of_bump rfl
        _ = m.tally + (Pi.single .closures 1 + Pi.single .functions 1) := by rw [h₁, add_assoc]
  · simp only [not_exists] at hv
    rw [t.share_of_not_func hv, add_zero]
    obtain ⟨e, he⟩ := needFn_of_not_func hv m
    cases t with
    | value =>
      cases hf : v.toFunction with
      | ok g => cases v <;> simp_all [Value.toFunction]
      | error f => simp [targetFunction, hf, Run.left]
    | function => simp [targetFunction, he, Run.left]
    | closure | lambda => simp [targetFunction, bind_of_error he, Run.left]

/-! ## The accounting of an application -/

theorem Machine.tally_empty : ({} : Machine).tally = 0 := by
  funext c
  cases c <;> rfl

/-- **What an application records.** Its counters grow by the resolver's own share plus what each host call
recorded, and targets and invocations record exactly their own counts. -/
theorem application_records_its_share (r : Resolver) :
    (∀ (h : Host) (f : Fn) (args : List Value) (m : Machine), ∃ k calls e m',
      Resolver.Calls r h Resolver.chainFuel 0 f args m k calls e m' ∧ r.applyFunction h f args m = e.result m' ∧
        m'.tally = m.tally + e.share k + (calls.map Resolver.HostCall.recorded).sum) ∧
    (∀ (h : Host) (callee : Value) (args : List Value) (m : Machine), ∃ k calls e m',
      Resolver.Applies r h callee args m k calls e m' ∧ r.apply h callee args m = e.result m' ∧
        m'.tally = m.tally + e.share k + (calls.map Resolver.HostCall.recorded).sum ∧
        r.eval h callee args m = e.finish h m') ∧
    (∀ (t : Target) (v : Value) (m : Machine), (Run.left (targetFunction t v m)).tally = m.tally + t.share v) ∧
    (∀ (cx : Context) (fuel : Nat) (f : Fn) (args : List Value) (m : Machine)
      (res : EStateM.Result Abort Machine Value),
      eval cx fuel f.lambda.body { args, env := f.env, self := m.homes[f.lambda.home]?, this := none }
        { m with counters := m.counters.bump .invocations } = res →
      (Run.left (invoke cx (fuel + 1) f args m)).tally =
        if args.length = f.arity then
          m.tally + Pi.single .invocations 1 +
            ((Run.left res).tally - ({ m with counters := m.counters.bump .invocations } : Machine).tally) +
            cellShare res
        else m.tally) := by
  refine ⟨fun h f args m => ?_, fun h callee args m => ?_, targetFunction_tally, fun cx fuel f args m res hbody => ?_⟩
  · obtain ⟨k, calls, e, m', hc⟩ := Resolver.loop_calls (r := r) (h := h) Resolver.chainFuel 0 f args m
    exact ⟨k, calls, e, m', hc, hc.run, hc.tally⟩
  · obtain ⟨k, calls, e, m', ha⟩ := Resolver.apply_calls (r := r) (h := h) callee args m
    exact ⟨k, calls, e, m', ha, ha.run, ha.tally, Resolver.eval_of_apply ha.run⟩
  · rw [invoke_succ]
    by_cases hl : args.length = f.arity
    · rw [if_neg (not_not.2 hl), if_pos hl]
      exact runBody_tally hbody
    · rw [if_pos hl, if_neg hl]
      rfl

/-- A function of no argument whose body fails. -/
def failingFn : Fn :=
  { lambda := { name := "lambda", arity := 0, body := .fail "boom", home := 0 }, env := [], closure := 1, bound := [],
    boundId := 0 }

/-- Invoking a function whose body fails records one invocation and nothing else. -/
theorem invoking_a_failing_body_records_one_invocation :
    eval {} 1 (.fail "boom") { args := [], env := [], self := none, this := none } { counters := { invocations := 1 } } =
        .error (.fault (.body (.message "boom"))) { counters := { invocations := 1 } } ∧
      (Run.left (invoke {} 2 failingFn [] {})).tally = Pi.single .invocations 1 := by
  have hbody : eval {} 1 (.fail "boom") { args := [], env := [], self := none, this := none }
      { counters := { invocations := 1 } } = .error (.fault (.body (.message "boom"))) { counters := { invocations := 1 } } :=
    rfl
  refine ⟨hbody, ((application_records_its_share {}).2.2.2 {} 1 failingFn [] {} _ hbody).trans ?_⟩
  rw [if_pos (show ([] : List Value).length = failingFn.arity from rfl),
    show ({ counters := ({} : Counters).bump .invocations } : Machine) = { counters := { invocations := 1 } } from rfl]
  simp only [Run.left, cellShare, sub_self, Machine.tally_empty, zero_add, add_zero]

/-- An exact application whose body fails stops with the body's fault, and its invocation is counted all the same. -/
theorem failing_exact_application_counts_an_invocation :
    Resolver.standard.apply (host {} 3) (.func failingFn) [] {} =
      .error (.fault (.body (.message "boom"))) { counters := { invocations := 1 } } :=
  rfl

end LazyCall
