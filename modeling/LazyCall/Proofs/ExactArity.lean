import LazyCall.Proofs.Formed

/-!
# The resolver invokes with exactly the arity

Invoking a closure checks the number of arguments against the lambda's arity and refuses a mismatch before the body
runs. On the resolver's path that check never decides anything: the resolver only reaches formed functions (see
`LazyCall.Proofs.Formed`), a formed function has no more bound arguments than its arity, so what it still needs is the
rest of its arity, and every turn that invokes passes the bound arguments and exactly as many more as it needs.

`Host.checked` adds the check to any host. Main statement (`functions_keep_their_shape`): every machine and value a
session reaches is formed; a formed function's need never runs below zero; for every host that keeps machines formed,
applying a formed function with the check added runs exactly as without it (`applyFunction_checked`), and what it gives
unfinished is formed and still needs an argument; the evaluator's own host is such a checked host
(`host_eq_checked`).
-/

namespace LazyCall

open Run

/-- The host that checks the number of arguments against the arity before it lets `h` invoke a function, as a
closure's invocation does. -/
def Host.checked (h : Host) : Host where
  invoke f args :=
    if args.length ≠ f.arity then Run.fault (.arityMismatch f.name f.arity args.length) else h.invoke f args
  force := h.force

/-- With as many arguments as the arity, the check passes. -/
theorem Host.checked_invoke {h : Host} {f : Fn} {args : List Value} (hl : args.length = f.arity) :
    h.checked.invoke f args = h.invoke f args :=
  if_neg fun hne => hne hl

/-- A formed function with the bound arguments and as many more as it needs gets exactly its arity. -/
theorem Callable.Formed.length_bound_append {f : Fn} (hf : f.Formed) {xs : List Value} (hl : xs.length = f.need) :
    (f.bound ++ xs).length = f.arity := by
  rw [List.length_append, hl, Nat.add_comm]
  exact hf.need_add_bound

/-- Two runs that go on alike from every formed machine after a run that keeps the machine formed are alike. -/
theorem Run.KeepsFormed.bind_congr {α β : Type} {x : Run α} {Q : α → Prop} {k₁ k₂ : α → Run β}
    (hx : Run.KeepsFormed x Q) (hk : ∀ a m, m.Formed → Q a → k₁ a m = k₂ a m) {m : Machine} (hm : m.Formed) :
    (x >>= k₁) m = (x >>= k₂) m := by
  have h := hx m hm
  cases hxm : x m with
  | ok a m₁ =>
    rw [hxm] at h
    rw [bind_of_ok hxm, bind_of_ok hxm]
    exact hk a m₁ h.1 h.2
  | error e m₁ => rw [bind_of_error hxm, bind_of_error hxm]

namespace Resolver

variable {r : Resolver} {h : Host}

/-- The last turn of a formed function invokes with exactly its arity, so the check changes nothing. -/
theorem lastTurn_checked {g : Fn} {rest : List Value} (hg : g.Formed) :
    r.lastTurn h.checked g rest = r.lastTurn h g rest := by
  unfold lastTurn
  by_cases hl : rest.length = g.need
  · rw [if_pos hl, if_pos hl, Host.checked_invoke (hg.length_bound_append hl)]
  · rw [if_neg hl, if_neg hl]

/-- An over-application turn of a formed function invokes with exactly its arity, so the check changes nothing. -/
theorem overTurn_checked {g : Fn} {args : List Value} (hg : g.Formed) (hl : g.need < args.length) :
    r.overTurn h.checked g args = r.overTurn h g args := by
  have hlen : (args.take g.need).length = g.need := by rw [List.length_take]; omega
  unfold overTurn
  rw [Host.checked_invoke (hg.length_bound_append hlen)]
  rfl

/-- The loop runs alike with the count check added, from every formed machine and formed function. -/
theorem loop_checked (hh : h.KeepsFormed) (b : Nat) (s : UInt64) (f : Fn) (args : List Value) :
    ∀ {m : Machine}, m.Formed → f.Formed → (∀ v ∈ args, v.Formed) →
      r.loop h.checked b s f args args.length m = r.loop h b s f args args.length m := by
  refine loop_induction (P := fun b s f args x => ∀ {m : Machine}, m.Formed → f.Formed → (∀ v ∈ args, v.Formed) →
    r.loop h.checked b s f args args.length m = x m) ?arity ?last ?deep ?exhausted ?turn b s f args
  case arity => intro _ _ _ _ har _ _ _ _; rw [loop_of_arity har]
  case last => intro _ _ _ _ har hl _ _ hf _; rw [loop_of_le har hl, lastTurn_checked hf]
  case deep => intro _ _ _ _ har hl hd _ _ _ _; rw [loop_of_deep har hl hd]
  case exhausted => intro _ _ _ har hl hd _ _ _ _; rw [loop_zero_of_lt har hl hd]
  case turn =>
    intro _ _ f args har hl hd ih m hm hf ha
    rw [loop_succ_of_lt har hl hd, overTurn_checked hf hl]
    -- the turn gives a formed function in a formed machine, from which the rest of the loop runs alike
    exact (keepsFormed_overTurn hh hf ha).bind_congr (fun g m' hm' hg => ih g hm' hg fun v hv =>
      ha v (List.mem_of_mem_drop hv)) hm

theorem applyFunction_checked (hh : h.KeepsFormed) {f : Fn} {args : List Value} {m : Machine} (hm : m.Formed)
    (hf : f.Formed) (ha : ∀ v ∈ args, v.Formed) : r.applyFunction h.checked f args m = r.applyFunction h f args m :=
  loop_checked hh _ _ f args hm hf ha

end Resolver

/-- Running a function's body on arguments: what `invoke` does once the count check has passed. -/
def runBody (cx : Context) (fuel : Nat) (f : Fn) (args : List Value) : Run Nat := do
  Run.count .invocations
  let self ← Run.home f.lambda.home
  let v ← eval cx fuel f.lambda.body { args, env := f.env, self, this := none }
  Run.cellOf v

/-- The evaluator's part of application at `fuel + 2`, with the count check left out of invocation. -/
def bodyHost (cx : Context) (fuel : Nat) : Host where
  invoke := runBody cx fuel
  force := force cx (fuel + 1)

/-- The evaluator's host is the checked host of its bodies. -/
theorem host_eq_checked (cx : Context) (fuel : Nat) : host cx (fuel + 2) = (bodyHost cx fuel).checked := by
  rw [host]
  rfl

/-- Running bodies keeps machines formed. -/
theorem bodyHost_keepsFormed {cx : Context} (hcx : cx.Formed) (fuel : Nat) : (bodyHost cx fuel).KeepsFormed := by
  have he := evalFormed hcx
  refine ⟨fun f args hf ha => ?_, fun v hv => (he (fuel + 1)).force v hv⟩
  refine KeepsFormed.bind (keepsFormed_count _) fun _ _ => KeepsFormed.bind (keepsFormed_home _) fun self hself => ?_
  exact KeepsFormed.bind ((he fuel).eval _ _ ⟨ha, (Callable.formed_iff.1 hf).2.2.1, hself⟩) fun v hv =>
    keepsFormed_cellOf hv

/-- **Functions keep the runtime's shape.** Every reachable function has arity at most 25 and fewer bound arguments
than its arity, so the resolver never meets an argument-count mismatch. -/
theorem functions_keep_their_shape :
    (∀ (opts : Options) (sts : List Step), ∀ rep ∈ Session.steps opts {} sts,
      rep.machine.Formed ∧ ∀ v, rep.outcome = .value v → v.Formed) ∧
    (∀ f : Fn, f.Formed → f.arity ≤ maxSupportedArity ∧ f.bound.length ≤ f.arity ∧ f.need + f.bound.length = f.arity ∧
      (f.arity = 0 → f.bound = [])) ∧
    (∀ (r : Resolver) (h : Host), h.KeepsFormed → ∀ (f : Fn) (args : List Value) (m : Machine),
      m.Formed → f.Formed → (∀ v ∈ args, v.Formed) →
      r.applyFunction h.checked f args m = r.applyFunction h f args m ∧
      Run.FormedEnd Applied.Formed (r.applyFunction h f args m)) ∧
    (∀ (cx : Context) (fuel : Nat), cx.Formed →
      host cx (fuel + 2) = (bodyHost cx fuel).checked ∧ (bodyHost cx fuel).KeepsFormed) := by
  refine ⟨fun opts sts => Session.formed_empty.steps opts sts, fun f hf => ?_,
    fun r h hh f args m hm hf ha => ⟨Resolver.applyFunction_checked hh hm hf ha,
      Resolver.keepsFormed_applyFunction hh hf ha m hm⟩,
    fun cx fuel hcx => ⟨host_eq_checked cx fuel, bodyHost_keepsFormed hcx fuel⟩⟩
  obtain ⟨harity, hbound, -, -⟩ := Callable.formed_iff.1 hf
  refine ⟨harity, hf.bound_le, hf.need_add_bound, fun h0 => ?_⟩
  rcases hbound with hb | hb
  · exact hb
  · omega

/-- A function of two arguments with one bound, applied to one more argument through a host whose invocations give
the cell `0`: the run is the same with the count check added. -/
theorem pair_applies_alike_checked :
    ({ invoke := fun _ _ => pure 0, force := pure } : Host).KeepsFormed ∧
      Callable.Formed ⟨⟨"pair", 2, .arg 0, 0⟩, [], 1, [.int 1], 2⟩ ∧
      Resolver.applyFunction {} ({ invoke := fun _ _ => pure 0, force := pure } : Host).checked
          ⟨⟨"pair", 2, .arg 0, 0⟩, [], 1, [.int 1], 2⟩ [.int 2] {} =
        Resolver.applyFunction {} { invoke := fun _ _ => pure 0, force := pure }
          ⟨⟨"pair", 2, .arg 0, 0⟩, [], 1, [.int 1], 2⟩ [.int 2] {} := by
  have hh : ({ invoke := fun _ _ => pure 0, force := pure } : Host).KeepsFormed :=
    ⟨fun _ _ _ _ => KeepsFormed.pure trivial, fun _ hv => KeepsFormed.pure hv⟩
  have hf : Callable.Formed ⟨⟨"pair", 2, .arg 0, 0⟩, [], 1, [.int 1], 2⟩ :=
    Callable.formed_iff.2 ⟨by decide, .inr (by decide), by simp, by simp⟩
  have hm : ({} : Machine).Formed := ⟨fun _ h => by simp at h, fun _ h => by simp at h⟩
  exact ⟨hh, hf, (functions_keep_their_shape.2.2.1 {} _ hh _ [.int 2] {} hm hf (by simp)).1⟩

end LazyCall
