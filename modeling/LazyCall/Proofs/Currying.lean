import LazyCall.Proofs.Equivariance
import LazyCall.Proofs.Soundness

/-!
# Applying in one go or in two

Applying a function to `xs ++ ys`, and applying it to `xs` and then what this gives to `ys`, do the same work and end
alike (main statements: `Resolver.eval_append_agrees_of_lawful` for every lawful host, `eval_append_agrees` for the
evaluator's own). Both runs invoke the same closures on the same arguments and force the same cells, in the same order
(`HostCall.work`: the calls that do work, which leaves out forcing a value that is no cell, since that gives the value
back), and they end with the same abort or the same value, in machines with the same cells. They do not draw the same
identities: applying to `xs` alone binds `xs` into a function of its own, which draws one. Calls and ends therefore
agree up to a renaming of identities that fixes every identity of the starting machine.

The proof follows the calls of the single application (`Calls`) turn by turn (`Resolver.loop_split_agrees`). While a
turn takes arguments of `xs` only, both runs take it. When the application to `xs` ends with an exact turn, the single
application makes the same invocation as an over-application turn and forces the same cell
(`Resolver.split_exact_agrees`). When it ends short, the rest of the single application is the application of the
function with `xs` bound (`Resolver.Calls.sim_bound`, `Resolver.split_short_agrees`).

The second application starts again with the whole fuel and a count of zero, so the rest of the single application is
first moved there (`Resolver.Calls.restart`). That needs the single application not to be refused for depth and, at
the largest chain limit, where only fuel ends a chain, not to run out of it.
-/

namespace LazyCall

open Run

variable {ρ : Nat → Nat}

/-- A run that keeps machines sound keeps them so from a machine that differs from a sound one only in what it
counted and reported. -/
theorem Run.Keeps.ok_of_id {α : Type} {n : Nat} {x : Run α} {Q : α → Nat → Prop} (hx : Run.Keeps n x Q)
    {m m₀ m₁ : Machine} {a : α} (hm : m.Sound) (hn : n ≤ m.fresh) (h0 : m.Renamed id m₀) (he : x m₀ = .ok a m₁) :
    m₁.Sound ∧ m₀.Grows m₁ ∧ Q a m₁.fresh := by
  obtain ⟨hc, hh, hf⟩ := Machine.renamed_id_iff.1 h0
  have hk := hx m₀ (hm.congr hc hh hf) (by omega)
  rw [he] at hk
  exact hk

/-! ## Hosts that can be compared -/

/-- What the comparison asks of a host: it keeps machines sound, runs alike on machines related by a renaming that
fixes every identity below `n₀`, invokes a function whatever arguments it has bound, and gives back a value in weak
head normal form as it is. -/
structure Host.Lawful (h : Host) (n₀ : Nat) : Prop where
  keeps : h.Keeps n₀
  sim : ∀ ρ, Renaming ρ → (∀ i < n₀, ρ i = i) → Host.Sim ρ h h
  invoke_bound : ∀ (f : Fn) (bound : List Value) (i : Nat) (args : List Value),
    h.invoke { f with bound := bound, boundId := i } args = h.invoke f args
  force_whnf : ∀ v : Value, v.Whnf → h.force v = pure v

namespace Host.Lawful

variable {h : Host} {n₀ : Nat}

theorem sim_id (hh : h.Lawful n₀) : Host.Sim id h h := hh.sim id renaming_id fun _ _ => rfl

theorem invoke_id (hh : h.Lawful n₀) (f : Fn) (args : List Value) :
    Run.Sim id Eq (h.invoke f args) (h.invoke f args) := by
  have hi := hh.sim_id.invoke f args
  rwa [Callable.rename_id, Value.map_rename_id] at hi

theorem force_id (hh : h.Lawful n₀) (v : Value) :
    Run.Sim id (fun v w => w = v.rename id) (h.force v) (h.force v) := by
  have hf := hh.sim_id.force v
  rwa [Value.rename_id] at hf

section Identical

variable (hh : h.Lawful n₀) {m m' m₁ : Machine} (hm : m.Renamed id m')
include hh hm

/-- From machines that differ only in what they counted and reported, an invocation gives the same cell. -/
theorem invoke_ok_of_id {f : Fn} {args : List Value} {c : Nat} (hi : h.invoke f args m = .ok c m₁) :
    ∃ m₁', h.invoke f args m' = .ok c m₁' ∧ m₁.Renamed id m₁' := by
  have hrun := hh.invoke_id f args m m' hm
  rw [hi] at hrun
  obtain ⟨_, m₁', hi', rfl, hm₁⟩ := Run.Agree.of_ok hrun
  exact ⟨m₁', hi', hm₁⟩

theorem invoke_error_of_id {f : Fn} {args : List Value} {a : Abort} (hi : h.invoke f args m = .error a m₁) :
    ∃ m₁', h.invoke f args m' = .error a m₁' ∧ m₁.Renamed id m₁' := by
  have hrun := hh.invoke_id f args m m' hm
  rw [hi] at hrun
  exact Run.Agree.of_error hrun

theorem force_ok_of_id {v w : Value} (hf : h.force v m = .ok w m₁) :
    ∃ m₁', h.force v m' = .ok w m₁' ∧ m₁.Renamed id m₁' := by
  have hrun := hh.force_id v m m' hm
  rw [hf] at hrun
  obtain ⟨w', m₁', hf', hw, hm₁⟩ := Run.Agree.of_ok hrun
  rw [Value.rename_id] at hw
  subst hw
  exact ⟨m₁', hf', hm₁⟩

theorem force_error_of_id {v : Value} {a : Abort} (hf : h.force v m = .error a m₁) :
    ∃ m₁', h.force v m' = .error a m₁' ∧ m₁.Renamed id m₁' := by
  have hrun := hh.force_id v m m' hm
  rw [hf] at hrun
  exact Run.Agree.of_error hrun

end Identical

/-- Forcing a value in weak head normal form gives it back and changes nothing. -/
theorem force_of_whnf (hh : h.Lawful n₀) {v : Value} (hv : v.Whnf) (m : Machine) : h.force v m = .ok v m := by
  rw [hh.force_whnf v hv]
  rfl

end Host.Lawful

namespace Resolver

variable {r : Resolver} {h : Host} {n₀ : Nat}

/-! ## The work a run does -/

/-- Whether a call does work: an invocation, or the force of a cell. Forcing any other value gives it back. -/
def Call.works : Call → Bool
  | .invoke _ _ => true
  | .force (.thunk _) => true
  | .force _ => false

/-- The calls of a list that do work, in order. -/
def HostCall.work (calls : List HostCall) : List Call := (calls.map HostCall.call).filter Call.works

@[simp] theorem HostCall.work_nil : HostCall.work [] = [] := rfl

@[simp] theorem HostCall.work_append (calls calls' : List HostCall) :
    HostCall.work (calls ++ calls') = HostCall.work calls ++ HostCall.work calls' := by
  simp only [HostCall.work, List.map_append, List.filter_append]

theorem HostCall.work_cons (c : HostCall) (calls : List HostCall) :
    HostCall.work (c :: calls) = if c.call.works then c.call :: HostCall.work calls else HostCall.work calls := by
  simp only [HostCall.work, List.map_cons, List.filter_cons]

@[simp] theorem HostCall.work_invoke (g : Fn) (args : List Value) (m m' : Machine) (calls : List HostCall) :
    HostCall.work (⟨.invoke g args, m, m'⟩ :: calls) = .invoke g args :: HostCall.work calls := rfl

@[simp] theorem HostCall.work_thunk (c : Nat) (m m' : Machine) (calls : List HostCall) :
    HostCall.work (⟨.force (.thunk c), m, m'⟩ :: calls) = .force (.thunk c) :: HostCall.work calls := rfl

/-- Forcing a value that is no cell does no work. -/
theorem HostCall.work_force {v : Value} (hv : v.Whnf) (m m' : Machine) (calls : List HostCall) :
    HostCall.work (⟨.force v, m, m'⟩ :: calls) = HostCall.work calls := by
  cases v <;> first | rfl | exact hv.elim

/-- Alike calls do work alike. -/
theorem Call.Agrees.works {c c' : Call} (hc : Call.Agrees ρ c c') : c'.works = c.works := by
  cases c with
  | invoke g args =>
    cases c' with
    | invoke => rfl
    | force => exact hc.elim
  | force v =>
    cases c' with
    | invoke => exact hc.elim
    | force v' =>
      rw [show v' = v.rename ρ from hc]
      cases v <;> rfl

theorem Call.agrees_id (c : Call) : Call.Agrees id c c := by
  cases c with
  | invoke g args => exact ⟨by rw [Callable.rename_id], by rw [Value.map_rename_id]⟩
  | force v => exact (Value.rename_id v).symm

/-- Alike calls do alike work. -/
theorem HostCall.work_agrees {calls calls' : List HostCall} (hc : List.Forall₂ (HostCall.Alike ρ) calls calls') :
    List.Forall₂ (Call.Agrees ρ) (HostCall.work calls) (HostCall.work calls') := by
  induction hc with
  | nil => exact .nil
  | cons hcc _ ih =>
    rw [HostCall.work_cons, HostCall.work_cons, hcc.1.works]
    split
    · exact .cons hcc.1 ih
    · exact ih

/-- Every identity a call mentions is below `n`. -/
def Call.Below (n : Nat) : Call → Prop
  | .invoke g args => g.Below n ∧ ∀ v ∈ args, v.Below n
  | .force v => v.Below n

/-- A call alike to another up to the identity is alike up to every renaming that fixes what it mentions. -/
theorem Call.Agrees.of_id {c c' : Call} {n : Nat} (hc : Call.Agrees id c c') (hb : c.Below n)
    (hρ : ∀ i < n, ρ i = i) : Call.Agrees ρ c c' := by
  cases c with
  | invoke g args =>
    cases c' with
    | invoke g' args' =>
      obtain ⟨hg, ha⟩ := hc
      exact ⟨by rw [hg, Callable.rename_id, Callable.rename_of_below hρ hb.1],
        by rw [ha, Value.map_rename_id, Value.map_rename_of_below hρ hb.2]⟩
    | force => exact hc.elim
  | force v =>
    cases c' with
    | invoke => exact hc.elim
    | force v' =>
      show v' = v.rename ρ
      rw [show v' = v.rename id from hc, Value.rename_id, Value.rename_of_below hρ hb]

/-- Calls alike up to the identity that mention only identities below `n` do alike work up to every renaming that
fixes them. -/
theorem HostCall.work_agrees_of_id {calls calls' : List HostCall} {n : Nat}
    (hc : List.Forall₂ (HostCall.Alike id) calls calls') (hb : ∀ c ∈ calls, c.call.Below n) (hρ : ∀ i < n, ρ i = i) :
    List.Forall₂ (Call.Agrees ρ) (HostCall.work calls) (HostCall.work calls') := by
  induction hc with
  | nil => exact .nil
  | @cons c c' _ _ hcc _ ih =>
    rw [HostCall.work_cons, HostCall.work_cons, hcc.1.works]
    split
    · exact .cons (hcc.1.of_id (hb c (.head _)) hρ) (ih fun d hd => hb d (.tail _ hd))
    · exact ih fun d hd => hb d (.tail _ hd)

/-- An over-application turn mentions the function and what it was given. -/
theorem TurnCalls.below {g : Fn} {args : List Value} {m : Machine} {calls : List HostCall}
    {res : EStateM.Result Abort Machine Fn} (ht : TurnCalls r h g args m calls res) {n : Nat} (hg : g.Below n)
    (ha : ∀ v ∈ args, v.Below n) : ∀ c ∈ calls, c.call.Below n := by
  have hinv : Call.Below n (.invoke g (g.bound ++ args.take g.need)) := ⟨hg, fun v hv => by
    rcases List.mem_append.1 hv with hv | hv
    · exact (Callable.below_iff.1 hg).2.2.1 v hv
    · exact ha v (List.mem_of_mem_take hv)⟩
  cases ht <;> intro c hc <;> simp only [List.mem_cons, List.not_mem_nil, or_false] at hc <;>
    rcases hc with rfl | rfl <;> first | exact hinv | trivial

/-! ## Endings alike -/

/-- Two endings alike up to `ρ`: the same stop or cell, or functions alike up to `ρ`, whatever was left to bind. -/
def Ending.Agrees (ρ : Nat → Nat) : Ending → Ending → Prop
  | .stopped a, .stopped a' => a' = a
  | .cell c, .cell c' => c' = c
  | .curried g _, .curried g' _ => g' = g.rename ρ
  | _, _ => False

theorem Ending.agrees_rename (e : Ending) : Ending.Agrees ρ e (e.rename ρ) := by
  cases e <;> rfl

/-- Alike endings in related machines, with alike hosts, finish alike and force alike cells. -/
theorem Ending.Agrees.finish {h' : Host} (hh : Host.Sim ρ h h') {e e' : Ending} (he : Ending.Agrees ρ e e')
    {m m' : Machine} (hm : m.Renamed ρ m') :
    Run.Agree ρ (fun v w => w = v.rename ρ) (e.finish h m) (e'.finish h' m') ∧
      List.Forall₂ (Call.Agrees ρ) (HostCall.work (e.finishCalls h m)) (HostCall.work (e'.finishCalls h' m')) := by
  cases e <;> cases e' <;> try exact False.elim he
  case stopped.stopped a a' => exact ⟨⟨he.symm, hm⟩, .nil⟩
  case cell.cell c c' =>
    rw [show c' = c from he]
    have hf := hh.force (.thunk c) m m' hm
    rw [Value.rename_thunk] at hf
    exact ⟨hf, .cons Value.rename_thunk.symm .nil⟩
  case curried.curried g rest g' rest' => exact ⟨⟨by rw [show g' = g.rename ρ from he]; rfl, hm⟩, .nil⟩

/-! ## Evaluating what a run gave -/

variable (r h) in
/-- What evaluating on `ys` whatever a run gave does: nothing more when the run stopped. -/
def EvalsOn (ys : List Value) (calls : List HostCall) (res : EStateM.Result Abort Machine Value) :
    EStateM.Result Abort Machine Value → Prop
  | .ok v m => Evals r h v ys m calls res
  | .error a m => calls = [] ∧ res = .error a m

variable (r h) in
/-- `EvalsThen callee xs ys m calls res`: evaluating `callee` on `xs` from `m`, and then what this gives on `ys`, makes
the host calls `calls` and ends as `res`. -/
def EvalsThen (callee : Value) (xs ys : List Value) (m : Machine) (calls : List HostCall)
    (res : EStateM.Result Abort Machine Value) : Prop :=
  ∃ calls₁ res₁ calls₂, Evals r h callee xs m calls₁ res₁ ∧ EvalsOn r h ys calls₂ res res₁ ∧ calls = calls₁ ++ calls₂

theorem EvalsOn.bind {x : Run Value} {m : Machine} {res₁ : EStateM.Result Abort Machine Value} (hx : x m = res₁)
    {ys : List Value} {calls : List HostCall} {res : EStateM.Result Abort Machine Value}
    (he : EvalsOn r h ys calls res res₁) : (x >>= fun v => r.eval h v ys) m = res := by
  cases res₁ with
  | ok v m₁ => rw [bind_of_ok hx]; exact Evals.run he
  | error a m₁ => rw [bind_of_error hx]; exact he.2.symm

/-! ## Binding first -/

/-- A run that was not refused for depth, and either ran with fuel that outlasts the limit or did not run out of it,
runs the same from the whole fuel and a count of zero. -/
theorem Calls.restart {b : Nat} {s : UInt64} {g : Fn} {args : List Value} {m : Machine} {k : Nat}
    {calls : List HostCall} {e : Ending} {m₁ : Machine} (hc : Calls r h b s g args m k calls e m₁)
    (hd : e ≠ .stopped (.fault (.chainTooDeep r.limits.maxChainDepth)))
    (hx : Outlasts r b s ∨ e ≠ .stopped .exhausted) (hb : b ≤ chainFuel) (hs : s.toNat ≤ r.limits.maxChainDepth) :
    Calls r h chainFuel 0 g args m k calls e m₁ :=
  hc.more_fuel hd hx hb (.inr ⟨by rw [UInt64.toNat_zero]; exact Nat.zero_le _, hs⟩)

/-- Applying `g` to `xs ++ ys`, and applying to `ys` the function `g` with `xs` bound (renamed, with an identity of
its own), make alike calls and end alike: an invocation sees neither where the arguments were split nor the identity
of what was bound. -/
theorem Calls.sim_bound {h' : Host} (hh : Host.Sim ρ h h')
    (hb : ∀ (f : Fn) (bound : List Value) (i : Nat) (args : List Value),
      h'.invoke { f with bound := bound, boundId := i } args = h'.invoke f args)
    {b : Nat} {s : UInt64} {g : Fn} {xs ys : List Value} {m : Machine} {k : Nat} {calls : List HostCall} {e : Ending}
    {m₁ : Machine} (hc : Calls r h b s g (xs ++ ys) m k calls e m₁) (hxs : xs.length < g.need) (hne : ys ≠ [])
    (i : Nat) {m' : Machine} (hm : m.Renamed ρ m') :
    ∃ calls' e' m₁', Calls r h' b s { g.rename ρ with bound := (g.bound ++ xs).map (Value.rename ρ), boundId := i }
        (ys.map (Value.rename ρ)) m' k calls' e' m₁' ∧
      List.Forall₂ (HostCall.Alike ρ) calls calls' ∧ Ending.Agrees ρ e e' ∧ m₁.Renamed ρ m₁' := by
  generalize hg' : ({ g.rename ρ with bound := (g.bound ++ xs).map (Value.rename ρ), boundId := i } : Fn) = g'
  have har : g'.arity = g.arity := by rw [← hg']; simp [Callable.arity]
  have hbound : g'.bound = (g.bound ++ xs).map (Value.rename ρ) := by rw [← hg']
  have hneed : g'.need = g.need - xs.length := by
    rw [← hg']
    simp only [Callable.need, Callable.arity, Callable.rename_lambda, List.length_map, List.length_append]
    omega
  have hunbound : g'.unbound = (g.rename ρ).unbound := by rw [← hg']; rfl
  have hsame : ∀ args, h'.invoke g' args = h'.invoke (g.rename ρ) args := fun args => by
    rw [← hg']; exact hb _ _ _ args
  have hys : 0 < ys.length := List.length_pos_iff.2 hne
  have hlen : (xs ++ ys).length = xs.length + ys.length := List.length_append
  have hlen' : (ys.map (Value.rename ρ)).length = ys.length := List.length_map _
  -- the invocation of the last turn, and of an over-application turn, get the same arguments
  have hall : g'.bound ++ ys.map (Value.rename ρ) = (g.bound ++ (xs ++ ys)).map (Value.rename ρ) := by
    rw [hbound, ← List.map_append, List.append_assoc]
  have htake : g'.bound ++ (ys.map (Value.rename ρ)).take g'.need =
      (g.bound ++ (xs ++ ys).take g.need).map (Value.rename ρ) := by
    have hxt : xs.take g.need = xs := List.take_of_length_le (by omega)
    rw [hbound, hneed, List.take_append, hxt]
    simp only [List.map_append, List.map_take, List.append_assoc]
  cases hc with
  | refused ha =>
    refine ⟨[], .stopped (.fault (.arityOutOfRange g.arity r.limits.maxArity)), m', ?_, .nil, rfl, hm⟩
    rw [← har]
    exact .refused (by omega)
  | last ha hl hlast =>
    -- an exact last turn invokes with the same arguments in both runs
    have hinv := hh.invoke g (g.bound ++ (xs ++ ys)) _ _
      (hm.noted (r := r) .exact .exact g g' (xs ++ ys).length (ys.map (Value.rename ρ)).length)
    rw [← hall, ← hsame] at hinv
    cases hlast with
    | exact he hi =>
      rw [hi] at hinv
      obtain ⟨c', m₁', hi', rfl, hm₁⟩ := Run.Agree.of_ok hinv
      exact ⟨_, _, m₁', .last (by omega) (by omega) (.exact (by omega) hi'),
        .cons ⟨⟨hunbound, hall⟩, hm.noted .., hm₁⟩ .nil, rfl, hm₁⟩
    | exactStops he hi =>
      rw [hi] at hinv
      obtain ⟨m₁', hi', hm₁⟩ := Run.Agree.of_error hinv
      exact ⟨_, _, m₁', .last (by omega) (by omega) (.exactStops (by omega) hi'),
        .cons ⟨⟨hunbound, hall⟩, hm.noted .., hm₁⟩ .nil, rfl, hm₁⟩
    | short hs hbind =>
      -- both bind a non-empty list and draw an identity, the second one renamed
      have hbs : Run.Sim ρ (fun f f' => f' = f.rename ρ) (bindArgs g (xs ++ ys)) (bindArgs g' (ys.map (Value.rename ρ))) := by
        unfold bindArgs
        rw [if_neg (by simp [hne]), if_neg (by simp [hne])]
        refine Sim.bind (sim_count _) fun _ _ _ => Sim.bind_fun sim_freshId fun j => Sim.pure ?_
        simp [← hg', Callable.rename_bind]
      have hrun := hbs _ _ (hm.shortNoted (r := r) g g' (xs ++ ys).length (ys.map (Value.rename ρ)).length)
      rw [hbind] at hrun
      obtain ⟨g₁', m₁', hb', rfl, hm₁⟩ := Run.Agree.of_ok hrun
      exact ⟨[], _, m₁', .last (by omega) (by omega) (.short (by omega) hb'), .nil, rfl, hm₁⟩
  | tooDeep ha hl hd => exact ⟨[], _, m', .tooDeep (by omega) (by omega) hd, .nil, rfl, hm⟩
  | exhausted ha hl hd => exact ⟨[], _, m', .exhausted (by omega) (by omega) hd, .nil, rfl, hm⟩
  | turnStops ha hl hd ht =>
    obtain ⟨calls', res', ht', hcalls, hres⟩ := ht.sim hh hunbound hsame htake hm
    obtain ⟨m₁', rfl, hm₁⟩ := Run.Agree.of_error hres
    exact ⟨calls', _, m₁', .turnStops (by omega) (by omega) hd ht', hcalls, rfl, hm₁⟩
  | next ha hl hd ht hrest =>
    -- the first turn takes `xs` and the first arguments of `ys`; the rest runs alike on what is left of `ys`
    obtain ⟨calls₁', res', ht', hcalls₁, hres⟩ := ht.sim hh hunbound hsame htake hm
    obtain ⟨g₁', m₂', rfl, rfl, hm₂⟩ := Run.Agree.of_ok hres
    obtain ⟨calls', m₁', hc', hcalls, hm₁⟩ := hrest.sim hh hm₂
    rw [List.drop_append, List.drop_eq_nil_of_le (by omega), List.nil_append, List.map_drop, ← hneed] at hc'
    exact ⟨_, _, m₁', .next (by omega) (by omega) hd ht' hc', List.rel_append hcalls₁ hcalls, Ending.agrees_rename _,
      hm₁⟩

/-- A first application to fewer arguments than the function needs binds them: into the function itself when there
are none, and otherwise into one with an identity of its own, which `shiftAt` makes room for. -/
theorem short_binds {g : Fn} {xs : List Value} {m m' : Machine} (hm : m.Sound) (hmm : m.Renamed id m')
    (hg : g.Below m.fresh) (hxs : ∀ v ∈ xs, v.Below m.fresh) :
    ∃ ρ, Renaming ρ ∧ (∀ i < m.fresh, ρ i = i) ∧ ∃ i m₁,
      bindArgs g xs (r.shortNoted g xs.length m') =
        .ok { g.rename ρ with bound := (g.bound ++ xs).map (Value.rename ρ), boundId := i } m₁ ∧
      m.Renamed ρ m₁ := by
  obtain ⟨hc, hh, hf⟩ := Machine.renamed_id_iff.1 hmm
  have hbelow : ∀ v ∈ g.bound ++ xs, v.Below m.fresh := fun v hv => by
    rcases List.mem_append.1 hv with hv | hv
    · exact (Callable.below_iff.1 hg).2.2.1 v hv
    · exact hxs v hv
  generalize hm₂ : r.shortNoted g xs.length m' = m₂
  have hc₂ : m₂.cells = m.cells := by rw [← hm₂, ← hc]; simp [shortNoted]
  have hh₂ : m₂.homes = m.homes := by rw [← hm₂, ← hh]; simp [shortNoted]
  have hf₂ : m₂.fresh = m.fresh := by rw [← hm₂, ← hf]; simp [shortNoted]
  unfold bindArgs
  by_cases hx : xs = []
  · subst hx
    refine ⟨id, renaming_id, fun _ _ => rfl, g.boundId, m₂, ?_, Machine.renamed_id_iff.2 ⟨hc₂, hh₂, hf₂⟩⟩
    rw [if_pos List.isEmpty_nil]
    simp only [Callable.rename_id, Value.map_rename_id, List.append_nil]
    rfl
  · have hfix : ∀ i < m.fresh, shiftAt m.fresh i = i := fun _ hi => shiftAt_of_lt hi
    refine ⟨shiftAt m.fresh, renaming_shiftAt hm.fresh_pos, hfix, m.fresh,
      { { m₂ with counters := m₂.counters.bump .functions } with fresh := m₂.fresh + 1 }, ?_,
      Machine.renamed_shift hm hc₂ hh₂ (by rw [hf₂])⟩
    rw [if_neg (by simpa using hx), bind_of_ok (count_apply ..), bind_of_ok (freshId_apply _),
      Callable.rename_of_below hfix hg, Value.map_rename_of_below hfix hbelow, ← hf₂]
    rfl

/-! ## Splitting the arguments -/

variable (r h) in
/-- What the comparison concludes for a single application from `m` that made the calls `calls` and ended as `e` in
`m₁`: applying `g` to `xs` from `m'`, with `b` turns of fuel and the count at `s`, and evaluating on `ys` what this
gives, do alike work and end alike, up to a renaming that fixes every identity of `m`. -/
def SplitAgrees (ys : List Value) (m : Machine) (calls : List HostCall) (e : Ending) (m₁ : Machine) (b : Nat)
    (s : UInt64) (g : Fn) (xs : List Value) (m' : Machine) : Prop :=
  ∃ ρ, Renaming ρ ∧ (∀ i < m.fresh, ρ i = i) ∧ ∃ k₁ calls₁ e₁ m₂ calls₂ res,
    Calls r h b s g xs m' k₁ calls₁ e₁ m₂ ∧ EvalsOn r h ys calls₂ res (e₁.finish h m₂) ∧
    List.Forall₂ (Call.Agrees ρ) (HostCall.work (calls ++ e.finishCalls h m₁))
      (HostCall.work (calls₁ ++ e₁.finishCalls h m₂ ++ calls₂)) ∧
    Run.Agree ρ (fun v w => w = v.rename ρ) (e.finish h m₁) res

/-- A callee that stops, or holds no function, stops both runs at their first call. -/
theorem eval_append_agrees_of_stop {f : Value} {xs ys : List Value} {m m₁ : Machine} {a : Abort}
    (hA : Applies r h f (xs ++ ys) m 0 [⟨.force f, m, m₁⟩] (.stopped a) m₁)
    (hA' : Applies r h f xs m 0 [⟨.force f, m, m₁⟩] (.stopped a) m₁) :
    ∃ ρ, Renaming ρ ∧ (∀ i < m.fresh, ρ i = i) ∧ ∃ calls calls',
      Evals r h f (xs ++ ys) m calls (r.eval h f (xs ++ ys) m) ∧
      EvalsThen r h f xs ys m calls' ((r.eval h f xs >>= fun v => r.eval h v ys) m) ∧
      List.Forall₂ (Call.Agrees ρ) (HostCall.work calls) (HostCall.work calls') ∧
      Run.Agree ρ (fun v w => w = v.rename ρ) (r.eval h f (xs ++ ys) m) ((r.eval h f xs >>= fun v => r.eval h v ys) m) := by
  have he := eval_of_apply hA.run
  have he' := eval_of_apply hA'.run
  refine ⟨id, renaming_id, fun _ _ => rfl, _, _, ⟨_, _, _, _, hA, rfl, he⟩,
    ⟨_, .error a m₁, [], ⟨_, _, _, _, hA', rfl, rfl⟩, ⟨rfl, bind_of_error he'⟩, rfl⟩, ?_, ?_⟩
  · simp only [Ending.finishCalls_stopped, List.append_nil]
    exact List.forall₂_same.2 fun c _ => Call.agrees_id c
  · rw [he, bind_of_error he']
    exact ⟨rfl, .refl m₁⟩

/-- A function above the arity limit is refused in both runs. -/
theorem split_refused {b : Nat} {s : UInt64} {g : Fn} {xs : List Value} {m m' : Machine} {k : Nat}
    {calls : List HostCall} {e : Ending} {m₁ : Machine} (hc : Calls r h b s g (xs ++ ys) m k calls e m₁)
    (ha : r.limits.maxArity < g.arity) (hmm : m.Renamed id m') : SplitAgrees r h ys m calls e m₁ b s g xs m' := by
  cases hc with
  | refused =>
    exact ⟨id, renaming_id, fun _ _ => rfl, 0, [], _, m', [], _, .refused ha, ⟨rfl, rfl⟩, .nil, rfl, hmm⟩
  | last ha' | tooDeep ha' | exhausted ha' | turnStops ha' | next ha' => omega

section Split

variable (hh : h.Lawful n₀) {ys : List Value} (hne : ys ≠ [])
include hh hne

/-- A first application that ends short: the second application is the rest of the single one, up to the identity
of the function the first one bound. -/
theorem split_short_agrees {b : Nat} {s : UInt64} {g : Fn} {xs : List Value} {m m' : Machine} {k : Nat}
    {calls : List HostCall} {e : Ending} {m₁ : Machine} (hc : Calls r h b s g (xs ++ ys) m k calls e m₁)
    (ha : g.arity ≤ r.limits.maxArity) (hl : xs.length < g.need)
    (hd : e ≠ .stopped (.fault (.chainTooDeep r.limits.maxChainDepth)))
    (hx : Outlasts r b s ∨ e ≠ .stopped .exhausted) (hb : b ≤ chainFuel) (hs : s.toNat ≤ r.limits.maxChainDepth)
    (hm : m.Sound) (hn : n₀ ≤ m.fresh) (hmm : m.Renamed id m') (hg : g.Below m.fresh)
    (hxy : ∀ v ∈ xs ++ ys, v.Below m.fresh) : SplitAgrees r h ys m calls e m₁ b s g xs m' := by
  obtain ⟨ρ, hρ, hfix, i, m₂, hbind, hm₂⟩ :=
    short_binds (r := r) hm hmm hg fun v hv => hxy v (List.mem_append_left _ hv)
  have hys : ys.map (Value.rename ρ) = ys :=
    Value.map_rename_of_below hfix fun v hv => hxy v (List.mem_append_right _ hv)
  have hsim := hh.sim ρ hρ fun j hj => hfix j (by omega)
  obtain ⟨calls', e', m₃, hc', hcalls, he', hm₃⟩ :=
    (hc.restart hd hx hb hs).sim_bound hsim hh.invoke_bound hl hne i hm₂
  rw [hys] at hc'
  obtain ⟨hfin, hwork⟩ := he'.finish hsim hm₃
  refine ⟨ρ, hρ, hfix, 0, [], .curried _ xs, m₂, _, _, .last ha (by omega) (.short hl hbind),
    ⟨_, _, e', m₃, .applies (hh.force_of_whnf (v := .func _) trivial m₂) rfl hc', rfl, rfl⟩, ?_, hfin⟩
  -- the second application forces its callee, a function, which does no work
  simp only [Ending.finishCalls, List.append_nil, List.nil_append, HostCall.work_append, List.cons_append,
    HostCall.work_force (v := .func _) trivial]
  exact List.rel_append (HostCall.work_agrees hcalls) hwork

/-- A first application that takes exactly what the function needs: the single application makes the same
invocation as an over-application turn, forces the same cell, and goes on with the function the cell holds, as the
second application does with the whole fuel. -/
theorem split_exact_agrees {b : Nat} {s : UInt64} {g : Fn} {xs : List Value} {m m' : Machine} {k : Nat}
    {calls : List HostCall} {e : Ending} {m₁ : Machine} (hc : Calls r h b s g (xs ++ ys) m k calls e m₁)
    (ha : g.arity ≤ r.limits.maxArity) (hl : xs.length = g.need)
    (hd : e ≠ .stopped (.fault (.chainTooDeep r.limits.maxChainDepth)))
    (hx : Outlasts r b s ∨ e ≠ .stopped .exhausted) (hb : b ≤ chainFuel) (hm : m.Sound) (hn : n₀ ≤ m.fresh)
    (hmm : m.Renamed id m') (hg : g.Below m.fresh) (hxy : ∀ v ∈ xs ++ ys, v.Below m.fresh) :
    SplitAgrees r h ys m calls e m₁ b s g xs m' := by
  have hlen : g.need < (xs ++ ys).length := by
    rw [List.length_append]
    have := List.length_pos_iff.2 hne
    omega
  have hargs : ∀ v ∈ g.bound ++ xs, v.Below m.fresh := fun v hv => by
    rcases List.mem_append.1 hv with hv | hv
    · exact (Callable.below_iff.1 hg).2.2.1 v hv
    · exact hxy v (List.mem_append_left _ hv)
  -- the turn's invocation, from the single application, is the exact invocation of the first one
  obtain ⟨hcs, hhs, hfs⟩ := Machine.renamed_id_iff.1 hmm
  have hm₀ : (r.overNoted g (xs ++ ys).length m).Renamed id (r.noted .exact g xs.length m') :=
    Machine.renamed_id_iff.2 ⟨by simp [overNoted, hcs], by simp [overNoted, hhs], by simp [overNoted, hfs]⟩
  have hmo : m.Renamed id (r.overNoted g (xs ++ ys).length m) :=
    Machine.renamed_id_iff.2 ⟨by simp [overNoted], by simp [overNoted], by simp [overNoted]⟩
  have hcall : Call.Agrees id (.invoke g (g.bound ++ (xs ++ ys).take g.need)) (.invoke g (g.bound ++ xs)) :=
    ⟨by rw [Callable.rename_id], by rw [List.take_left' hl, Value.map_rename_id]⟩
  -- what the invocation and the force give is sound: the cell's value is in weak head normal form
  have hvalue : ∀ {c m₂ v m₃}, h.invoke g (g.bound ++ xs) (r.overNoted g (xs ++ ys).length m) = .ok c m₂ →
      h.force (.thunk c) m₂ = .ok v m₃ → v.Whnf := fun {c m₂ v m₃} hi hf => by
    have hk₁ := (hh.keeps.invoke m.fresh g (g.bound ++ xs) hn hg hargs).ok_of_id hm (Nat.le_refl _) hmo hi
    have hk₂ := (hh.keeps.force m₂.fresh (.thunk c) (by have := hk₁.2.1.fresh; simp [overNoted] at this; omega)
      trivial).ok_of_id hk₁.1 (Nat.le_refl _) (.refl _) hf
    exact hk₂.2.2.2
  cases hc with
  | refused ha' | last _ hl' | tooDeep _ _ _ => first | omega | exact absurd rfl hd
  | exhausted =>
    rcases hx with ho | hx
    · exact absurd ho.pos (Nat.lt_irrefl 0)
    · exact absurd rfl hx
  | turnStops _ _ hdc ht =>
    cases ht with
    | invokeStops hi =>
      rw [List.take_left' hl] at hi
      obtain ⟨m₂', hi', hm₂⟩ := hh.invoke_error_of_id hm₀ hi
      refine ⟨id, renaming_id, fun _ _ => rfl, 0, _, _, m₂', [], .error _ m₂', .last ha (by omega) (.exactStops hl hi'),
        ⟨rfl, rfl⟩, ?_, rfl, hm₂⟩
      simp only [overCall, Ending.finishCalls_stopped, List.append_nil, HostCall.work_invoke, HostCall.work_nil]
      exact .cons hcall .nil
    | @forceStops c m₂ e₂ m₃ hi hf =>
      rw [List.take_left' hl] at hi
      obtain ⟨m₂', hi', hm₂⟩ := hh.invoke_ok_of_id hm₀ hi
      obtain ⟨m₃', hf', hm₃⟩ := hh.force_error_of_id hm₂ hf
      refine ⟨id, renaming_id, fun _ _ => rfl, 0, _, .cell c, m₂', [], .error _ m₃', .last ha (by omega) (.exact hl hi'),
        ?_, ?_, rfl, hm₃⟩
      · show EvalsOn r h ys [] _ (h.force (.thunk c) m₂')
        rw [hf']
        exact ⟨rfl, rfl⟩
      · simp only [overCall, Ending.finishCalls_stopped, Ending.finishCalls_cell, List.append_nil, List.cons_append,
          List.nil_append, HostCall.work_invoke, HostCall.work_thunk, HostCall.work_nil]
        exact .cons hcall (.cons (Call.agrees_id _) .nil)
    | @notFunction c m₂ v m₃ fl hi hf hgf =>
      rw [List.take_left' hl] at hi
      have hv := hvalue hi hf
      obtain ⟨m₂', hi', hm₂⟩ := hh.invoke_ok_of_id hm₀ hi
      obtain ⟨m₃', hf', hm₃⟩ := hh.force_ok_of_id hm₂ hf
      -- the cell's value needs no forcing in the second application, and holds no function there either
      refine ⟨id, renaming_id, fun _ _ => rfl, 0, _, .cell c, m₂', [⟨.force v, m₃', m₃'⟩], .error _ m₃',
        .last ha (by omega) (.exact hl hi'), ?_, ?_, rfl, hm₃⟩
      · show EvalsOn r h ys _ _ (h.force (.thunk c) m₂')
        rw [hf']
        exact ⟨0, _, _, m₃', .notFunction (hh.force_of_whnf hv m₃') hgf, rfl, rfl⟩
      · simp only [overCall, Ending.finishCalls_stopped, Ending.finishCalls_cell, List.append_nil, List.cons_append,
          List.nil_append, HostCall.work_invoke, HostCall.work_thunk, HostCall.work_force hv, HostCall.work_nil]
        exact .cons hcall (.cons (Call.agrees_id _) .nil)
  | next _ _ hdc ht hrest =>
    cases ht with
    | @next c m₂ v m₃ g₁ hi hf hgf =>
      rw [List.take_left' hl] at hi
      rw [List.drop_left' hl] at hrest
      have hv := hvalue hi hf
      obtain ⟨m₂', hi', hm₂⟩ := hh.invoke_ok_of_id hm₀ hi
      obtain ⟨m₃', hf', hm₃⟩ := hh.force_ok_of_id hm₂ hf
      -- the rest of the single application, moved to the whole fuel, is the second application
      obtain ⟨calls', m₄', hc', hcalls, hm₄⟩ :=
        (hrest.restart hd (hx.imp_left fun ho => ho.succ hdc) (by omega) hdc).sim hh.sim_id hm₃
      rw [Callable.rename_id, Value.map_rename_id] at hc'
      obtain ⟨hfin, hwork⟩ := (Ending.agrees_rename e).finish hh.sim_id hm₄
      refine ⟨id, renaming_id, fun _ _ => rfl, 0, _, .cell c, m₂',
        (⟨.force v, m₃', m₃'⟩ :: calls') ++ (e.rename id).finishCalls h m₄', (e.rename id).finish h m₄',
        .last ha (by omega) (.exact hl hi'), ?_, ?_, hfin⟩
      · show EvalsOn r h ys _ _ (h.force (.thunk c) m₂')
        rw [hf']
        exact ⟨_, _, _, m₄', .applies (hh.force_of_whnf hv m₃') hgf hc', rfl, rfl⟩
      · simp only [overCall, Ending.finishCalls_cell, List.cons_append, List.nil_append, HostCall.work_append,
          HostCall.work_invoke, HostCall.work_thunk, HostCall.work_force hv]
        exact .cons hcall (.cons (Call.agrees_id _) (List.rel_append (HostCall.work_agrees hcalls) hwork))

/-- The first application ends within its first turn, refused, short or exact, unless that turn takes arguments of
`xs` only; the comparison is made then, and otherwise left to `hover`. -/
theorem split_agrees_of_over {b : Nat} {s : UInt64} {g : Fn} {xs : List Value} {m m' : Machine} {k : Nat}
    {calls : List HostCall} {e : Ending} {m₁ : Machine} (hc : Calls r h b s g (xs ++ ys) m k calls e m₁)
    (hd : e ≠ .stopped (.fault (.chainTooDeep r.limits.maxChainDepth)))
    (hx : Outlasts r b s ∨ e ≠ .stopped .exhausted) (hb : b ≤ chainFuel) (hs : s.toNat ≤ r.limits.maxChainDepth)
    (hm : m.Sound) (hn : n₀ ≤ m.fresh) (hmm : m.Renamed id m') (hg : g.Below m.fresh)
    (hxy : ∀ v ∈ xs ++ ys, v.Below m.fresh)
    (hover : g.arity ≤ r.limits.maxArity → g.need < xs.length → SplitAgrees r h ys m calls e m₁ b s g xs m') :
    SplitAgrees r h ys m calls e m₁ b s g xs m' := by
  by_cases ha : r.limits.maxArity < g.arity
  · exact split_refused hc ha hmm
  rcases Nat.lt_trichotomy xs.length g.need with hl | hl | hl
  · exact split_short_agrees hh hne hc (by omega) hl hd hx hb hs hm hn hmm hg hxy
  · exact split_exact_agrees hh hne hc (by omega) hl hd hx hb hm hn hmm hg hxy
  · exact hover (by omega) hl

/-- **Applying in two steps agrees with applying at once**, turn by turn: from `g` with `b` turns of fuel and the
count at `s`, applying to `xs` and then evaluating what this gives on `ys` does the work that applying to `xs ++ ys`
does and ends alike. The induction is on the fuel; a turn that takes arguments of `xs` only is the same turn in both
runs. -/
theorem loop_split_agrees (b : Nat) :
    ∀ {s : UInt64} {g : Fn} {xs : List Value} {m m' : Machine} {k : Nat} {calls : List HostCall} {e : Ending}
      {m₁ : Machine}, Calls r h b s g (xs ++ ys) m k calls e m₁ →
      e ≠ .stopped (.fault (.chainTooDeep r.limits.maxChainDepth)) → (Outlasts r b s ∨ e ≠ .stopped .exhausted) →
      b ≤ chainFuel → s.toNat ≤ r.limits.maxChainDepth → m.Sound → n₀ ≤ m.fresh → m.Renamed id m' →
      g.Below m.fresh → (∀ v ∈ xs ++ ys, v.Below m.fresh) → SplitAgrees r h ys m calls e m₁ b s g xs m' := by
  induction b with
  | zero =>
    intro s g xs m m' k calls e m₁ hc hd hx hb hs hm hn hmm hg hxy
    refine split_agrees_of_over hh hne hc hd hx hb hs hm hn hmm hg hxy fun ha hl => ?_
    -- with no fuel, a single application with more arguments than needed is refused for depth or out of fuel
    cases hc with
    | refused ha' | last _ hl' => first | omega | (rw [List.length_append] at hl'; omega)
    | tooDeep => exact absurd rfl hd
    | exhausted =>
      rcases hx with ho | hx
      · exact absurd ho.pos (Nat.lt_irrefl 0)
      · exact absurd rfl hx
  | succ b ih =>
    intro s g xs m m' k calls e m₁ hc hd hx hb hs hm hn hmm hg hxy
    refine split_agrees_of_over hh hne hc hd hx hb hs hm hn hmm hg hxy fun ha hl => ?_
    -- the turn takes arguments of `xs` only: both runs take it
    have htake : g.bound ++ xs.take g.need = (g.bound ++ (xs ++ ys).take g.need).map (Value.rename id) := by
      rw [Value.map_rename_id, List.take_append_of_le_length (Nat.le_of_lt hl)]
    have hsame : ∀ args, h.invoke g args = h.invoke (g.rename id) args := fun _ => by rw [Callable.rename_id]
    have hunbound : g.unbound = (g.rename id).unbound := by rw [Callable.rename_id]
    cases hc with
    | refused ha' | last _ hl' => first | omega | (rw [List.length_append] at hl'; omega)
    | tooDeep => exact absurd rfl hd
    | turnStops ha' hl' hdc ht =>
      obtain ⟨calls', res', ht', hcalls, hres⟩ := ht.sim hh.sim_id hunbound hsame htake hmm
      obtain ⟨m₂', rfl, hm₂⟩ := Run.Agree.of_error hres
      refine ⟨id, renaming_id, fun _ _ => rfl, 1, calls', _, m₂', [], _, .turnStops ha' hl hdc ht', ⟨rfl, rfl⟩, ?_,
        rfl, hm₂⟩
      simpa [Ending.finishCalls] using HostCall.work_agrees hcalls
    | next ha' hl' hdc ht hrest =>
      obtain ⟨calls₁', res', ht', hcalls₁, hres⟩ := ht.sim hh.sim_id hunbound hsame htake hmm
      obtain ⟨g₁', m₂', rfl, hg₁, hm₂⟩ := Run.Agree.of_ok hres
      rw [Callable.rename_id] at hg₁
      subst hg₁
      have hk := keeps_overTurn (r := r) hh.keeps hn hg hxy m hm (Nat.le_refl _)
      rw [ht.run] at hk
      rw [List.drop_append_of_le_length (Nat.le_of_lt hl)] at hrest
      obtain ⟨ρ, hρ, hfix, k₁, calls₁, e₁, m₃, calls₂, res, hc₁, hon, hwork, hagree⟩ :=
        ih hrest hd (hx.imp_left fun ho => ho.succ hdc) (by omega) hdc hk.1 (by have := hk.2.1.fresh; omega) hm₂
          hk.2.2 fun v hv => by
            rcases List.mem_append.1 hv with hv | hv
            · exact (hxy v (List.mem_append_left _ (List.mem_of_mem_drop hv))).mono hk.2.1.fresh
            · exact (hxy v (List.mem_append_right _ hv)).mono hk.2.1.fresh
      have hfix₀ : ∀ i < m.fresh, ρ i = i := fun i hi => hfix i (by have := hk.2.1.fresh; omega)
      refine ⟨ρ, hρ, hfix₀, _, _, e₁, m₃, calls₂, res, .next ha' hl hdc ht' hc₁, hon, ?_, hagree⟩
      simp only [List.append_assoc, HostCall.work_append] at hwork ⊢
      exact List.rel_append (HostCall.work_agrees_of_id hcalls₁ (ht.below hg hxy) hfix₀) hwork

/-- **Applying in two steps agrees with applying at once**, for every lawful host: evaluating `f` on `xs ++ ys`, and
evaluating `f` on `xs` and then what this gives on `ys`, do alike work and end alike up to a renaming that fixes the
starting machine, when the single evaluation is not refused for depth and, at the largest chain limit, does not run
out of fuel. -/
theorem eval_append_agrees_of_lawful {f : Value} {xs : List Value} {m : Machine} (hm : m.Sound) (hn : n₀ ≤ m.fresh)
    (hf : f.Below m.fresh) (hxs : ∀ v ∈ xs, v.Below m.fresh) (hys : ∀ v ∈ ys, v.Below m.fresh)
    (hd : ∀ d m₁, r.eval h f (xs ++ ys) m ≠ .error (.fault (.chainTooDeep d)) m₁)
    (hx : r.limits.maxChainDepth + 1 < UInt64.size ∨ ∀ m₁, r.eval h f (xs ++ ys) m ≠ .error .exhausted m₁) :
    ∃ ρ, Renaming ρ ∧ (∀ i < m.fresh, ρ i = i) ∧ ∃ calls calls',
      Evals r h f (xs ++ ys) m calls (r.eval h f (xs ++ ys) m) ∧
      EvalsThen r h f xs ys m calls' ((r.eval h f xs >>= fun v => r.eval h v ys) m) ∧
      List.Forall₂ (Call.Agrees ρ) (HostCall.work calls) (HostCall.work calls') ∧
      Run.Agree ρ (fun v w => w = v.rename ρ) (r.eval h f (xs ++ ys) m) ((r.eval h f xs >>= fun v => r.eval h v ys) m) := by
  obtain ⟨a, m₁, hA, hA'⟩ | ⟨w, m₁, g, hw, hg⟩ : (∃ a m₁, Applies r h f (xs ++ ys) m 0 [⟨.force f, m, m₁⟩] (.stopped a) m₁ ∧
      Applies r h f xs m 0 [⟨.force f, m, m₁⟩] (.stopped a) m₁) ∨
      ∃ w m₁ g, h.force f m = .ok w m₁ ∧ w.toFunction = .ok g := by
    cases hw : h.force f m with
    | error a m₁ => exact .inl ⟨a, m₁, .calleeStops hw, .calleeStops hw⟩
    | ok w m₁ =>
      cases hg : w.toFunction with
      | error fl => exact .inl ⟨_, m₁, .notFunction hw hg, .notFunction hw hg⟩
      | ok g => exact .inr ⟨w, m₁, g, rfl, hg⟩
  · exact eval_append_agrees_of_stop hA hA'
  · have hk := hh.keeps.force m.fresh f hn hf m hm (Nat.le_refl _)
    rw [hw] at hk
    obtain ⟨k, calls, e, m₂, hc⟩ := loop_calls (r := r) (h := h) chainFuel 0 g (xs ++ ys) m₁
    have hA := Applies.applies hw hg hc
    have heval := eval_of_apply hA.run
    have hd' : e ≠ .stopped (.fault (.chainTooDeep r.limits.maxChainDepth)) := fun he =>
      hd _ m₂ (by rw [heval, he]; rfl)
    have hx' : Outlasts r chainFuel 0 ∨ e ≠ .stopped .exhausted :=
      hx.imp outlasts_start fun hx he => hx m₂ (by rw [heval, he]; rfl)
    obtain ⟨ρ, hρ, hfix, k₁, calls₁, e₁, m₃, calls₂, res, hc₁, hon, hwork, hagree⟩ :=
      loop_split_agrees hh hne chainFuel hc hd' hx' (Nat.le_refl _) (by rw [UInt64.toNat_zero]; exact Nat.zero_le _)
        hk.1 (by have := hk.2.1.fresh; omega) (.refl m₁) (Value.toFunction_below hk.2.2.1 hg) fun v hv => by
          rcases List.mem_append.1 hv with hv | hv
          · exact (hxs v hv).mono hk.2.1.fresh
          · exact (hys v hv).mono hk.2.1.fresh
    have hA₁ := Applies.applies hw hg hc₁
    have heval₁ := eval_of_apply hA₁.run
    have hfix₀ : ∀ i < m.fresh, ρ i = i := fun i hi => hfix i (by have := hk.2.1.fresh; omega)
    rw [EvalsOn.bind heval₁ hon]
    refine ⟨ρ, hρ, hfix₀, _, _, ⟨_, _, _, _, hA, rfl, heval⟩,
      ⟨_, _, calls₂, ⟨_, _, _, _, hA₁, rfl, rfl⟩, hon, rfl⟩, ?_, ?_⟩
    · -- both runs begin with the force of the callee
      simp only [List.cons_append, HostCall.work_cons]
      split
      · exact .cons (Value.rename_of_below hfix₀ hf).symm hwork
      · exact hwork
    · rw [heval]
      exact hagree

end Split

end Resolver

/-! ## The evaluator's host -/

/-- An invocation sees the closure and the lambda of a function, not the arguments it has bound. -/
theorem invoke_bound_irrelevant (cx : Context) (fuel : Nat) (f : Fn) (bound : List Value) (i : Nat)
    (args : List Value) : invoke cx fuel { f with bound := bound, boundId := i } args = invoke cx fuel f args := by
  cases fuel <;> rfl

/-- With fuel to invoke and to force, the evaluator's host is lawful over a context below `n₀`. -/
theorem host_lawful {cx : Context} {n₀ : Nat} (hcx : cx.Below n₀) (fuel : Nat) : (host cx (fuel + 2)).Lawful n₀ where
  keeps := (evalKeeps hcx (fuel + 2)).host
  sim ρ hρ hfix := by
    have hs := (evalSim hρ cx (fuel + 2)).host
    rwa [Context.rename_of_below hfix hcx] at hs
  invoke_bound f bound i args := invoke_bound_irrelevant cx (fuel + 1) f bound i args
  force_whnf v hv := by
    show force cx (fuel + 1) v = pure v
    rw [force.eq_def]
    cases v with
    | thunk i => exact hv.elim
    | _ => rfl

/-- Without the fuel to force, the evaluator's host stops at once. -/
theorem host_force_exhausted (cx : Context) {fuel : Nat} (hfuel : fuel < 2) (v : Value) (m : Machine) :
    (host cx fuel).force v m = .error .exhausted m := by
  match fuel, hfuel with
  | 0, _ => rfl
  | 1, _ =>
    show force cx 0 v m = _
    rw [force]
    rfl

/-- **Currying is coherent.** Evaluating `f` on `xs ++ ys`, and on `xs` then `ys`, invoke the same bodies on the same
arguments and force the same cells in order, and end alike up to fresh identities. -/
theorem eval_append_agrees (r : Resolver) (cx : Context) (fuel : Nat) {f : Value} {xs ys : List Value}
    {m : Machine} (hm : m.Sound) (hcx : cx.Below m.fresh) (hf : f.Below m.fresh) (hxs : ∀ v ∈ xs, v.Below m.fresh)
    (hys : ∀ v ∈ ys, v.Below m.fresh) (hne : ys ≠ [])
    (hd : ∀ d m', r.eval (host cx fuel) f (xs ++ ys) m ≠ .error (.fault (.chainTooDeep d)) m')
    (hx : r.limits.maxChainDepth + 1 < UInt64.size ∨ ∀ m', r.eval (host cx fuel) f (xs ++ ys) m ≠ .error .exhausted m') :
    ∃ ρ, Renaming ρ ∧ (∀ i < m.fresh, ρ i = i) ∧ ∃ calls calls',
      Resolver.Evals r (host cx fuel) f (xs ++ ys) m calls (r.eval (host cx fuel) f (xs ++ ys) m) ∧
      Resolver.EvalsThen r (host cx fuel) f xs ys m calls'
        ((r.eval (host cx fuel) f xs >>= fun v => r.eval (host cx fuel) v ys) m) ∧
      List.Forall₂ (Resolver.Call.Agrees ρ) (Resolver.HostCall.work calls) (Resolver.HostCall.work calls') ∧
      Run.Agree ρ (fun v w => w = v.rename ρ) (r.eval (host cx fuel) f (xs ++ ys) m)
        ((r.eval (host cx fuel) f xs >>= fun v => r.eval (host cx fuel) v ys) m) := by
  rcases Nat.lt_or_ge fuel 2 with hfuel | hfuel
  · -- without the fuel to force the callee, both runs stop at their first call
    exact Resolver.eval_append_agrees_of_stop (.calleeStops (host_force_exhausted cx hfuel f m))
      (.calleeStops (host_force_exhausted cx hfuel f m))
  · obtain ⟨fuel, rfl⟩ : ∃ k, fuel = k + 2 := ⟨fuel - 2, by omega⟩
    exact Resolver.eval_append_agrees_of_lawful (host_lawful hcx fuel) hne hm (Nat.le_refl _) hf hxs hys hd hx

/-- The function `k` of two arguments. -/
def pairFn : Value := .func ⟨⟨"k", 2, .arg 0, 0⟩, [], 0, [], 0⟩

/-- `k` applied to both arguments at once, and to one and then the other. -/
theorem eval_append_agrees_on_pair :
    (∀ d m', ({} : Resolver).eval (host {} 5) pairFn ([.int 1] ++ [.int 2]) {} ≠ .error (.fault (.chainTooDeep d)) m') ∧
    (({} : Resolver).limits.maxChainDepth + 1 < UInt64.size ∨
      ∀ m', ({} : Resolver).eval (host {} 5) pairFn ([.int 1] ++ [.int 2]) {} ≠ .error .exhausted m') ∧
    ∃ ρ, Renaming ρ ∧ (∀ i < ({} : Machine).fresh, ρ i = i) ∧ ∃ calls calls',
      Resolver.Evals {} (host {} 5) pairFn ([.int 1] ++ [.int 2]) {} calls
        (({} : Resolver).eval (host {} 5) pairFn ([.int 1] ++ [.int 2]) {}) ∧
      Resolver.EvalsThen {} (host {} 5) pairFn [.int 1] [.int 2] {} calls'
        ((({} : Resolver).eval (host {} 5) pairFn [.int 1] >>= fun v => ({} : Resolver).eval (host {} 5) v [.int 2]) {}) ∧
      List.Forall₂ (Resolver.Call.Agrees ρ) (Resolver.HostCall.work calls) (Resolver.HostCall.work calls') ∧
      Run.Agree ρ (fun v w => w = v.rename ρ) (({} : Resolver).eval (host {} 5) pairFn ([.int 1] ++ [.int 2]) {})
        ((({} : Resolver).eval (host {} 5) pairFn [.int 1] >>= fun v => ({} : Resolver).eval (host {} 5) v [.int 2]) {}) :=
  ⟨nofun, .inl (by decide), eval_append_agrees {} {} 5 ⟨Nat.one_pos, by simp, by simp⟩ (fun _ h => by cases h)
    ⟨trivial, Nat.one_pos, trivial, Nat.one_pos⟩ (by simp [Value.Below]) (by simp [Value.Below]) (by simp) nofun
    (.inl (by decide))⟩

end LazyCall
