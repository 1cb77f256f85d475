import LazyCall.Proofs.Turns

/-!
# The host calls of an application

An application calls its host for two things: invoking a function with the arguments it takes, and forcing a value.
`Calls` follows the loop turn by turn and lists those calls in order, each with the machine it started in and the
machine it left, together with the number of over-application turns and how the application ended (`Ending`). An
over-application turn makes its calls as `TurnCalls` lists them, and the turn that ends the loop as `LastCalls` does.

Every run of the loop has its calls (`loop_calls`), the calls give the run (`Calls.run`), and a run has no other calls
(`Calls.determ`). A run that was neither refused for depth nor stopped for lack of fuel runs the same with more fuel
and a count no higher (`Calls.more_fuel`). `Applies` adds the force of the callee in front, and `Evals` the force of
the cell the application gave behind.
-/

namespace LazyCall

/-- The machine a run left, whether it gave a result or stopped. -/
def Run.left {α : Type} : EStateM.Result Abort Machine α → Machine
  | .ok _ m => m
  | .error _ m => m

namespace Resolver

open Run

/-- A call the resolver makes on its host. -/
inductive Call where
  /-- Invoking a function with the arguments it takes. -/
  | invoke (g : Fn) (args : List Value)
  /-- Forcing a value. -/
  | force (v : Value)

/-- A host call as it ran: the machine it started in and the machine it left, with a result or stopped. -/
structure HostCall where
  call : Call
  before : Machine
  after : Machine

/-- How an application ended: stopped, with the cell an invoked body gave, or with the function a short last turn
gave after binding the arguments `rest` it had left. -/
inductive Ending where
  | stopped (e : Abort)
  | cell (c : Nat)
  | curried (g : Fn) (rest : List Value)

/-- The outcome of an application that ended as `e` in the machine `m`. -/
def Ending.result : Ending → Machine → EStateM.Result Abort Machine Applied
  | .stopped e, m => .error e m
  | .cell c, m => .ok (.cell c) m
  | .curried g _, m => .ok (.curried g) m

variable (r : Resolver) (h : Host)

/-- The machine after a short turn is reported and counted. -/
def shortNoted (g : Fn) (supplied : Nat) (m : Machine) : Machine :=
  let m₁ := r.noted .short g supplied m
  { m₁ with counters := m₁.counters.bump .partialApplications }

/-- The invocation an over-application turn of `g` on `args` makes from `m`, leaving `m₁`. -/
def overCall (g : Fn) (args : List Value) (m m₁ : Machine) : HostCall :=
  ⟨.invoke g (g.bound ++ args.take g.need), r.overNoted g args.length m, m₁⟩

/-- `TurnCalls g args m calls res`: an over-application turn of `g` on `args` from `m` invokes `g`, forces the cell
this gives unless the invocation stops, and ends as `res` with the function that cell holds. -/
inductive TurnCalls (g : Fn) (args : List Value) (m : Machine) :
    List HostCall → EStateM.Result Abort Machine Fn → Prop
  | invokeStops {e : Abort} {m₁ : Machine} :
      h.invoke g (g.bound ++ args.take g.need) (r.overNoted g args.length m) = .error e m₁ →
      TurnCalls g args m [r.overCall g args m m₁] (.error e m₁)
  | forceStops {c : Nat} {m₁ : Machine} {e : Abort} {m₂ : Machine} :
      h.invoke g (g.bound ++ args.take g.need) (r.overNoted g args.length m) = .ok c m₁ →
      h.force (.thunk c) m₁ = .error e m₂ →
      TurnCalls g args m [r.overCall g args m m₁, ⟨.force (.thunk c), m₁, m₂⟩] (.error e m₂)
  | notFunction {c : Nat} {m₁ : Machine} {v : Value} {m₂ : Machine} {f : Fault} :
      h.invoke g (g.bound ++ args.take g.need) (r.overNoted g args.length m) = .ok c m₁ →
      h.force (.thunk c) m₁ = .ok v m₂ → v.toFunction = .error f →
      TurnCalls g args m [r.overCall g args m m₁, ⟨.force (.thunk c), m₁, m₂⟩] (.error (.fault f) m₂)
  | next {c : Nat} {m₁ : Machine} {v : Value} {m₂ : Machine} {g₁ : Fn} :
      h.invoke g (g.bound ++ args.take g.need) (r.overNoted g args.length m) = .ok c m₁ →
      h.force (.thunk c) m₁ = .ok v m₂ → v.toFunction = .ok g₁ →
      TurnCalls g args m [r.overCall g args m m₁, ⟨.force (.thunk c), m₁, m₂⟩] (.ok g₁ m₂)

/-- `LastCalls g args m calls e m'`: the turn that ends an application of `g` to `args` from `m`. With as many
arguments as `g` needs it invokes `g`, and the cell this gives ends the application; with fewer it binds them and
makes no host call. -/
inductive LastCalls (g : Fn) (args : List Value) (m : Machine) : List HostCall → Ending → Machine → Prop
  | exact {c : Nat} {m' : Machine} : args.length = g.need →
      h.invoke g (g.bound ++ args) (r.noted .exact g args.length m) = .ok c m' →
      LastCalls g args m [⟨.invoke g (g.bound ++ args), r.noted .exact g args.length m, m'⟩] (.cell c) m'
  | exactStops {e : Abort} {m' : Machine} : args.length = g.need →
      h.invoke g (g.bound ++ args) (r.noted .exact g args.length m) = .error e m' →
      LastCalls g args m [⟨.invoke g (g.bound ++ args), r.noted .exact g args.length m, m'⟩] (.stopped e) m'
  | short {g' : Fn} {m' : Machine} : args.length < g.need →
      bindArgs g args (r.shortNoted g args.length m) = .ok g' m' → LastCalls g args m [] (.curried g' args) m'

/-- `Calls b s g args m k calls e m'`: applying `g` to `args` from the machine `m`, with `b` turns of fuel and the
step counter at `s`, takes `k` over-application turns, makes the host calls `calls` in this order and ends as `e` in
the machine `m'`. -/
inductive Calls : Nat → UInt64 → Fn → List Value → Machine → Nat → List HostCall → Ending → Machine → Prop
  /-- A function above the arity limit is refused before anything else of its turn. -/
  | refused {b : Nat} {s : UInt64} {g : Fn} {args : List Value} {m : Machine} :
      r.limits.maxArity < g.arity →
      Calls b s g args m 0 [] (.stopped (.fault (.arityOutOfRange g.arity r.limits.maxArity))) m
  /-- No more arguments than the function needs: the last turn. -/
  | last {b : Nat} {s : UInt64} {g : Fn} {args : List Value} {m : Machine} {calls : List HostCall} {e : Ending}
      {m' : Machine} :
      g.arity ≤ r.limits.maxArity → args.length ≤ g.need → LastCalls r h g args m calls e m' →
      Calls b s g args m 0 calls e m'
  /-- More arguments than needed, and a count past the chain limit: refused before anything is reported. -/
  | tooDeep {b : Nat} {s : UInt64} {g : Fn} {args : List Value} {m : Machine} :
      g.arity ≤ r.limits.maxArity → g.need < args.length → r.limits.maxChainDepth < (s + 1).toNat →
      Calls b s g args m 0 [] (.stopped (.fault (.chainTooDeep r.limits.maxChainDepth))) m
  /-- More arguments than needed, within the limit, and no fuel left. -/
  | exhausted {s : UInt64} {g : Fn} {args : List Value} {m : Machine} :
      g.arity ≤ r.limits.maxArity → g.need < args.length → (s + 1).toNat ≤ r.limits.maxChainDepth →
      Calls 0 s g args m 0 [] (.stopped .exhausted) m
  /-- An over-application turn that stops. -/
  | turnStops {b : Nat} {s : UInt64} {g : Fn} {args : List Value} {m : Machine} {calls : List HostCall} {e : Abort}
      {m' : Machine} :
      g.arity ≤ r.limits.maxArity → g.need < args.length → (s + 1).toNat ≤ r.limits.maxChainDepth →
      TurnCalls r h g args m calls (.error e m') → Calls (b + 1) s g args m 1 calls (.stopped e) m'
  /-- An over-application turn that goes on with the function its cell holds and the arguments left. -/
  | next {b : Nat} {s : UInt64} {g : Fn} {args : List Value} {m : Machine} {calls₁ : List HostCall} {g₁ : Fn}
      {m₁ : Machine} {k : Nat} {calls : List HostCall} {e : Ending} {m' : Machine} :
      g.arity ≤ r.limits.maxArity → g.need < args.length → (s + 1).toNat ≤ r.limits.maxChainDepth →
      TurnCalls r h g args m calls₁ (.ok g₁ m₁) → Calls b (s + 1) g₁ (args.drop g.need) m₁ k calls e m' →
      Calls (b + 1) s g args m (k + 1) (calls₁ ++ calls) e m'

variable {r h}

/-! ## Calls give the run -/

/-- An over-application turn, once reported and counted, is the invocation, the force of its cell and the look at the
value it holds. -/
theorem overTurn_apply (g : Fn) (args : List Value) (m : Machine) :
    r.overTurn h g args m = (h.invoke g (g.bound ++ args.take g.need) >>= fun c => h.force (.thunk c) >>=
      fun v => Run.ofExcept v.toFunction) (r.overNoted g args.length m) := by
  unfold overTurn
  rw [bind_of_ok (report_apply ..), bind_of_ok (count_apply ..)]
  rfl

theorem TurnCalls.run {g : Fn} {args : List Value} {m : Machine} {calls : List HostCall}
    {res : EStateM.Result Abort Machine Fn} (ht : TurnCalls r h g args m calls res) : r.overTurn h g args m = res := by
  rw [overTurn_apply]
  cases ht with
  | invokeStops hi => exact bind_of_error hi
  | forceStops hi hf => rw [bind_of_ok hi]; exact bind_of_error hf
  | notFunction hi hf hg => rw [bind_of_ok hi, bind_of_ok hf, hg]; rfl
  | next hi hf hg => rw [bind_of_ok hi, bind_of_ok hf, hg]; rfl

theorem LastCalls.run {g : Fn} {args : List Value} {m : Machine} {calls : List HostCall} {e : Ending} {m' : Machine}
    (hl : LastCalls r h g args m calls e m') : r.lastTurn h g args m = e.result m' := by
  unfold lastTurn
  cases hl with
  | exact he hi => rw [if_pos he, bind_of_ok (report_apply ..)]; exact map_of_ok hi
  | exactStops he hi => rw [if_pos he, bind_of_ok (report_apply ..)]; exact map_of_error hi
  | short hs hb =>
    rw [if_neg (by omega), bind_of_ok (report_apply ..), bind_of_ok (count_apply ..)]
    exact map_of_ok hb

/-- Calls give the run they describe. -/
theorem Calls.run {b : Nat} {s : UInt64} {g : Fn} {args : List Value} {m : Machine} {k : Nat}
    {calls : List HostCall} {e : Ending} {m' : Machine} (hc : Calls r h b s g args m k calls e m') :
    r.loop h b s g args args.length m = e.result m' := by
  induction hc with
  | refused ha => rw [loop_of_arity ha]; rfl
  | last ha hl hlast => rw [loop_of_le ha hl]; exact hlast.run
  | tooDeep ha hl hd => rw [loop_of_deep ha hl hd]; rfl
  | exhausted ha hl hd => rw [loop_zero_of_lt ha hl hd]; rfl
  | turnStops ha hl hd ht => rw [loop_succ_of_lt ha hl hd]; exact bind_of_error ht.run
  | next ha hl hd ht _ ih => rw [loop_succ_of_lt ha hl hd, bind_of_ok ht.run]; exact ih

/-! ## Every run has its calls, and only those -/

theorem turnCalls_exist (g : Fn) (args : List Value) (m : Machine) :
    ∃ calls res, TurnCalls r h g args m calls res := by
  cases hi : h.invoke g (g.bound ++ args.take g.need) (r.overNoted g args.length m) with
  | error e m₁ => exact ⟨_, _, .invokeStops hi⟩
  | ok c m₁ =>
    cases hf : h.force (.thunk c) m₁ with
    | error e m₂ => exact ⟨_, _, .forceStops hi hf⟩
    | ok v m₂ =>
      cases hg : v.toFunction with
      | error f => exact ⟨_, _, .notFunction hi hf hg⟩
      | ok g₁ => exact ⟨_, _, .next hi hf hg⟩

theorem bindArgs_ok (g : Fn) (rest : List Value) (m : Machine) : ∃ g' m', bindArgs g rest m = .ok g' m' := by
  unfold bindArgs
  split
  · exact ⟨g, m, rfl⟩
  · rw [bind_of_ok (count_apply ..), bind_of_ok (freshId_apply _)]
    exact ⟨_, _, rfl⟩

theorem lastCalls_exist {g : Fn} {args : List Value} (hl : args.length ≤ g.need) (m : Machine) :
    ∃ calls e m', LastCalls r h g args m calls e m' := by
  by_cases he : args.length = g.need
  · cases hi : h.invoke g (g.bound ++ args) (r.noted .exact g args.length m) with
    | ok c m' => exact ⟨_, _, _, .exact he hi⟩
    | error e m' => exact ⟨_, _, _, .exactStops he hi⟩
  · obtain ⟨g', m', hb⟩ := bindArgs_ok g args (r.shortNoted g args.length m)
    exact ⟨_, _, _, .short (by omega) hb⟩

/-- Every run of the loop, whatever its outcome, has its calls. -/
theorem loop_calls (b : Nat) (s : UInt64) (g : Fn) (args : List Value) (m : Machine) :
    ∃ k calls e m', Calls r h b s g args m k calls e m' := by
  refine loop_induction (r := r) (h := h)
    (P := fun b s g args _ => ∀ m, ∃ k calls e m', Calls r h b s g args m k calls e m')
    ?arity ?last ?deep ?exhausted ?turn b s g args m
  case arity => intro _ _ _ _ ha m; exact ⟨_, _, _, _, .refused ha⟩
  case last =>
    intro _ _ _ _ ha hl m
    obtain ⟨calls, e, m', hlast⟩ := lastCalls_exist (r := r) (h := h) hl m
    exact ⟨_, _, _, _, .last ha hl hlast⟩
  case deep => intro _ _ _ _ ha hl hd m; exact ⟨_, _, _, _, .tooDeep ha hl hd⟩
  case exhausted => intro _ _ _ ha hl hd m; exact ⟨_, _, _, _, .exhausted ha hl hd⟩
  case turn =>
    intro _ _ g args ha hl hd ih m
    -- the turn's calls, and the rest of the run's when the turn goes on
    obtain ⟨calls₁, res, ht⟩ := turnCalls_exist (r := r) (h := h) g args m
    cases res with
    | error e m₁ => exact ⟨_, _, _, _, .turnStops ha hl hd ht⟩
    | ok g₁ m₁ =>
      obtain ⟨k, calls, e, m', hc⟩ := ih g₁ m₁
      exact ⟨_, _, _, _, .next ha hl hd ht hc⟩

theorem TurnCalls.determ {g : Fn} {args : List Value} {m : Machine} {calls calls' : List HostCall}
    {res res' : EStateM.Result Abort Machine Fn} (ht : TurnCalls r h g args m calls res)
    (ht' : TurnCalls r h g args m calls' res') : calls = calls' ∧ res = res' := by
  -- the host's answers decide the constructor: two derivations read the same answers
  cases ht <;> cases ht' <;> simp_all

theorem LastCalls.determ {g : Fn} {args : List Value} {m : Machine} {calls calls' : List HostCall} {e e' : Ending}
    {m' m'' : Machine} (hl : LastCalls r h g args m calls e m') (hl' : LastCalls r h g args m calls' e' m'') :
    calls = calls' ∧ e = e' ∧ m' = m'' := by
  cases hl <;> cases hl' <;> first | omega | simp_all

/-- A run has no other calls than its own. -/
theorem Calls.determ {b : Nat} {s : UInt64} {g : Fn} {args : List Value} {m : Machine} {k k' : Nat}
    {calls calls' : List HostCall} {e e' : Ending} {m' m'' : Machine} (hc : Calls r h b s g args m k calls e m')
    (hc' : Calls r h b s g args m k' calls' e' m'') : k = k' ∧ calls = calls' ∧ e = e' ∧ m' = m'' := by
  induction hc generalizing k' calls' e' m'' with
  | refused ha => cases hc' <;> first | omega | exact ⟨rfl, rfl, rfl, rfl⟩
  | last ha hl hlast =>
    cases hc' with
    | last _ _ hlast' => exact ⟨rfl, hlast.determ hlast'⟩
    | _ => omega
  | tooDeep ha hl hd => cases hc' <;> first | omega | exact ⟨rfl, rfl, rfl, rfl⟩
  | exhausted ha hl hd => cases hc' <;> first | omega | exact ⟨rfl, rfl, rfl, rfl⟩
  | turnStops ha hl hd ht =>
    cases hc' with
    | turnStops _ _ _ ht' =>
      obtain ⟨rfl, he⟩ := ht.determ ht'
      cases he
      exact ⟨rfl, rfl, rfl, rfl⟩
    | next _ _ _ ht' _ => cases (ht.determ ht').2
    | _ => omega
  | next ha hl hd ht _ ih =>
    cases hc' with
    | turnStops _ _ _ ht' => cases (ht.determ ht').2
    | next _ _ _ ht' hc' =>
      obtain ⟨rfl, he⟩ := ht.determ ht'
      cases he
      obtain ⟨rfl, rfl, rfl, rfl⟩ := ih hc'
      exact ⟨rfl, rfl, rfl, rfl⟩
    | _ => omega

/-! ## More fuel -/

/-- Fuel that outlasts the chain limit: below the largest limit, with the count within it, the fuel left and the count
reach past the limit, so the count passes the limit before the fuel runs out. -/
def Outlasts (r : Resolver) (b : Nat) (s : UInt64) : Prop :=
  r.limits.maxChainDepth + 1 < UInt64.size ∧ s.toNat ≤ r.limits.maxChainDepth ∧ r.limits.maxChainDepth < b + s.toNat

theorem outlasts_start (hD : r.limits.maxChainDepth + 1 < UInt64.size) : Outlasts r chainFuel 0 :=
  ⟨hD, Nat.zero_le _, by rw [UInt64.toNat_zero, Nat.add_zero]; exact Nat.lt_of_succ_lt hD⟩

/-- Below the top of the word, counting one more is adding one. -/
theorem counter_succ_toNat {s : UInt64} (hs : s.toNat + 1 < UInt64.size) : (s + 1).toNat = s.toNat + 1 := by
  rw [UInt64.toNat_add, UInt64.toNat_one]
  exact Nat.mod_eq_of_lt hs

theorem Outlasts.succ {b : Nat} {s : UInt64} (ho : Outlasts r (b + 1) s) (hd : (s + 1).toNat ≤ r.limits.maxChainDepth) :
    Outlasts r b (s + 1) := by
  obtain ⟨hD, hs, hb⟩ := ho
  have hsucc := counter_succ_toNat (s := s) (by omega)
  exact ⟨hD, hd, by omega⟩

/-- Fuel that outlasts the limit is never out. -/
theorem Outlasts.pos {b : Nat} {s : UInt64} (ho : Outlasts r b s) : 0 < b := by
  obtain ⟨-, hs, hb⟩ := ho
  omega

/-- A count no higher than another, which is within the limit, passes every check the other passes; at the largest
limit every count passes. -/
def CountsNoHigher (r : Resolver) (s' s : UInt64) : Prop :=
  UInt64.size ≤ r.limits.maxChainDepth + 1 ∨ s'.toNat ≤ s.toNat ∧ s.toNat ≤ r.limits.maxChainDepth

theorem CountsNoHigher.within {s s' : UInt64} (hs : CountsNoHigher r s' s) (hd : (s + 1).toNat ≤ r.limits.maxChainDepth) :
    (s' + 1).toNat ≤ r.limits.maxChainDepth ∧ CountsNoHigher r (s' + 1) (s + 1) := by
  by_cases hD : UInt64.size ≤ r.limits.maxChainDepth + 1
  · have := (s' + 1).toNat_lt_size
    exact ⟨by omega, .inl hD⟩
  -- below the top neither count wraps, as the higher one is within the limit
  obtain ⟨hs', hs⟩ := hs.resolve_left hD
  have hsucc : (s + 1).toNat = s.toNat + 1 := counter_succ_toNat (by omega)
  have hsucc' : (s' + 1).toNat = s'.toNat + 1 := counter_succ_toNat (by omega)
  exact ⟨by omega, .inr ⟨by omega, hd⟩⟩

/-- **More fuel changes nothing.** A run that was not refused for depth, and either ran with fuel that outlasts the
limit or did not run out of it, runs the same with more fuel and a count no higher. -/
theorem Calls.more_fuel {b : Nat} {s : UInt64} {g : Fn} {args : List Value} {m : Machine} {k : Nat}
    {calls : List HostCall} {e : Ending} {m' : Machine} (hc : Calls r h b s g args m k calls e m')
    (hd : e ≠ .stopped (.fault (.chainTooDeep r.limits.maxChainDepth)))
    (hx : Outlasts r b s ∨ e ≠ .stopped .exhausted) {b' : Nat} {s' : UInt64} (hb : b ≤ b')
    (hs : CountsNoHigher r s' s) : Calls r h b' s' g args m k calls e m' := by
  induction hc generalizing b' s' with
  | refused ha => exact .refused ha
  | last ha hl hlast => exact .last ha hl hlast
  | tooDeep => exact absurd rfl hd
  | exhausted ha hl hd' =>
    rcases hx with ho | hx
    · exact absurd ho.pos (Nat.lt_irrefl 0)
    · exact absurd rfl hx
  | turnStops ha hl hd' ht =>
    obtain ⟨b', rfl⟩ : ∃ c, b' = c + 1 := ⟨b' - 1, by omega⟩
    exact .turnStops ha hl (hs.within hd').1 ht
  | next ha hl hd' ht _ ih =>
    obtain ⟨b', rfl⟩ : ∃ c, b' = c + 1 := ⟨b' - 1, by omega⟩
    obtain ⟨hd'', hs'⟩ := hs.within hd'
    exact .next ha hl hd'' ht (ih hd (hx.imp_left fun ho => ho.succ hd') (by omega) hs')

/-! ## Around the loop -/

variable (r h) in
/-- `Applies callee args m k calls e m'`: applying the value `callee` to `args` from `m` forces the callee, then
applies the function it holds as `Calls` describes; `calls` begins with the callee's force. -/
inductive Applies : Value → List Value → Machine → Nat → List HostCall → Ending → Machine → Prop
  | calleeStops {callee : Value} {args : List Value} {m : Machine} {e : Abort} {m₁ : Machine} :
      h.force callee m = .error e m₁ → Applies callee args m 0 [⟨.force callee, m, m₁⟩] (.stopped e) m₁
  | notFunction {callee : Value} {args : List Value} {m : Machine} {w : Value} {m₁ : Machine} {f : Fault} :
      h.force callee m = .ok w m₁ → w.toFunction = .error f →
      Applies callee args m 0 [⟨.force callee, m, m₁⟩] (.stopped (.fault f)) m₁
  | applies {callee : Value} {args : List Value} {m : Machine} {w : Value} {m₁ : Machine} {g : Fn} {k : Nat}
      {calls : List HostCall} {e : Ending} {m' : Machine} :
      h.force callee m = .ok w m₁ → w.toFunction = .ok g →
      Calls r h chainFuel 0 g args m₁ k calls e m' →
      Applies callee args m k (⟨.force callee, m, m₁⟩ :: calls) e m'

theorem Applies.run {callee : Value} {args : List Value} {m : Machine} {k : Nat} {calls : List HostCall}
    {e : Ending} {m' : Machine} (ha : Applies r h callee args m k calls e m') : r.apply h callee args m = e.result m' := by
  unfold apply
  cases ha with
  | calleeStops hw => exact bind_of_error hw
  | notFunction hw hg => rw [bind_of_ok hw, hg, ofExcept_error]; rfl
  | applies hw hg hc => rw [bind_of_ok hw, hg, ofExcept_ok, pure_bind]; exact hc.run

theorem apply_calls (callee : Value) (args : List Value) (m : Machine) :
    ∃ k calls e m', Applies r h callee args m k calls e m' := by
  cases hw : h.force callee m with
  | error e m₁ => exact ⟨_, _, _, _, .calleeStops hw⟩
  | ok w m₁ =>
    cases hg : w.toFunction with
    | error f => exact ⟨_, _, _, _, .notFunction hw hg⟩
    | ok g =>
      obtain ⟨k, calls, e, m', hc⟩ := loop_calls (r := r) (h := h) chainFuel 0 g args m₁
      exact ⟨_, _, _, _, .applies hw hg hc⟩

variable (h) in
/-- How `eval` ends after an application that ended as `e` in the machine `m`: a cell is forced, a function is the
value, a stop stays a stop. -/
def Ending.finish : Ending → Machine → EStateM.Result Abort Machine Value
  | .stopped a, m => .error a m
  | .cell c, m => h.force (.thunk c) m
  | .curried g _, m => .ok (.func g) m

variable (h) in
/-- The host calls `eval` makes after an application that ended as `e` in `m`: the force of the cell, if any. -/
def Ending.finishCalls : Ending → Machine → List HostCall
  | .cell c, m => [⟨.force (.thunk c), m, Run.left (h.force (.thunk c) m)⟩]
  | _, _ => []

@[simp] theorem Ending.finishCalls_cell (c : Nat) (m : Machine) :
    Ending.finishCalls h (.cell c) m = [⟨.force (.thunk c), m, Run.left (h.force (.thunk c) m)⟩] := rfl

@[simp] theorem Ending.finishCalls_stopped (a : Abort) (m : Machine) : Ending.finishCalls h (.stopped a) m = [] := rfl

@[simp] theorem Ending.finishCalls_curried (g : Fn) (rest : List Value) (m : Machine) :
    Ending.finishCalls h (.curried g rest) m = [] := rfl

/-- `eval` is the application followed by the force of the cell it gave. -/
theorem eval_of_apply {callee : Value} {args : List Value} {m : Machine} {e : Ending} {m' : Machine}
    (ha : r.apply h callee args m = e.result m') : r.eval h callee args m = e.finish h m' := by
  rw [eval_eq_finish]
  cases e with
  | stopped a => exact bind_of_error ha
  | cell c => exact bind_of_ok ha
  | curried g _ => exact bind_of_ok ha

variable (r h) in
/-- `Evals callee args m calls res`: evaluating `callee` on `args` from `m` makes the host calls `calls`, those of the
application and then the force of the cell it gave, and ends as `res`. -/
def Evals (callee : Value) (args : List Value) (m : Machine) (calls : List HostCall)
    (res : EStateM.Result Abort Machine Value) : Prop :=
  ∃ k calls₀ e m₁, Applies r h callee args m k calls₀ e m₁ ∧ calls = calls₀ ++ e.finishCalls h m₁ ∧
    res = e.finish h m₁

/-- Calls give the evaluation they describe. -/
theorem Evals.run {callee : Value} {args : List Value} {m : Machine} {calls : List HostCall}
    {res : EStateM.Result Abort Machine Value} (he : Evals r h callee args m calls res) : r.eval h callee args m = res := by
  obtain ⟨k, calls₀, e, m₁, ha, -, rfl⟩ := he
  exact eval_of_apply ha.run

/-- Every evaluation has its calls, and they end as the evaluation does. -/
theorem eval_calls (callee : Value) (args : List Value) (m : Machine) :
    ∃ calls, Evals r h callee args m calls (r.eval h callee args m) := by
  obtain ⟨k, calls, e, m', ha⟩ := apply_calls (r := r) (h := h) callee args m
  exact ⟨_, k, calls, e, m', ha, rfl, eval_of_apply ha.run⟩

end Resolver

end LazyCall
