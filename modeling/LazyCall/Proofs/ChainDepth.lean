import LazyCall.Proofs.Calls

/-!
# Over-application chains and their step counter

The resolver's loop counts its over-application turns in a 64-bit word that wraps, and refuses a turn that takes the
count past the chain limit `D` (`ChainTooDeep`). A run of the loop is a chain of over-application turns (`Overs`)
followed by one turn that stops it (`Stop`, `loop_stops`), and how that turn stops follows the order of the checks: the
arity limit first, then the last turn when no more arguments are supplied than needed, then the count, and only then
the turn's report, count and invocation.

Main statements:

* below the largest limit, `D + 1 < 2 ^ 64`, the count never wraps: a run of `applyFunction` is at most `D`
  over-application turns and one that stops it, `ChainTooDeep` exactly after `D` turns, and never for lack of fuel
  (`application_chain_is_bounded`);
* at the largest limit the count wraps before it can pass `D`, so no turn is refused for depth, and a function of no
  argument whose turn gives it back, applied to one argument, runs turn after turn until the fuel that stands in for
  a run that does not end is out: more turns than the limit (`chain_unbounded_at_top`).
-/

namespace LazyCall.Resolver

open Run

variable (r : Resolver) (h : Host)

/-- How the turn after the over-application turns stops a run: with `fuel` turns left and the step counter at
`steps`, the turn applies `g` to `rest` in the machine `m`. -/
inductive Stop (fuel : Nat) (steps : UInt64) (g : Fn) (rest : List Value) (m : Machine) :
    EStateM.Result Abort Machine Applied → Prop
  /-- The function is above the arity limit. -/
  | arity : r.limits.maxArity < g.arity →
      Stop fuel steps g rest m (.error (.fault (.arityOutOfRange g.arity r.limits.maxArity)) m)
  /-- No more arguments than the function needs: the last turn. -/
  | last : g.arity ≤ r.limits.maxArity → rest.length ≤ g.need → Stop fuel steps g rest m (r.lastTurn h g rest m)
  /-- More arguments than needed, and the count of this turn passes the chain limit. -/
  | depth : g.arity ≤ r.limits.maxArity → g.need < rest.length → r.limits.maxChainDepth < (steps + 1).toNat →
      Stop fuel steps g rest m (.error (.fault (.chainTooDeep r.limits.maxChainDepth)) m)
  /-- More arguments than needed, within the limit, and no fuel left. -/
  | fuel : g.arity ≤ r.limits.maxArity → g.need < rest.length → (steps + 1).toNat ≤ r.limits.maxChainDepth →
      fuel = 0 → Stop fuel steps g rest m (.error .exhausted m)
  /-- The invocation of the over-application turn fails. -/
  | invoke {e : Abort} {m' : Machine} : g.arity ≤ r.limits.maxArity → g.need < rest.length →
      (steps + 1).toNat ≤ r.limits.maxChainDepth → 0 < fuel →
      h.invoke g (g.bound ++ rest.take g.need) (r.overNoted g rest.length m) = .error e m' →
      Stop fuel steps g rest m (.error e m')
  /-- The force of the invocation's cell fails. -/
  | force {c : Nat} {m₁ m' : Machine} {e : Abort} : g.arity ≤ r.limits.maxArity → g.need < rest.length →
      (steps + 1).toNat ≤ r.limits.maxChainDepth → 0 < fuel →
      h.invoke g (g.bound ++ rest.take g.need) (r.overNoted g rest.length m) = .ok c m₁ →
      h.force (.thunk c) m₁ = .error e m' → Stop fuel steps g rest m (.error e m')
  /-- The invocation's cell holds no function. -/
  | notCallable {c : Nat} {m₁ : Machine} {v : Value} {m' : Machine} : g.arity ≤ r.limits.maxArity →
      g.need < rest.length → (steps + 1).toNat ≤ r.limits.maxChainDepth → 0 < fuel →
      h.invoke g (g.bound ++ rest.take g.need) (r.overNoted g rest.length m) = .ok c m₁ →
      h.force (.thunk c) m₁ = .ok v m' → (∀ f, v ≠ .func f) →
      Stop fuel steps g rest m (.error (.fault (.notCallable v.kind)) m')

variable {r h}

/-! ## The step counter -/

/-- The count after `k` turns from zero, while it stays below the top of the word. -/
theorem counter_ofNat_toNat {k : Nat} (hk : k < UInt64.size) : (UInt64.ofNat k).toNat = k := by
  rw [UInt64.toNat_ofNat']
  exact Nat.mod_eq_of_lt hk

/-- The count after `k + 1` turns from zero, while it stays below the top of the word. -/
theorem counter_ofNat_succ_toNat {k : Nat} (hk : k + 1 < UInt64.size) : (UInt64.ofNat k + 1).toNat = k + 1 := by
  rw [counter_succ_toNat (by rw [counter_ofNat_toNat (by omega)]; omega), counter_ofNat_toNat (by omega)]

/-- At the largest limit every count is within the limit: the word wraps before it can pass it. -/
theorem counter_within_top {D : Nat} (hD : UInt64.size ≤ D + 1) (s : UInt64) : (s + 1).toNat ≤ D := by
  have := (s + 1).toNat_lt_size
  omega

/-- Counting `k + 1` turns from `s` is counting one, then `k` more. -/
theorem counter_add_succ (s : UInt64) (k : Nat) : s + UInt64.ofNat (k + 1) = s + 1 + UInt64.ofNat k := by
  apply UInt64.toNat_inj.1
  simp only [UInt64.toNat_add, UInt64.toNat_ofNat', UInt64.toNat_one]
  omega

/-- The turns a chain took from the count `s` were each within the limit. -/
def Counted (r : Resolver) (s : UInt64) (k : Nat) : Prop :=
  ∀ i < k, (s + UInt64.ofNat i + 1).toNat ≤ r.limits.maxChainDepth

theorem Counted.nil {s : UInt64} : Counted r s 0 := fun _ hi => absurd hi (Nat.not_lt_zero _)

theorem Counted.cons {s : UInt64} {k : Nat} (hs : (s + 1).toNat ≤ r.limits.maxChainDepth) (hk : Counted r (s + 1) k) :
    Counted r s (k + 1) := by
  intro i hi
  cases i with
  | zero => simpa using hs
  | succ i => rw [counter_add_succ]; exact hk i (by omega)

/-- Below the largest limit, a chain counted from zero within the limit has at most `D` turns. -/
theorem Counted.le_limit {k : Nat} (hD : r.limits.maxChainDepth + 1 < UInt64.size) (hk : Counted r 0 k) :
    k ≤ r.limits.maxChainDepth := by
  induction k with
  | zero => exact Nat.zero_le _
  | succ k ih =>
    have hle := ih fun i hi => hk i (by omega)
    have hlast := hk k (by omega)
    rwa [UInt64.zero_add, counter_ofNat_succ_toNat (by omega)] at hlast

/-! ## Runs of the loop -/

/-- Only a function is callable; anything else is `NotCallable` of its kind. -/
theorem Value.toFunction_eq_error {v : Value} {k : Fault} :
    v.toFunction = .error k ↔ (∀ f, v ≠ .func f) ∧ k = .notCallable v.kind := by
  cases v with
  | func f => simp [Value.toFunction]
  | _ => simp [Value.toFunction, eq_comm]

/-- A failed over-application turn failed in its invocation, in the force of the invocation's cell, or because that
cell held no function. -/
theorem Stop.of_overTurn {fuel : Nat} {steps : UInt64} {g : Fn} {rest : List Value} {m m' : Machine} {e : Abort}
    (ha : g.arity ≤ r.limits.maxArity) (hl : g.need < rest.length) (hd : (steps + 1).toNat ≤ r.limits.maxChainDepth)
    (hb : 0 < fuel) (hturn : r.overTurn h g rest m = .error e m') : Stop r h fuel steps g rest m (.error e m') := by
  unfold overTurn at hturn
  rw [bind_of_ok (report_apply ..), bind_of_ok (count_apply ..)] at hturn
  rcases bind_eq_error.1 hturn with hi | ⟨c, m₁, hi, hrest⟩
  · exact .invoke ha hl hd hb hi
  rcases bind_eq_error.1 hrest with hf | ⟨v, m₂, hf, hv⟩
  · exact .force ha hl hd hb hi hf
  cases hk : v.toFunction with
  | ok g' => rw [hk] at hv; cases hv
  | error k =>
    rw [hk, ofExcept_error, fault_apply] at hv
    cases hv
    obtain ⟨hnf, rfl⟩ := Value.toFunction_eq_error.1 hk
    exact .notCallable ha hl hd hb hi hf hnf

/-- One turn of the loop: it stops, or it takes an over-application turn within the limit and with fuel, and goes on
with the function that turn gave, one turn of fuel fewer and the count one higher. -/
theorem loop_step (b : Nat) (s : UInt64) (f : Fn) (args : List Value) (m : Machine) :
    Stop r h b s f args m (r.loop h b s f args args.length m) ∨
    ∃ b' g₁ m₂, b = b' + 1 ∧ f.arity ≤ r.limits.maxArity ∧ f.need < args.length ∧
      (s + 1).toNat ≤ r.limits.maxChainDepth ∧ r.overTurn h f args m = .ok g₁ m₂ ∧
      r.loop h b s f args args.length m =
        r.loop h b' (s + 1) g₁ (args.drop f.need) (args.drop f.need).length m₂ := by
  by_cases ha : r.limits.maxArity < f.arity
  · left; rw [loop_of_arity ha]; exact .arity ha
  by_cases hl : args.length ≤ f.need
  · left; rw [loop_of_le (by omega) hl]; exact .last (by omega) hl
  by_cases hd : r.limits.maxChainDepth < (s + 1).toNat
  · left; rw [loop_of_deep (by omega) (by omega) hd]; exact .depth (by omega) (by omega) hd
  cases b with
  | zero =>
    left
    rw [loop_zero_of_lt (by omega) (by omega) (by omega)]
    exact .fuel (by omega) (by omega) (by omega) rfl
  | succ b =>
    rw [loop_succ_of_lt (by omega) (by omega) (by omega)]
    cases hturn : r.overTurn h f args m with
    | error e m' =>
      left
      rw [bind_of_error hturn]
      exact Stop.of_overTurn (by omega) (by omega) (by omega) (Nat.succ_pos b) hturn
    | ok g₁ m₂ =>
      right
      rw [bind_of_ok hturn]
      exact ⟨b, g₁, m₂, rfl, by omega, by omega, by omega, rfl, rfl⟩

/-- Every run of the loop with `b` turns of fuel from the count `s` is a chain of at most `b` over-application turns,
each within the limit, and one turn that stops it. -/
theorem loop_stops (b : Nat) (s : UInt64) (f : Fn) (args : List Value) (m : Machine) :
    ∃ turns g rest m₁, Overs r h f args m turns g rest m₁ ∧ turns.length ≤ b ∧ Counted r s turns.length ∧
      Stop r h (b - turns.length) (s + UInt64.ofNat turns.length) g rest m₁ (r.loop h b s f args args.length m) := by
  induction b generalizing s f args m with
  | zero =>
    rcases loop_step 0 s f args m with hstop | ⟨b', -, -, hb, -⟩
    · exact ⟨[], f, args, m, .nil, Nat.le_refl 0, Counted.nil, by simpa using hstop⟩
    · exact absurd hb.symm (Nat.succ_ne_zero b')
  | succ b ih =>
    rcases loop_step (b + 1) s f args m with hstop | ⟨b', g₁, m₂, hb, ha, hl, hd, hturn, hrun⟩
    · exact ⟨[], f, args, m, .nil, Nat.zero_le _, Counted.nil, by simpa using hstop⟩
    -- the turn went through: it is the first link of the chain, and the rest of the run counts on from `s + 1`
    obtain rfl : b' = b := (Nat.succ.inj hb).symm
    obtain ⟨c, m₁, v, hc, hv, hg⟩ := overTurn_eq_ok.1 hturn
    obtain ⟨turns, g, rest, m₃, ho, hlen, hcount, hstop⟩ := ih (s + 1) g₁ (args.drop f.need) m₂
    refine ⟨(f, args.take f.need) :: turns, g, rest, m₃, .turn ha hl hc hv hg ho, by simpa using hlen,
      hcount.cons hd, ?_⟩
    rw [hrun, List.length_cons, Nat.add_sub_add_right, counter_add_succ]
    exact hstop

/-- **Below the largest limit, over-application chains stop within it.** With `D + 1 < 2 ^ 64`, `applyFunction`
takes at most `D` over-application turns and never runs out of fuel. -/
theorem application_chain_is_bounded (r : Resolver) (hD : r.limits.maxChainDepth + 1 < UInt64.size) (h : Host)
    (f : Fn) (args : List Value) (m : Machine) :
    ∃ turns g rest m₁, Overs r h f args m turns g rest m₁ ∧ turns.length ≤ r.limits.maxChainDepth ∧
      (UInt64.ofNat turns.length + 1).toNat = turns.length + 1 ∧ 0 < chainFuel - turns.length ∧
      Stop r h (chainFuel - turns.length) (UInt64.ofNat turns.length) g rest m₁ (r.applyFunction h f args m) := by
  obtain ⟨turns, g, rest, m₁, ho, -, hcount, hstop⟩ := loop_stops (r := r) (h := h) chainFuel 0 f args m
  have hle := hcount.le_limit hD
  have hsize : UInt64.size = chainFuel := rfl
  rw [UInt64.zero_add] at hstop
  exact ⟨turns, g, rest, m₁, ho, hle, counter_ofNat_succ_toNat (by omega), by omega, hstop⟩

/-- The lambda `loop` of no argument whose body is its own function. -/
def selfLoop : Fn :=
  { lambda := { name := "loop", arity := 0, body := .self, home := 0 }, env := [], closure := 0, bound := [],
    boundId := 0 }

/-- A host whose every invocation gives a cell holding `loop`. -/
def selfLoopHost : Host :=
  { invoke := fun _ _ => pure 0, force := fun _ => pure (.func selfLoop) }

/-- With 2 as the limit, `loop` applied to one argument stops after at most two over-application turns. -/
theorem selfLoop_stops_within_two :
    ({ limits := { maxChainDepth := 2 } } : Resolver).limits.maxChainDepth + 1 < UInt64.size ∧
      ∃ turns g rest m₁,
        Overs { limits := { maxChainDepth := 2 } } selfLoopHost selfLoop [.unit] {} turns g rest m₁ ∧
        turns.length ≤ 2 := by
  have hD : ({ limits := { maxChainDepth := 2 } } : Resolver).limits.maxChainDepth + 1 < UInt64.size := by decide
  obtain ⟨turns, g, rest, m₁, ho, hle, -⟩ := application_chain_is_bounded _ hD selfLoopHost selfLoop [.unit] {}
  exact ⟨hD, turns, g, rest, m₁, ho, hle⟩

/-! ## The largest limit -/

/-- A function of no argument that a turn gives back runs one over-application turn after another on one argument,
counting each turn, until its fuel is out. -/
theorem loop_returns_to_itself {g : Fn} (ha : g.arity ≤ r.limits.maxArity) (hneed : g.need = 0)
    (hD : UInt64.size ≤ r.limits.maxChainDepth + 1) (x : Value)
    (hturn : ∀ m, ∃ m', r.overTurn h g [x] m = .ok g m') :
    ∀ (b : Nat) (s : UInt64) (m : Machine), ∃ m', Overs r h g [x] m (List.replicate b (g, [])) g [x] m' ∧
      r.loop h b s g [x] [x].length m = .error .exhausted m' := by
  intro b
  induction b with
  | zero =>
    intro s m
    exact ⟨m, .nil, by rw [loop_zero_of_lt ha (by simp [hneed]) (counter_within_top hD s)]; rfl⟩
  | succ b ih =>
    intro s m
    obtain ⟨m₂, hm₂⟩ := hturn m
    obtain ⟨c, m₁, v, hc, hv, hg⟩ := overTurn_eq_ok.1 hm₂
    have hover : g.need < [x].length := by simp [hneed]
    have hdrop : [x].drop g.need = [x] := by rw [hneed]; rfl
    have htake : [x].take g.need = [] := by rw [hneed]; rfl
    -- the turn takes no argument and gives `g` back, so the rest of the run is the same loop with one turn less
    obtain ⟨m', ho, hrun⟩ := ih (s + 1) m₂
    have hchain : Overs r h g [x] m ((g, [x].take g.need) :: List.replicate b (g, [])) g [x] m' :=
      .turn ha hover hc hv hg (by rwa [hdrop])
    rw [htake] at hchain
    refine ⟨m', hchain, ?_⟩
    rw [loop_succ_of_lt ha hover (counter_within_top hD s), bind_of_ok hm₂, hdrop]
    exact hrun

/-- **At the largest limit the chain is unbounded.** With `D = 2 ^ 64 - 1` no turn is refused for depth, and a
function its turn gives back takes more than `D` turns. -/
theorem chain_unbounded_at_top (r : Resolver) (hD : r.limits.maxChainDepth + 1 = UInt64.size) :
    (∀ s : UInt64, (s + 1).toNat ≤ r.limits.maxChainDepth) ∧
    ∀ (h : Host) (g : Fn), g.arity ≤ r.limits.maxArity → g.need = 0 → ∀ x : Value,
      (∀ m, ∃ m', r.overTurn h g [x] m = .ok g m') → ∀ m, ∃ m',
        Overs r h g [x] m (List.replicate chainFuel (g, [])) g [x] m' ∧ r.limits.maxChainDepth < chainFuel ∧
        r.applyFunction h g [x] m = .error .exhausted m' := by
  have htop : UInt64.size ≤ r.limits.maxChainDepth + 1 := Nat.le_of_eq hD.symm
  have hfuel : chainFuel = UInt64.size := rfl
  refine ⟨counter_within_top htop, fun h g ha hneed x hturn m => ?_⟩
  obtain ⟨m', ho, hrun⟩ := loop_returns_to_itself ha hneed htop x hturn chainFuel 0 m
  exact ⟨m', ho, by omega, hrun⟩

/-- The resolver at the largest chain limit, `2 ^ 64 - 1`. -/
def topResolver : Resolver := { limits := { maxChainDepth := UInt64.size - 1 } }

/-- At the largest limit, `loop` applied to one argument takes `2 ^ 64` over-application turns, more than the limit,
and is never refused for depth: it runs until fuel is out. -/
theorem selfLoop_runs_past_top_limit :
    topResolver.limits.maxChainDepth + 1 = UInt64.size ∧ topResolver.limits.maxChainDepth < chainFuel ∧
      ∃ m', Overs topResolver selfLoopHost selfLoop [.unit] {} (List.replicate chainFuel (selfLoop, [])) selfLoop
        [.unit] m' ∧ topResolver.applyFunction selfLoopHost selfLoop [.unit] {} = .error .exhausted m' := by
  have hD : topResolver.limits.maxChainDepth + 1 = UInt64.size := by decide
  have hturn : ∀ m, ∃ m', topResolver.overTurn selfLoopHost selfLoop [.unit] m = .ok selfLoop m' :=
    fun _ => ⟨_, overTurn_eq_ok.2 ⟨0, _, .func selfLoop, rfl, rfl, rfl⟩⟩
  obtain ⟨-, hrun⟩ := chain_unbounded_at_top _ hD
  obtain ⟨m', ho, hlt, hex⟩ := hrun selfLoopHost selfLoop (Nat.zero_le _) rfl .unit hturn {}
  exact ⟨hD, hlt, m', ho, hex⟩

end LazyCall.Resolver
