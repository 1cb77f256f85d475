import LazyCall.Resolver
import LazyCall.Proofs.Run

/-!
# The turns of an application

The resolver's loop takes its arguments from the left, one turn at a time. A turn with more arguments than the
function needs is an *over-application turn* (`overTurn`): it invokes the function with its bound arguments and as
many of the supplied ones as it needs, forces the cell the body gave and goes on with the function that cell
holds. The turn that ends the loop (`lastTurn`) invokes the function with all that is left, or binds it.

Main statement (`application_consumes_arguments_in_order`): a successful application is a chain of over-application
turns (`Overs`) followed by one last turn, and the arguments are the concatenation of the segments the turns took and
of what the last turn took. Every argument is handed on once, unchanged and in order; the only cells forced are the
result cells of the turns, and, around the loop, the callee and the final cell. The statement holds for every host,
so it is a fact about the resolver alone.
-/

namespace LazyCall.Resolver

open Run

variable (r : Resolver) (h : Host)

/-! ## Turns -/

/-- The machine after the resolver reports a decision: one more event when tracing. -/
def noted (d : Decision) (g : Fn) (supplied : Nat) (m : Machine) : Machine :=
  if r.trace then { m with events := m.events.push (.decided d g.name g.arity g.bound.length supplied) } else m

/-- The machine after an over-application turn is reported and counted. -/
def overNoted (g : Fn) (supplied : Nat) (m : Machine) : Machine :=
  let m₁ := r.noted .over g supplied m
  { m₁ with counters := m₁.counters.bump .overApplications }

/-- An over-application turn of `g` on `args`: invoke `g` with its bound arguments and the first arguments it
needs, force the cell, and take the function the cell holds. -/
def overTurn (g : Fn) (args : List Value) : Run Fn := do
  r.report .over g args.length
  Run.count .overApplications
  let c ← h.invoke g (g.bound ++ args.take g.need)
  let v ← h.force (.thunk c)
  Run.ofExcept v.toFunction

/-- The turn that ends an application of `g` to `rest`: with as many arguments as `g` needs, invoke it; with fewer,
bind them. -/
def lastTurn (g : Fn) (rest : List Value) : Run Applied :=
  if rest.length = g.need then do
    r.report .exact g rest.length
    .cell <$> h.invoke g (g.bound ++ rest)
  else do
    r.report .short g rest.length
    Run.count .partialApplications
    .curried <$> bindArgs g rest

/-- What evaluating an application does with what the application gave: force the cell, or give the function. -/
def finish : Applied → Run Value
  | .cell i => h.force (.thunk i)
  | .curried f => pure (.func f)

@[simp] theorem noted_cells (d : Decision) (g : Fn) (n : Nat) (m : Machine) : (r.noted d g n m).cells = m.cells := by
  unfold noted; split <;> rfl

@[simp] theorem noted_homes (d : Decision) (g : Fn) (n : Nat) (m : Machine) : (r.noted d g n m).homes = m.homes := by
  unfold noted; split <;> rfl

@[simp] theorem noted_fresh (d : Decision) (g : Fn) (n : Nat) (m : Machine) : (r.noted d g n m).fresh = m.fresh := by
  unfold noted; split <;> rfl

@[simp] theorem noted_counters (d : Decision) (g : Fn) (n : Nat) (m : Machine) :
    (r.noted d g n m).counters = m.counters := by
  unfold noted; split <;> rfl

theorem report_apply (d : Decision) (g : Fn) (n : Nat) (m : Machine) : r.report d g n m = .ok () (r.noted d g n m) := by
  unfold report noted
  cases r.trace <;> rfl

variable {r h}

/-- An over-application turn makes exactly one invocation and one force, of the cell the invocation gave. -/
theorem overTurn_eq_ok {g g₁ : Fn} {args : List Value} {m m' : Machine} :
    r.overTurn h g args m = .ok g₁ m' ↔ ∃ c m₁ v, h.invoke g (g.bound ++ args.take g.need) (r.overNoted g args.length m)
      = .ok c m₁ ∧ h.force (.thunk c) m₁ = .ok v m' ∧ v.toFunction = .ok g₁ := by
  unfold overTurn
  rw [bind_of_ok (report_apply ..), bind_of_ok (count_apply ..)]
  simp only [bind_eq_ok]
  constructor
  · rintro ⟨c, m₁, hc, v, m₂, hv, hg⟩
    cases hf : v.toFunction with
    | ok g' => rw [hf] at hg; cases hg; exact ⟨c, m₁, v, hc, hv, hf⟩
    | error e => rw [hf] at hg; cases hg
  · rintro ⟨c, m₁, v, hc, hv, hg⟩
    exact ⟨c, m₁, hc, v, m', hv, by rw [hg]; rfl⟩

/-- Binding no arguments gives the function itself; binding some gives the same closure with the arguments after
the bound ones, and touches no cell. -/
theorem bindArgs_eq_ok {g g' : Fn} {rest : List Value} {m m' : Machine} (hb : bindArgs g rest m = .ok g' m') :
    g'.lambda = g.lambda ∧ g'.env = g.env ∧ g'.closure = g.closure ∧ g'.bound = g.bound ++ rest ∧
      (rest = [] → g' = g) ∧ m'.cells = m.cells := by
  unfold bindArgs at hb
  split at hb
  · rename_i he
    cases hb
    have hr : rest = [] := List.isEmpty_iff.1 he
    subst hr
    exact ⟨rfl, rfl, rfl, by simp, fun _ => rfl, rfl⟩
  · rename_i he
    rw [bind_of_ok (count_apply ..), bind_of_ok (freshId_apply _)] at hb
    cases hb
    exact ⟨rfl, rfl, rfl, rfl, fun hr => by simp [hr] at he, rfl⟩

/-- What the last turn does: an exact turn invokes the function with its bound arguments followed by `rest`; a short
turn gives the same closure with `rest` bound after the bound arguments, the function itself when `rest` is empty,
and leaves the cells as they were. -/
theorem lastTurn_eq_ok {g : Fn} {rest : List Value} {m m' : Machine} {a : Applied}
    (ht : r.lastTurn h g rest m = .ok a m') :
    match a with
    | .cell c => rest.length = g.need ∧ h.invoke g (g.bound ++ rest) (r.noted .exact g rest.length m) = .ok c m'
    | .curried g' => rest.length ≠ g.need ∧ g'.lambda = g.lambda ∧ g'.env = g.env ∧ g'.closure = g.closure ∧
        g'.bound = g.bound ++ rest ∧ (rest = [] → g' = g) ∧ m'.cells = m.cells := by
  unfold lastTurn at ht
  split at ht
  · rename_i he
    rw [bind_of_ok (report_apply ..), map_eq_ok] at ht
    obtain ⟨c, hc, rfl⟩ := ht
    exact ⟨he, hc⟩
  · rename_i he
    rw [bind_of_ok (report_apply ..), bind_of_ok (count_apply ..), map_eq_ok] at ht
    obtain ⟨g', hb, rfl⟩ := ht
    obtain ⟨hl, he', hc, hbd, hid, hcells⟩ := bindArgs_eq_ok hb
    exact ⟨he, hl, he', hc, hbd, hid, by simpa using hcells⟩

/-! ## The loop, turn by turn -/

theorem loop_of_arity {b : Nat} {s : UInt64} {f : Fn} {args : List Value} {n : Nat}
    (ha : r.limits.maxArity < f.arity) :
    r.loop h b s f args n = Run.fault (.arityOutOfRange f.arity r.limits.maxArity) := by
  rw [loop.eq_def]; dsimp only; rw [if_pos ha]

theorem loop_of_le {b : Nat} {s : UInt64} {f : Fn} {args : List Value} (ha : f.arity ≤ r.limits.maxArity)
    (hl : args.length ≤ f.need) : r.loop h b s f args args.length = r.lastTurn h f args := by
  rw [loop.eq_def]; dsimp only; rw [if_neg (by omega), lastTurn]
  by_cases he : args.length = f.need
  · rw [if_pos he, if_pos he]
  · rw [if_neg he, if_neg he, if_pos (by omega)]

/-- A turn that takes the step counter past the chain limit is refused before it reports or counts anything. -/
theorem loop_of_deep {b : Nat} {s : UInt64} {f : Fn} {args : List Value} (ha : f.arity ≤ r.limits.maxArity)
    (hl : f.need < args.length) (hd : r.limits.maxChainDepth < (s + 1).toNat) :
    r.loop h b s f args args.length = Run.fault (.chainTooDeep r.limits.maxChainDepth) := by
  rw [loop.eq_def]; dsimp only; rw [if_neg (by omega), if_neg (by omega), if_neg (by omega), if_pos hd]

theorem loop_zero_of_lt {s : UInt64} {f : Fn} {args : List Value} (ha : f.arity ≤ r.limits.maxArity)
    (hl : f.need < args.length) (hd : (s + 1).toNat ≤ r.limits.maxChainDepth) :
    r.loop h 0 s f args args.length = throw .exhausted := by
  rw [loop.eq_def]; dsimp only; rw [if_neg (by omega), if_neg (by omega), if_neg (by omega), if_neg (by omega)]

theorem loop_succ_of_lt {b : Nat} {s : UInt64} {f : Fn} {args : List Value} (ha : f.arity ≤ r.limits.maxArity)
    (hl : f.need < args.length) (hd : (s + 1).toNat ≤ r.limits.maxChainDepth) :
    r.loop h (b + 1) s f args args.length =
      r.overTurn h f args >>= fun g => r.loop h b (s + 1) g (args.drop f.need) (args.drop f.need).length := by
  rw [loop.eq_def]; dsimp only
  rw [if_neg (by omega), if_neg (by omega), if_neg (by omega), if_neg (by omega), List.length_drop]
  simp only [overTurn, bind_assoc]

/-- **Induction along the turns of the loop.** A property of runs of the loop that holds of each way a turn can stop
it, and that an over-application turn carries back from every run of the rest of the loop, holds of every run. -/
theorem loop_induction {P : Nat → UInt64 → Fn → List Value → Run Applied → Prop}
    (arity : ∀ {b s f args}, r.limits.maxArity < f.arity →
      P b s f args (Run.fault (.arityOutOfRange f.arity r.limits.maxArity)))
    (last : ∀ {b s f args}, f.arity ≤ r.limits.maxArity → args.length ≤ f.need → P b s f args (r.lastTurn h f args))
    (deep : ∀ {b s f args}, f.arity ≤ r.limits.maxArity → f.need < args.length →
      r.limits.maxChainDepth < (s + 1).toNat → P b s f args (Run.fault (.chainTooDeep r.limits.maxChainDepth)))
    (exhausted : ∀ {s f args}, f.arity ≤ r.limits.maxArity → f.need < args.length →
      (s + 1).toNat ≤ r.limits.maxChainDepth → P 0 s f args (throw .exhausted))
    (turn : ∀ {b s f args}, f.arity ≤ r.limits.maxArity → f.need < args.length →
      (s + 1).toNat ≤ r.limits.maxChainDepth →
      (∀ g, P b (s + 1) g (args.drop f.need) (r.loop h b (s + 1) g (args.drop f.need) (args.drop f.need).length)) →
      P (b + 1) s f args
        (r.overTurn h f args >>= fun g => r.loop h b (s + 1) g (args.drop f.need) (args.drop f.need).length))
    (b : Nat) (s : UInt64) (f : Fn) (args : List Value) : P b s f args (r.loop h b s f args args.length) := by
  induction b generalizing s f args with
  | zero =>
    by_cases ha : r.limits.maxArity < f.arity
    · rw [loop_of_arity ha]; exact arity ha
    by_cases hl : args.length ≤ f.need
    · rw [loop_of_le (by omega) hl]; exact last (by omega) hl
    by_cases hd : r.limits.maxChainDepth < (s + 1).toNat
    · rw [loop_of_deep (by omega) (by omega) hd]; exact deep (by omega) (by omega) hd
    · rw [loop_zero_of_lt (by omega) (by omega) (by omega)]; exact exhausted (by omega) (by omega) (by omega)
  | succ b ih =>
    by_cases ha : r.limits.maxArity < f.arity
    · rw [loop_of_arity ha]; exact arity ha
    by_cases hl : args.length ≤ f.need
    · rw [loop_of_le (by omega) hl]; exact last (by omega) hl
    by_cases hd : r.limits.maxChainDepth < (s + 1).toNat
    · rw [loop_of_deep (by omega) (by omega) hd]; exact deep (by omega) (by omega) hd
    · rw [loop_succ_of_lt (by omega) (by omega) (by omega)]
      exact turn (by omega) (by omega) (by omega) fun g => ih (s + 1) g (args.drop f.need)

variable (r h)

/-- The over-application turns of a run: from `g` with the arguments `args` in the machine `m`, the turns `turns`
(each the function invoked and the arguments it took) lead to the function `g'` with the arguments `rest` left, in
the machine `m'`. A turn passes the arity check, has more arguments than its function needs, invokes the function
with its bound arguments and the first arguments it needs, forces the cell this gives, and goes on with the
function that cell holds. -/
inductive Overs : Fn → List Value → Machine → List (Fn × List Value) → Fn → List Value → Machine → Prop
  | nil {g : Fn} {args : List Value} {m : Machine} : Overs g args m [] g args m
  | turn {g : Fn} {args : List Value} {m : Machine} {c : Nat} {m₁ : Machine} {v : Value} {m₂ : Machine} {g₁ : Fn}
      {turns : List (Fn × List Value)} {g' : Fn} {rest : List Value} {m' : Machine} :
      g.arity ≤ r.limits.maxArity → g.need < args.length →
      h.invoke g (g.bound ++ args.take g.need) (r.overNoted g args.length m) = .ok c m₁ →
      h.force (.thunk c) m₁ = .ok v m₂ → v.toFunction = .ok g₁ →
      Overs g₁ (args.drop g.need) m₂ turns g' rest m' →
      Overs g args m ((g, args.take g.need) :: turns) g' rest m'

variable {r h}

/-- The turns take consecutive segments of the arguments, each as long as its function needs. -/
theorem Overs.segments {g g' : Fn} {args rest : List Value} {m m' : Machine} {turns : List (Fn × List Value)}
    (ho : Overs r h g args m turns g' rest m') :
    args = (turns.map Prod.snd).flatten ++ rest ∧ ∀ t ∈ turns, t.2.length = t.1.need := by
  induction ho with
  | nil => exact ⟨rfl, fun _ ht => by cases ht⟩
  | @turn g args _ _ _ _ _ _ _ _ _ _ hl _ _ _ _ _ ih =>
    obtain ⟨hargs, hlen⟩ := ih
    refine ⟨?_, ?_⟩
    · rw [List.map_cons, List.flatten_cons, List.append_assoc, ← hargs, List.take_append_drop]
    · rintro t (_ | ⟨_, ht⟩)
      · simp only [List.length_take]; omega
      · exact hlen t ht

/-- A successful loop is a chain of over-application turns and a last turn. -/
theorem loop_turns (b : Nat) (s : UInt64) (f : Fn) (args : List Value) {m m' : Machine} {a : Applied}
    (hrun : r.loop h b s f args args.length m = .ok a m') :
    ∃ turns g rest m₁, Overs r h f args m turns g rest m₁ ∧ g.arity ≤ r.limits.maxArity ∧
      rest.length ≤ g.need ∧ r.lastTurn h g rest m₁ = .ok a m' := by
  refine loop_induction (P := fun _ _ f args x => ∀ m, x m = .ok a m' → ∃ turns g rest m₁,
      Overs r h f args m turns g rest m₁ ∧ g.arity ≤ r.limits.maxArity ∧ rest.length ≤ g.need ∧
        r.lastTurn h g rest m₁ = .ok a m') ?arity ?last ?deep ?exhausted ?turn b s f args m hrun
  case arity | deep | exhausted => intros; contradiction
  case last => exact fun {_ _ f args} ha hl m hrun => ⟨[], f, args, m, .nil, ha, hl, hrun⟩
  case turn =>
    intro _ _ f args ha hl _ ih m hrun
    obtain ⟨g₁, m₂, hturn, hrest⟩ := bind_eq_ok.1 hrun
    obtain ⟨c, m₁, v, hc, hv, hg⟩ := overTurn_eq_ok.1 hturn
    obtain ⟨turns, g, rest, m₃, ho, hga, hrl, hlast⟩ := ih g₁ m₂ hrest
    exact ⟨_, g, rest, m₃, .turn ha hl hc hv hg ho, hga, hrl, hlast⟩

theorem eval_eq_finish (callee : Value) (args : List Value) : r.eval h callee args = r.apply h callee args >>= finish h :=
  rfl

/-- Forcing the callee, then applying the function it gives, then forcing the result cell: `eval` forces nothing
else of its own. -/
theorem eval_eq_ok {callee : Value} {args : List Value} {m m' : Machine} {v : Value} :
    r.eval h callee args m = .ok v m' ↔ ∃ w m₀ f a m₁, h.force callee m = .ok w m₀ ∧ w.toFunction = .ok f ∧
      r.applyFunction h f args m₀ = .ok a m₁ ∧
      match a with
      | .cell c => h.force (.thunk c) m₁ = .ok v m'
      | .curried g => v = .func g ∧ m' = m₁ := by
  simp only [eval, apply, bind_eq_ok]
  constructor
  · rintro ⟨a, m₁, ⟨w, m₀, hw, f, _, hf, happ⟩, hfin⟩
    cases hwf : w.toFunction with
    | error e => rw [hwf] at hf; cases hf
    | ok f' =>
      rw [hwf] at hf
      cases hf
      refine ⟨w, m₀, _, a, m₁, hw, hwf, happ, ?_⟩
      cases a with
      | cell c => exact hfin
      | curried g => cases hfin; exact ⟨rfl, rfl⟩
  · rintro ⟨w, m₀, f, a, m₁, hw, hf, happ, hfin⟩
    refine ⟨a, m₁, ⟨w, m₀, hw, f, m₀, by rw [hf]; rfl, happ⟩, ?_⟩
    cases a with
    | cell c => exact hfin
    | curried g => obtain ⟨rfl, rfl⟩ := hfin; rfl

/-- **Arguments are consumed from the left.** A successful application is a chain of over-application turns, each
taking the next arguments its function needs, then one last turn on the rest. -/
theorem application_consumes_arguments_in_order :
    (∀ {f : Fn} {args : List Value} {m m' : Machine} {a : Applied}, r.applyFunction h f args m = .ok a m' →
      ∃ turns g rest m₁, Overs r h f args m turns g rest m₁ ∧ args = (turns.map Prod.snd).flatten ++ rest ∧
        (∀ t ∈ turns, t.2.length = t.1.need) ∧ g.arity ≤ r.limits.maxArity ∧
        match a with
        | .cell c => rest.length = g.need ∧ h.invoke g (g.bound ++ rest) (r.noted .exact g rest.length m₁) = .ok c m'
        | .curried g' => rest.length < g.need ∧ g'.lambda = g.lambda ∧ g'.env = g.env ∧ g'.closure = g.closure ∧
            g'.bound = g.bound ++ rest ∧ (rest = [] → g' = g) ∧ m'.cells = m₁.cells) ∧
    (∀ {callee : Value} {args : List Value} {m m' : Machine} {v : Value}, r.eval h callee args m = .ok v m' →
      ∃ w m₀ f a m₁, h.force callee m = .ok w m₀ ∧ w.toFunction = .ok f ∧ r.applyFunction h f args m₀ = .ok a m₁ ∧
        match a with
        | .cell c => h.force (.thunk c) m₁ = .ok v m'
        | .curried g => v = .func g ∧ m' = m₁) := by
  refine ⟨fun {f args m m' a} hrun => ?_, fun hrun => eval_eq_ok.1 hrun⟩
  obtain ⟨turns, g, rest, m₁, ho, hga, hrl, hlast⟩ := loop_turns _ _ _ _ hrun
  obtain ⟨hargs, hseg⟩ := ho.segments
  refine ⟨turns, g, rest, m₁, ho, hargs, hseg, hga, ?_⟩
  have hl := lastTurn_eq_ok hlast
  cases a with
  | cell c => exact hl
  | curried g' =>
    obtain ⟨hne, hrest⟩ := hl
    exact ⟨by omega, hrest⟩

/-- `make`, a function of no argument. -/
def makeFn : Fn :=
  { lambda := { name := "make", arity := 0, body := .lambda "id" 1 none (.arg 0), home := 0 }, env := [], closure := 1,
    bound := [], boundId := 0 }

/-- `id`, a function of one argument. -/
def idFn : Fn :=
  { lambda := { name := "id", arity := 1, body := .arg 0, home := 1 }, env := [], closure := 2, bound := [],
    boundId := 0 }

/-- A host whose invocations give the cell `0`, which holds `id`. -/
def makeHost : Host := { invoke := fun _ _ => pure 0, force := fun _ => pure (.func idFn) }

/-- `make` applied to one argument: an over-application turn takes no argument and gives `id`, whose last turn takes
the argument. -/
theorem make_applied_takes_one_turn :
    ∃ m', applyFunction {} makeHost makeFn [.unit] {} = .ok (.cell 0) m' ∧
      ∃ turns g rest m₁, Overs {} makeHost makeFn [.unit] {} turns g rest m₁ ∧ turns ≠ [] ∧
        [Value.unit] = (turns.map Prod.snd).flatten ++ rest := by
  obtain ⟨m', hrun⟩ : ∃ m', applyFunction {} makeHost makeFn [.unit] {} = .ok (.cell 0) m' := ⟨_, rfl⟩
  obtain ⟨turns, g, rest, m₁, ho, hargs, -, -, hlast⟩ := application_consumes_arguments_in_order.1 hrun
  refine ⟨m', hrun, turns, g, rest, m₁, ho, ?_, hargs⟩
  -- with no turn the last turn would be `make` itself, which needs no argument and is given one
  rintro rfl
  cases ho
  exact absurd hlast.1 (by decide)

end LazyCall.Resolver
