import LazyCall.Proofs.Sound
import LazyCall.Proofs.Turns
import LazyCall.Proofs.Force

/-!
# Every run keeps the machine sound

Main statement (`evalKeeps`): evaluating an expression, forcing a value and invoking a function keep the machine
sound and only let it grow, and what they give is below the counter; a force gives a value in weak head normal form.

The resolver is shown first for any host that keeps machines sound (`Host.Keeps`, `Resolver.keeps_eval`); the
evaluator lends it `host cx fuel`, which keeps them by the induction on fuel. Forcing a cell (`keeps_forceCell`) is
the one place where growth is not just the composition of its steps: the cell is claimed, the computation runs while
the cell stays claimed, and the force settles it, a move `Cell.Next` allows from the pending state it started in.
-/

namespace LazyCall

open Run

/-- What an application gives is below `n`: a cell, or a function below `n`. -/
def Applied.Below (n : Nat) : Applied → Prop
  | .cell _ => True
  | .curried g => g.Below n

/-- A host that keeps machines sound from the counter `n₀` on: invoking and forcing values below the counter keep the
machine sound, and a force gives a value below the counter in weak head normal form. -/
structure Host.Keeps (h : Host) (n₀ : Nat) : Prop where
  invoke : ∀ n f args, n₀ ≤ n → f.Below n → (∀ v ∈ args, v.Below n) → Run.Keeps n (h.invoke f args) fun _ _ => True
  force : ∀ n v, n₀ ≤ n → v.Below n → Run.Keeps n (h.force v) fun w k => w.Below k ∧ w.Whnf

/-! ## The resolver -/

namespace Resolver

variable {r : Resolver} {h : Host} {n₀ n : Nat}

theorem keeps_report (d : Decision) (g : Fn) (s : Nat) : Run.Keeps n (r.report d g s) fun _ _ => True :=
  Keeps.of_quiet fun m => ⟨(), _, report_apply r d g s m, by simp, by simp, by simp, fun _ _ => trivial⟩

theorem keeps_bindArgs {f : Fn} {args : List Value} (hf : f.Below n) (ha : ∀ v ∈ args, v.Below n) :
    Run.Keeps n (bindArgs f args) fun g k => g.Below k := by
  unfold bindArgs
  split
  · exact Keeps.pure fun k hk => hf.mono hk
  · refine Keeps.bind (keeps_count _) fun _ k hk _ => Keeps.bind keeps_freshId fun i k' hk' hi => ?_
    refine Keeps.pure fun k'' hk'' => ?_
    obtain ⟨he, hc, hb, _⟩ := Callable.below_iff.1 hf
    refine Callable.below_iff.2 ⟨fun v hv => (he v hv).mono ?_, by dsimp only; omega, fun v hv => ?_, by dsimp only; omega⟩
    · omega
    · rcases List.mem_append.1 hv with hv | hv
      · exact (hb v hv).mono (by omega)
      · exact (ha v hv).mono (by omega)

theorem keeps_lastTurn (hh : h.Keeps n₀) (hn : n₀ ≤ n) {g : Fn} {rest : List Value} (hg : g.Below n)
    (hr : ∀ v ∈ rest, v.Below n) : Run.Keeps n (r.lastTurn h g rest) fun a k => a.Below k := by
  unfold lastTurn
  split
  · refine Keeps.bind (keeps_report _ _ _) fun _ k hk _ => Keeps.map (hh.invoke k g _ (by omega) (hg.mono hk) ?_)
      fun _ _ _ => trivial
    intro v hv
    rcases List.mem_append.1 hv with hv | hv
    · exact ((Callable.below_iff.1 hg).2.2.1 v hv).mono hk
    · exact (hr v hv).mono hk
  · refine Keeps.bind (keeps_report _ _ _) fun _ k hk _ => Keeps.bind (keeps_count _) fun _ k' hk' _ =>
      Keeps.map (keeps_bindArgs (hg.mono (by omega)) fun v hv => (hr v hv).mono (by omega)) fun _ _ hg' => hg'

theorem keeps_overTurn (hh : h.Keeps n₀) (hn : n₀ ≤ n) {g : Fn} {args : List Value} (hg : g.Below n)
    (ha : ∀ v ∈ args, v.Below n) : Run.Keeps n (r.overTurn h g args) fun g k => g.Below k := by
  unfold overTurn
  refine Keeps.bind (keeps_report _ _ _) fun _ k hk _ => Keeps.bind (keeps_count _) fun _ k' hk' _ => ?_
  refine Keeps.bind (hh.invoke k' g _ (by omega) (hg.mono (by omega)) ?_) fun c k₁ hk₁ _ => ?_
  · intro v hv
    rcases List.mem_append.1 hv with hv | hv
    · exact ((Callable.below_iff.1 hg).2.2.1 v hv).mono (by omega)
    · exact (ha v (List.mem_of_mem_take hv)).mono (by omega)
  refine Keeps.bind (hh.force k₁ _ (by omega) trivial) fun v k₂ hk₂ hv => ?_
  exact Keeps.ofExcept fun f hf k₃ hk₃ => (Value.toFunction_below hv.1 hf).mono hk₃

theorem keeps_loop (hh : h.Keeps n₀) (b : Nat) (s : UInt64) (f : Fn) (args : List Value) :
    ∀ {n : Nat}, n₀ ≤ n → f.Below n → (∀ v ∈ args, v.Below n) →
      Run.Keeps n (r.loop h b s f args args.length) fun a k => a.Below k := by
  refine loop_induction (P := fun _ _ f args x => ∀ {n : Nat}, n₀ ≤ n → f.Below n → (∀ v ∈ args, v.Below n) →
    Run.Keeps n x fun a k => a.Below k) ?arity ?last ?deep ?exhausted ?turn b s f args
  case arity | deep | exhausted => intros; exact Keeps.throw
  case last =>
    intro _ _ _ _ _ _ n hn hf ha
    exact keeps_lastTurn hh hn hf ha
  case turn =>
    intro _ _ _ args _ _ _ ih n hn hf ha
    exact Keeps.bind (keeps_overTurn hh hn hf ha) fun g k hk hg =>
      ih g (by omega) hg fun v hv => (ha v (List.mem_of_mem_drop hv)).mono hk

theorem keeps_applyFunction (hh : h.Keeps n₀) (hn : n₀ ≤ n) {f : Fn} {args : List Value} (hf : f.Below n)
    (ha : ∀ v ∈ args, v.Below n) : Run.Keeps n (r.applyFunction h f args) fun a k => a.Below k :=
  keeps_loop hh _ _ f args hn hf ha

theorem keeps_apply (hh : h.Keeps n₀) (hn : n₀ ≤ n) {callee : Value} {args : List Value} (hc : callee.Below n)
    (ha : ∀ v ∈ args, v.Below n) : Run.Keeps n (r.apply h callee args) fun a k => a.Below k := by
  unfold apply
  refine Keeps.bind (hh.force n callee hn hc) fun v k hk hv => Keeps.bind (Keeps.ofExcept fun f hf k' hk' =>
    (Value.toFunction_below hv.1 hf).mono hk') fun f k' hk' hf => ?_
  exact keeps_applyFunction hh (by omega) hf fun a ha' => (ha a ha').mono (by omega)

theorem keeps_eval (hh : h.Keeps n₀) (hn : n₀ ≤ n) {callee : Value} {args : List Value} (hc : callee.Below n)
    (ha : ∀ v ∈ args, v.Below n) : Run.Keeps n (r.eval h callee args) fun v k => v.Below k ∧ v.Whnf := by
  unfold eval
  refine Keeps.bind (keeps_apply hh hn hc ha) fun a k hk ha' => ?_
  cases a with
  | cell i => exact hh.force k _ (by omega) trivial
  | curried g => exact Keeps.pure fun k' hk' => ⟨(show g.Below k from ha').mono hk', trivial⟩

end Resolver

/-! ## Forcing a cell -/

/-- A force keeps the machine sound whenever the computation and the force of its value do. -/
theorem keeps_forceCell {compute : Job → Run Value} {whnf : Value → Run Value} {n₀ n : Nat} (hn : n₀ ≤ n)
    (hc : ∀ job k, n₀ ≤ k → job.scope.Below k → Run.Keeps k (compute job) fun v k => v.Below k)
    (hw : ∀ v k, n₀ ≤ k → v.Below k → Run.Keeps k (whnf v) fun w k => w.Below k ∧ w.Whnf) (i : Nat) :
    Run.Keeps n (forceCell compute whnf i) fun w k => w.Below k ∧ w.Whnf := by
  intro m hm hnm
  have hcell := hm.cell i
  cases hci : m.cell i with
  | done v =>
    rw [hci] at hcell
    rw [forceCell_done hci]
    exact ⟨⟨hm.fresh_pos, hm.cells, hm.homes⟩, .of_cells rfl (Nat.le_refl _), hcell⟩
  | failed f => rw [forceCell_failed hci]; exact ⟨hm, .refl m⟩
  | running =>
    rw [forceCell_running hci]
    exact ⟨⟨hm.fresh_pos, hm.cells, hm.homes⟩, .of_cells rfl (Nat.le_refl _)⟩
  | pending job =>
    rw [hci] at hcell
    have hi : i < m.cells.size := Machine.lt_size_of_cell hci (by intro h; cases h)
    have hclaim : (m.claim i).Sound := (hm.set i (c := .running) trivial).congr rfl rfl rfl
    have hgrow : m.Grows (m.claim i) :=
      ⟨Nat.le_refl _, by simp [Machine.claim], fun j hj => by
        by_cases hij : i = j
        · subst hij
          rw [show (m.claim i).cell i = .running from Machine.cell_set_self hi, hci]
          exact .claim job
        · rw [show (m.claim i).cell j = m.cell j from Machine.cell_set_ne hij]; exact .refl _⟩
    have hrun := Keeps.bind (hc job m.fresh (by omega) hcell) (fun v k hk hv => hw v k (by omega) hv) (m.claim i) hclaim
      (Nat.le_refl _)
    -- the settle: the claimed cell takes its outcome, a move from the pending state the force started in
    have hsettle : ∀ {m' : Machine} {c : Cell}, m.Grows m' → c.Sound m'.fresh → (Cell.pending job).Next c →
        m'.Sound → (m'.settle i c).Sound ∧ m.Grows (m'.settle i c) := fun {m' c} hg hcs hnext hm' =>
      ⟨hm'.set i hcs, ⟨hg.fresh, by simpa [Machine.settle] using hg.size, fun j hj => by
        by_cases hij : i = j
        · subst hij
          rw [show (m'.settle i c).cell i = c from Machine.cell_set_self (Nat.lt_of_lt_of_le hi hg.size), hci]
          exact hnext
        · rw [show (m'.settle i c).cell j = m'.cell j from Machine.cell_set_ne hij]; exact hg.cells j hj⟩⟩
    cases hr : (compute job >>= whnf) (m.claim i) with
    | ok v m' =>
      rw [hr] at hrun
      obtain ⟨hm', hg', hv⟩ := hrun
      rw [forceCell_pending_ok hci hr]
      obtain ⟨hs, hg⟩ := hsettle (c := .done v) (hgrow.trans hg') hv (.done job v) hm'
      exact ⟨hs, hg, hv⟩
    | error e m' =>
      rw [hr] at hrun
      obtain ⟨hm', hg'⟩ := hrun
      cases e with
      | fault f =>
        rw [forceCell_pending_fault hci hr]
        exact hsettle (hgrow.trans hg') trivial (.failed job f) hm'
      | panic msg =>
        rw [forceCell_pending_abort hci (fun _ h => by cases h) hr]
        exact hsettle (hgrow.trans hg') trivial (.failed job _) hm'
      | exhausted =>
        rw [forceCell_pending_abort hci (fun _ h => by cases h) hr]
        exact hsettle (hgrow.trans hg') trivial (.failed job _) hm'

/-! ## The evaluator's pieces -/

theorem Run.keeps_get {n : Nat} : Run.Keeps n get fun m k => m.Sound ∧ m.fresh = k :=
  fun m hm _ => ⟨hm, .refl m, hm, rfl⟩

theorem keeps_needFn {n : Nat} {v : Value} (hv : v.Below n) : Run.Keeps n (needFn v) fun f k => f.Below k := by
  cases v with
  | func f => exact Keeps.pure fun k hk => (Value.below_func.1 hv).mono hk
  | _ => exact Keeps.failWith

theorem keeps_buildFunction {n : Nat} {name : String} {arity : Nat} {body : Expr} {env : List Value}
    (henv : ∀ v ∈ env, v.Below n) : Run.Keeps n (buildFunction name arity body env) fun v k => v.Below k := by
  unfold buildFunction
  refine Keeps.bind keeps_get fun m k hk _ => Keeps.bind keeps_freshId fun c k₁ hk₁ hc => ?_
  have hf : ∀ k', k₁ ≤ k' → ∀ lam : Lambda, Callable.Below k' ⟨lam, env, c, [], 0⟩ := fun k' hk' _ =>
    Callable.below_iff.2 ⟨fun v hv => (henv v hv).mono (by omega), by dsimp only; omega, by simp, by dsimp only; omega⟩
  exact Keeps.bind (keeps_addHome (hf k₁ (Nat.le_refl _) _)) fun _ k₂ hk₂ _ =>
    Keeps.bind (keeps_count _) fun _ k₃ hk₃ _ => Keeps.bind (keeps_count _) fun _ k₄ hk₄ _ =>
      Keeps.pure fun k₅ hk₅ => Value.below_func.2 (hf k₅ (by omega) _)

theorem keeps_targetFunction {n : Nat} (t : Target) {v : Value} (hv : v.Below n) :
    Run.Keeps n (targetFunction t v) fun f k => f.Below k := by
  unfold targetFunction
  cases t with
  | value => exact Keeps.ofExcept fun f hf k hk => (Value.toFunction_below hv hf).mono hk
  | function => exact keeps_needFn hv
  | closure =>
    refine Keeps.bind (keeps_needFn hv) fun f k hk hf => Keeps.bind (keeps_count _) fun _ k₁ hk₁ _ =>
      Keeps.bind keeps_freshId fun c k₂ hk₂ hc => Keeps.pure fun k₃ hk₃ => ?_
    obtain ⟨he, _, _, _⟩ := Callable.below_iff.1 hf
    exact Callable.below_iff.2 ⟨fun v hv => (he v hv).mono (by omega), by dsimp only; omega,
      by simp [Callable.unbound], by simp only [Callable.unbound]; omega⟩
  | lambda =>
    refine Keeps.bind (keeps_needFn hv) fun f k hk hf => Keeps.bind (keeps_count _) fun _ k₁ hk₁ _ =>
      Keeps.bind (keeps_count _) fun _ k₂ hk₂ _ => Keeps.bind keeps_freshId fun c k₃ hk₃ hc =>
        Keeps.pure fun k₄ hk₄ => ?_
    exact Callable.below_iff.2 ⟨by simp, by dsimp only; omega, by simp [Callable.unbound],
      by simp only [Callable.unbound]; omega⟩

theorem keeps_onValues {n : Nat} (op : Arith) (a b : Value) :
    Run.Keeps n (op.onValues a b) fun v k => v.Below k := by
  unfold Arith.onValues
  split
  · split
    · exact Keeps.pure fun _ _ => trivial
    · exact Keeps.failWith
  · exact Keeps.pure fun _ _ => trivial
  · exact Keeps.failWith

theorem keeps_lessValues {n : Nat} (a b : Value) : Run.Keeps n (lessValues a b) fun v k => v.Below k := by
  unfold lessValues
  split
  · exact Keeps.pure fun _ _ => trivial
  · exact Keeps.pure fun _ _ => trivial
  · exact Keeps.failWith

theorem keeps_indexValues {n : Nat} {a : Value} (b : Value) (ha : a.Below n) :
    Run.Keeps n (indexValues a b) fun v k => v.Below k := by
  unfold indexValues
  split
  · rename_i items k
    split
    · refine Keeps.pure fun k' hk' => ?_
      rw [List.getD_eq_getElem?_getD]
      cases hi : items[k.toInt.toNat]? with
      | none => trivial
      | some v => exact ((Value.below_array.1 ha) v (List.mem_of_getElem? hi)).mono hk'
    · exact Keeps.failWith
  · exact Keeps.failWith

theorem Value.below_getLastD {n : Nat} {vs : List Value} (h : ∀ v ∈ vs, v.Below n) :
    (vs.getLastD .unit).Below n := by
  rcases List.mem_cons.1 (List.getLastD_mem_cons (l := vs) (a := .unit)) with he | hm
  · rw [he]; trivial
  · exact h _ hm

theorem Context.Below.lookup {n : Nat} {cx : Context} (hc : cx.Below n) {name : String} {v : Value}
    (hl : cx.lookup name = some v) : v.Below n := by
  unfold Context.lookup at hl
  cases hf : cx.bindings.find? (·.1 == name) with
  | none => rw [hf] at hl; cases hl
  | some p =>
    rw [hf] at hl
    cases hl
    exact hc p (List.mem_of_find?_eq_some hf)

/-- A settled cell of a sound machine holds a value below the counter. -/
theorem Machine.Sound.peek {m : Machine} (hm : m.Sound) {i : Nat} : ∀ v ∈ m.peek? i, v.Below m.fresh := by
  intro v hv
  have hc := hm.cell i
  unfold Machine.peek? at hv
  split at hv
  · rename_i w hw
    rw [hw] at hc
    cases hv
    exact hc.1
  · cases hv

theorem Applied.below_toValue {n : Nat} {a : Applied} (ha : a.Below n) : a.toValue.Below n := by
  cases a with
  | cell i => trivial
  | curried g => exact Value.below_func.2 ha

/-! ## The induction on fuel -/

/-- The evaluator at `fuel` keeps machines sound from the counter `n₀` on. -/
structure EvalKeeps (cx : Context) (n₀ fuel : Nat) : Prop where
  eval : ∀ e s n, n₀ ≤ n → s.Below n → Run.Keeps n (eval cx fuel e s) fun v k => v.Below k
  force : ∀ v n, n₀ ≤ n → v.Below n → Run.Keeps n (force cx fuel v) fun w k => w.Below k ∧ w.Whnf
  invoke : ∀ f args n, n₀ ≤ n → f.Below n → (∀ v ∈ args, v.Below n) →
    Run.Keeps n (invoke cx fuel f args) fun _ _ => True
  host : (host cx fuel).Keeps n₀

section Step

variable {cx : Context} {n₀ fuel : Nat}

theorem evalKeeps_zero (cx : Context) (n₀ : Nat) : EvalKeeps cx n₀ 0 where
  eval _ _ _ _ _ := by rw [eval]; exact Keeps.throw
  force _ _ _ _ := by rw [force]; exact Keeps.throw
  invoke _ _ _ _ _ _ := by rw [invoke]; exact Keeps.throw
  host := ⟨fun _ _ _ _ _ _ => Keeps.throw, fun _ _ _ _ => Keeps.throw⟩

theorem keeps_force_succ (ih : EvalKeeps cx n₀ fuel) {v : Value} {n : Nat} (hn : n₀ ≤ n) (hv : v.Below n) :
    Run.Keeps n (force cx (fuel + 1) v) fun w k => w.Below k ∧ w.Whnf := by
  rw [force.eq_def]
  cases v with
  | thunk i =>
    exact keeps_forceCell hn (fun job k hk hs => ih.eval job.expr job.scope k hk hs)
      (fun w k hk hw => ih.force w k hk hw) i
  | _ => exact Keeps.pure fun k hk => ⟨hv.mono hk, trivial⟩

theorem keeps_invoke_succ (ih : EvalKeeps cx n₀ fuel) {f : Fn} {args : List Value} {n : Nat} (hn : n₀ ≤ n)
    (hf : f.Below n) (ha : ∀ v ∈ args, v.Below n) : Run.Keeps n (invoke cx (fuel + 1) f args) fun _ _ => True := by
  rw [invoke]
  split
  · exact Keeps.fault
  · refine Keeps.bind (keeps_count _) fun _ k hk _ => Keeps.bind (keeps_home _) fun self k₁ hk₁ hself => ?_
    refine Keeps.bind (ih.eval _ _ k₁ (by omega) ⟨fun v hv => (ha v hv).mono (by omega),
      fun v hv => ((Callable.below_iff.1 hf).1 v hv).mono (by omega), hself⟩) fun v k₂ hk₂ hv => ?_
    exact keeps_cellOf hv

/-- Operands evaluated in one scope give values below the counter. -/
theorem EvalKeeps.evalAll (he : EvalKeeps cx n₀ fuel) (es : List Expr) {s : Scope} {n : Nat} (hn : n₀ ≤ n)
    (hs : s.Below n) : Run.Keeps n (evalAll cx fuel es s) fun vs k => ∀ v ∈ vs, v.Below k :=
  Keeps.mapM (fun _ _ _ hv hk => hv.mono hk) fun e _ k hk => he.eval e s k (by omega) (hs.mono hk)

theorem keeps_eval_succ (hcx : cx.Below n₀) (ih : EvalKeeps cx n₀ fuel) (e : Expr) {s : Scope} {n : Nat}
    (hn : n₀ ≤ n) (hs : s.Below n) : Run.Keeps n (eval cx (fuel + 1) e s) fun v k => v.Below k := by
  have hev : ∀ e k, n ≤ k → Run.Keeps k (eval cx fuel e s) fun v k => v.Below k :=
    fun e k hk => ih.eval e s k (by omega) (hs.mono hk)
  have hall : ∀ (es : List Expr) k, n ≤ k →
      Run.Keeps k (es.mapM (eval cx fuel · s)) fun vs k => ∀ v ∈ vs, v.Below k :=
    fun es k hk => ih.evalAll es (by omega) (hs.mono hk)
  have hforced : ∀ {β : Type} {R : β → Nat → Prop} {g : Value → Run β} e k, n ≤ k →
      (∀ w k', k ≤ k' → w.Below k' → Run.Keeps k' (g w) R) →
      Run.Keeps k (eval cx fuel e s >>= fun v => force cx fuel v >>= g) R :=
    fun e k hk hg => Keeps.bind (hev e k hk) fun v k' hk' hv =>
      Keeps.bind (ih.force v k' (by omega) hv) fun w k'' hk'' hw => hg w k'' (by omega) hw.1
  rw [eval.eq_def]
  cases e with
  | int _ | float _ | bool _ | str _ | unit | limits | sleep _ => exact Keeps.pure fun _ _ => by simp
  | array items => exact Keeps.map (hall items n (Nat.le_refl _)) fun _ _ h => Value.below_array.2 h
  | foreign tag => exact Keeps.bind keeps_freshId fun i k hk hi => Keeps.pure fun k' hk' => by simp; omega
  | arg i =>
    dsimp only
    split
    · rename_i v hv
      exact Keeps.pure fun k hk => (hs.1 v (List.mem_of_getElem? hv)).mono hk
    · exact Keeps.failWith
  | envSlot i =>
    dsimp only
    split
    · rename_i v hv
      exact Keeps.pure fun k hk => (hs.2.1 v (List.mem_of_getElem? hv)).mono hk
    · exact Keeps.failWith
  | var name =>
    dsimp only
    split
    · rename_i v hv
      exact Keeps.pure fun k hk => (hcx.lookup hv).mono (by omega)
    · exact Keeps.failWith
  | self =>
    dsimp only
    split
    · rename_i f hf
      exact Keeps.pure fun k hk => Value.below_func.2 ((hs.2.2 f hf).mono hk)
    · exact Keeps.failWith
  | this =>
    dsimp only
    split
    · exact Keeps.pure fun _ _ => trivial
    · exact Keeps.failWith
  | lambda name arity env body =>
    have hbuild : ∀ vs k, (∀ v ∈ vs, v.Below k) → Run.Keeps k
        (if arity > maxSupportedArity then Run.fault (.arityOutOfRange arity maxSupportedArity)
          else Run.count .lambdas >>= fun _ => buildFunction name arity body vs) fun v k => v.Below k := by
      intro vs k hvs
      split
      · exact Keeps.fault
      · exact Keeps.bind (keeps_count _) fun _ k₁ hk₁ _ => keeps_buildFunction fun v hv => (hvs v hv).mono hk₁
    cases env with
    | none =>
      exact Keeps.bind (Q := fun (vs : List Value) k => ∀ v ∈ vs, v.Below k) (Keeps.pure fun _ _ _ h => by cases h)
        fun vs k _ hvs => hbuild vs k hvs
    | some es => exact Keeps.bind (hall es n (Nat.le_refl _)) fun vs k _ hvs => hbuild vs k hvs
  | apply callee args =>
    refine Keeps.bind (hev callee n (Nat.le_refl _)) fun f k hk hf => Keeps.bind (hall args k hk) fun vs k₁ hk₁ hvs => ?_
    exact Keeps.map (Resolver.keeps_apply ih.host (by omega) (hf.mono hk₁) hvs) fun _ _ => Applied.below_toValue
  | eval callee args =>
    refine Keeps.bind (hev callee n (Nat.le_refl _)) fun f k hk hf => Keeps.bind (hall args k hk) fun vs k₁ hk₁ hvs => ?_
    exact Keeps.weaken (Resolver.keeps_eval ih.host (by omega) (hf.mono hk₁) hvs) fun _ _ h => h.1
  | applied callee args =>
    refine Keeps.bind (hev callee n (Nat.le_refl _)) fun f k hk hf => Keeps.bind (hall args k hk) fun vs k₁ hk₁ hvs => ?_
    refine Keeps.bind (Resolver.keeps_apply ih.host (by omega) (hf.mono hk₁) hvs) fun a k₂ hk₂ ha => ?_
    cases a with
    | curried g => exact Keeps.pure fun k₃ hk₃ => by simpa using (show g.Below k₂ from ha).mono hk₃
    | cell i => exact Keeps.pure fun _ _ => by simp
  | applyTo target callee args =>
    refine Keeps.bind (hev callee n (Nat.le_refl _)) fun v k hk hv => Keeps.bind (hall args k hk) fun vs k₁ hk₁ hvs => ?_
    refine Keeps.bind (keeps_targetFunction target (hv.mono hk₁)) fun f k₂ hk₂ hf => ?_
    exact Keeps.map (Resolver.keeps_applyFunction ih.host (by omega) hf fun v hv => (hvs v hv).mono hk₂)
      fun _ _ => Applied.below_toValue
  | invoke callee args =>
    refine Keeps.bind (hev callee n (Nat.le_refl _)) fun v k hk hv => Keeps.bind (hall args k hk) fun vs k₁ hk₁ hvs => ?_
    refine Keeps.bind (keeps_needFn (hv.mono hk₁)) fun f k₂ hk₂ hf => ?_
    exact Keeps.map (ih.invoke f vs k₂ (by omega) hf fun v hv => (hvs v hv).mono hk₂) fun _ _ _ => trivial
  | force e =>
    exact Keeps.bind (hev e n (Nat.le_refl _)) fun v k hk hv => Keeps.weaken (ih.force v k (by omega) hv) fun _ _ h => h.1
  | delay e => exact Keeps.map (keeps_newCell hs) fun _ _ _ => trivial
  | delaySelf e => exact Keeps.bind keeps_get fun _ k hk _ => Keeps.map (keeps_newCell (hs.mono hk)) fun _ _ _ => trivial
  | ready e =>
    exact Keeps.bind (hev e n (Nat.le_refl _)) fun v k hk hv => Keeps.map (keeps_cellOf hv) fun _ _ _ => trivial
  | fail message => exact Keeps.failWith
  | panic message => exact Keeps.throw
  | arith op a b =>
    exact hforced a n (Nat.le_refl _) fun x k hk _ => hforced b k hk fun y _ _ _ => keeps_onValues op x y
  | less a b =>
    exact hforced a n (Nat.le_refl _) fun x k hk _ => hforced b k hk fun y _ _ _ => keeps_lessValues x y
  | same a b =>
    exact Keeps.bind (hev a n (Nat.le_refl _)) fun _ k hk _ => Keeps.bind (hev b k hk) fun _ _ _ _ =>
      Keeps.pure fun _ _ => trivial
  | cond c t f =>
    refine hforced c n (Nat.le_refl _) fun w k hk _ => ?_
    cases w with
    | bool b => cases b with
      | true => exact hev t k hk
      | false => exact hev f k hk
    | _ => exact Keeps.failWith
  | seq es =>
    exact Keeps.bind (hall es n (Nat.le_refl _)) fun vs k _ hvs => Keeps.pure fun k' hk' =>
      (Value.below_getLastD hvs).mono hk'
  | look l e =>
    refine Keeps.bind (hev e n (Nat.le_refl _)) fun v k hk hv => ?_
    cases l with
    | kind | arity => exact Keeps.pure fun _ _ => trivial
    | display | debug => exact Keeps.bind keeps_get fun _ _ _ _ => Keeps.pure fun _ _ => trivial
    | asInteger =>
      dsimp only
      split <;> exact Keeps.pure fun _ _ => by simp
    | toFunction =>
      exact Keeps.map (Keeps.ofExcept fun f hf k' hk' => (Value.toFunction_below hv hf).mono hk')
        fun _ _ h => Value.below_func.2 h
  | cellLook l e =>
    refine Keeps.bind (hev e n (Nat.le_refl _)) fun v k hk _ => ?_
    cases v with
    | thunk i =>
      refine Keeps.bind keeps_get fun m k₁ _ hm => ?_
      cases l with
      | isEvaluated => exact Keeps.pure fun _ _ => trivial
      | peek =>
        refine Keeps.pure fun k₂ hk₂ => Value.below_array.2 fun w hw => ?_
        exact (hm.1.peek w (Option.mem_toList.1 hw)).mono (by omega)
    | _ => exact Keeps.failWith
  | part p e =>
    refine Keeps.bind (hev e n (Nat.le_refl _)) fun v k hk hv => Keeps.bind (keeps_needFn hv) fun f k₁ hk₁ hf => ?_
    obtain ⟨henv, -, hbound, -⟩ := Callable.below_iff.1 hf
    cases p with
    | need | name | isPartial | envLen | envIsEmpty => exact Keeps.pure fun _ _ => trivial
    | bound => exact Keeps.pure fun k₂ hk₂ => Value.below_array.2 fun w hw => (hbound w hw).mono hk₂
    | env => exact Keeps.pure fun k₂ hk₂ => Value.below_array.2 fun w hw => (henv w hw).mono hk₂
    | debugClosure => exact Keeps.bind keeps_get fun _ _ _ _ => Keeps.pure fun _ _ => trivial
  | length e =>
    refine hforced e n (Nat.le_refl _) fun w k hk _ => ?_
    cases w with
    | array items => exact Keeps.pure fun _ _ => trivial
    | _ => exact Keeps.failWith
  | index a i =>
    exact hforced a n (Nat.le_refl _) fun x k hk hx => hforced i k hk fun y k₁ hk₁ _ =>
      keeps_indexValues y (hx.mono hk₁)
  | parseInt e =>
    refine hforced e n (Nat.le_refl _) fun w k hk _ => ?_
    cases w with
    | str t =>
      dsimp only
      split
      · exact Keeps.pure fun _ _ => trivial
      · exact Keeps.fault
    | _ => exact Keeps.failWith

end Step

/-- From a context whose bindings are below `n₀`, evaluation at any fuel keeps machines sound from `n₀` on. -/
theorem evalKeeps {cx : Context} {n₀ : Nat} (hcx : cx.Below n₀) : ∀ fuel, EvalKeeps cx n₀ fuel
  | 0 => evalKeeps_zero cx n₀
  | fuel + 1 =>
    have ih := evalKeeps hcx fuel
    { eval := fun e _ _ hn hs => keeps_eval_succ hcx ih e hn hs
      force := fun _ _ hn hv => keeps_force_succ ih hn hv
      invoke := fun _ _ _ hn hf ha => keeps_invoke_succ ih hn hf ha
      host := ⟨fun n f args hn hf ha => ih.invoke f args n hn hf ha, fun n v hn hv => ih.force v n hn hv⟩ }

end LazyCall
