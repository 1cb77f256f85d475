import LazyCall.Script.Eval
import LazyCall.Proofs.Run

/-!
# Sound machines and how runs keep them

Identities — of closures, of lists of bound arguments, of foreign payloads — are drawn from the machine's counter
`fresh`, so in a machine that evaluation can reach every identity a value holds is below it (`Value.Below`). A
machine is *sound* (`Machine.Sound`) when its cells and the functions lambdas were built as hold only such values,
and a settled cell holds a value in weak head normal form, never a memo cell.

Runs only let the machine *grow* (`Machine.Grows`): `fresh` does not go back, cells are only added, and each cell
moves along `Cell.Next` — a pending cell may be claimed or settled, a claimed cell stays claimed, and a settled cell
keeps its outcome. A claimed cell is settled only by the force that claimed it, which is why `Cell.Next` has no move
out of `running`: seen from any run nested in that force, the cell stays claimed.

`Run.Keeps n x Q` says that `x`, started in a sound machine whose counter is at least `n`, ends in a sound machine
grown from it, with a result satisfying `Q` against the final counter. The combinators (`Keeps.bind`, `Keeps.mapM`,
...) and the primitives' lemmas let later proofs follow a run's `do` block step by step.
-/

namespace LazyCall

/-! ## Identities below a bound -/

mutual
/-- Every identity the value holds is below `n`. Places of memo cells are not identities. -/
def Value.Below (n : Nat) : Value → Prop
  | .array items => Value.BelowAll n items
  | .func f => Callable.Below n f
  | .foreign id _ => id < n
  | .int _ | .float _ | .bool _ | .str _ | .unit | .thunk _ => True

/-- The closure, the list of bound arguments and every value a function holds are below `n`. -/
def Callable.Below (n : Nat) : Callable Value → Prop
  | ⟨_, env, c, bound, b⟩ => Value.BelowAll n env ∧ c < n ∧ Value.BelowAll n bound ∧ b < n

/-- Every value of the list is below `n`. -/
def Value.BelowAll (n : Nat) : List Value → Prop
  | [] => True
  | v :: vs => Value.Below n v ∧ Value.BelowAll n vs
end

mutual
theorem Value.Below.mono {n k : Nat} (hk : n ≤ k) : ∀ {v : Value}, v.Below n → v.Below k
  | .array items, h => Value.BelowAll.mono hk (l := items) h
  | .func f, h => Callable.Below.mono hk (f := f) h
  | .foreign _ _, h => Nat.lt_of_lt_of_le h hk
  | .int _, _ | .float _, _ | .bool _, _ | .str _, _ | .unit, _ | .thunk _, _ => trivial

theorem Callable.Below.mono {n k : Nat} (hk : n ≤ k) : ∀ {f : Callable Value}, f.Below n → f.Below k
  | ⟨_, _, _, _, _⟩, ⟨he, hc, hb, hi⟩ =>
    ⟨Value.BelowAll.mono hk he, Nat.lt_of_lt_of_le hc hk, Value.BelowAll.mono hk hb, Nat.lt_of_lt_of_le hi hk⟩

theorem Value.BelowAll.mono {n k : Nat} (hk : n ≤ k) : ∀ {l : List Value}, Value.BelowAll n l → Value.BelowAll k l
  | [], _ => trivial
  | _ :: _, ⟨h, hs⟩ => ⟨Value.Below.mono hk h, Value.BelowAll.mono hk hs⟩
end

@[simp] theorem Value.belowAll_iff {n : Nat} {vs : List Value} : Value.BelowAll n vs ↔ ∀ v ∈ vs, v.Below n := by
  induction vs with
  | nil => simp [Value.BelowAll]
  | cons v vs ih => simp [Value.BelowAll, ih]

@[simp] theorem Value.below_array {n : Nat} {items : List Value} :
    (Value.array items).Below n ↔ ∀ v ∈ items, v.Below n := by
  simp [Value.Below]

@[simp] theorem Value.below_func {n : Nat} {f : Fn} : (Value.func f).Below n ↔ f.Below n := by
  simp [Value.Below]

@[simp] theorem Value.below_thunk {n i : Nat} : (Value.thunk i).Below n := trivial

@[simp] theorem Value.below_int {n : Nat} {k : Int64} : (Value.int k).Below n := trivial

@[simp] theorem Value.below_str {n : Nat} {s : String} : (Value.str s).Below n := trivial

@[simp] theorem Value.below_bool {n : Nat} {b : Bool} : (Value.bool b).Below n := trivial

@[simp] theorem Value.below_unit {n : Nat} : Value.unit.Below n := trivial

@[simp] theorem Value.below_float {n : Nat} {x : Float} : (Value.float x).Below n := trivial

@[simp] theorem Value.below_foreign {n i : Nat} {tag : Int64} : (Value.foreign i tag).Below n ↔ i < n := Iff.rfl

theorem Callable.below_iff {n : Nat} {f : Fn} :
    f.Below n ↔ (∀ v ∈ f.env, v.Below n) ∧ f.closure < n ∧ (∀ v ∈ f.bound, v.Below n) ∧ f.boundId < n := by
  obtain ⟨_, _, _, _, _⟩ := f
  simp [Callable.Below]

/-- The function a value holds is below the value's bound. -/
theorem Value.toFunction_below {n : Nat} {v : Value} {f : Fn} (hv : v.Below n) (hf : v.toFunction = .ok f) :
    f.Below n := by
  cases v <;> simp only [Value.toFunction, reduceCtorEq, Except.ok.injEq] at hf
  subst hf
  exact hv

/-- A value in weak head normal form: anything but a memo cell. -/
def Value.Whnf : Value → Prop
  | .thunk _ => False
  | _ => True

/-- The values a scope offers are below `n`. -/
def Scope.Below (n : Nat) (s : Scope) : Prop :=
  (∀ v ∈ s.args, v.Below n) ∧ (∀ v ∈ s.env, v.Below n) ∧ ∀ f ∈ s.self, f.Below n

/-- The values bound in a context are below `n`. -/
def Context.Below (n : Nat) (cx : Context) : Prop :=
  ∀ p ∈ cx.bindings, p.2.Below n

theorem Scope.Below.mono {n k : Nat} {s : Scope} (hk : n ≤ k) (hs : s.Below n) : s.Below k :=
  ⟨fun v hv => (hs.1 v hv).mono hk, fun v hv => (hs.2.1 v hv).mono hk, fun f hf => (hs.2.2 f hf).mono hk⟩

theorem Context.Below.mono {n k : Nat} {cx : Context} (hk : n ≤ k) (hc : cx.Below n) : cx.Below k :=
  fun p hp => (hc p hp).mono hk

/-! ## Sound machines -/

/-- A cell whose contents are below `n`; a settled value is in weak head normal form. -/
def Cell.Sound (n : Nat) : Cell → Prop
  | .pending job => job.scope.Below n
  | .done v => v.Below n ∧ v.Whnf
  | .running | .failed _ => True

theorem Cell.Sound.mono {n k : Nat} (hk : n ≤ k) : ∀ {c : Cell}, c.Sound n → c.Sound k
  | .pending _, h => Scope.Below.mono hk h
  | .done _, ⟨hv, hw⟩ => ⟨hv.mono hk, hw⟩
  | .running, _ | .failed _, _ => trivial

/-- A machine evaluation can reach: identities are drawn from `fresh` upwards, which is never zero, and cells and
the functions lambdas were built as hold only identities below it. -/
structure Machine.Sound (m : Machine) : Prop where
  fresh_pos : 0 < m.fresh
  cells : ∀ c ∈ m.cells, c.Sound m.fresh
  homes : ∀ f ∈ m.homes, f.Below m.fresh

/-- The state of a cell that no run moved: a settled cell holds its outcome for good. -/
theorem Machine.Sound.cell {m : Machine} (hm : m.Sound) (i : Nat) : (m.cell i).Sound m.fresh := by
  unfold Machine.cell
  rw [Array.getD_eq_getD_getElem?]
  cases h : m.cells[i]? with
  | none => trivial
  | some c => exact hm.cells c (Array.mem_of_getElem? h)

theorem Machine.Sound.home {m : Machine} (hm : m.Sound) {slot : Nat} {f : Fn} (h : m.homes[slot]? = some f) :
    f.Below m.fresh :=
  hm.homes f (Array.mem_of_getElem? h)

/-! ## Growth -/

/-- How a cell may move during a run: a pending cell may be claimed or settled; nothing else moves. -/
inductive Cell.Next : Cell → Cell → Prop
  | refl (c : Cell) : Cell.Next c c
  | claim (job : Job) : Cell.Next (.pending job) .running
  | done (job : Job) (v : Value) : Cell.Next (.pending job) (.done v)
  | failed (job : Job) (f : Fault) : Cell.Next (.pending job) (.failed f)

theorem Cell.Next.trans {a b c : Cell} (h₁ : a.Next b) (h₂ : b.Next c) : a.Next c := by
  cases h₁ with
  | refl => exact h₂
  | claim job => cases h₂ with
    | refl => exact .claim job
  | done job v => cases h₂ with
    | refl => exact .done job v
  | failed job f => cases h₂ with
    | refl => exact .failed job f

/-- A claimed cell stays claimed. -/
theorem Cell.Next.running {c : Cell} (h : Cell.running.Next c) : c = .running := by
  cases h; rfl

/-- `m'` has grown from `m`: the counter went up, cells were added, and each old cell moved along `Cell.Next`. -/
structure Machine.Grows (m m' : Machine) : Prop where
  fresh : m.fresh ≤ m'.fresh
  size : m.cells.size ≤ m'.cells.size
  cells : ∀ i < m.cells.size, (m.cell i).Next (m'.cell i)

theorem Machine.Grows.refl (m : Machine) : m.Grows m := ⟨Nat.le_refl _, Nat.le_refl _, fun _ _ => .refl _⟩

theorem Machine.Grows.trans {m₁ m₂ m₃ : Machine} (h₁ : m₁.Grows m₂) (h₂ : m₂.Grows m₃) : m₁.Grows m₃ :=
  ⟨Nat.le_trans h₁.fresh h₂.fresh, Nat.le_trans h₁.size h₂.size,
    fun i hi => (h₁.cells i hi).trans (h₂.cells i (Nat.lt_of_lt_of_le hi h₁.size))⟩

/-- A change that leaves the cells alone and does not lower the counter is growth. -/
theorem Machine.Grows.of_cells {m m' : Machine} (hc : m'.cells = m.cells) (hf : m.fresh ≤ m'.fresh) : m.Grows m' :=
  ⟨hf, Nat.le_of_eq (by rw [hc]), fun i _ => by unfold Machine.cell; rw [hc]; exact .refl _⟩

theorem Machine.cell_push_lt {m : Machine} {c : Cell} {k : Counters} {i : Nat} (hi : i < m.cells.size) :
    ({ m with cells := m.cells.push c, counters := k } : Machine).cell i = m.cell i := by
  unfold Machine.cell
  simp only [Array.getD_eq_getD_getElem?, Array.getElem?_push, Nat.ne_of_lt hi, if_false]

theorem Machine.cell_push_size {m : Machine} {c : Cell} {k : Counters} :
    ({ m with cells := m.cells.push c, counters := k } : Machine).cell m.cells.size = c := by
  unfold Machine.cell
  simp only [Array.getD_eq_getD_getElem?, Array.getElem?_push, if_true, Option.getD_some]

theorem Machine.cell_set_self {m : Machine} {c : Cell} {i : Nat} (hi : i < m.cells.size) :
    ({ m with cells := m.cells.set! i c } : Machine).cell i = c := by
  unfold Machine.cell
  simp only [Array.getD_eq_getD_getElem?, Array.set!_eq_setIfInBounds,
    Array.getElem?_setIfInBounds_self_of_lt hi, Option.getD_some]

theorem Machine.cell_set_ne {m : Machine} {c : Cell} {i j : Nat} (h : i ≠ j) :
    ({ m with cells := m.cells.set! i c } : Machine).cell j = m.cell j := by
  unfold Machine.cell
  simp only [Array.getD_eq_getD_getElem?, Array.set!_eq_setIfInBounds, Array.getElem?_setIfInBounds_ne h]

/-- A cell that is not settled with the default outcome of a missing place is a place of the machine. -/
theorem Machine.lt_size_of_cell {m : Machine} {i : Nat} {c : Cell} (hc : m.cell i = c)
    (hne : c ≠ .failed .panicked) : i < m.cells.size := by
  unfold Machine.cell at hc
  rw [Array.getD_eq_getD_getElem?] at hc
  refine Nat.lt_of_not_le fun hi => hne ?_
  rw [Array.getElem?_eq_none hi, Option.getD_none] at hc
  exact hc.symm

/-- Adding a cell is growth. -/
theorem Machine.Grows.push (m : Machine) (c : Cell) (k : Counters) :
    m.Grows { m with cells := m.cells.push c, counters := k } :=
  ⟨Nat.le_refl _, by simp, fun i hi => by rw [Machine.cell_push_lt hi]; exact .refl _⟩

/-- Adding a sound cell keeps the machine sound. -/
theorem Machine.Sound.push {m : Machine} (hm : m.Sound) {c : Cell} (hc : c.Sound m.fresh) (k : Counters) :
    ({ m with cells := m.cells.push c, counters := k } : Machine).Sound :=
  ⟨hm.fresh_pos, fun d hd => by
    rcases Array.mem_push.1 hd with hd | rfl
    · exact hm.cells d hd
    · exact hc, hm.homes⟩

/-- Soundness looks only at the cells, the homes and the counter of identities. -/
theorem Machine.Sound.congr {m m' : Machine} (hm : m.Sound) (hc : m'.cells = m.cells) (hh : m'.homes = m.homes)
    (hf : m'.fresh = m.fresh) : m'.Sound :=
  ⟨by rw [hf]; exact hm.fresh_pos, by rw [hc, hf]; exact hm.cells, by rw [hh, hf]; exact hm.homes⟩

/-- Setting a place to a sound cell keeps the machine sound. -/
theorem Machine.Sound.set {m : Machine} (hm : m.Sound) (i : Nat) {c : Cell} (hc : c.Sound m.fresh) :
    ({ m with cells := m.cells.set! i c } : Machine).Sound :=
  ⟨hm.fresh_pos, fun d hd => by
    rw [Array.set!_eq_setIfInBounds] at hd
    by_cases hi : i < m.cells.size
    · rcases Array.mem_or_eq_of_mem_setIfInBounds hd with hd | rfl
      · exact hm.cells d hd
      · exact hc
    · rw [Array.setIfInBounds_eq_of_size_le (by omega)] at hd
      exact hm.cells d hd, hm.homes⟩

/-! ## Runs that keep the machine sound -/

variable {α β γ : Type}

/-- A run that ended in `res`, started from the sound machine `m`, left a sound machine grown from `m`, and a value
it gave satisfies `Q` against the final counter. -/
def Run.Kept (m : Machine) (Q : α → Nat → Prop) : EStateM.Result Abort Machine α → Prop
  | .ok a m' => m'.Sound ∧ m.Grows m' ∧ Q a m'.fresh
  | .error _ m' => m'.Sound ∧ m.Grows m'

/-- Started in a sound machine whose counter is at least `n`, `x` keeps the machine sound, lets it only grow, and
gives a result satisfying `Q`. -/
def Run.Keeps (n : Nat) (x : Run α) (Q : α → Nat → Prop) : Prop :=
  ∀ m, m.Sound → n ≤ m.fresh → Run.Kept m Q (x m)

namespace Run.Keeps

variable {n : Nat} {Q : α → Nat → Prop} {R : β → Nat → Prop}

theorem pure {a : α} (ha : ∀ k, n ≤ k → Q a k) : Run.Keeps n (pure a) Q :=
  fun m hm hn => ⟨hm, .refl m, ha _ hn⟩

theorem throw {e : Abort} : Run.Keeps n (throw e : Run α) Q := fun m hm _ => ⟨hm, .refl m⟩

theorem fault {f : Fault} : Run.Keeps n (Run.fault f : Run α) Q := throw

theorem failWith {text : String} : Run.Keeps n (Run.failWith text : Run α) Q := throw

theorem bind {x : Run α} {f : α → Run β} (hx : Run.Keeps n x Q) (hf : ∀ a k, n ≤ k → Q a k → Run.Keeps k (f a) R) :
    Run.Keeps n (x >>= f) R := by
  intro m hm hn
  have h := hx m hm hn
  cases hxm : x m with
  | ok a m₁ =>
    rw [hxm] at h
    obtain ⟨hm₁, hg₁, hq⟩ := h
    rw [bind_of_ok hxm]
    have h₂ := hf a m₁.fresh (Nat.le_trans hn hg₁.fresh) hq m₁ hm₁ (Nat.le_refl _)
    cases hfm : f a m₁ with
    | ok b m₂ => rw [hfm] at h₂; exact ⟨h₂.1, hg₁.trans h₂.2.1, h₂.2.2⟩
    | error e m₂ => rw [hfm] at h₂; exact ⟨h₂.1, hg₁.trans h₂.2⟩
  | error e m₁ =>
    rw [hxm] at h
    rw [bind_of_error hxm]
    exact h

theorem map {x : Run α} {f : α → β} (hx : Run.Keeps n x Q) (hf : ∀ a k, Q a k → R (f a) k) :
    Run.Keeps n (f <$> x) R := by
  intro m hm hn
  have h := hx m hm hn
  cases hxm : x m with
  | ok a m₁ => rw [hxm] at h; rw [map_of_ok hxm]; exact ⟨h.1, h.2.1, hf _ _ h.2.2⟩
  | error e m₁ => rw [hxm] at h; rw [map_of_error hxm]; exact h

theorem weaken {x : Run α} {Q' : α → Nat → Prop} (hx : Run.Keeps n x Q) (hq : ∀ a k, Q a k → Q' a k) :
    Run.Keeps n x Q' := by
  intro m hm hn
  have h := hx m hm hn
  cases hxm : x m with
  | ok a m₁ => rw [hxm] at h; exact ⟨h.1, h.2.1, hq _ _ h.2.2⟩
  | error e m₁ => rw [hxm] at h; exact h

theorem lower {x : Run α} {k : Nat} (hx : Run.Keeps n x Q) (hk : n ≤ k) : Run.Keeps k x Q :=
  fun m hm hn => hx m hm (Nat.le_trans hk hn)

/-- A run that changes only the counters and the events keeps everything. -/
theorem of_quiet {x : Run α} (hx : ∀ m, ∃ a m', x m = .ok a m' ∧ m'.cells = m.cells ∧ m'.homes = m.homes ∧
      m'.fresh = m.fresh ∧ ∀ k, n ≤ k → Q a k) : Run.Keeps n x Q := by
  intro m hm hn
  obtain ⟨a, m', hxm, hc, hh, hf, hq⟩ := hx m
  rw [hxm]
  refine ⟨⟨by rw [hf]; exact hm.fresh_pos, ?_, ?_⟩, .of_cells hc (Nat.le_of_eq hf.symm), hq _ (by rw [hf]; exact hn)⟩
  · rw [hc, hf]; exact hm.cells
  · rw [hh, hf]; exact hm.homes

theorem ofExcept {e : Except Fault α} (he : ∀ a, e = .ok a → ∀ k, n ≤ k → Q a k) : Run.Keeps n (Run.ofExcept e) Q := by
  cases e with
  | error f => exact fault
  | ok a => exact pure (he a rfl)

theorem attempt {x : Run α} {P : Except Abort α → Nat → Prop} (hx : Run.Keeps n x Q)
    (hok : ∀ a k, Q a k → P (.ok a) k) (herr : ∀ e k, n ≤ k → P (.error e) k) : Run.Keeps n (Run.attempt x) P := by
  intro m hm hn
  have h := hx m hm hn
  cases hxm : x m with
  | ok a m₁ => rw [hxm] at h; rw [attempt_of_ok hxm]; exact ⟨h.1, h.2.1, hok _ _ h.2.2⟩
  | error e m₁ =>
    rw [hxm] at h
    rw [attempt_of_error hxm]
    exact ⟨h.1, h.2, herr _ _ (Nat.le_trans hn h.2.fresh)⟩

/-- Mapping a run over a list keeps the machine when each run does, from every later counter. -/
theorem mapM {xs : List γ} {f : γ → Run α} (hQ : ∀ a k k', Q a k → k ≤ k' → Q a k')
    (hf : ∀ x ∈ xs, ∀ k, n ≤ k → Run.Keeps k (f x) Q) : Run.Keeps n (xs.mapM f) (fun ys k => ∀ y ∈ ys, Q y k) := by
  induction xs generalizing n with
  | nil => exact pure fun _ _ _ h => by cases h
  | cons x xs ih =>
    rw [List.mapM_cons]
    refine bind (hf x (.head _) n (Nat.le_refl _)) fun a k hk ha => ?_
    refine bind (ih fun y hy k' hk' => hf y (.tail _ hy) k' (Nat.le_trans hk hk')) fun ys k' hk' hys => ?_
    refine pure fun k'' hk'' y hy => ?_
    rcases List.mem_cons.1 hy with rfl | hy
    · exact hQ _ _ _ ha (Nat.le_trans hk' hk'')
    · exact hQ _ _ _ (hys y hy) hk''

end Run.Keeps

/-! ## The primitives -/

namespace Run

theorem keeps_count {n : Nat} (c : Counter) : Keeps n (count c) (fun _ _ => True) :=
  Keeps.of_quiet fun m => ⟨(), _, count_apply c m, rfl, rfl, rfl, fun _ _ => trivial⟩

theorem keeps_emit {n : Nat} (e : Event) : Keeps n (emit e) (fun _ _ => True) :=
  Keeps.of_quiet fun m => ⟨(), _, emit_apply e m, rfl, rfl, rfl, fun _ _ => trivial⟩

/-- A fresh identity is below the counter that follows it. -/
theorem keeps_freshId {n : Nat} : Keeps n freshId (fun i k => i < k) := by
  intro m hm _
  rw [freshId_apply]
  refine ⟨⟨Nat.succ_pos _, fun c hc => (hm.cells c hc).mono (Nat.le_succ _),
    fun f hf => (hm.homes f hf).mono (Nat.le_succ _)⟩, .of_cells rfl (Nat.le_succ _), Nat.lt_succ_self _⟩

theorem keeps_newCell {n : Nat} {c : Cell} (hc : c.Sound n) : Keeps n (newCell c) (fun _ _ => True) := by
  intro m hm hn
  rw [newCell_apply]
  exact ⟨hm.push (hc.mono hn) _, .push m c _, trivial⟩

theorem keeps_cellOf {n : Nat} {v : Value} (hv : v.Below n) : Keeps n (cellOf v) (fun _ _ => True) := by
  cases v with
  | thunk i => exact Keeps.pure fun _ _ => trivial
  | _ => exact keeps_newCell ⟨hv, trivial⟩

theorem keeps_addHome {n : Nat} {f : Fn} (hf : f.Below n) : Keeps n (addHome f) (fun _ _ => True) := by
  intro m hm hn
  rw [addHome_apply]
  refine ⟨⟨hm.fresh_pos, hm.cells, fun g hg => ?_⟩, .of_cells rfl (Nat.le_refl _), trivial⟩
  rcases Array.mem_push.1 hg with hg | rfl
  · exact hm.homes g hg
  · exact hf.mono hn

theorem keeps_home {n : Nat} (slot : Nat) : Keeps n (home slot) (fun o k => ∀ f ∈ o, f.Below k) := by
  intro m hm _
  rw [home_apply]
  exact ⟨hm, .refl m, fun f hf => hm.home hf⟩

end Run

end LazyCall
