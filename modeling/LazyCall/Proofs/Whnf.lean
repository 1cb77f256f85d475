import LazyCall.Proofs.MemoCells

/-!
# Cached values are in weak head normal form

A sound machine (`Machine.Sound`) settles a cell only with a value that is not a memo cell, and every machine a
session reaches is sound (`Session.Sound.steps`). So nothing that reads a cache can hand out a memo cell: a force of a
value, the resolver's `eval` (with any resolver, the standard one of free application included), forcing what an
application gave, and `peek?` all give values in weak head normal form, and the display text of a settled cell is the
display text of such a value.

Main statement (`settled_cells_hold_whnf`). The cell of a value (`Run.cellOf`) is the value's own cell when the value
is a memo cell, so a cell is never wrapped in another one; any other value gets a new cell settled with it.
-/

namespace LazyCall

open Run

/-- A sound machine caches only values in weak head normal form. -/
theorem Machine.Sound.done_whnf {m : Machine} (hm : m.Sound) {i : Nat} {v : Value} (h : m.cell i = .done v) :
    v.Whnf := by
  have hc := hm.cell i
  rw [h] at hc
  exact hc.2

/-- `peek?` of a sound machine gives a value in weak head normal form. -/
theorem Machine.Sound.peek_whnf {m : Machine} (hm : m.Sound) {i : Nat} {v : Value} (h : m.peek? i = some v) :
    v.Whnf :=
  hm.done_whnf (Machine.peek_eq_some.1 h)

/-- A settled cell shows the display text of its value. -/
theorem Machine.display_thunk_of_peek {m : Machine} {i : Nat} {v : Value} (h : m.peek? i = some v) (fuel : Nat) :
    m.display (fuel + 1) (.thunk i) = m.display fuel v := by
  rw [Machine.display, h]

/-- A value that is not a memo cell is in weak head normal form. -/
theorem Value.whnf_of_ne_thunk {v : Value} (hv : ∀ i, v ≠ .thunk i) : v.Whnf := by
  cases v with
  | thunk i => exact absurd rfl (hv i)
  | _ => trivial

/-- The cell of a memo cell is that cell, and nothing changes; the cell of any other value is a new one, settled with
that value. -/
theorem cellOf_eq_ok {v : Value} {m m' : Machine} {i : Nat} (h : Run.cellOf v m = .ok i m') :
    (v = .thunk i ∧ m' = m) ∨ (v.Whnf ∧ m'.cell i = .done v) := by
  by_cases hv : ∃ j, v = .thunk j
  · obtain ⟨j, rfl⟩ := hv
    rw [cellOf_thunk, pure_apply] at h
    cases h
    exact .inl ⟨rfl, rfl⟩
  · have hne : ∀ j, v ≠ .thunk j := fun j hj => hv ⟨j, hj⟩
    rw [cellOf_apply hne, newCell_apply] at h
    cases h
    exact .inr ⟨Value.whnf_of_ne_thunk hne, Machine.cell_push_size⟩

/-- A run that keeps machines sound and gives values in weak head normal form, started in a sound machine, gives such a
value when it succeeds. -/
theorem Run.Keeps.whnf_of_ok {x : Run Value} {n : Nat} (hx : Run.Keeps n x fun w k => w.Below k ∧ w.Whnf) {m m' : Machine}
    (hm : m.Sound) (hn : n ≤ m.fresh) {w : Value} (h : x m = .ok w m') : w.Whnf := by
  have hk := hx m hm hn
  rw [h] at hk
  exact hk.2.2.2

/-- Forcing what an application gave is forcing its cell, or the function it gave. -/
theorem Resolver.keeps_finish {h : Host} {n₀ n : Nat} (hh : h.Keeps n₀) (hn : n₀ ≤ n) {a : Applied} (ha : a.Below n) :
    Run.Keeps n (Resolver.finish h a) fun w k => w.Below k ∧ w.Whnf := by
  cases a with
  | cell i => exact hh.force n _ hn trivial
  | curried g => exact Keeps.pure fun k hk => ⟨Value.below_func.2 ((show g.Below n from ha).mono hk), trivial⟩

/-- **Cached values are in weak head normal form.** No reachable cell is settled with a memo cell, and forcing, `eval`,
finishing an application and `peek?` never give one. -/
theorem settled_cells_hold_whnf :
    (∀ (opts : Options) (sts : List Step), ∀ rep ∈ Session.steps opts {} sts, ∀ i v, rep.machine.cell i = .done v →
      v.Whnf) ∧
    (∀ (v : Value) (m m' : Machine) (i : Nat), Run.cellOf v m = .ok i m' →
      (v = .thunk i ∧ m' = m) ∨ (v.Whnf ∧ m'.cell i = .done v)) ∧
    (∀ (cx : Context) (m : Machine), m.Sound → cx.Below m.fresh →
      (∀ (fuel : Nat) (v w : Value) (m' : Machine), v.Below m.fresh → force cx fuel v m = .ok w m' → w.Whnf) ∧
      (∀ (r : Resolver) (fuel : Nat) (callee : Value) (args : List Value) (w : Value) (m' : Machine),
        callee.Below m.fresh → (∀ a ∈ args, a.Below m.fresh) → r.eval (host cx fuel) callee args m = .ok w m' →
        w.Whnf) ∧
      (∀ (fuel : Nat) (a : Applied) (w : Value) (m' : Machine), a.Below m.fresh →
        Resolver.finish (host cx fuel) a m = .ok w m' → w.Whnf) ∧
      (∀ (i : Nat) (v : Value), m.peek? i = some v → v.Whnf ∧ ∀ fuel, m.display (fuel + 1) (.thunk i) = m.display fuel v)) := by
  refine ⟨fun opts sts rep hrep i v hv => ?_, fun v m m' i h => cellOf_eq_ok h, fun cx m hm hcx => ?_⟩
  · exact ((Session.sound_empty.steps opts sts).1 rep hrep).done_whnf hv
  have he := evalKeeps hcx
  refine ⟨fun fuel v w m' hv h => ?_, fun r fuel callee args w m' hc ha h => ?_, fun fuel a w m' ha h => ?_,
    fun i v hp => ⟨hm.peek_whnf hp, Machine.display_thunk_of_peek hp⟩⟩
  · exact ((he fuel).force v m.fresh (Nat.le_refl _) hv).whnf_of_ok hm (Nat.le_refl _) h
  · exact (Resolver.keeps_eval (he fuel).host (Nat.le_refl _) hc ha).whnf_of_ok hm (Nat.le_refl _) h
  · exact (Resolver.keeps_finish (he fuel).host (Nat.le_refl _) ha).whnf_of_ok hm (Nat.le_refl _) h

/-- Two pending cells, the first computing the second: forcing the first forces the second too and gives its value,
not the cell. -/
theorem pending_cell_forces_to_whnf :
    ({ cells := #[.pending ⟨.arg 0, { args := [.thunk 1] }⟩, .pending ⟨.int 7, {}⟩] } : Machine).Sound ∧
      ({} : Context).Below 1 ∧
      (∀ w m', force {} 3 (.thunk 0) { cells := #[.pending ⟨.arg 0, { args := [.thunk 1] }⟩, .pending ⟨.int 7, {}⟩] } =
        .ok w m' → w.Whnf) ∧
      ∃ m', force {} 3 (.thunk 0) { cells := #[.pending ⟨.arg 0, { args := [.thunk 1] }⟩, .pending ⟨.int 7, {}⟩] } =
        .ok (.int 7) m' := by
  have hm : ({ cells := #[.pending ⟨.arg 0, { args := [.thunk 1] }⟩, .pending ⟨.int 7, {}⟩] } : Machine).Sound :=
    ⟨Nat.one_pos, by simp [Cell.Sound, Scope.Below, Value.Below], by simp⟩
  have hcx : ({} : Context).Below 1 := fun _ h => by cases h
  exact ⟨hm, hcx, fun w m' h => (settled_cells_hold_whnf.2.2 {} _ hm hcx).1 3 (.thunk 0) w m' trivial h, _, rfl⟩

end LazyCall
