import LazyCall.Proofs.MemoCells

/-!
# Forcing chains of memo cells

A force of a pending cell claims it, runs its computation, forces the value the computation gave, and settles the
cell with the outcome. When the computation just gives another cell, the force of the first cell is the force of the
second one, from the machine where the first is claimed (`force_of_gives`), and the first cell ends settled to the same
outcome. Along a chain of such cells (`Chain`) this repeats:

* forcing the head of a chain is forcing its end from the machine where every cell of the chain is claimed, in chain
  order (`Machine.claimAll`), after which every cell of the chain is settled to the outcome, the last one first
  (`Run.settleOn`); this is `force_chain`;
* so a chain that ends in a settled cell settles all its cells to that cell's value or fault, and a chain that leads
  back to one of its cells gives `CyclicForce`, counts one cyclic force, and settles all its cells to `CyclicForce`,
  which later forces give again without computing anything.

Main statement: `forcing_settles_chains`. A force of a cell that no force is running ends with the cell settled to
what the force gave (`force_settles`); a force of a cell that a force is running is the cyclic force, and the cell is
settled by the force that claimed it.
-/

namespace LazyCall

open Run

/-! ## Chains, claims and settles -/

/-- The computation of `job` just gives the memo cell `d`: at every fuel that lets it run and from every machine, it
gives `d` and changes nothing. -/
def Job.Gives (cx : Context) (job : Job) (d : Nat) : Prop :=
  ∀ fuel m, eval cx (fuel + 1) job.expr job.scope m = .ok (.thunk d) m

/-- A chain in `m` from the cell `c` through the cells `cs` to the cell `t`: the cells of `cs` are different and
pending, the computation of each gives the next cell of the chain, and the last one's gives `t`. The empty chain leads
from `t` to itself. -/
inductive Chain (cx : Context) (m : Machine) : Nat → List Nat → Nat → Prop
  | last (t : Nat) : Chain cx m t [] t
  | link {c d t : Nat} {rest : List Nat} {job : Job} : m.cell c = .pending job → job.Gives cx d → c ∉ rest →
      Chain cx m d rest t → Chain cx m c (c :: rest) t

namespace Machine

/-- The machine once forces claimed the cells `cs`, in order. -/
def claimAll (m : Machine) (cs : List Nat) : Machine := cs.foldl Machine.claim m

/-- The machine once the cells `cs` are settled to `c`, the last one first. -/
def settleAll (m : Machine) (cs : List Nat) (c : Cell) : Machine := cs.foldr (fun i m => m.settle i c) m

end Machine

/-- The state a force settles its cell to when it stops without a value: the fault, or `Panicked` for a stop that is
no fault. -/
def Abort.settled : Abort → Cell
  | .fault f => .failed f
  | _ => .failed .panicked

/-- How a run that forced a cell ends once the cells `cs` are settled to what it gave. -/
def Run.settleOn (cs : List Nat) : EStateM.Result Abort Machine Value → EStateM.Result Abort Machine Value
  | .ok v m => .ok v (m.settleAll cs (.done v))
  | .error e m => .error e (m.settleAll cs e.settled)

namespace Machine

variable {m : Machine}

theorem claimAll_cons (i : Nat) (cs : List Nat) : m.claimAll (i :: cs) = (m.claim i).claimAll cs := rfl

theorem settleAll_cons (i : Nat) (cs : List Nat) (c : Cell) :
    m.settleAll (i :: cs) c = (m.settleAll cs c).settle i c := rfl

theorem claim_cell_ne {i j : Nat} (h : i ≠ j) : (m.claim i).cell j = m.cell j := Machine.cell_set_ne h

theorem settle_cell_ne {i j : Nat} {c : Cell} (h : i ≠ j) : (m.settle i c).cell j = m.cell j := Machine.cell_set_ne h

@[simp] theorem claim_size (i : Nat) : (m.claim i).cells.size = m.cells.size := by simp [Machine.claim]

@[simp] theorem settle_size (i : Nat) (c : Cell) : (m.settle i c).cells.size = m.cells.size := by
  simp [Machine.settle]

@[simp] theorem claimAll_size (cs : List Nat) : (m.claimAll cs).cells.size = m.cells.size := by
  induction cs generalizing m with
  | nil => rfl
  | cons i cs ih => rw [claimAll_cons, ih, claim_size]

@[simp] theorem settleAll_size (cs : List Nat) (c : Cell) : (m.settleAll cs c).cells.size = m.cells.size := by
  induction cs with
  | nil => rfl
  | cons i cs ih => rw [settleAll_cons, settle_size, ih]

/-- Claims leave every other cell as it was. -/
theorem claimAll_cell_of_not_mem {i : Nat} {cs : List Nat} (h : i ∉ cs) : (m.claimAll cs).cell i = m.cell i := by
  induction cs generalizing m with
  | nil => rfl
  | cons j cs ih =>
    rw [claimAll_cons, ih (List.not_mem_of_not_mem_cons h), claim_cell_ne (Ne.symm (List.ne_of_not_mem_cons h))]

/-- A claimed cell stays claimed while the rest of the chain is claimed. -/
theorem claimAll_cell_of_mem {i : Nat} {cs : List Nat} (h : i ∈ cs) (hi : i < m.cells.size) :
    (m.claimAll cs).cell i = .running := by
  induction cs generalizing m with
  | nil => cases h
  | cons j cs ih =>
    rw [claimAll_cons]
    by_cases hr : i ∈ cs
    · exact ih hr (by rwa [claim_size])
    · have hij : i = j := (List.mem_cons.1 h).resolve_right hr
      subst hij
      rw [claimAll_cell_of_not_mem hr]
      exact Machine.cell_set_self hi

/-- Settles leave every other cell as it was. -/
theorem settleAll_cell_of_not_mem {i : Nat} {cs : List Nat} {c : Cell} (h : i ∉ cs) :
    (m.settleAll cs c).cell i = m.cell i := by
  induction cs with
  | nil => rfl
  | cons j cs ih =>
    rw [settleAll_cons, settle_cell_ne (Ne.symm (List.ne_of_not_mem_cons h)), ih (List.not_mem_of_not_mem_cons h)]

/-- Every settled cell holds what it was settled to. -/
theorem settleAll_cell_of_mem {i : Nat} {cs : List Nat} {c : Cell} (h : i ∈ cs) (hi : i < m.cells.size) :
    (m.settleAll cs c).cell i = c := by
  induction cs with
  | nil => cases h
  | cons j cs ih =>
    rw [settleAll_cons]
    by_cases hij : j = i
    · subst hij
      exact Machine.cell_set_self (by rwa [settleAll_size])
    · rw [settle_cell_ne hij]
      exact ih ((List.mem_cons.1 h).resolve_left (Ne.symm hij))

@[simp] theorem settleAll_counters (cs : List Nat) (c : Cell) : (m.settleAll cs c).counters = m.counters := by
  induction cs with
  | nil => rfl
  | cons i cs ih => exact ih

theorem settleAll_settleAll (xs ys : List Nat) (c : Cell) : (m.settleAll ys c).settleAll xs c = m.settleAll (xs ++ ys) c :=
  (List.foldr_append ..).symm

end Machine

/-- One more to one counter. -/
theorem Counters.get_bump (s : Counters) (c k : Counter) : (s.bump c).get k = s.get k + if k = c then 1 else 0 := by
  cases c <;> cases k <;> simp [Counters.bump, Counters.get]

/-- Each claim counts one computation. -/
theorem Machine.claimAll_counters (m : Machine) (cs : List Nat) (k : Counter) :
    (m.claimAll cs).counters.get k = m.counters.get k + if k = .computations then cs.length else 0 := by
  induction cs generalizing m with
  | nil => simp [Machine.claimAll]
  | cons i cs ih =>
    rw [Machine.claimAll_cons, ih, show (m.claim i).counters = m.counters.bump .computations from rfl,
      Counters.get_bump]
    by_cases hk : k = .computations
    · rw [if_pos hk, if_pos hk, if_pos hk, List.length_cons]
      omega
    · rw [if_neg hk, if_neg hk, if_neg hk]

theorem Run.settleOn_nil (res : EStateM.Result Abort Machine Value) : Run.settleOn [] res = res := by
  cases res <;> rfl

theorem Run.settleOn_settleOn (xs ys : List Nat) (res : EStateM.Result Abort Machine Value) :
    Run.settleOn xs (Run.settleOn ys res) = Run.settleOn (xs ++ ys) res := by
  cases res <;> simp only [Run.settleOn, Machine.settleAll_settleAll]

/-! ## One force -/

/-- Forcing a pending cell settles it to the outcome of forcing the value its computation gave. -/
theorem forceCell_pending_settleOn {compute : Job → Run Value} {whnf : Value → Run Value} {m : Machine} {i : Nat}
    {job : Job} (hc : m.cell i = .pending job) :
    forceCell compute whnf i m = Run.settleOn [i] ((compute job >>= whnf) (m.claim i)) := by
  cases hr : (compute job >>= whnf) (m.claim i) with
  | ok v m' => rw [forceCell_pending_ok hc hr]; rfl
  | error e m' =>
    cases e with
    | fault f => rw [forceCell_pending_fault hc hr]; rfl
    | panic msg => rw [forceCell_pending_abort hc (fun _ h => by cases h) hr]; rfl
    | exhausted => rw [forceCell_pending_abort hc (fun _ h => by cases h) hr]; rfl

/-- When a pending cell's computation gives the cell `d`, forcing the cell is forcing `d` from the machine where the
cell is claimed, and the cell ends settled to that outcome. -/
theorem force_of_gives {cx : Context} {m m₁ : Machine} {c d fuel : Nat} {job : Job} (hc : m.cell c = .pending job)
    (hg : eval cx fuel job.expr job.scope (m.claim c) = .ok (.thunk d) m₁) :
    force cx (fuel + 1) (.thunk c) m = Run.settleOn [c] (force cx fuel (.thunk d) m₁) := by
  rw [force_thunk, forceCell_pending_settleOn hc, bind_of_ok hg]

/-- A force that settled the cell `c`, in a machine that only grew from one where `c` is a place, leaves `c` settled
to what the force gave. -/
theorem settleOn_single {m : Machine} {c : Nat} {res : EStateM.Result Abort Machine Value} (hi : c < m.cells.size)
    (hg : m.Grows (Run.final (Run.settleOn [c] res))) :
    (∀ v m', Run.settleOn [c] res = .ok v m' → m'.cell c = .done v) ∧
    (∀ f m', Run.settleOn [c] res = .error (.fault f) m' → m'.cell c = .failed f) := by
  have hplace : ∀ (m₁ : Machine) (x : Cell), m.cells.size ≤ (m₁.settleAll [c] x).cells.size →
      (m₁.settleAll [c] x).cell c = x := fun m₁ x hs =>
    Machine.settleAll_cell_of_mem (List.mem_singleton_self c) (by rw [Machine.settleAll_size] at hs; omega)
  cases res with
  | ok w m₁ =>
    refine ⟨fun v m' h => ?_, fun f m' h => ?_⟩
    · cases h
      exact hplace m₁ _ hg.size
    · cases h
  | error e m₁ =>
    refine ⟨fun v m' h => ?_, fun f m' h => ?_⟩
    · cases h
    · cases h
      exact hplace m₁ _ hg.size

/-- A force of a cell that no force is running ends with the cell settled to the value or fault it gave. -/
theorem force_settles {cx : Context} {m : Machine} {c : Nat} (hm : m.Sound) (hcx : cx.Below m.fresh)
    (hr : m.cell c ≠ .running) (fuel : Nat) :
    (∀ v m', force cx fuel (.thunk c) m = .ok v m' → m'.cell c = .done v) ∧
    (∀ f m', force cx fuel (.thunk c) m = .error (.fault f) m' → m'.cell c = .failed f) := by
  cases fuel with
  | zero =>
    refine ⟨fun v m' h => ?_, fun f m' h => ?_⟩ <;> (rw [force] at h; cases h)
  | succ fuel =>
    -- a force lets the machine only grow, so the cell is still a place of the machine it ends in
    have hkept := (evalKeeps hcx (fuel + 1)).force (.thunk c) m.fresh (Nat.le_refl _) trivial m hm (Nat.le_refl _)
    rw [force_thunk] at hkept ⊢
    cases hci : m.cell c with
    | running => exact absurd hci hr
    | done w =>
      rw [forceCell_done hci]
      refine ⟨fun v m' h => ?_, fun f m' h => ?_⟩
      · cases h
        exact hci
      · cases h
    | failed g =>
      rw [forceCell_failed hci]
      refine ⟨fun v m' h => ?_, fun f m' h => ?_⟩
      · cases h
      · cases h
        exact hci
    | pending job =>
      rw [forceCell_pending_settleOn hci] at hkept ⊢
      exact settleOn_single (Machine.lt_size_of_cell hci (by intro h; cases h)) hkept.grows

/-! ## Chains -/

namespace Chain

variable {cx : Context} {m : Machine}

/-- The cells of a chain are pending. -/
theorem pending {c t : Nat} {cs : List Nat} (hc : Chain cx m c cs t) : ∀ i ∈ cs, ∃ job, m.cell i = .pending job := by
  induction hc with
  | last => exact fun _ h => by cases h
  | link hp _ _ _ ih =>
    intro i hi
    rcases List.mem_cons.1 hi with rfl | hi
    · exact ⟨_, hp⟩
    · exact ih i hi

/-- The cells of a chain are places of the machine. -/
theorem lt_size {c t : Nat} {cs : List Nat} (hc : Chain cx m c cs t) {i : Nat} (hi : i ∈ cs) : i < m.cells.size := by
  obtain ⟨job, hj⟩ := hc.pending i hi
  exact Machine.lt_size_of_cell hj (by intro h; cases h)

/-- A chain stays a chain once a cell off it is claimed. -/
theorem claim {c t : Nat} {cs : List Nat} (hc : Chain cx m c cs t) {j : Nat} (hj : j ∉ cs) :
    Chain cx (m.claim j) c cs t := by
  induction hc with
  | last t => exact .last t
  | link hp hg hn _ ih =>
    refine .link ?_ hg hn (ih (List.not_mem_of_not_mem_cons hj))
    rw [Machine.claim_cell_ne (List.ne_of_not_mem_cons hj)]
    exact hp

end Chain

/-- **Forcing the head of a chain is forcing its end from the machine where the whole chain is claimed, in order; then
every cell of the chain is settled to the outcome.** -/
theorem force_chain {cx : Context} {t : Nat} :
    ∀ (cs : List Nat) {m : Machine} {c : Nat}, Chain cx m c cs t → ∀ fuel,
      force cx (fuel + 1 + cs.length) (.thunk c) m = Run.settleOn cs (force cx (fuel + 1) (.thunk t) (m.claimAll cs))
  | [], m, c, hc, fuel => by
    cases hc
    rw [Run.settleOn_nil]
    rfl
  | i :: rest, m, c, hc, fuel => by
    cases hc with
    | link hp hg hn hrest =>
      have hrun := hg (fuel + rest.length) (m.claim i)
      rw [show fuel + 1 + (i :: rest).length = fuel + 1 + rest.length + 1 by simp only [List.length_cons]; omega,
        force_of_gives hp (by rwa [show fuel + 1 + rest.length = fuel + rest.length + 1 by omega]),
        force_chain rest (hrest.claim hn) fuel, Run.settleOn_settleOn, Machine.claimAll_cons]
      rfl

/-- The end of a chain in the machine where the chain is claimed: a settled end is as it was, an end on the chain is
claimed. -/
theorem Chain.end_cell {cx : Context} {m : Machine} {c t : Nat} {cs : List Nat} (hc : Chain cx m c cs t) :
    (∀ x, (∀ job, x ≠ .pending job) → m.cell t = x → (m.claimAll cs).cell t = x) ∧
    (t ∈ cs → (m.claimAll cs).cell t = .running) := by
  refine ⟨fun x hx ht => ?_, fun ht => ?_⟩
  · have hn : t ∉ cs := fun hm => by
      obtain ⟨job, hj⟩ := hc.pending t hm
      exact hx job (ht ▸ hj)
    rw [Machine.claimAll_cell_of_not_mem hn, ht]
  · exact Machine.claimAll_cell_of_mem ht (hc.lt_size ht)

/-- **Forcing chains of memo cells.** Forcing the head of a chain claims its cells in order, forces its end once, and
settles every cell of the chain to that one outcome. -/
theorem forcing_settles_chains :
    (∀ (cx : Context) (m : Machine) (c fuel : Nat), m.Sound → cx.Below m.fresh → m.cell c ≠ .running →
      (∀ v m', force cx fuel (.thunk c) m = .ok v m' → m'.cell c = .done v) ∧
      (∀ f m', force cx fuel (.thunk c) m = .error (.fault f) m' → m'.cell c = .failed f)) ∧
    (∀ (cx : Context) (m : Machine) (c fuel : Nat), m.cell c = .running →
      ∃ m', force cx (fuel + 1) (.thunk c) m = .error (.fault .cyclicForce) m' ∧ m'.cell c = .running) ∧
    (∀ (cx : Context) (m m₁ : Machine) (c d fuel : Nat) (job : Job), m.cell c = .pending job →
      eval cx fuel job.expr job.scope (m.claim c) = .ok (.thunk d) m₁ →
      force cx (fuel + 1) (.thunk c) m = Run.settleOn [c] (force cx fuel (.thunk d) m₁)) ∧
    (∀ (cx : Context) (m : Machine) (c t : Nat) (cs : List Nat), Chain cx m c cs t → ∀ fuel,
      force cx (fuel + 1 + cs.length) (.thunk c) m = Run.settleOn cs (force cx (fuel + 1) (.thunk t) (m.claimAll cs)) ∧
      (∀ k, (m.claimAll cs).counters.get k = m.counters.get k + if k = .computations then cs.length else 0) ∧
      (∀ v, m.cell t = .done v → ∃ m', force cx (fuel + 1 + cs.length) (.thunk c) m = .ok v m' ∧
        (∀ i ∈ cs, m'.cell i = .done v) ∧ (∀ j ∉ cs, m'.cell j = m.cell j) ∧
        m'.counters = (m.claimAll cs).counters.bump .cacheHits) ∧
      (∀ f, m.cell t = .failed f → ∃ m', force cx (fuel + 1 + cs.length) (.thunk c) m = .error (.fault f) m' ∧
        (∀ i ∈ cs, m'.cell i = .failed f) ∧ (∀ j ∉ cs, m'.cell j = m.cell j) ∧ m'.counters = (m.claimAll cs).counters) ∧
      (t ∈ cs → ∃ m', force cx (fuel + 1 + cs.length) (.thunk c) m = .error (.fault .cyclicForce) m' ∧
        (∀ i ∈ cs, m'.cell i = .failed .cyclicForce ∧ ∀ n, force cx (n + 1) (.thunk i) m' = .error (.fault .cyclicForce) m') ∧
        (∀ j ∉ cs, m'.cell j = m.cell j) ∧ m'.counters = (m.claimAll cs).counters.bump .cyclicForces)) := by
  refine ⟨fun cx m c fuel hm hcx hr => force_settles hm hcx hr fuel, fun cx m c fuel hr => ?_,
    fun cx m m₁ c d fuel job hc hg => force_of_gives hc hg, fun cx m c t cs hc fuel => ?_⟩
  · rw [force_thunk, forceCell_running hr]
    exact ⟨_, rfl, hr⟩
  have hchain := force_chain cs hc fuel
  obtain ⟨hsettled, hcyclic⟩ := hc.end_cell
  -- settling the claimed chain moves the chain's cells only
  have hframe : ∀ (k : Counters) (ev : Array Event) (x : Cell), ∀ j ∉ cs,
      (Machine.settleAll { m.claimAll cs with counters := k, events := ev } cs x).cell j = m.cell j :=
    fun k ev x j hj => by
      rw [Machine.settleAll_cell_of_not_mem hj]
      exact Machine.claimAll_cell_of_not_mem hj
  have hchained : ∀ (k : Counters) (ev : Array Event) (x : Cell), ∀ i ∈ cs,
      (Machine.settleAll { m.claimAll cs with counters := k, events := ev } cs x).cell i = x :=
    fun k ev x i hi => Machine.settleAll_cell_of_mem hi (by simpa using hc.lt_size hi)
  refine ⟨hchain, Machine.claimAll_counters m cs, fun v ht => ?_, fun f ht => ?_, fun ht => ?_⟩
  · rw [hchain, force_thunk, forceCell_done (hsettled _ (fun _ h => by cases h) ht)]
    exact ⟨_, rfl, hchained _ _ _, hframe _ _ _, Machine.settleAll_counters ..⟩
  · rw [hchain, force_thunk, forceCell_failed (hsettled _ (fun _ h => by cases h) ht)]
    exact ⟨_, rfl, hchained (m.claimAll cs).counters (m.claimAll cs).events _,
      hframe (m.claimAll cs).counters (m.claimAll cs).events _, Machine.settleAll_counters ..⟩
  · rw [hchain, force_thunk, forceCell_running (hcyclic ht)]
    refine ⟨_, rfl, fun i hi => ⟨hchained _ _ _ i hi, fun n => ?_⟩, hframe _ _ _, Machine.settleAll_counters ..⟩
    rw [force_thunk]
    exact forceCell_failed (hchained _ _ _ i hi)

/-- Two pending cells whose computations give each other: forcing the first gives `CyclicForce`. -/
theorem two_cell_loop_fails_cyclic :
    Chain {} { cells := #[.pending ⟨.this, { this := some 1 }⟩, .pending ⟨.this, { this := some 0 }⟩] } 0 [0, 1] 0 ∧
      ∃ m', force {} (1 + 1 + 2) (.thunk 0)
          { cells := #[.pending ⟨.this, { this := some 1 }⟩, .pending ⟨.this, { this := some 0 }⟩] } =
          .error (.fault .cyclicForce) m' ∧ m'.cell 0 = .failed .cyclicForce ∧ m'.cell 1 = .failed .cyclicForce := by
  have hgives : ∀ d : Nat, Job.Gives {} ⟨.this, { this := some d }⟩ d := fun d fuel m => by
    rw [eval]
    rfl
  have hc : Chain {} { cells := #[.pending ⟨.this, { this := some 1 }⟩, .pending ⟨.this, { this := some 0 }⟩] }
      0 [0, 1] 0 :=
    .link rfl (hgives 1) (by simp) (.link rfl (hgives 0) (by simp) (.last 0))
  obtain ⟨m', hrun, hcells, -, -⟩ := ((forcing_settles_chains.2.2.2 _ _ 0 0 [0, 1] hc 1).2.2.2.2 (by simp))
  exact ⟨hc, m', hrun, (hcells 0 (by simp)).1, (hcells 1 (by simp)).1⟩

end LazyCall
