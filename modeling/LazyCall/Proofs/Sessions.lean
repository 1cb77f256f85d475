import LazyCall.Session
import LazyCall.Proofs.Soundness

/-!
# Sessions keep their machine sound

Main statements: every step keeps a session sound and lets its machine only grow (`Session.Sound.step`), and
along a whole session from a sound one, here the empty session (`Session.sound_empty`), every machine a report shows
is sound and grew from every machine before it (`Session.Sound.steps`). A sound session has a sound machine and
binds only values below the machine's counter (`Session.Sound`), so the evaluator's invariant (`evalKeeps`) applies
to every expression a step evaluates.

The pool of `forceAll` halves its list by well-founded recursion; `keeps_sweep` follows that recursion
(`fun_induction`), the halves one after the other.
-/

namespace LazyCall

open Run

variable {cx : Context} {n₀ : Nat}

theorem keeps_forceInOrder (he : EvalKeeps cx n₀ stepFuel) :
    ∀ (cells : List Nat) {n : Nat}, n₀ ≤ n → Run.Keeps n (forceInOrder cx cells) fun sw k => ∀ v ∈ sw.values, v.Below k
  | [], _, _ => Keeps.pure fun _ _ _ h => by cases h
  | i :: is, n, hn => by
    rw [forceInOrder]
    refine Keeps.bind (Keeps.attempt (P := fun (r : Except Abort Value) k => ∀ v, r = .ok v → v.Below k)
      (he.force (.thunk i) n hn trivial) (fun v k h _ e => by cases e; exact h.1) fun _ _ _ _ h => by cases h)
      fun r k hk hr => ?_
    cases r with
    | ok v =>
      refine Keeps.bind (keeps_forceInOrder he is (by omega)) fun sw k₁ hk₁ hsw => Keeps.pure fun k₂ hk₂ w hw => ?_
      rcases List.mem_cons.1 hw with rfl | hw
      · exact (hr w rfl).mono (by omega)
      · exact (hsw w hw).mono hk₂
    | error e =>
      cases e <;> exact Keeps.pure fun _ _ _ h => by cases h

theorem keeps_sweep (he : EvalKeeps cx n₀ stepFuel) (halves : Nat) (resumed stopped : Bool) (cells : List Nat)
    {n : Nat} (hn : n₀ ≤ n) : Run.Keeps n (sweep cx halves resumed stopped cells) fun sw k => ∀ v ∈ sw.values, v.Below k := by
  fun_induction sweep cx halves resumed stopped cells generalizing n with
  | case1 => exact Keeps.pure fun _ _ _ h => by cases h
  | case2 => exact keeps_forceInOrder he _ hn
  | case3 _ _ _ _ _ _ _ _ ihl ihra ihr =>
    -- the second half runs whether or not the first one panicked; only the values of a sweep without a panic count
    refine Keeps.bind (ihl hn) fun left k hk hl => ?_
    split
    · exact Keeps.bind (ihra left (by omega)) fun _ _ _ _ => Keeps.pure fun _ _ _ h => by cases h
    · refine Keeps.bind (ihr left (by omega)) fun right k₁ hk₁ hr => Keeps.pure fun k₂ hk₂ v hv => ?_
      rcases List.mem_append.1 hv with hv | hv
      · exact (hl v hv).mono (by omega)
      · exact (hr v hv).mono hk₂

theorem keeps_forceCells (he : EvalKeeps cx n₀ stepFuel) (cells : List Nat) {n : Nat} (hn : n₀ ≤ n) :
    Run.Keeps n (forceCells cx cells) fun vs k => ∀ v ∈ vs, v.Below k := by
  unfold forceCells
  refine Keeps.bind (keeps_sweep he poolWorkers false false cells hn) fun sw k hk hsw => ?_
  split
  · exact Keeps.throw
  · exact Keeps.throw
  · exact Keeps.pure fun k' hk' v hv => (hsw v hv).mono hk'

theorem keeps_forceRepeatedly (he : EvalKeeps cx n₀ stepFuel) (i : Nat) :
    ∀ (times : Nat) {n : Nat}, n₀ ≤ n → Run.Keeps n (forceRepeatedly cx i times) fun _ _ => True
  | 0, _, _ => Keeps.pure fun _ _ => trivial
  | times + 1, n, hn => by
    rw [forceRepeatedly]
    refine Keeps.bind (Keeps.attempt (P := fun _ _ => True) (he.force (.thunk i) n hn trivial)
      (fun _ _ _ => trivial) fun _ _ _ => trivial) fun _ k hk _ => ?_
    exact Keeps.bind (keeps_forceRepeatedly he i times (by omega)) fun _ _ _ _ => Keeps.pure fun _ _ => trivial

theorem Scope.below_top {n : Nat} : ({} : Scope).Below n := by
  simp [Scope.Below]

/-- A session that evaluation can reach: its machine is sound and its bindings are below the machine's counter. -/
structure Session.Sound (s : Session) : Prop where
  machine : s.machine.Sound
  bindings : ∀ p ∈ s.bindings, p.2.Below s.machine.fresh

namespace Session

theorem sound_empty : ({} : Session).Sound :=
  ⟨⟨Nat.one_pos, fun _ h => by simp at h, fun _ h => by simp at h⟩, fun _ h => by cases h⟩

variable {s : Session}

/-- A step runs from the session's machine with the events cleared, which changes nothing that soundness sees. -/
theorem Sound.of_run {α : Type} (hs : s.Sound) {x : Run α} {res : EStateM.Result Abort Machine α}
    (hres : x { s.machine with events := #[] } = res) {Q : α → Nat → Prop} (hx : Run.Keeps s.machine.fresh x Q) :
    Run.Kept s.machine Q res := by
  have h := hx { s.machine with events := #[] } (hs.machine.congr rfl rfl rfl) (Nat.le_refl _)
  have hg : s.machine.Grows { s.machine with events := #[] } := .of_cells rfl (Nat.le_refl _)
  rw [hres] at h
  cases res with
  | ok a m => exact ⟨h.1, hg.trans h.2.1, h.2.2⟩
  | error e m => exact ⟨h.1, hg.trans h.2⟩

theorem bindResult_below {n : Nat} (hs : ∀ p ∈ s.bindings, p.2.Below n) (name : Option String)
    {r : Except Abort Value} (hr : ∀ v, r = .ok v → v.Below n) : ∀ p ∈ s.bindResult name r, p.2.Below n := by
  cases r with
  | error e => exact hs
  | ok v =>
    cases name with
    | none => exact hs
    | some x =>
      rintro p (_ | ⟨_, hp⟩)
      · exact hr v rfl
      · exact hs p hp

/-- Every step keeps the session sound and lets its machine only grow. -/
theorem Sound.step (hs : s.Sound) (opts : Options) (st : Step) :
    (s.step opts st).1.Sound ∧ s.machine.Grows (s.step opts st).1.machine := by
  have he := @evalKeeps (s.context opts) _ hs.bindings stepFuel
  have hold : ∀ {m : Machine}, s.machine.Grows m → ∀ p ∈ s.bindings, p.2.Below m.fresh :=
    fun hg p hp => (hs.bindings p hp).mono hg.fresh
  unfold Session.step
  cases st with
  | expr e name =>
    dsimp only
    split
    all_goals
      rename_i hres
      have h := hs.of_run hres (Keeps.attempt (P := fun r k => ∀ v, r = .ok v → v.Below k)
        (he.eval e {} _ (Nat.le_refl _) Scope.below_top) (fun v k hv _ h => by cases h; exact hv)
        fun _ _ _ _ h => by cases h)
    · exact ⟨⟨h.1, bindResult_below (hold h.2.1) name h.2.2⟩, h.2.1⟩
    · exact ⟨⟨h.1, hold h.2⟩, h.2⟩
  | forceAll es name =>
    dsimp only
    split
    all_goals
      rename_i hres
      have h := hs.of_run hres (Keeps.attempt (P := fun r k => ∀ v, r = .ok v → v.Below k)
        (Keeps.bind (he.evalAll es (Nat.le_refl _) Scope.below_top) fun vs k hk hvs =>
          Keeps.bind (Keeps.mapM (fun _ _ _ _ _ => trivial) fun v hv k₁ hk₁ => keeps_cellOf ((hvs v hv).mono hk₁))
            fun cells k₁ hk₁ _ =>
              Keeps.map (keeps_forceCells he cells (by omega)) fun _ _ hvs => Value.below_array.2 hvs)
        (fun v k hv _ h => by cases h; exact hv) fun _ _ _ _ h => by cases h)
    · exact ⟨⟨h.1, bindResult_below (hold h.2.1) name h.2.2⟩, h.2.1⟩
    · exact ⟨⟨h.1, hold h.2⟩, h.2⟩
  | forceThreads e threads =>
    dsimp only
    split
    all_goals
      rename_i hres
      have h := hs.of_run (Q := fun _ _ => True) hres (Keeps.bind (Keeps.attempt
        (P := fun (r : Except Abort Value) k => ∀ v, r = .ok v → v.Below k)
        (he.eval e {} _ (Nat.le_refl _) Scope.below_top) (fun v k hv _ h => by cases h; exact hv)
        fun _ _ _ _ h => by cases h) fun r k hk hr => by
          cases r with
          | ok v =>
            exact Keeps.bind (keeps_cellOf (hr v rfl)) fun i k₁ hk₁ _ =>
              Keeps.map (keeps_forceRepeatedly he i threads (by omega)) fun _ _ _ => trivial
          | error err => exact Keeps.pure fun _ _ => trivial)
    · exact ⟨⟨h.1, hold h.2.1⟩, h.2.1⟩
    · exact ⟨⟨h.1, hold h.2.1⟩, h.2.1⟩
    · exact ⟨⟨h.1, hold h.2⟩, h.2⟩

/-- A step's report shows the machine the step left. -/
theorem step_machine (opts : Options) (s : Session) (st : Step) : (s.step opts st).2.machine = (s.step opts st).1.machine := by
  unfold Session.step
  cases st <;> dsimp only <;> split <;> rfl

theorem steps_cons (opts : Options) (s : Session) (st : Step) (sts : List Step) :
    Session.steps opts s (st :: sts) = (s.step opts st).2 :: Session.steps opts (s.step opts st).1 sts := rfl

/-- Along a session from a sound one, every machine a report shows is sound and grew from every machine before it. -/
theorem Sound.steps (hs : s.Sound) (opts : Options) (sts : List Step) :
    (∀ r ∈ Session.steps opts s sts, r.machine.Sound) ∧
      List.Pairwise Machine.Grows (s.machine :: (Session.steps opts s sts).map (·.machine)) := by
  induction sts generalizing s with
  | nil => exact ⟨fun _ h => (List.not_mem_nil h).elim, List.pairwise_singleton _ _⟩
  | cons st sts ih =>
    obtain ⟨hs', hg⟩ := hs.step opts st
    obtain ⟨hsound, hpair⟩ := ih hs'
    rw [steps_cons, List.map_cons, step_machine]
    refine ⟨?_, List.Pairwise.cons ?_ hpair⟩
    · rintro r (_ | ⟨_, hr⟩)
      · rw [step_machine]; exact hs'.machine
      · exact hsound r hr
    · rintro m (_ | ⟨_, hm⟩)
      · exact hg
      · exact hg.trans (List.rel_of_pairwise_cons hpair hm)

end Session

end LazyCall
