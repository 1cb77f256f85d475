import LazyCall.Show
import LazyCall.Script.Eval
import LazyCall.Proofs.Sound

/-!
# Renaming identities

Identities — of closures, of lists of bound arguments, of foreign payloads — are drawn from the machine's counter and
only ever compared with each other. Renaming them by an injective map `ρ` that keeps `0` (the identity every unbound
function carries) changes nothing that evaluation can see: `Value.same`, the kinds, arities and texts of values, and
which cells hold what, up to the renaming of their contents (`Value.same_rename`, `Machine.display_rename`,
`Machine.debug_rename`).

`Machine.Renamed ρ m m'` relates two machines with the same cells and homes up to `ρ`, whose counters `ρ` maps onto
each other from there on; counters of events and the events themselves are left out. Two renamings matter: the
identity, which relates machines that differ only in what they counted and reported, and `shiftAt p`, which makes room
for one identity at `p`. Both fix everything below `p`, so a value or machine below `p` is its own renaming
(`Value.rename_of_below`, `Machine.renamed_shift`).
-/

namespace LazyCall

/-! ## Renaming values -/

mutual
/-- The value with every identity `i` it holds replaced by `ρ i`. Places of memo cells are not identities. -/
def Value.rename (ρ : Nat → Nat) : Value → Value
  | .array items => .array (Value.renameAll ρ items)
  | .func f => .func (Callable.rename ρ f)
  | .foreign id tag => .foreign (ρ id) tag
  | .int n => .int n
  | .float x => .float x
  | .bool b => .bool b
  | .str s => .str s
  | .unit => .unit
  | .thunk i => .thunk i

/-- The function with its closure, its list of bound arguments and every value it holds renamed. -/
def Callable.rename (ρ : Nat → Nat) : Callable Value → Callable Value
  | ⟨lambda, env, closure, bound, boundId⟩ =>
    ⟨lambda, Value.renameAll ρ env, ρ closure, Value.renameAll ρ bound, ρ boundId⟩

/-- Each value of the list renamed. -/
def Value.renameAll (ρ : Nat → Nat) : List Value → List Value
  | [] => []
  | v :: vs => Value.rename ρ v :: Value.renameAll ρ vs
end

/-- A renaming of identities: injective, and keeping `0`. -/
structure Renaming (ρ : Nat → Nat) : Prop where
  inj : ∀ {a b : Nat}, ρ a = ρ b → a = b
  zero : ρ 0 = 0

variable {ρ : Nat → Nat}

/-- Comparing renamed identities is comparing the identities. -/
theorem Renaming.beq_eq (hρ : Renaming ρ) (a b : Nat) : (ρ a == ρ b) = (a == b) := by
  by_cases h : a = b
  · subst h; simp only [beq_self_eq_true]
  · have hne : ρ a ≠ ρ b := fun h' => h (hρ.inj h')
    rw [beq_false_of_ne h, beq_false_of_ne hne]

namespace Value

@[simp] theorem renameAll_eq (ρ : Nat → Nat) (vs : List Value) : Value.renameAll ρ vs = vs.map (Value.rename ρ) := by
  induction vs with
  | nil => rfl
  | cons v vs ih => simp only [Value.renameAll, ih, List.map_cons]

@[simp] theorem rename_array {items : List Value} : (Value.array items).rename ρ = .array (items.map (rename ρ)) := by
  simp [Value.rename]

@[simp] theorem rename_func {f : Fn} : (Value.func f).rename ρ = .func (f.rename ρ) := by
  simp [Value.rename]

@[simp] theorem rename_foreign {i : Nat} {tag : Int64} : (Value.foreign i tag).rename ρ = .foreign (ρ i) tag := by
  simp [Value.rename]

@[simp] theorem rename_thunk {i : Nat} : (Value.thunk i).rename ρ = .thunk i := by
  simp [Value.rename]

@[simp] theorem rename_int {n : Int64} : (Value.int n).rename ρ = .int n := by
  simp [Value.rename]

@[simp] theorem rename_float {x : Float} : (Value.float x).rename ρ = .float x := by
  simp [Value.rename]

@[simp] theorem rename_bool {b : Bool} : (Value.bool b).rename ρ = .bool b := by
  simp [Value.rename]

@[simp] theorem rename_str {s : String} : (Value.str s).rename ρ = .str s := by
  simp [Value.rename]

@[simp] theorem rename_unit : Value.unit.rename ρ = .unit := by
  simp [Value.rename]

end Value

namespace Callable

variable {f : Fn}

@[simp] theorem rename_lambda : (f.rename ρ).lambda = f.lambda := by
  obtain ⟨_, _, _, _, _⟩ := f; rfl

@[simp] theorem rename_env : (f.rename ρ).env = f.env.map (Value.rename ρ) := by
  obtain ⟨_, _, _, _, _⟩ := f; simp [Callable.rename]

@[simp] theorem rename_closure : (f.rename ρ).closure = ρ f.closure := by
  obtain ⟨_, _, _, _, _⟩ := f; rfl

@[simp] theorem rename_bound : (f.rename ρ).bound = f.bound.map (Value.rename ρ) := by
  obtain ⟨_, _, _, _, _⟩ := f; simp [Callable.rename]

@[simp] theorem rename_boundId : (f.rename ρ).boundId = ρ f.boundId := by
  obtain ⟨_, _, _, _, _⟩ := f; rfl

/-- A function is determined by its parts, so its renaming is too. -/
theorem rename_eq {g : Fn} : f.rename ρ = g ↔ g.lambda = f.lambda ∧ g.env = f.env.map (Value.rename ρ) ∧
    g.closure = ρ f.closure ∧ g.bound = f.bound.map (Value.rename ρ) ∧ g.boundId = ρ f.boundId := by
  obtain ⟨_, _, _, _, _⟩ := f
  obtain ⟨_, _, _, _, _⟩ := g
  simp only [Callable.rename, Value.renameAll_eq, Callable.mk.injEq]
  constructor
  · rintro ⟨rfl, rfl, rfl, rfl, rfl⟩; exact ⟨rfl, rfl, rfl, rfl, rfl⟩
  · rintro ⟨rfl, rfl, rfl, rfl, rfl⟩; exact ⟨rfl, rfl, rfl, rfl, rfl⟩

@[simp] theorem name_rename : (f.rename ρ).name = f.name := by
  simp [Callable.name]

@[simp] theorem arity_rename : (f.rename ρ).arity = f.arity := by
  simp [Callable.arity]

@[simp] theorem need_rename : (f.rename ρ).need = f.need := by
  simp [Callable.need, Callable.arity]

@[simp] theorem isPartial_rename : (f.rename ρ).isPartial = f.isPartial := by
  simp [Callable.isPartial]

/-- Dropping the bound arguments and renaming commute, since the renaming keeps `0`. -/
theorem unbound_rename (hρ : Renaming ρ) : (f.rename ρ).unbound = f.unbound.rename ρ := by
  obtain ⟨_, _, _, _, _⟩ := f
  simp [Callable.unbound, Callable.rename, hρ.zero]

end Callable

namespace Value

variable {v : Value}

@[simp] theorem kind_rename : (v.rename ρ).kind = v.kind := by
  cases v <;> rfl

@[simp] theorem arity_rename : (v.rename ρ).arity = v.arity := by
  cases v with
  | func f => simp [Value.arity]
  | _ => rfl

theorem toFunction_rename : (v.rename ρ).toFunction = v.toFunction.map (Callable.rename ρ) := by
  cases v <;> simp [Value.toFunction, Value.kind, Except.map]

theorem whnf_rename : (v.rename ρ).Whnf ↔ v.Whnf := by
  cases v <;> simp [Value.Whnf]

/-- A renamed value is a memo cell exactly when the value is. -/
theorem rename_ne_thunk (h : ∀ i, v ≠ .thunk i) : ∀ i, v.rename ρ ≠ .thunk i := by
  intro i
  cases v <;> simp_all

theorem sameFn_rename (hρ : Renaming ρ) (f g : Fn) : sameFn (f.rename ρ) (g.rename ρ) = sameFn f g := by
  simp only [sameFn, Callable.rename_closure, Callable.rename_bound, List.isEmpty_map, Callable.rename_boundId,
    hρ.beq_eq]

mutual
/-- Equality of values does not see a renaming of identities. -/
theorem same_rename (hρ : Renaming ρ) : ∀ v w : Value, (v.rename ρ).same (w.rename ρ) = v.same w
  | .array xs, w => by
    cases w with
    | array ys => simp only [rename_array, same]; exact sameItems_rename hρ xs ys
    | _ => rfl
  | .func f, w => by
    cases w with
    | func g => simp only [rename_func, same]; exact sameFn_rename hρ f g
    | _ => rfl
  | .foreign a _, w => by
    cases w with
    | foreign b _ =>
      simp only [rename_foreign, same]
      exact hρ.beq_eq a b
    | _ => rfl
  | .int _, w | .float _, w | .bool _, w | .str _, w | .unit, w | .thunk _, w => by cases w <;> rfl

theorem sameItems_rename (hρ : Renaming ρ) :
    ∀ xs ys : List Value, sameItems (xs.map (rename ρ)) (ys.map (rename ρ)) = sameItems xs ys
  | [], [] => rfl
  | [], _ :: _ => rfl
  | _ :: _, [] => rfl
  | x :: xs, y :: ys => by
    simp only [List.map_cons, sameItems]
    rw [same_rename hρ x y, sameItems_rename hρ xs ys]
end

end Value

mutual
theorem Value.rename_id : ∀ v : Value, v.rename id = v
  | .array items => by rw [Value.rename_array, ← Value.renameAll_eq, Value.renameAll_id]
  | .func f => by rw [Value.rename_func, Callable.rename_id]
  | .foreign _ _ | .int _ | .float _ | .bool _ | .str _ | .unit | .thunk _ => by simp

theorem Callable.rename_id : ∀ f : Fn, f.rename id = f
  | ⟨_, env, _, bound, _⟩ => by
    simp only [Callable.rename]
    rw [Value.renameAll_id env, Value.renameAll_id bound]
    rfl

theorem Value.renameAll_id : ∀ l : List Value, Value.renameAll id l = l
  | [] => rfl
  | v :: vs => by simp only [Value.renameAll]; rw [Value.rename_id v, Value.renameAll_id vs]
end

@[simp] theorem Value.map_rename_id (vs : List Value) : vs.map (Value.rename id) = vs := by
  rw [← Value.renameAll_eq, Value.renameAll_id]

/-! ## Renamings that fix what is below a bound -/

/-- The renaming that makes room for one identity at `p`: identities from `p` on move up by one. -/
def shiftAt (p i : Nat) : Nat := if i < p then i else i + 1

theorem shiftAt_of_lt {p i : Nat} (h : i < p) : shiftAt p i = i := if_pos h

theorem shiftAt_add (p k : Nat) : shiftAt p (p + k) = p + 1 + k := by
  unfold shiftAt
  rw [if_neg (by omega)]
  omega

theorem renaming_shiftAt {p : Nat} (hp : 0 < p) : Renaming (shiftAt p) where
  inj {a b} h := by
    unfold shiftAt at h
    split at h <;> split at h <;> omega
  zero := shiftAt_of_lt hp

theorem renaming_id : Renaming id := ⟨id, rfl⟩

mutual
theorem Value.rename_of_below {n : Nat} (hρ : ∀ i < n, ρ i = i) : ∀ {v : Value}, v.Below n → v.rename ρ = v
  | .array items, h => by
    have hitems := Value.renameAll_of_below hρ h
    rw [Value.renameAll_eq] at hitems
    rw [Value.rename_array, hitems]
  | .func f, h => by rw [Value.rename_func, Callable.rename_of_below hρ h]
  | .foreign _ _, h => by rw [Value.rename_foreign, hρ _ h]
  | .int _, _ | .float _, _ | .bool _, _ | .str _, _ | .unit, _ | .thunk _, _ => by simp

theorem Callable.rename_of_below {n : Nat} (hρ : ∀ i < n, ρ i = i) : ∀ {f : Fn}, f.Below n → f.rename ρ = f
  | ⟨_, env, _, bound, _⟩, ⟨he, hc, hb, hi⟩ => by
    simp only [Callable.rename]
    rw [Value.renameAll_of_below hρ he, Value.renameAll_of_below hρ hb, hρ _ hc, hρ _ hi]

theorem Value.renameAll_of_below {n : Nat} (hρ : ∀ i < n, ρ i = i) :
    ∀ {l : List Value}, Value.BelowAll n l → Value.renameAll ρ l = l
  | [], _ => rfl
  | _ :: _, ⟨h, hs⟩ => by
    simp only [Value.renameAll]
    rw [Value.rename_of_below hρ h, Value.renameAll_of_below hρ hs]
end

theorem Value.map_rename_of_below {n : Nat} (hρ : ∀ i < n, ρ i = i) {vs : List Value} (h : ∀ v ∈ vs, v.Below n) :
    vs.map (Value.rename ρ) = vs := by
  conv => rhs; rw [← List.map_id vs]
  exact List.map_congr_left fun v hv => Value.rename_of_below hρ (h v hv)

/-! ## Renaming scopes, cells and contexts -/

/-- The scope with every value it offers renamed; the cell of `this` is a place, not an identity. -/
def Scope.rename (ρ : Nat → Nat) (s : Scope) : Scope :=
  { s with args := s.args.map (Value.rename ρ), env := s.env.map (Value.rename ρ), self := s.self.map (Callable.rename ρ) }

/-- The job with its scope renamed. -/
def Job.rename (ρ : Nat → Nat) (job : Job) : Job := { job with scope := job.scope.rename ρ }

/-- The cell with its contents renamed. -/
def Cell.rename (ρ : Nat → Nat) : Cell → Cell
  | .pending job => .pending (job.rename ρ)
  | .running => .running
  | .done v => .done (v.rename ρ)
  | .failed f => .failed f

/-- The context with every bound value renamed. -/
def Context.rename (ρ : Nat → Nat) (cx : Context) : Context :=
  { cx with bindings := cx.bindings.map fun p => (p.1, p.2.rename ρ) }

theorem Scope.rename_of_below {n : Nat} (hρ : ∀ i < n, ρ i = i) {s : Scope} (hs : s.Below n) : s.rename ρ = s := by
  obtain ⟨args, env, self, this⟩ := s
  obtain ⟨ha, he, hf⟩ := hs
  simp only [Scope.rename, Value.map_rename_of_below hρ ha, Value.map_rename_of_below hρ he]
  cases self with
  | none => rfl
  | some f => rw [Option.map_some, Callable.rename_of_below hρ (hf f rfl)]

theorem Cell.rename_of_sound {n : Nat} (hρ : ∀ i < n, ρ i = i) : ∀ {c : Cell}, c.Sound n → c.rename ρ = c
  | .pending job, h => by simp only [Cell.rename, Job.rename, Scope.rename_of_below hρ h]
  | .done v, h => by rw [Cell.rename, Value.rename_of_below hρ h.1]
  | .running, _ | .failed _, _ => rfl

theorem Context.rename_of_below {n : Nat} (hρ : ∀ i < n, ρ i = i) {cx : Context} (hc : cx.Below n) :
    cx.rename ρ = cx := by
  unfold Context.rename
  conv => rhs; rw [show cx = { cx with bindings := cx.bindings.map id } by simp]
  congr 1
  exact List.map_congr_left fun p hp => by rw [Value.rename_of_below hρ (hc p hp)]; rfl

@[simp] theorem Cell.rename_id (c : Cell) : c.rename id = c := by
  cases c with
  | pending job =>
    have hv : Value.rename id = id := funext Value.rename_id
    have hf : Callable.rename id = id := funext Callable.rename_id
    simp [Cell.rename, Job.rename, Scope.rename, hv, hf]
  | done v => simp [Cell.rename, Value.rename_id]
  | _ => rfl

@[simp] theorem Context.lookup_rename {cx : Context} {name : String} :
    (cx.rename ρ).lookup name = (cx.lookup name).map (Value.rename ρ) := by
  unfold Context.lookup Context.rename
  simp only [List.find?_map, Option.map_map]
  rfl

@[simp] theorem Context.rename_resolver {cx : Context} : (cx.rename ρ).resolver = cx.resolver := rfl

@[simp] theorem Context.applier_rename {cx : Context} : (cx.rename ρ).applier = cx.applier := rfl

/-! ## Machines related by a renaming -/

/-- `m'` is `m` with its identities renamed by `ρ`: the same cells and homes up to `ρ`, and `ρ` maps the counter of
`m` and everything after it onto the counter of `m'` and everything after it, so the identities the two draw next
correspond. What the machines counted and reported is left out. -/
structure Machine.Renamed (ρ : Nat → Nat) (m m' : Machine) : Prop where
  cells : m'.cells = m.cells.map (Cell.rename ρ)
  homes : m'.homes = m.homes.map (Callable.rename ρ)
  fresh : ∀ k, ρ (m.fresh + k) = m'.fresh + k

namespace Machine.Renamed

variable {m m' : Machine}

theorem cell (h : Machine.Renamed ρ m m') (i : Nat) : m'.cell i = (m.cell i).rename ρ := by
  unfold Machine.cell
  rw [h.cells, Array.getD_eq_getD_getElem?, Array.getD_eq_getD_getElem?, Array.getElem?_map]
  cases m.cells[i]? <;> rfl

theorem size (h : Machine.Renamed ρ m m') : m'.cells.size = m.cells.size := by
  rw [h.cells, Array.size_map]

theorem peek (h : Machine.Renamed ρ m m') (i : Nat) : m'.peek? i = (m.peek? i).map (Value.rename ρ) := by
  unfold Machine.peek?
  rw [h.cell i]
  cases m.cell i <;> rfl

theorem fresh_eq (h : Machine.Renamed ρ m m') : ρ m.fresh = m'.fresh := h.fresh 0

theorem home (h : Machine.Renamed ρ m m') (slot : Nat) : m'.homes[slot]? = m.homes[slot]?.map (Callable.rename ρ) := by
  rw [h.homes, Array.getElem?_map]

theorem homes_size (h : Machine.Renamed ρ m m') : m'.homes.size = m.homes.size := by
  rw [h.homes, Array.size_map]

/-- Counting and reporting change nothing a renaming sees. -/
theorem congr {n n' : Machine} (h : Machine.Renamed ρ m m') (hc : n.cells = m.cells) (hh : n.homes = m.homes)
    (hf : n.fresh = m.fresh) (hc' : n'.cells = m'.cells) (hh' : n'.homes = m'.homes) (hf' : n'.fresh = m'.fresh) :
    Machine.Renamed ρ n n' :=
  ⟨by rw [hc, hc', h.cells], by rw [hh, hh', h.homes], fun k => by rw [hf, hf', h.fresh k]⟩

/-- Drawing an identity on both sides keeps the machines related. -/
theorem next (h : Machine.Renamed ρ m m') :
    Machine.Renamed ρ { m with fresh := m.fresh + 1 } { m' with fresh := m'.fresh + 1 } :=
  ⟨h.cells, h.homes, fun k => by
    show ρ (m.fresh + 1 + k) = m'.fresh + 1 + k
    rw [Nat.add_assoc, h.fresh (1 + k), Nat.add_assoc]⟩

end Machine.Renamed

/-- Related by the identity: the same cells, homes and counter, whatever was counted and reported. -/
theorem Machine.renamed_id_iff {m m' : Machine} :
    m.Renamed id m' ↔ m'.cells = m.cells ∧ m'.homes = m.homes ∧ m'.fresh = m.fresh := by
  constructor
  · intro h
    refine ⟨?_, ?_, ?_⟩
    · rw [h.cells]; conv => rhs; rw [← Array.map_id m.cells]
      exact Array.map_congr_left fun c _ => Cell.rename_id c
    · rw [h.homes]; conv => rhs; rw [← Array.map_id m.homes]
      exact Array.map_congr_left fun f _ => Callable.rename_id f
    · have := h.fresh 0
      simpa using this.symm
  · rintro ⟨hc, hh, hf⟩
    refine ⟨?_, ?_, fun k => by rw [hf]; rfl⟩
    · rw [hc]; conv => lhs; rw [← Array.map_id m.cells]
      exact (Array.map_congr_left fun c _ => Cell.rename_id c).symm
    · rw [hh]; conv => lhs; rw [← Array.map_id m.homes]
      exact (Array.map_congr_left fun f _ => Callable.rename_id f).symm

theorem Machine.Renamed.refl (m : Machine) : m.Renamed id m := Machine.renamed_id_iff.2 ⟨rfl, rfl, rfl⟩

/-- A renaming that fixes every identity below the counter of a sound machine relates it to the machine with the
same cells and homes whose counter the renaming maps it to. -/
theorem Machine.renamed_of_sound {m m' : Machine} (hm : m.Sound) (hρ : ∀ i < m.fresh, ρ i = i)
    (hc : m'.cells = m.cells) (hh : m'.homes = m.homes) (hf : ∀ k, ρ (m.fresh + k) = m'.fresh + k) :
    Machine.Renamed ρ m m' where
  cells := by
    rw [hc]
    conv => lhs; rw [← Array.map_id m.cells]
    exact (Array.map_congr_left fun c hc' => Cell.rename_of_sound hρ (hm.cells c hc')).symm
  homes := by
    rw [hh]
    conv => lhs; rw [← Array.map_id m.homes]
    exact (Array.map_congr_left fun f hf' => Callable.rename_of_below hρ (hm.homes f hf')).symm
  fresh := hf

/-- A sound machine, and the same machine with one more identity drawn, are related by the renaming that makes room
for that identity. -/
theorem Machine.renamed_shift {m m' : Machine} (hm : m.Sound) (hc : m'.cells = m.cells) (hh : m'.homes = m.homes)
    (hf : m'.fresh = m.fresh + 1) : Machine.Renamed (shiftAt m.fresh) m m' :=
  Machine.renamed_of_sound hm (fun _ hi => shiftAt_of_lt hi) hc hh fun k => by rw [shiftAt_add, hf]

/-! ## The texts of renamed values -/

namespace Machine

variable {m m' : Machine}

@[simp] theorem displayFn_rename (f : Fn) : displayFn (f.rename ρ) = displayFn f := by
  simp [displayFn]

/-- The display text shows no identity: a renamed value in the renamed machine reads as the value. -/
theorem display_rename (h : Machine.Renamed ρ m m') : ∀ (fuel : Nat) (v : Value), m'.display fuel (v.rename ρ) = m.display fuel v
  | 0, _ => by simp only [display]
  | fuel + 1, v => by
    cases v with
    | array items =>
      have hmap : items.map (display m' fuel ∘ Value.rename ρ) = items.map (display m fuel) :=
        List.map_congr_left fun w _ => display_rename h fuel w
      simp only [Value.rename_array, display, List.map_map, hmap]
    | func f => simp only [Value.rename_func, display, displayFn_rename]
    | thunk i =>
      simp only [Value.rename_thunk, display, h.peek i]
      cases m.peek? i with
      | none => rfl
      | some w => exact display_rename h fuel w
    | foreign _ _ => simp only [Value.rename_foreign, display]
    | _ => simp only [Value.rename, display]

/-- The debugging texts of values and of cells show no identity either; by induction on the fuel, which both share. -/
theorem debug_rename_and_debugCell (h : Machine.Renamed ρ m m') (fuel : Nat) :
    (∀ v : Value, m'.debug fuel (v.rename ρ) = m.debug fuel v) ∧ ∀ i, m'.debugCell fuel i = m.debugCell fuel i := by
  -- the texts hold long literals, so the equations are taken by unfolding one level, never by simp
  induction fuel with
  | zero => exact ⟨fun _ => rfl, fun _ => rfl⟩
  | succ fuel ih =>
    refine ⟨fun v => ?_, fun i => ?_⟩
    · cases v with
      | array items =>
        have hmap : (items.map (Value.rename ρ)).map (debug m' fuel) = items.map (debug m fuel) := by
          rw [List.map_map]
          exact List.map_congr_left fun w _ => Function.comp_apply.trans (ih.1 w)
        rw [Value.rename_array]
        unfold debug
        dsimp only
        rw [hmap]
      | func f =>
        rw [Value.rename_func]
        unfold debug
        dsimp only
        rw [Callable.name_rename, Callable.arity_rename, Callable.rename_bound, List.length_map]
      | thunk i =>
        rw [Value.rename_thunk]
        unfold debug
        dsimp only
        rw [ih.2 i]
      | _ => rfl
    · unfold debugCell
      rw [h.cell i]
      cases m.cell i with
      | done v =>
        dsimp only [Cell.rename]
        rw [ih.1 v]
      | _ => rfl

theorem debug_rename (h : Machine.Renamed ρ m m') (fuel : Nat) (v : Value) : m'.debug fuel (v.rename ρ) = m.debug fuel v :=
  (debug_rename_and_debugCell h fuel).1 v

theorem debugClosure_rename (h : Machine.Renamed ρ m m') (fuel : Nat) (f : Fn) :
    m'.debugClosure fuel (f.rename ρ) = m.debugClosure fuel f := by
  have hmap : f.env.map (debug m' fuel ∘ Value.rename ρ) = f.env.map (debug m fuel) :=
    List.map_congr_left fun w _ => Function.comp_apply.trans (debug_rename h fuel w)
  unfold debugClosure
  rw [Callable.name_rename, Callable.arity_rename, Callable.rename_env, List.map_map, hmap]

end Machine

end LazyCall
