import Mathlib
import LazyCall.Proofs.Soundness

/-!
# Equality of values

`Value.same` compares doubles as IEEE 754 does, so it is not an equivalence: a NaN differs from itself. It is a
*partial* equivalence — symmetric and transitive on all values (`Value.same_comm`, `Value.same_trans`) — whose
support is exactly the values with no NaN double in them, arrays followed to every depth (`Value.same_self_iff`).
Functions, memo cells and foreign payloads compare by identity, so what they hold never breaks reflexivity.

Doubles are compared through Lean's own model of them: `x == y` unpacks both and compares the unpacked numbers, which
relates two zeros of either sign, two infinities of one sign and two finite numbers with one sign, mantissa and
exponent (`IeeeSame`), and relates a NaN to nothing.

Two consequences for the resolver. Applying a function that still needs arguments to none gives the function itself,
when the function's arity is within the resolver's limit (`Resolver.applyFunction_nil`). And a run that ends by
binding new arguments draws a fresh identity for the new list at its last turn (`Resolver.lastTurn_binds`), so two
such runs give functions that are never equal once the first has ended before the last turn of the second, which
covers a run nested in an over-application turn of the other (`Resolver.endsBinding_never_same`).
-/

open Float.Model Float.Model.UnpackedFloat

namespace LazyCall

/-! ## Doubles -/

/-- Unpacked doubles that IEEE 754 equality relates: zeros of either sign, infinities of one sign, and finite numbers
with one sign, mantissa and exponent. A NaN is related to nothing. -/
inductive IeeeSame : UnpackedFloat → UnpackedFloat → Prop
  | zero (s t : Sign) : IeeeSame (.zero s) (.zero t)
  | infinity (s : Sign) : IeeeSame (.infinity s) (.infinity s)
  | finite (s : Sign) (m : Nat) (e : Int) (h : 0 < m) : IeeeSame (.finite s m e h) (.finite s m e h)

namespace IeeeSame

theorem sign_compare_eq {s t : Sign} : compare s t = .eq ↔ s = t := by
  cases s <;> cases t <;> simp [compare]

/-- The unpacked comparison says equal exactly for the pairs IEEE 754 relates. -/
theorem beq_iff {a b : UnpackedFloat} : a.beq b = true ↔ IeeeSame a b := by
  constructor
  · intro h
    -- the comparison is a match on both constructors and both signs
    rcases a with (_ | _) | _ | (_ | _) | ⟨(_ | _), m₁, e₁, h₁⟩ <;>
    rcases b with (_ | _) | _ | (_ | _) | ⟨(_ | _), m₂, e₂, h₂⟩ <;>
    simp [UnpackedFloat.beq, UnpackedFloat.compare, sign_compare_eq] at h ⊢ <;>
    first | constructor | (obtain ⟨rfl, rfl⟩ := h; constructor)
  · rintro (_ | ⟨(_ | _)⟩ | ⟨(_ | _)⟩) <;> simp [UnpackedFloat.beq, UnpackedFloat.compare, sign_compare_eq]

theorem symm {a b : UnpackedFloat} (h : IeeeSame a b) : IeeeSame b a := by
  cases h with
  | zero s t => exact .zero t s
  | infinity s => exact .infinity s
  | finite s m e h => exact .finite s m e h

theorem trans {a b c : UnpackedFloat} (h₁ : IeeeSame a b) (h₂ : IeeeSame b c) : IeeeSame a c := by
  cases h₁ <;> cases h₂ <;> constructor

/-- Every unpacked double but NaN is related to itself. -/
theorem self_iff {a : UnpackedFloat} : IeeeSame a a ↔ a.isNaN = false := by
  cases a <;> simp [UnpackedFloat.isNaN] <;> first | constructor | (intro h; cases h)

end IeeeSame

theorem Float.beq_iff_ieeeSame {x y : Float} : (x == y) = true ↔ IeeeSame x.toModel.unpack y.toModel.unpack :=
  IeeeSame.beq_iff

/-- Equality of doubles is symmetric and transitive. -/
instance Float.partialEquivBEq : PartialEquivBEq Float where
  symm h := Float.beq_iff_ieeeSame.2 (Float.beq_iff_ieeeSame.1 h).symm
  trans h₁ h₂ := Float.beq_iff_ieeeSame.2 ((Float.beq_iff_ieeeSame.1 h₁).trans (Float.beq_iff_ieeeSame.1 h₂))

/-- A double equals itself exactly when it is not a NaN. -/
theorem Float.beq_self (x : Float) : (x == x) = !x.isNaN := by
  have h : x.isNaN = x.toModel.unpack.isNaN := rfl
  rw [h, Bool.eq_iff_iff, Float.beq_iff_ieeeSame, IeeeSame.self_iff]
  cases x.toModel.unpack.isNaN <;> simp

/-! ## Values -/

namespace Value

mutual
/-- No NaN double stands anywhere in the value, arrays followed to every depth. Functions, memo cells and foreign
payloads compare by identity, so what they hold does not count. -/
def NaNFree : Value → Prop
  | .float x => x.isNaN = false
  | .array items => NaNFreeAll items
  | .int _ | .bool _ | .str _ | .unit | .func _ | .thunk _ | .foreign .. => True

/-- No NaN double stands anywhere in the values. -/
def NaNFreeAll : List Value → Prop
  | [] => True
  | v :: vs => NaNFree v ∧ NaNFreeAll vs
end

/-- Two functions are equal when they share the closure and either both have no bound arguments or both have some and
share the list of them. -/
theorem sameFn_iff {f g : Fn} : sameFn f g = true ↔ f.closure = g.closure ∧
    (f.bound = [] ∧ g.bound = [] ∨ f.bound ≠ [] ∧ g.bound ≠ [] ∧ f.boundId = g.boundId) := by
  unfold sameFn
  by_cases hf : f.bound = [] <;> by_cases hg : g.bound = [] <;> simp [hf, hg]

theorem sameFn_comm (f g : Fn) : sameFn f g = sameFn g f := by
  rw [Bool.eq_iff_iff, sameFn_iff, sameFn_iff]
  constructor <;> rintro ⟨hc, ⟨hf, hg⟩ | ⟨hf, hg, hi⟩⟩ <;> simp_all

theorem sameFn_trans {f g k : Fn} (h₁ : sameFn f g = true) (h₂ : sameFn g k = true) : sameFn f k = true := by
  rw [sameFn_iff] at *
  obtain ⟨hc₁, ⟨hf, hg⟩ | ⟨hf, hg, hi₁⟩⟩ := h₁ <;> obtain ⟨hc₂, ⟨hg', hk⟩ | ⟨hg', hk, hi₂⟩⟩ := h₂ <;> simp_all

/-- A function equals itself, whatever it holds. -/
theorem sameFn_self (f : Fn) : sameFn f f = true := by
  rw [sameFn_iff]
  by_cases hf : f.bound = [] <;> simp [hf]

mutual
/-- Equality of values is symmetric. -/
theorem same_comm : ∀ v w : Value, v.same w = w.same v
  | .array xs, w => by
    cases w with
    | array ys => simp only [same]; exact sameItems_comm xs ys
    | _ => rfl
  | .func f, w => by
    cases w with
    | func g => simp only [same]; exact sameFn_comm f g
    | _ => rfl
  | .int _, w | .float _, w | .bool _, w | .str _, w | .thunk _, w | .foreign .., w => by
    cases w <;> simp only [same, BEq.comm]
  | .unit, w => by cases w <;> rfl

theorem sameItems_comm : ∀ xs ys : List Value, sameItems xs ys = sameItems ys xs
  | [], [] | [], _ :: _ | _ :: _, [] => rfl
  | x :: xs, y :: ys => by simp only [sameItems]; rw [same_comm x y, sameItems_comm xs ys]
end

mutual
/-- Equality of values is transitive. -/
theorem same_trans : ∀ u v w : Value, u.same v = true → v.same w = true → u.same w = true
  -- values of different kinds are never equal, so only the triples of one kind are left
  | .array xs, v, w, h₁, h₂ => by
    cases v <;> cases w <;> simp only [same, Bool.false_eq_true] at h₁ h₂ ⊢
    exact sameItems_trans xs _ _ h₁ h₂
  | .func _, v, w, h₁, h₂ => by
    cases v <;> cases w <;> simp only [same, Bool.false_eq_true] at h₁ h₂ ⊢
    exact sameFn_trans h₁ h₂
  | .int _, v, w, h₁, h₂ | .float _, v, w, h₁, h₂ | .bool _, v, w, h₁, h₂ | .str _, v, w, h₁, h₂
  | .thunk _, v, w, h₁, h₂ | .foreign .., v, w, h₁, h₂ => by
    cases v <;> cases w <;> simp only [same, Bool.false_eq_true] at h₁ h₂ ⊢
    exact BEq.trans h₁ h₂
  | .unit, v, w, h₁, h₂ => by cases v <;> cases w <;> simp only [same, Bool.false_eq_true] at h₁ h₂ ⊢

theorem sameItems_trans : ∀ xs ys zs : List Value, sameItems xs ys = true → sameItems ys zs = true →
    sameItems xs zs = true
  | [], [], [], _, _ => rfl
  | x :: xs, y :: ys, z :: zs, h₁, h₂ => by
    simp only [sameItems, Bool.and_eq_true] at *
    exact ⟨same_trans x y z h₁.1 h₂.1, sameItems_trans xs ys zs h₁.2 h₂.2⟩
  | [], [], _ :: _, _, h₂ | [], _ :: _, _, h₁, _ | _ :: _, [], _, h₁, _ | _ :: _, _ :: _, [], _, h₂ => by
    simp [sameItems] at *
end

mutual
/-- A value equals itself exactly when no NaN stands in it. -/
theorem same_self_iff : ∀ v : Value, v.same v = true ↔ v.NaNFree
  | .float x => by simp only [same, NaNFree, Float.beq_self, Bool.not_eq_true']
  | .array items => by simp only [same, NaNFree]; exact sameItems_self_iff items
  | .func f => by simp only [same, NaNFree, sameFn_self]
  | .int _ | .bool _ | .str _ | .thunk _ | .foreign .. => by simp [same, NaNFree]
  | .unit => by simp [same, NaNFree]

theorem sameItems_self_iff : ∀ vs : List Value, sameItems vs vs = true ↔ NaNFreeAll vs
  | [] => by simp [sameItems, NaNFreeAll]
  | v :: vs => by
    simp only [sameItems, NaNFreeAll, Bool.and_eq_true]
    rw [same_self_iff v, sameItems_self_iff vs]
end

/-- Functions, memo cells and foreign payloads are equal by identity: functions by closure and list of bound
arguments, cells by place, foreign payloads by their own identity whatever they carry. -/
theorem same_by_identity (f g : Fn) (i j : Nat) (a b : Nat) (x y : Int64) :
    ((Value.func f).same (.func g) = true ↔ f.closure = g.closure ∧
      (f.bound = [] ∧ g.bound = [] ∨ f.bound ≠ [] ∧ g.bound ≠ [] ∧ f.boundId = g.boundId)) ∧
    ((Value.thunk i).same (.thunk j) = true ↔ i = j) ∧ ((Value.foreign a x).same (.foreign b y) = true ↔ a = b) := by
  simp [same, sameFn_iff]

end Value

/-! ## Applications and identities -/

namespace Resolver

open Run

variable {r : Resolver} {h : Host}

/-- Applying a function that still needs arguments to none. Within the arity limit the turn is short: it is reported,
one partial application is counted, and the function itself is the outcome. Above the limit the turn stops with
`ArityOutOfRange` before anything else. -/
theorem applyFunction_nil {f : Fn} (hn : 0 < f.need) (m : Machine) :
    r.applyFunction h f [] m = if r.limits.maxArity < f.arity then
        .error (.fault (.arityOutOfRange f.arity r.limits.maxArity)) m
      else .ok (.curried f)
        { r.noted .short f 0 m with counters := (r.noted .short f 0 m).counters.bump .partialApplications } := by
  unfold applyFunction
  split
  · rw [loop_of_arity ‹_›]; rfl
  · rw [loop_of_le (by omega) (Nat.zero_le _), lastTurn, if_neg (by simp only [List.length_nil]; omega),
      bind_of_ok (report_apply ..), bind_of_ok (count_apply ..)]
    rfl

variable (r h) in
/-- `applyFunction` applied `f` to `args` in `m` and gave `g` in `m'` by binding new arguments: after its
over-application turns, the last turn, from `m₀`, was short and bound a non-empty rest. -/
def EndsBinding (f : Fn) (args : List Value) (m m₀ : Machine) (g : Fn) (m' : Machine) : Prop :=
  r.applyFunction h f args m = .ok (.curried g) m' ∧
    ∃ turns g₀ rest, Overs r h f args m turns g₀ rest m₀ ∧ rest ≠ [] ∧
      r.lastTurn h g₀ rest m₀ = .ok (.curried g) m'

/-- A short turn that binds a non-empty rest gives a function with bound arguments, whose list has the identity the
counter held, and draws it. -/
theorem lastTurn_binds {g₀ g : Fn} {rest : List Value} {m₀ m' : Machine} (hr : rest ≠ [])
    (ht : r.lastTurn h g₀ rest m₀ = .ok (.curried g) m') :
    g.bound ≠ [] ∧ g.boundId = m₀.fresh ∧ m'.fresh = m₀.fresh + 1 := by
  unfold lastTurn at ht
  split at ht
  · rw [bind_of_ok (report_apply ..), map_eq_ok] at ht
    obtain ⟨_, _, hc⟩ := ht
    cases hc
  · have he : rest.isEmpty = false := by simpa using hr
    rw [bind_of_ok (report_apply ..), bind_of_ok (count_apply ..), map_eq_ok] at ht
    obtain ⟨g', hb, hg⟩ := ht
    cases hg
    rw [bindArgs, if_neg (by simp [he]), bind_of_ok (count_apply ..), bind_of_ok (freshId_apply _)] at hb
    cases hb
    exact ⟨by simp [hr], by simp, by simp⟩

/-- The identity of the new list is drawn at the last turn: it is the counter there, and below the counter after the
run. -/
theorem EndsBinding.boundId_eq {f g : Fn} {args : List Value} {m m₀ m' : Machine}
    (he : r.EndsBinding h f args m m₀ g m') : g.bound ≠ [] ∧ g.boundId = m₀.fresh ∧ g.boundId < m'.fresh := by
  obtain ⟨-, _, _, _, -, hr, ht⟩ := he
  obtain ⟨hb, hi, hf⟩ := lastTurn_binds hr ht
  exact ⟨hb, hi, by omega⟩

/-- **Two partial applications never meet.** A run that ends by binding new arguments gives a function whose list of
bound arguments is fresh; a second such run whose last turn comes after the first run ended draws a later identity,
so the two functions are not equal, whatever their closures and arguments. -/
theorem endsBinding_never_same {r₁ r₂ : Resolver} {h₁ h₂ : Host} {f₁ f₂ g₁ g₂ : Fn} {args₁ args₂ : List Value}
    {m₁ n₁ m₁' m₂ n₂ m₂' : Machine} (he₁ : r₁.EndsBinding h₁ f₁ args₁ m₁ n₁ g₁ m₁')
    (he₂ : r₂.EndsBinding h₂ f₂ args₂ m₂ n₂ g₂ m₂') (hlater : m₁'.fresh ≤ n₂.fresh) :
    (Value.func g₁).same (.func g₂) = false := by
  obtain ⟨hb₁, -, hlt⟩ := he₁.boundId_eq
  obtain ⟨-, hi₂, -⟩ := he₂.boundId_eq
  have hne : g₁.boundId ≠ g₂.boundId := by omega
  simp only [Value.same, Bool.eq_false_iff, ne_eq, Value.sameFn_iff]
  rintro ⟨-, ⟨hb, -⟩ | ⟨-, -, hi⟩⟩
  · exact hb₁ hb
  · exact hne hi

end Resolver

/-! ## The laws -/

/-- **Equality of values is a partial equivalence.** `Value.same` is symmetric and transitive, reflexive exactly on
NaN-free values, and two separate bindings of new arguments never compare equal. -/
theorem value_equality_laws :
    (∀ v w : Value, v.same w = w.same v) ∧
    (∀ u v w : Value, u.same v = true → v.same w = true → u.same w = true) ∧
    (∀ v : Value, v.same v = true ↔ v.NaNFree) ∧
    (∀ (f g : Fn) (i j a b : Nat) (x y : Int64),
      ((Value.func f).same (.func g) = true ↔ f.closure = g.closure ∧
        (f.bound = [] ∧ g.bound = [] ∨ f.bound ≠ [] ∧ g.bound ≠ [] ∧ f.boundId = g.boundId)) ∧
      ((Value.thunk i).same (.thunk j) = true ↔ i = j) ∧ ((Value.foreign a x).same (.foreign b y) = true ↔ a = b)) ∧
    (∀ (r : Resolver) (h : Host) (f : Fn) (m : Machine), 0 < f.need →
      (f.arity ≤ r.limits.maxArity →
        ∃ m', r.applyFunction h f [] m = .ok (.curried f) m' ∧ (Value.func f).same (.func f) = true) ∧
      (r.limits.maxArity < f.arity →
        r.applyFunction h f [] m = .error (.fault (.arityOutOfRange f.arity r.limits.maxArity)) m)) ∧
    (∀ (r₁ r₂ : Resolver) (h₁ h₂ : Host) (f₁ f₂ g₁ g₂ : Fn) (args₁ args₂ : List Value)
      (m₁ n₁ m₁' m₂ n₂ m₂' : Machine), r₁.EndsBinding h₁ f₁ args₁ m₁ n₁ g₁ m₁' →
      r₂.EndsBinding h₂ f₂ args₂ m₂ n₂ g₂ m₂' → m₁'.fresh ≤ n₂.fresh → (Value.func g₁).same (.func g₂) = false) := by
  refine ⟨Value.same_comm, Value.same_trans, Value.same_self_iff, fun f g i j a b x y => Value.same_by_identity f g i j a b x y,
    fun r h f m hn => ⟨fun ha => ?_, fun ha => ?_⟩,
    fun _ _ _ _ _ _ _ _ _ _ _ _ _ _ _ _ he₁ he₂ hl => Resolver.endsBinding_never_same he₁ he₂ hl⟩
  · rw [Resolver.applyFunction_nil hn, if_neg (by omega)]
    exact ⟨_, rfl, (Value.same_self_iff _).2 trivial⟩
  · rw [Resolver.applyFunction_nil hn, if_pos ha]

/-- A function of two arguments, applied to none and then twice to one argument, from a machine whose counter stands
at `2`: the first application gives the function back, and the two partial applications are not equal. -/
theorem pair_partials_never_meet :
    (∃ m', Resolver.applyFunction {} (host {} 3) ⟨⟨"pair", 2, .arg 0, 0⟩, [], 1, [], 0⟩ [] { fresh := 2 } =
      .ok (.curried ⟨⟨"pair", 2, .arg 0, 0⟩, [], 1, [], 0⟩) m') ∧
    Resolver.EndsBinding {} (host {} 3) ⟨⟨"pair", 2, .arg 0, 0⟩, [], 1, [], 0⟩ [.unit] { fresh := 2 } { fresh := 2 }
      ⟨⟨"pair", 2, .arg 0, 0⟩, [], 1, [.unit], 2⟩
      { fresh := 3, counters := { functions := 1, partialApplications := 1 } } ∧
    Resolver.EndsBinding {} (host {} 3) ⟨⟨"pair", 2, .arg 0, 0⟩, [], 1, [], 0⟩ [.unit]
      { fresh := 3, counters := { functions := 1, partialApplications := 1 } }
      { fresh := 3, counters := { functions := 1, partialApplications := 1 } }
      ⟨⟨"pair", 2, .arg 0, 0⟩, [], 1, [.unit], 3⟩
      { fresh := 4, counters := { functions := 2, partialApplications := 2 } } ∧
    (Value.func ⟨⟨"pair", 2, .arg 0, 0⟩, [], 1, [.unit], 2⟩).same (.func ⟨⟨"pair", 2, .arg 0, 0⟩, [], 1, [.unit], 3⟩)
      = false := by
  have he₁ : Resolver.EndsBinding {} (host {} 3) ⟨⟨"pair", 2, .arg 0, 0⟩, [], 1, [], 0⟩ [.unit] { fresh := 2 }
      { fresh := 2 } ⟨⟨"pair", 2, .arg 0, 0⟩, [], 1, [.unit], 2⟩
      { fresh := 3, counters := { functions := 1, partialApplications := 1 } } :=
    ⟨rfl, [], _, [.unit], .nil, by simp, rfl⟩
  have he₂ : Resolver.EndsBinding {} (host {} 3) ⟨⟨"pair", 2, .arg 0, 0⟩, [], 1, [], 0⟩ [.unit]
      { fresh := 3, counters := { functions := 1, partialApplications := 1 } }
      { fresh := 3, counters := { functions := 1, partialApplications := 1 } }
      ⟨⟨"pair", 2, .arg 0, 0⟩, [], 1, [.unit], 3⟩
      { fresh := 4, counters := { functions := 2, partialApplications := 2 } } :=
    ⟨rfl, [], _, [.unit], .nil, by simp, rfl⟩
  obtain ⟨hnil, -⟩ := value_equality_laws.2.2.2.2.1 {} (host {} 3) ⟨⟨"pair", 2, .arg 0, 0⟩, [], 1, [], 0⟩
    { fresh := 2 } (by decide)
  exact ⟨(hnil (by decide)).imp fun _ h => h.1, he₁, he₂,
    value_equality_laws.2.2.2.2.2 _ _ _ _ _ _ _ _ _ _ _ _ _ _ _ _ he₁ he₂ (Nat.le_refl _)⟩

/-- The application of a function to no arguments still meets the arity check: under an arity limit of zero, a
function of one argument applied to none is refused with `ArityOutOfRange` instead of being given back. -/
theorem empty_application_meets_arity_limit :
    0 < Callable.need (⟨⟨"lambda", 1, .arg 0, 0⟩, [], 1, [], 0⟩ : Fn) ∧
      Resolver.applyFunction { limits := { maxArity := 0 } } (host {} 3) ⟨⟨"lambda", 1, .arg 0, 0⟩, [], 1, [], 0⟩ []
        {} = .error (.fault (.arityOutOfRange 1 0)) {} :=
  ⟨by decide, rfl⟩

end LazyCall
