import LazyCall.Limits.Environment
import LazyCall.Proofs.LimitsText

/-!
# Limits read from the environment

Main statement (`ofVariables_eq_iff_loads`): the limits loaded from the two variables are exactly what `Loads`
describes case by case. The arity variable is read first; a set variable whose text, trimmed of blanks, is no
unsigned 64-bit literal is refused with its text as it was set. When both read, the limits they set are validated,
the arity limit before the chain limit, and an absent variable keeps the default configuration's limit.

The two notions the loader borrows from text handling are stated on their own: `Text.Trims cs t` says that `t` is
`cs` with the blanks at both ends cut off, and `IsWord t n` that `t` is an unsigned 64-bit literal of value `n`.
Trimming and reading a literal compute exactly these (`Text.trims_iff`, `readWord?_eq_some_iff`).
-/

namespace LazyCall

/-! ## Trimming blanks -/

namespace Text

/-- `t` is `cs` with the blanks at both ends cut off: `cs` is `t` between two runs of blanks, and `t` neither starts
nor ends with a blank. -/
def Trims (cs t : List Char) : Prop :=
  ∃ pre suf, cs = pre ++ t ++ suf ∧ (∀ c ∈ pre, isBlank c) ∧ (∀ c ∈ suf, isBlank c) ∧
    (∀ c ∈ t.head?, isBlank c = false) ∧ (∀ c ∈ t.getLast?, isBlank c = false)

/-- Dropping blanks from the front passes a run of blanks and stops at a text that starts with no blank. -/
theorem dropWhile_blanks_append {pre u : List Char} (hpre : ∀ c ∈ pre, isBlank c)
    (hu : ∀ c ∈ u.head?, isBlank c = false) : (pre ++ u).dropWhile isBlank = u := by
  rw [List.dropWhile_append_of_pos hpre]
  cases u with
  | nil => rfl
  | cons c u => exact List.dropWhile_cons_of_neg (by simp [hu c rfl])

/-- What is left after dropping the blanks from the front starts with no blank. -/
theorem head?_dropWhile_isBlank (cs : List Char) : ∀ c ∈ (cs.dropWhile isBlank).head?, isBlank c = false := by
  intro c hc
  have h := List.head?_dropWhile_not isBlank cs
  rw [Option.mem_def.1 hc] at h
  exact h

theorem trimBlanks_trims (cs : List Char) : Trims cs (trimBlanks cs) := by
  -- the blanks cut from the front, then the blanks cut from the back of what is left
  have hcs : cs = cs.takeWhile isBlank ++ ((cs.dropWhile isBlank).reverse.dropWhile isBlank).reverse ++
      ((cs.dropWhile isBlank).reverse.takeWhile isBlank).reverse := by
    rw [List.append_assoc, ← List.reverse_append, List.takeWhile_append_dropWhile, List.reverse_reverse,
      List.takeWhile_append_dropWhile]
  refine ⟨_, _, hcs, List.all_eq_true.1 List.all_takeWhile,
    fun c hc => List.all_eq_true.1 List.all_takeWhile c (List.mem_reverse.1 hc), ?_, ?_⟩
  · -- the first character kept is the last one left after the back is cut, so the first one left after the front is
    intro c hc
    rw [trimBlanks, List.head?_reverse] at hc
    have hlast : (cs.dropWhile isBlank).reverse.getLast? = some c := by
      rw [← List.takeWhile_append_dropWhile (p := isBlank) (l := (cs.dropWhile isBlank).reverse),
        List.getLast?_append, Option.mem_def.1 hc]
      rfl
    rw [List.getLast?_reverse] at hlast
    exact head?_dropWhile_isBlank cs c hlast
  · intro c hc
    rw [trimBlanks, List.getLast?_reverse] at hc
    exact head?_dropWhile_isBlank _ c hc

theorem Trims.eq_trimBlanks {cs t : List Char} (h : Trims cs t) : t = trimBlanks cs := by
  obtain ⟨pre, suf, rfl, hpre, hsuf, hhead, hlast⟩ := h
  have hsuf' : ∀ c ∈ suf.reverse, isBlank c := fun c hc => hsuf c (List.mem_reverse.1 hc)
  unfold trimBlanks
  cases t with
  | nil =>
    -- a text of blanks only trims to nothing
    have hblank : ∀ c ∈ pre ++ suf, isBlank c := fun c hc => (List.mem_append.1 hc).elim (hpre c) (hsuf c)
    rw [List.append_nil, ← List.append_nil (pre ++ suf), dropWhile_blanks_append hblank (by simp)]
    rfl
  | cons c t =>
    rw [List.append_assoc, dropWhile_blanks_append hpre (by simpa using hhead), List.reverse_append,
      dropWhile_blanks_append hsuf' (by rwa [List.head?_reverse]), List.reverse_reverse]

/-- Trimming cuts exactly the blanks at both ends. -/
theorem trims_iff {cs t : List Char} : Trims cs t ↔ t = trimBlanks cs :=
  ⟨Trims.eq_trimBlanks, fun h => h ▸ trimBlanks_trims cs⟩

end Text

/-! ## Unsigned literals -/

/-- `ds` are the digits of a 64-bit word of value `n`: one or more ASCII digits, whose value is below `2 ^ 64`. -/
def WordDigits (ds : List Char) (n : Nat) : Prop :=
  ds ≠ [] ∧ (∀ c ∈ ds, c.isDigit) ∧ Nat.ofDigitChars 10 ds 0 = n ∧ n < Nat.pow 2 64

/-- `t` is an unsigned 64-bit decimal literal of value `n`: the digits of the value, after an optional `+`. -/
def IsWord (t : List Char) (n : Nat) : Prop :=
  WordDigits t n ∨ ∃ ds, t = '+' :: ds ∧ WordDigits ds n

/-- A sign is no digit. -/
theorem not_wordDigits_plus {ds : List Char} {n : Nat} : ¬ WordDigits ('+' :: ds) n :=
  fun h => absurd (h.2.1 '+' List.mem_cons_self) (by decide)

/-- Accumulating digits within a limit gives their value onto the start exactly when they are all digits and no
prefix passes the limit, which holds when the whole value does not. -/
theorem accumulateDigits_eq_ok {limit : Nat} {tooBig : IntError} {n : Nat} :
    ∀ (ds : List Char) {acc : Nat}, acc ≤ limit →
      (accumulateDigits limit tooBig acc ds = .ok n ↔
        (∀ c ∈ ds, c.isDigit) ∧ Nat.ofDigitChars 10 ds acc = n ∧ n ≤ limit)
  | [], acc, hacc => by
    simp only [accumulateDigits, Except.ok.injEq, List.not_mem_nil, Nat.ofDigitChars_nil]
    constructor
    · rintro rfl
      exact ⟨fun _ h => h.elim, rfl, hacc⟩
    · rintro ⟨-, rfl, -⟩
      rfl
  | c :: cs, acc, hacc => by
    rw [accumulateDigits, Nat.ofDigitChars_cons]
    by_cases hc : c.isDigit
    · rw [if_pos hc]
      dsimp only
      split
      · next hbig =>
        -- a prefix past the limit: the whole value is past it too
        have hle := Json.Reader.le_ofDigitChars cs (10 * acc + (c.toNat - '0'.toNat))
        simp only [reduceCtorEq, false_iff, not_and]
        omega
      · next hsmall =>
        rw [accumulateDigits_eq_ok cs (by omega)]
        simp [hc]
    · rw [if_neg hc]
      simp [hc]

/-- Digits are read to the end exactly when they are the digits of a word. -/
theorem wordDigits_iff {ds : List Char} {n : Nat} (hds : ds ≠ []) :
    WordDigits ds n ↔ accumulateDigits (Nat.pow 2 64 - 1) .posOverflow 0 ds = .ok n := by
  have hword : 0 < Nat.pow 2 64 := by decide
  rw [accumulateDigits_eq_ok ds (Nat.zero_le _)]
  constructor
  · rintro ⟨-, hdigits, hvalue, hlt⟩
    exact ⟨hdigits, hvalue, by omega⟩
  · rintro ⟨hdigits, hvalue, hle⟩
    exact ⟨hds, hdigits, hvalue, by omega⟩

/-- Reading an unsigned literal gives exactly the value of the literal. -/
theorem readWord?_eq_some_iff {s : String} {n : Nat} : readWord? s = some n ↔ IsWord s.toList n := by
  unfold readWord? IsWord
  generalize s.toList = t
  -- a leading sign is dropped unless it stands alone, and the rest must be the digits of a word
  split
  · simp [WordDigits, accumulateDigits]
  · next ds hds =>
    simp only [not_wordDigits_plus, List.cons.injEq, true_and, false_or, exists_eq_left']
    rw [if_neg hds, wordDigits_iff hds]
    split <;> simp_all
  · next hone hsign =>
    have hplus : ¬ ∃ ds, t = '+' :: ds ∧ WordDigits ds n := fun ⟨ds, ht, _⟩ => hsign ds ht
    simp only [hplus, or_false]
    by_cases ht : t = []
    · simp [ht, WordDigits]
    · rw [if_neg ht, wordDigits_iff ht]
      split <;> simp_all

/-! ## Loading the limits -/

namespace Limits

/-- What a variable sets its limit to: an absent variable keeps the default, and a set one the value of the literal
its text holds once trimmed of blanks. -/
def Sets (default : Nat) : Option String → Nat → Prop
  | none, n => n = default
  | some s, n => ∃ t, Text.Trims s.toList t ∧ IsWord t n

/-- A set variable sets its limit exactly to what its trimmed text reads as. -/
theorem sets_some_iff {default n : Nat} {s : String} :
    Sets default (some s) n ↔ readWord? (Text.trim s) = some n := by
  rw [readWord?_eq_some_iff, Text.trim, String.toList_ofList]
  constructor
  · rintro ⟨t, htrim, hword⟩
    rwa [← Text.trims_iff.1 htrim]
  · exact fun hword => ⟨_, Text.trimBlanks_trims _, hword⟩

/-- Reading a variable gives the limit it sets. -/
theorem readVariable_eq_ok_iff {var : String} {default n : Nat} {v : Option String} :
    readVariable var default v = .ok n ↔ Sets default v n := by
  -- `unfold` and `show`, not `simp [readVariable]`: building its equation lemmas is slow
  cases v with
  | none =>
    show Except.ok default = .ok n ↔ n = default
    rw [Except.ok.injEq]
    exact eq_comm
  | some s =>
    rw [sets_some_iff]
    unfold readVariable
    dsimp only
    split <;> simp_all

/-- Reading a variable fails only on a set variable that sets nothing, and then names the variable and its text as
it was set. -/
theorem readVariable_eq_error_iff {var : String} {default : Nat} {v : Option String} {e : LimitsError} :
    readVariable var default v = .error e ↔
      ∃ s, v = some s ∧ (∀ n, ¬ Sets default (some s) n) ∧ e = .env var s := by
  cases v with
  | none =>
    show Except.ok default = .error e ↔ _
    simp
  | some s =>
    simp only [sets_some_iff, Option.some.injEq, exists_eq_left']
    unfold readVariable
    dsimp only
    cases hread : readWord? (Text.trim s) with
    | some m =>
      simp only [reduceCtorEq, false_iff, not_and]
      exact fun hnone => (hnone m rfl).elim
    | none =>
      simp only [Except.error.injEq, reduceCtorEq, not_false_eq_true, implies_true, true_and]
      exact eq_comm

/-- How the two variables load the limits. The arity variable is read first, then the chain variable, and the limits
they set are validated, the arity limit first; an absent variable keeps the default configuration's limit. -/
inductive Loads : Option String → Option String → Except LimitsError Limits → Prop
  /-- A set arity variable that sets nothing is refused with its text as it was set. -/
  | badArity {s : String} {d : Option String} :
      (∀ n, ¬ Sets ({} : Limits).maxArity (some s) n) → Loads (some s) d (.error (.env arityVariable s))
  /-- Once the arity variable reads, a set chain variable that sets nothing is refused likewise. -/
  | badDepth {a : Option String} {s : String} {na : Nat} :
      Sets ({} : Limits).maxArity a na → (∀ n, ¬ Sets ({} : Limits).maxChainDepth (some s) n) →
      Loads a (some s) (.error (.env depthVariable s))
  /-- An arity limit above the supported maximum is refused whatever the chain limit. -/
  | arityTooLarge {a d : Option String} {na nd : Nat} :
      Sets ({} : Limits).maxArity a na → Sets ({} : Limits).maxChainDepth d nd → maxSupportedArity < na →
      Loads a d (.error (.arityTooLarge na))
  /-- An arity limit within the maximum with a chain limit of zero is refused for the chain limit. -/
  | zeroDepth {a d : Option String} {na : Nat} :
      Sets ({} : Limits).maxArity a na → Sets ({} : Limits).maxChainDepth d 0 → na ≤ maxSupportedArity →
      Loads a d (.error .zeroChainDepth)
  /-- Valid limits are the configuration. -/
  | valid {a d : Option String} {na nd : Nat} :
      Sets ({} : Limits).maxArity a na → Sets ({} : Limits).maxChainDepth d nd → na ≤ maxSupportedArity →
      1 ≤ nd → Loads a d (.ok ⟨na, nd⟩)

/-- The loader is the two reads and a validation, each variable defaulting to the default configuration's limit. -/
theorem ofVariables_eq (a d : Option String) :
    ofVariables a d = (readVariable arityVariable ({} : Limits).maxArity a).bind fun na =>
      (readVariable depthVariable ({} : Limits).maxChainDepth d).bind fun nd => validate ⟨na, nd⟩ :=
  rfl

theorem loads_ofVariables (a d : Option String) : Loads a d (ofVariables a d) := by
  rw [ofVariables_eq]
  cases ha : readVariable arityVariable ({} : Limits).maxArity a with
  | error e =>
    obtain ⟨s, rfl, hs, rfl⟩ := readVariable_eq_error_iff.1 ha
    exact .badArity hs
  | ok na =>
    have hna := readVariable_eq_ok_iff.1 ha
    cases hd : readVariable depthVariable ({} : Limits).maxChainDepth d with
    | error e =>
      obtain ⟨s, rfl, hs, rfl⟩ := readVariable_eq_error_iff.1 hd
      exact .badDepth hna hs
    | ok nd =>
      have hnd := readVariable_eq_ok_iff.1 hd
      show Loads a d (validate ⟨na, nd⟩)
      -- validation checks the arity limit before the chain limit
      by_cases harity : maxSupportedArity < na
      · rw [validate_of_maxArity harity]
        exact .arityTooLarge hna hnd harity
      have hwithin : na ≤ maxSupportedArity := Nat.le_of_not_lt harity
      by_cases hdepth : nd = 0
      · subst hdepth
        rw [validate_of_maxChainDepth hwithin rfl]
        exact .zeroDepth hna hnd hwithin
      · have hpos : 1 ≤ nd := Nat.one_le_iff_ne_zero.2 hdepth
        rw [(validate_eq_ok ⟨na, nd⟩ ⟨na, nd⟩).2 ⟨rfl, hwithin, hpos⟩]
        exact .valid hna hnd hwithin hpos

theorem ofVariables_of_loads {a d : Option String} {r : Except LimitsError Limits} (h : Loads a d r) :
    ofVariables a d = r := by
  rw [ofVariables_eq]
  cases h with
  | badArity hs =>
    rw [readVariable_eq_error_iff.2 ⟨_, rfl, hs, rfl⟩]
    rfl
  | badDepth hna hs =>
    rw [readVariable_eq_ok_iff.2 hna, readVariable_eq_error_iff.2 ⟨_, rfl, hs, rfl⟩]
    rfl
  | arityTooLarge hna hnd harity =>
    rw [readVariable_eq_ok_iff.2 hna, readVariable_eq_ok_iff.2 hnd]
    exact validate_of_maxArity harity
  | zeroDepth hna hnd harity =>
    rw [readVariable_eq_ok_iff.2 hna, readVariable_eq_ok_iff.2 hnd]
    exact validate_of_maxChainDepth harity rfl
  | valid hna hnd harity hdepth =>
    rw [readVariable_eq_ok_iff.2 hna, readVariable_eq_ok_iff.2 hnd]
    exact (validate_eq_ok _ _).2 ⟨rfl, harity, hdepth⟩

/-- **Limits from the environment.** The loader answers as `Loads` says: a bad arity text first, then a bad chain
text, then the validated limits the variables set. -/
theorem ofVariables_eq_iff_loads (a d : Option String) (r : Except LimitsError Limits) :
    ofVariables a d = r ↔ Loads a d r :=
  ⟨fun h => h ▸ loads_ofVariables a d, ofVariables_of_loads⟩

example : ofVariables (some " many ") (some "0") = .error (.env arityVariable " many ") ∧
    ofVariables (some "8") (some " 32 ") = .ok ⟨8, 32⟩ := ⟨rfl, rfl⟩

end Limits

end LazyCall
