import LazyCall.Limits.Text

/-!
# Configurations read back from their text

Main statement (`limits_text_round_trip`): reading the text of every configuration of two 64-bit limits gives the
configuration back, validated; more generally an object of configuration members, each at most once and in any order,
reads as the default configuration with those members set, and an object with an unknown key is refused.

Reading is taken apart with `Reads x used a after`: from a cursor at `used ++ rest`, for every `rest` that `after`
allows, `x` gives `a` and stops at `rest`, still counting the characters left. Reads compose along `>>=`
(`Reads.bind`), so a text read piece by piece is read whole, and each piece of a configuration text (the opening
brace, a key with its colon, a number, a comma, the closing brace) has its own lemma.
-/

namespace LazyCall.Json.Reader

variable {α β : Type}

/-- Reading `used` off the front of the text gives `a`, whatever text that `after` allows follows it. -/
def Reads (x : Reader α) (used : List Char) (a : α) (after : List Char → Prop) : Prop :=
  ∀ rest pos, after rest → ∃ pos', x ⟨used ++ rest, pos, (used ++ rest).length⟩ = .ok a ⟨rest, pos', rest.length⟩

theorem bind_of_ok {x : Reader α} {f : α → Reader β} {cur cur₁ : Cursor} {a : α} (h : x cur = .ok a cur₁) :
    (x >>= f) cur = f a cur₁ := by
  show EStateM.bind x f cur = _
  unfold EStateM.bind
  rw [h]

namespace Reads

variable {x : Reader α} {u v : List Char} {a : α} {F G : List Char → Prop}

theorem pure (a : α) : Reads (pure a) [] a fun _ => True :=
  fun _ pos _ => ⟨pos, rfl⟩

theorem bind {f : α → Reader β} {b : β} (hx : Reads x u a F) (hf : Reads (f a) v b G) (hFG : ∀ r, G r → F (v ++ r)) :
    Reads (x >>= f) (u ++ v) b G := by
  intro rest pos hG
  obtain ⟨pos₁, h₁⟩ := hx (v ++ rest) pos (hFG rest hG)
  obtain ⟨pos₂, h₂⟩ := hf rest pos₁ hG
  refine ⟨pos₂, ?_⟩
  rw [List.append_assoc, bind_of_ok h₁, h₂]

theorem weaken (hx : Reads x u a F) (hG : ∀ r, G r → F r) : Reads x u a G :=
  fun rest pos h => hx rest pos (hG rest h)

theorem map (f : α → β) (hx : Reads x u a F) : Reads (f <$> x) u (f a) F := by
  intro rest pos hF
  obtain ⟨pos', h⟩ := hx rest pos hF
  refine ⟨pos', ?_⟩
  show EStateM.map f x _ = _
  unfold EStateM.map
  rw [h]

theorem placed (hx : Reads x u a F) : Reads (Reader.placed x) u a F := by
  intro rest pos hF
  obtain ⟨pos', h⟩ := hx rest pos hF
  refine ⟨pos', ?_⟩
  unfold Reader.placed
  rw [h]

theorem attempt (hx : Reads x u a F) : Reads (Reader.attempt x) u (.ok a) F := by
  intro rest pos hF
  obtain ⟨pos', h⟩ := hx rest pos hF
  refine ⟨pos', ?_⟩
  unfold Reader.attempt
  rw [h]

/-- A reader that takes its fuel from the characters left, one more than them, reads as it does with any fuel above
the characters it uses. -/
theorem of_eq {u' : List Char} (hx : Reads x u a F) (hu : u = u') : Reads x u' a F :=
  hu ▸ hx

/-- A reader that looks at most at the next character reads alike before every character that `P` allows and at
the end of the text. -/
theorem by_head {P : Char → Prop} (hend : Reads x u a fun r => r = [])
    (hc : ∀ c, P c → Reads x u a fun r => r.head? = some c) : Reads x u a fun r => ∀ c ∈ r.head?, P c := by
  intro rest pos h
  cases rest with
  | nil => exact hend [] pos rfl
  | cons c r => exact hc c (h c rfl) (c :: r) pos rfl

theorem get_left {f : Nat → Reader α} (h : ∀ n, u.length < n → Reads (f n) u a F) :
    Reads (get >>= fun cur => f (cur.left + 1)) u a F := by
  intro rest pos hF
  have hn : u.length < (u ++ rest).length + 1 := by simp only [List.length_append]; omega
  obtain ⟨pos', h'⟩ := h _ hn rest pos hF
  exact ⟨pos', h'⟩

end Reads

theorem bind_of_error {x : Reader α} {f : α → Reader β} {cur cur₁ : Cursor} {e : ReadError}
    (h : x cur = .error e cur₁) : (x >>= f) cur = .error e cur₁ := by
  show EStateM.bind x f cur = _
  unfold EStateM.bind
  rw [h]

/-- Reading from the front of `used ++ rest` stops with an error that `P` describes, wherever it leaves the cursor. -/
def Stops (x : Reader α) (used : List Char) (P : ReadError → Prop) : Prop :=
  ∀ rest pos, ∃ e cur', x ⟨used ++ rest, pos, (used ++ rest).length⟩ = .error e cur' ∧ P e

namespace Stops

variable {x : Reader α} {u v : List Char} {P : ReadError → Prop}

theorem bind {f : α → Reader β} (hx : Stops x u P) : Stops (x >>= f) u P := by
  intro rest pos
  obtain ⟨e, cur', h, hP⟩ := hx rest pos
  exact ⟨e, cur', bind_of_error h, hP⟩

theorem after_reads {y : Reader β} {f : β → Reader α} {b : β} {F : List Char → Prop} (hy : Reads y u b F)
    (hf : Stops (f b) v P) (hF : ∀ r, F (v ++ r)) : Stops (y >>= f) (u ++ v) P := by
  intro rest pos
  obtain ⟨pos₁, h₁⟩ := hy (v ++ rest) pos (hF rest)
  obtain ⟨e, cur', h, hP⟩ := hf rest pos₁
  refine ⟨e, cur', ?_, hP⟩
  rw [List.append_assoc, bind_of_ok h₁, h]

theorem of_eq {u' : List Char} (hx : Stops x u P) (hu : u = u') : Stops x u' P :=
  hu ▸ hx

theorem get_left {f : Nat → Reader α} (h : ∀ n, u.length < n → Stops (f n) u P) :
    Stops (get >>= fun cur => f (cur.left + 1)) u P := by
  intro rest pos
  have hn : u.length < (u ++ rest).length + 1 := by simp only [List.length_append]; omega
  exact h _ hn rest pos

/-- A problem of meaning gets the position where reading stopped. -/
theorem placed {p : Problem} (hx : Stops x u fun e => e = ⟨p, none⟩) :
    Stops (Reader.placed x) u fun e => e.problem = p ∧ e.pos.isSome := by
  intro rest pos
  obtain ⟨e, cur', h, rfl⟩ := hx rest pos
  refine ⟨⟨p, some cur'.pos⟩, cur', ?_, rfl, rfl⟩
  unfold Reader.placed
  rw [h]
  rfl

/-- A body that stops is what stops a value, whatever its closing does. -/
theorem settle {z : Reader Unit} (hx : Stops x u P) :
    Stops (do let body ← Reader.attempt x; let close ← Reader.attempt z; settle body close) u P := by
  intro rest pos
  obtain ⟨e, cur', h, hP⟩ := hx rest pos
  have hbody : Reader.attempt x ⟨u ++ rest, pos, (u ++ rest).length⟩ = .ok (.error e) cur' := by
    unfold Reader.attempt
    rw [h]
  rw [bind_of_ok hbody]
  cases hz : Reader.attempt z cur' with
  | ok r cur'' => exact ⟨e, cur'', (bind_of_ok hz).trans rfl, hP⟩
  | error e' cur'' =>
    -- an attempt does not stop
    unfold Reader.attempt at hz
    split at hz <;> cases hz

end Stops

theorem stops_failUnplaced (p : Problem) : Stops (failUnplaced p : Reader α) [] fun e => e = ⟨p, none⟩ :=
  fun _ _ => ⟨_, _, rfl, rfl⟩

/-! ## Characters and blanks -/

theorem reads_peek (c : Char) : Reads peek? [] (some c) fun r => r.head? = some c := by
  intro rest pos h
  exact ⟨pos, by simp [peek?, h]⟩

theorem reads_peek_end : Reads peek? [] none fun r => r = [] := by
  rintro rest pos rfl
  exact ⟨pos, rfl⟩

theorem reads_bump (c : Char) : Reads bump [c] () fun _ => True := by
  intro rest pos _
  exact ⟨pos.next c, by simp [bump]⟩

/-- The text ahead does not start with a blank. -/
def NoBlank (r : List Char) : Prop := ∀ c ∈ r.head?, isBlank c = false

theorem reads_skipBlanks : Reads skipBlanks [] () NoBlank := by
  intro rest pos h
  refine ⟨pos, ?_⟩
  cases rest with
  | nil => rfl
  | cons c r =>
    have hc : isBlank c = false := h c rfl
    simp [skipBlanks, hc]

theorem reads_peekToken (c : Char) (hc : isBlank c = false) :
    Reads peekToken? [] (some c) fun r => r.head? = some c := by
  refine (reads_skipBlanks.bind (reads_peek c) fun r h => ?_)
  intro d hd
  rw [List.nil_append, h] at hd
  cases hd
  exact hc

theorem reads_peekToken_end : Reads peekToken? [] none fun r => r = [] :=
  reads_skipBlanks.bind reads_peek_end fun r h => by
    subst h
    intro d hd
    cases hd

/-! ## Strings -/

/-- A key written without escapes: no quote, no backslash, no control character. -/
def Plain (k : List Char) : Prop := ∀ c ∈ k, c ≠ '"' ∧ c ≠ '\\' ∧ 0x20 ≤ c.toNat

theorem reads_stringBody : ∀ (k : List Char), Plain k → ∀ (acc : List Char) (fuel : Nat), k.length < fuel →
    Reads (stringBody fuel acc) (k ++ ['"']) (String.ofList (acc.reverse ++ k)) fun _ => True
  | [], _, acc, fuel + 1, _ => by
    rw [stringBody]
    refine (reads_peek '"').bind ?_ fun r _ => rfl
    rw [List.append_nil]
    exact (reads_bump '"').bind (Reads.pure _) fun _ _ => trivial
  | c :: k, hk, acc, fuel + 1, hlen => by
    obtain ⟨hq, hb, hctl⟩ := hk c (List.mem_cons_self ..)
    rw [stringBody]
    refine (reads_peek c).bind ?_ fun r _ => rfl
    split
    · next h => cases h
    · next h => cases h; exact absurd rfl hq
    · next h => cases h; exact absurd rfl hb
    · next h =>
      cases h
      rw [if_neg (by omega)]
      have hrest := reads_stringBody k (fun d hd => hk d (List.mem_cons_of_mem c hd)) (c :: acc) fuel
        (by simp at hlen; omega)
      rw [List.reverse_cons, List.append_assoc, List.singleton_append] at hrest
      exact (reads_bump c).bind hrest fun _ _ => trivial

theorem reads_string {k : List Char} (hk : Plain k) : Reads string (k ++ ['"']) (String.ofList k) fun _ => True := by
  unfold string
  exact Reads.get_left (f := fun n => stringBody n []) fun n hn =>
    by simpa using reads_stringBody k hk [] n (by simp at hn; omega)

/-! ## Numbers -/

/-- What may follow the digits of an integer that ends there: no digit, no point, no exponent. -/
def EndsNumber (r : List Char) : Prop := ∀ c ∈ r.head?, c.isDigit = false ∧ c ≠ '.' ∧ c ≠ 'e' ∧ c ≠ 'E'

theorem reads_numberTail (v : Nat) : Reads (numberTail true v) [] (.unsigned v) EndsNumber :=
  Reads.by_head (fun _ pos h => by subst h; exact ⟨pos, rfl⟩) fun c ⟨_, hp, he, hE⟩ => by
    unfold numberTail
    refine (reads_peek c).bind ?_ fun _ h => h
    split
    · next h => cases h; exact absurd rfl hp
    · next h => cases h; exact absurd rfl he
    · next h => cases h; exact absurd rfl hE
    · exact (Reads.pure _).weaken fun _ _ => trivial

theorem le_ofDigitChars (l : List Char) (init : Nat) : init ≤ Nat.ofDigitChars 10 l init := by
  rw [Nat.ofDigitChars_eq_ofDigitChars_zero]
  calc init ≤ 10 ^ l.length * init := Nat.le_mul_of_pos_left init (Nat.pow_pos (by decide))
    _ ≤ _ := Nat.le_add_right _ _

/-- Digits that keep the integer within a word are read one by one onto it. -/
theorem reads_integerDigits : ∀ (ds : List Char), (∀ c ∈ ds, c.isDigit) → ∀ (s fuel : Nat), ds.length < fuel →
    Nat.ofDigitChars 10 ds s ≤ wordMax →
    Reads (integerDigits true fuel s) ds (.unsigned (Nat.ofDigitChars 10 ds s)) EndsNumber
  | [], _, s, fuel + 1, _, _ =>
    Reads.by_head (fun _ pos h => by subst h; exact reads_numberTail s [] pos fun _ h => by cases h)
      fun c hc => by
        rw [integerDigits]
        refine (reads_peek c).bind ?_ fun _ h => h
        dsimp only
        rw [if_neg (by simp [hc.1])]
        exact (reads_numberTail s).weaken fun r h c' hc' => by
          rw [h] at hc'
          cases hc'
          exact hc
  | d :: ds, hd, s, fuel + 1, hlen, hmax => by
    have hstep : Nat.ofDigitChars 10 (d :: ds) s = Nat.ofDigitChars 10 ds (s * 10 + digit d) := by
      rw [Nat.ofDigitChars_cons, Nat.mul_comm]
      rfl
    rw [hstep] at hmax ⊢
    rw [integerDigits]
    refine (reads_peek d).bind ?_ fun _ _ => rfl
    dsimp only
    rw [if_pos (hd d (List.mem_cons_self ..)), if_neg (Nat.not_lt.2 (Nat.le_trans (le_ofDigitChars ds _) hmax))]
    exact (reads_bump d).bind (reads_integerDigits ds (fun c hc => hd c (List.mem_cons_of_mem d hc)) _ fuel
      (by simp at hlen; omega) hmax) fun _ _ => trivial

/-- The decimal digits of a positive number start with a digit from one to nine. -/
theorem toDigits_head {n : Nat} (hn : 0 < n) : ∃ d ds, Nat.toDigits 10 n = d :: ds ∧ '1' ≤ d ∧ d ≤ '9' := by
  induction n using Nat.strongRecOn with
  | _ n ih =>
    by_cases h : n < 10
    · have hone : ∀ k < 10, 0 < k → '1' ≤ k.digitChar ∧ k.digitChar ≤ '9' := by decide +kernel
      exact ⟨n.digitChar, [], Nat.toDigits_of_lt_base h, hone n h hn⟩
    · obtain ⟨d, ds, hds, hd⟩ := ih (n / 10) (by omega) (by omega)
      rw [Nat.toDigits_of_base_le (by decide) (by omega), hds]
      exact ⟨d, ds ++ _, rfl, hd⟩

/-- A number within a word, written in decimal, reads as that number. -/
theorem reads_number (n : Nat) (hn : n ≤ wordMax) :
    Reads (number true) (Nat.toDigits 10 n) (.unsigned n) EndsNumber := by
  have hdigits : ∀ c ∈ Nat.toDigits 10 n, c.isDigit :=
    fun c hc => Nat.isDigit_of_mem_toDigits (by decide) (by decide) hc
  have hvalue : Nat.ofDigitChars 10 (Nat.toDigits 10 n) 0 = n := Nat.ofDigitChars_ten_toDigits
  unfold number
  rcases Nat.eq_zero_or_pos n with rfl | hpos
  · -- zero is the one digit 0, which no digit may follow
    rw [Nat.toDigits_zero]
    refine (reads_peek '0').bind ?_ fun _ _ => rfl
    split
    · next h => cases h
    · refine (reads_bump '0').bind ?_ fun _ _ => trivial
      refine Reads.by_head ?_ fun c hc => ?_
      · exact reads_peek_end.bind ((reads_numberTail 0).weaken fun r h => by subst h; intro c hc; cases hc)
          fun r h => by subst h; rfl
      · refine (reads_peek c).bind ?_ fun _ h => h
        dsimp only
        rw [if_neg (by simp [hc.1])]
        exact (reads_numberTail 0).weaken fun r h c' hc' => by
          rw [h] at hc'
          cases hc'
          exact hc
    · next hne h => cases h; exact absurd rfl hne
  · obtain ⟨d, ds, hds, hd1, hd9⟩ := toDigits_head hpos
    rw [hds] at hdigits hvalue ⊢
    refine (reads_peek d).bind ?_ fun _ _ => rfl
    split
    · next h => cases h
    · next h =>
      cases h
      exact absurd hd1 (by decide)
    · next h =>
      cases h
      rw [if_pos ⟨hd1, hd9⟩]
      refine (reads_bump d).bind (Reads.get_left (f := fun m => integerDigits true m (digit d)) fun m hm => ?_)
        fun _ _ => trivial
      have hstart : Nat.ofDigitChars 10 ds (digit d) = n := by
        rw [← hvalue, Nat.ofDigitChars_cons, Nat.mul_zero, Nat.zero_add]
        rfl
      have := reads_integerDigits ds (fun c hc => hdigits c (List.mem_cons_of_mem d hc)) (digit d) m hm
        (by rw [hstart]; exact hn)
      rwa [hstart] at this

theorem isBlank_of_isDigit {c : Char} (h : c.isDigit = true) : isBlank c = false := by
  unfold isBlank
  cases hb : (c = ' ' || c = '\n' || c = '\t' || c = '\r')
  · rfl
  · simp only [Bool.or_eq_true, decide_eq_true_eq] at hb
    rcases hb with ((rfl | rfl) | rfl) | rfl <;> cases h

/-- A number within a word, where a limit is expected. -/
theorem reads_word (n : Nat) (hn : n ≤ wordMax) : Reads word (Nat.toDigits 10 n) n EndsNumber := by
  obtain ⟨d, ds, hds⟩ := List.exists_cons_of_ne_nil (Nat.toDigits_ne_nil (n := n) (b := 10))
  have hmem : d ∈ Nat.toDigits 10 n := by simp [hds]
  have hd : d.isDigit = true := Nat.isDigit_of_mem_toDigits (by decide) (by decide) hmem
  have hnum := reads_number n hn
  rw [hds] at hnum ⊢
  unfold word
  refine Reads.placed ((reads_peekToken d (isBlank_of_isDigit hd)).bind ?_ fun _ _ => rfl)
  split
  · next h => cases h
  · next h => cases h; cases hd
  · next h =>
    cases h
    rw [if_pos hd]
    exact (hnum.bind ((Reads.pure n).weaken fun _ _ => trivial) fun _ h => h).of_eq (List.append_nil _)

/-! ## Objects -/

/-- The comma before an object member, unless it is the first. -/
def separator (first : Bool) : List Char := if first then [] else [',']

/-- The quote that opens the next key, after a comma unless the member is the first. -/
theorem reads_memberStart_quote (first : Bool) :
    Reads (memberStart first) (separator first) (some '"') fun r => r.head? = some '"' := by
  unfold memberStart
  cases first with
  | true =>
    refine (reads_peekToken '"' rfl).bind ?_ fun _ h => h
    split
    · next h => cases h
    · next h => cases h
    · next h =>
      cases h
      rw [if_pos rfl]
      exact (Reads.pure _).weaken fun _ _ => trivial
    · next h => cases h
  | false =>
    refine (reads_peekToken ',' rfl).bind ?_ fun _ _ => rfl
    split
    · next h => cases h
    · rw [if_neg Bool.false_ne_true]
      refine (reads_bump ',').bind ((reads_peekToken '"' rfl).bind ?_ fun _ h => h) fun _ _ => trivial
      exact (Reads.pure _).weaken fun _ _ => trivial
    · next _ h hne => cases hne; exact absurd rfl h
    · next h => cases h

/-- The closing brace, where the next member would start. -/
theorem reads_memberStart_close (first : Bool) : Reads (memberStart first) [] none fun r => r.head? = some '}' := by
  unfold memberStart
  refine (reads_peekToken '}' rfl).bind ?_ fun _ h => h
  split
  · exact (Reads.pure _).weaken fun _ _ => trivial
  · next h => cases h
  · next h _ hne => cases hne; exact absurd rfl h
  · next h => cases h

/-- The next member's key, quoted and followed by its colon; `key` sees the key as soon as it is read. -/
theorem reads_memberKey (first : Bool) {key : String → Reader α} {k : List Char} (hk : Plain k) {a : α}
    (hkey : Reads (key (String.ofList k)) [] a fun r => r.head? = some ':') :
    Reads (memberKey first key) (separator first ++ '"' :: (k ++ ['"', ':'])) (some a) fun _ => True := by
  unfold memberKey
  refine (reads_memberStart_quote first).bind ?_ fun _ _ => rfl
  split
  · next h => cases h
  · refine Reads.of_eq (u := ['"'] ++ ((k ++ ['"']) ++ ([] ++ ([] ++ ([':'] ++ []))))) ?_ (by simp)
    refine (reads_bump '"').bind ?_ fun _ _ => trivial
    refine (reads_string hk).bind ?_ fun _ _ => trivial
    refine hkey.bind ?_ fun _ _ => rfl
    refine (reads_peekToken ':' rfl).bind ?_ fun _ _ => rfl
    split
    · exact (reads_bump ':').bind (Reads.pure _) fun _ _ => trivial
    · next h hne => cases hne; exact absurd rfl h
    · next h => cases h
  · next h => cases h
  · next h _ hne => cases hne; exact absurd rfl h

/-- The end of an object's members, at its closing brace. -/
theorem reads_memberKey_close (first : Bool) (key : String → Reader α) :
    Reads (memberKey first key) [] none fun r => r.head? = some '}' := by
  unfold memberKey
  refine ((reads_memberStart_close first).bind ?_ fun _ h => h).of_eq rfl
  exact (Reads.pure _).weaken fun _ _ => trivial

/-! ## Configuration objects -/

/-- The key of a configuration member. -/
def Member.key : Member → String
  | .arity => "max_arity"
  | .depth => "max_chain_depth"

/-- Whether a member was already read, given the values read so far. -/
def Member.given (a d : Option Nat) : Member → Bool
  | .arity => a.isSome
  | .depth => d.isSome

/-- Sets a member of a configuration. -/
def Member.set (l : Limits) : Member → Nat → Limits
  | .arity, n => { l with maxArity := n }
  | .depth, n => { l with maxChainDepth := n }

/-- The characters of configuration members, in order and with commas between them. -/
def membersChars : Bool → List (Member × Nat) → List Char
  | _, [] => []
  | first, (m, n) :: ms =>
    separator first ++ '"' :: (m.key.toList ++ ['"', ':']) ++ Nat.toDigits 10 n ++ membersChars false ms

theorem length_le_membersChars : ∀ (first : Bool) (ms : List (Member × Nat)), ms.length ≤ (membersChars first ms).length
  | _, [] => Nat.le_refl _
  | first, (m, n) :: ms => by
    have := length_le_membersChars false ms
    simp [membersChars]
    omega

theorem Member.plain_key (m : Member) : Plain m.key.toList := by
  cases m <;> simp [Plain, Member.key]

/-- A key not read before names its member. -/
theorem reads_member (m : Member) {a d : Option Nat} (hm : m.given a d = false) :
    Reads (member (Member.given a d) (String.ofList m.key.toList)) [] m fun _ => True := by
  rw [String.ofList_toList]
  cases m <;>
  · simp only [member, Member.key, ↓reduceIte, hm, Bool.false_eq_true]
    exact Reads.pure _

/-- What follows the members of an object ends the number of the last one, and so does the comma after it. -/
theorem endsNumber_membersChars (ms : List (Member × Nat)) {tail : List Char} (htail : EndsNumber tail) :
    EndsNumber (membersChars false ms ++ tail) := by
  cases ms with
  | nil => exact htail
  | cons p ms =>
    intro c hc
    rw [membersChars] at hc
    simp [separator] at hc
    subst hc
    decide

/-- The values read so far, after one more member. -/
def Member.record (s : Option Nat × Option Nat) : Member × Nat → Option Nat × Option Nat
  | (.arity, n) => (some n, s.2)
  | (.depth, n) => (s.1, some n)

/-- Recording one member leaves whether the other member was given as it was. -/
theorem Member.given_record_of_ne {p m : Member} (h : p ≠ m) (a d : Option Nat) (n : Nat) :
    p.given (Member.record (a, d) (m, n)).1 (Member.record (a, d) (m, n)).2 = p.given a d := by
  cases p <;> cases m <;> first | exact absurd rfl h | rfl

/-- One member, its key and its value, hands the rest of the text to the members after it. -/
theorem limitsMembers_member {m : Member} {n : Nat} (first : Bool) {a d : Option Nat} (fuel : Nat)
    (hm : m.given a d = false) (hn : n ≤ wordMax) {rest : List Char} (hrest : EndsNumber rest) (pos : Pos) :
    ∃ pos', limitsMembers (fuel + 1) first a d
        ⟨membersChars first [(m, n)] ++ rest, pos, (membersChars first [(m, n)] ++ rest).length⟩ =
      limitsMembers fuel false (Member.record (a, d) (m, n)).1 (Member.record (a, d) (m, n)).2
        ⟨rest, pos', rest.length⟩ := by
  have hkey := reads_memberKey first m.plain_key ((reads_member m hm).weaken fun _ _ => trivial)
  obtain ⟨pos₁, h₁⟩ := hkey (Nat.toDigits 10 n ++ rest) pos trivial
  obtain ⟨pos₂, h₂⟩ := reads_word n hn rest pos₁ hrest
  refine ⟨pos₂, ?_⟩
  have htext : membersChars first [(m, n)] ++ rest =
      (separator first ++ '"' :: (m.key.toList ++ ['"', ':'])) ++ (Nat.toDigits 10 n ++ rest) := by
    simp [membersChars]
  rw [htext, limitsMembers]
  refine (bind_of_ok h₁).trans ?_
  cases m with
  | arity => exact bind_of_ok h₂
  | depth => exact bind_of_ok h₂

/-- The members of an object are read one after another, each from the values read before it. -/
theorem limitsMembers_members : ∀ (ms : List (Member × Nat)) (first : Bool) (a d : Option Nat) (fuel : Nat),
    ms.length ≤ fuel → (ms.map Prod.fst).Nodup → (∀ p ∈ ms, p.1.given a d = false) → (∀ p ∈ ms, p.2 ≤ wordMax) →
    ∀ (tail : List Char), EndsNumber tail → ∀ pos, ∃ pos',
      limitsMembers fuel first a d ⟨membersChars first ms ++ tail, pos, (membersChars first ms ++ tail).length⟩ =
        limitsMembers (fuel - ms.length) (first && ms.isEmpty) (ms.foldl Member.record (a, d)).1
          (ms.foldl Member.record (a, d)).2 ⟨tail, pos', tail.length⟩
  | [], first, a, d, fuel, _, _, _, _, tail, _, pos => ⟨pos, by simp [membersChars]⟩
  | (m, n) :: ms, first, a, d, fuel + 1, hlen, hnodup, hfresh, hval, tail, htail, pos => by
    -- the members still to read are other members, not read before
    have hrest : ∀ p ∈ ms, p.1 ≠ m ∧ p.1.given a d = false := fun p hp =>
      ⟨fun h => (List.nodup_cons.1 hnodup).1 (List.mem_map.2 ⟨p, hp, h⟩), hfresh p (List.mem_cons_of_mem _ hp)⟩
    have hfresh' : ∀ p ∈ ms, p.1.given (Member.record (a, d) (m, n)).1 (Member.record (a, d) (m, n)).2 = false := by
      intro p hp
      obtain ⟨hne, hg⟩ := hrest p hp
      rw [Member.given_record_of_ne hne]
      exact hg
    obtain ⟨pos₁, h₁⟩ := limitsMembers_member first fuel (hfresh (m, n) (List.mem_cons_self ..))
      (hval (m, n) (List.mem_cons_self ..)) (endsNumber_membersChars ms htail) pos
    obtain ⟨pos₂, h₂⟩ := limitsMembers_members ms false _ _ fuel (by simp at hlen; omega)
      (List.nodup_cons.1 hnodup).2 hfresh' (fun p hp => hval p (List.mem_cons_of_mem _ hp)) tail htail pos₁
    refine ⟨pos₂, ?_⟩
    have htext : membersChars first ((m, n) :: ms) ++ tail = membersChars first [(m, n)] ++ (membersChars false ms ++ tail) := by
      simp [membersChars]
    rw [htext, h₁, h₂]
    simp

/-- At the closing brace the members end, with the values read. -/
theorem limitsMembers_close (first : Bool) (a d : Option Nat) (fuel : Nat) (r : List Char) (pos : Pos) :
    ∃ pos', limitsMembers (fuel + 1) first a d ⟨'}' :: r, pos, ('}' :: r).length⟩ =
      .ok { maxArity := a.getD maxSupportedArity, maxChainDepth := d.getD 10000 } ⟨'}' :: r, pos', ('}' :: r).length⟩ := by
  obtain ⟨pos', h⟩ := (reads_memberKey_close first (member fun m => m.given a d)) ('}' :: r) pos rfl
  exact ⟨pos', (bind_of_ok h).trans rfl⟩

/-- The message that refuses an unknown key. -/
def unknownField (key : String) : Problem :=
  .custom ("unknown field `" ++ key ++ "`, expected `max_arity` or `max_chain_depth`")

/-- A key that names no member is refused as soon as it is read. -/
theorem limitsMembers_unknown (first : Bool) (a d : Option Nat) (fuel : Nat) {k : List Char} (hk : Plain k)
    (hunknown : String.ofList k ≠ "max_arity" ∧ String.ofList k ≠ "max_chain_depth") :
    Stops (limitsMembers (fuel + 1) first a d) (separator first ++ '"' :: (k ++ ['"']))
      fun e => e = ⟨unknownField (String.ofList k), none⟩ := by
  rw [limitsMembers]
  refine Stops.bind ?_
  unfold memberKey
  refine (Stops.after_reads (reads_memberStart_quote first) ?_ fun _ => rfl)
  split
  · next h => cases h
  · refine Stops.after_reads (reads_bump '"') ?_ fun _ => trivial
    refine Stops.of_eq (u := (k ++ ['"']) ++ []) ?_ (List.append_nil _)
    refine Stops.after_reads (reads_string hk) (Stops.bind ?_) fun _ => trivial
    unfold member
    rw [if_neg hunknown.1, if_neg hunknown.2]
    exact stops_failUnplaced _
  · next h => cases h
  · next h _ hne => cases hne; exact absurd rfl h

/-- The configuration read from members is the default configuration with those members set. -/
theorem limits_of_record : ∀ (ms : List (Member × Nat)) (s : Option Nat × Option Nat),
    ({ maxArity := (ms.foldl Member.record s).1.getD maxSupportedArity,
       maxChainDepth := (ms.foldl Member.record s).2.getD 10000 } : Limits) =
      ms.foldl (fun l p => p.1.set l p.2) { maxArity := s.1.getD maxSupportedArity, maxChainDepth := s.2.getD 10000 }
  | [], _ => rfl
  | (m, n) :: ms, s => by
    rw [List.foldl_cons, List.foldl_cons, limits_of_record ms]
    cases m <;> rfl

theorem reads_closeObject : Reads closeObject ['}'] () fun _ => True := by
  unfold closeObject
  refine ((reads_peekToken '}' rfl).bind ?_ fun _ _ => rfl).of_eq rfl
  split
  · exact reads_bump '}'
  · next h => cases h
  · next h _ hne => cases hne; exact absurd rfl h
  · next h => cases h

theorem reads_finish : Reads finish [] () fun r => r = [] := by
  unfold finish
  refine (reads_peekToken_end.bind ?_ fun _ h => by subst h; rfl).of_eq rfl
  exact (Reads.pure ()).weaken fun _ _ => trivial

/-- The members of a whole object are read with the configuration they give, up to its closing brace. -/
theorem reads_limitsMembers (ms : List (Member × Nat)) (hnodup : (ms.map Prod.fst).Nodup)
    (hval : ∀ p ∈ ms, p.2 ≤ wordMax) (n : Nat) (hn : (membersChars true ms).length < n) :
    Reads (limitsMembers n true none none) (membersChars true ms) (ms.foldl (fun l p => p.1.set l p.2) {})
      fun r => r.head? = some '}' := by
  intro rest pos hr
  obtain ⟨r, rfl⟩ : ∃ r', rest = '}' :: r' := by
    cases rest with
    | nil => cases hr
    | cons c r => cases hr; exact ⟨r, rfl⟩
  have hlen := length_le_membersChars true ms
  obtain ⟨pos₁, h₁⟩ := limitsMembers_members ms true none none n (by omega) hnodup
    (fun (p : Member × Nat) _ => by cases p.1 <;> rfl) hval ('}' :: r) (fun c hc => by cases hc; decide) pos
  obtain ⟨f, hf⟩ : ∃ f, n - ms.length = f + 1 := ⟨n - ms.length - 1, by omega⟩
  obtain ⟨pos₂, h₂⟩ := limitsMembers_close (true && ms.isEmpty) (ms.foldl Member.record (none, none)).1
    (ms.foldl Member.record (none, none)).2 f r pos₁
  refine ⟨pos₂, ?_⟩
  rw [h₁, hf, h₂, limits_of_record]
  rfl

/-- A configuration object reads as the default configuration with its members set. -/
theorem reads_limits (ms : List (Member × Nat)) (hnodup : (ms.map Prod.fst).Nodup) (hval : ∀ p ∈ ms, p.2 ≤ wordMax) :
    Reads limits ('{' :: membersChars true ms ++ ['}']) (ms.foldl (fun l p => p.1.set l p.2) {}) fun _ => True := by
  unfold limits
  refine Reads.placed ((reads_peekToken '{' rfl).bind ?_ fun _ _ => rfl)
  split
  · next h => cases h
  · next h => cases h
  · refine (reads_bump '{').bind ?_ fun _ _ => trivial
    refine Reads.get_left (f := fun n => do
      let body ← Reader.attempt (limitsMembers n true none none)
      let close ← Reader.attempt closeObject
      settle body close) fun n hn => ?_
    -- the members, then the closing brace where the members end
    refine Reads.of_eq (u := membersChars true ms ++ (['}'] ++ [])) ?_ (by simp)
    refine (Reads.attempt (reads_limitsMembers ms hnodup hval n (by simp at hn; omega))).bind
      ((Reads.attempt reads_closeObject).bind ?_ fun _ _ => trivial) fun _ _ => rfl
    exact (Reads.pure _).weaken fun _ _ => trivial
  · next _ h hne => cases hne; exact absurd rfl h

end LazyCall.Json.Reader

namespace LazyCall.Limits

open Json Json.Reader

/-- Reading a whole text: a configuration, then the end of the text. -/
theorem ofJsonText_of_reads {chars : List Char} {l : Limits}
    (h : Reads (do let l ← Reader.limits; Reader.finish; pure l) chars l fun r => r = []) :
    ofJsonText (String.ofList chars) = l.validate := by
  obtain ⟨pos', h'⟩ := h [] ⟨1, 0⟩ rfl
  rw [List.append_nil] at h'
  unfold ofJsonText Cursor.start
  rw [String.toList_ofList, String.length_ofList, h']

/-- An object of configuration members, each at most once and in any order, reads as the default configuration
with those members set, which is then validated. -/
theorem ofJsonText_members (ms : List (Member × Nat)) (hnodup : (ms.map Prod.fst).Nodup)
    (hval : ∀ p ∈ ms, p.2 ≤ wordMax) :
    ofJsonText (String.ofList ('{' :: membersChars true ms ++ ['}'])) =
      validate (ms.foldl (fun l p => p.1.set l p.2) {}) := by
  refine ofJsonText_of_reads (Reads.of_eq ?_ (List.append_nil _))
  refine (reads_limits ms hnodup hval).bind ?_ fun _ _ => trivial
  refine (reads_finish.bind ?_ fun _ h => ?_).of_eq rfl
  · exact (Reads.pure _).weaken fun _ _ => trivial
  · subst h
    rfl

/-- After members read as in a whole object, a key that names no member stops the members' loop with its
message. -/
theorem limitsMembers_members_unknown (ms : List (Member × Nat)) (hnodup : (ms.map Prod.fst).Nodup)
    (hval : ∀ p ∈ ms, p.2 ≤ wordMax) {k : List Char} (hk : Plain k)
    (hunknown : String.ofList k ≠ "max_arity" ∧ String.ofList k ≠ "max_chain_depth") (n : Nat)
    (hn : (membersChars true ms ++ (separator ms.isEmpty ++ '"' :: (k ++ ['"']))).length < n) :
    Stops (limitsMembers n true none none) (membersChars true ms ++ (separator ms.isEmpty ++ '"' :: (k ++ ['"'])))
      fun e => e = ⟨unknownField (String.ofList k), none⟩ := by
  intro rest pos
  have hlen := length_le_membersChars true ms
  obtain ⟨pos₁, h₁⟩ := limitsMembers_members ms true none none n (by simp at hn; omega) hnodup
    (fun (p : Member × Nat) _ => by cases p.1 <;> rfl) hval
    (separator ms.isEmpty ++ '"' :: (k ++ ['"']) ++ rest)
    (fun c hc => by cases ms <;> simp [separator] at hc <;> subst hc <;> decide) pos
  obtain ⟨f, hf⟩ : ∃ f, n - ms.length = f + 1 := ⟨n - ms.length - 1, by simp at hn; omega⟩
  have hstop := limitsMembers_unknown (true && ms.isEmpty) (ms.foldl Member.record (none, none)).1
    (ms.foldl Member.record (none, none)).2 f hk hunknown rest pos₁
  rw [Bool.true_and] at hstop
  rw [List.append_assoc, h₁, hf]
  simpa using hstop

/-- A configuration object stops at a key that names no member, with that key's message placed where the reading
stopped. -/
theorem limits_unknown (ms : List (Member × Nat)) (hnodup : (ms.map Prod.fst).Nodup)
    (hval : ∀ p ∈ ms, p.2 ≤ wordMax) {k : List Char} (hk : Plain k)
    (hunknown : String.ofList k ≠ "max_arity" ∧ String.ofList k ≠ "max_chain_depth") :
    Stops (do let l ← Reader.limits; Reader.finish; pure l)
      ('{' :: (membersChars true ms ++ (separator ms.isEmpty ++ '"' :: (k ++ ['"']))))
      fun e => e.problem = unknownField (String.ofList k) ∧ e.pos.isSome := by
  refine Stops.bind ?_
  unfold Reader.limits
  refine Stops.placed (Stops.after_reads (reads_peekToken '{' rfl) ?_ fun _ => rfl)
  split
  · next h => cases h
  · next h => cases h
  · refine Stops.after_reads (reads_bump '{') ?_ fun _ => trivial
    exact Stops.get_left (f := fun n => do
      let body ← Reader.attempt (limitsMembers n true none none)
      let close ← Reader.attempt closeObject
      settle body close) fun n hn => Stops.settle (limitsMembers_members_unknown ms hnodup hval hk hunknown n hn)
  · next _ h hne => cases hne; exact absurd rfl h

/-- An object whose next key names no member is refused with the unknown key, wherever the text goes on. -/
theorem ofJsonText_unknown (ms : List (Member × Nat)) (hnodup : (ms.map Prod.fst).Nodup)
    (hval : ∀ p ∈ ms, p.2 ≤ wordMax) {k : List Char} (hk : Plain k)
    (hunknown : String.ofList k ≠ "max_arity" ∧ String.ofList k ≠ "max_chain_depth") (rest : List Char) :
    ∃ line column : Nat,
      ofJsonText (String.ofList ('{' :: membersChars true ms ++ separator ms.isEmpty ++ '"' :: (k ++ '"' :: rest))) =
        .error (.parse ("unknown field `" ++ String.ofList k ++ "`, expected `max_arity` or `max_chain_depth`" ++
          " at line " ++ toString line ++ " column " ++ toString column)) := by
  -- the reading stops at the unknown key, and the message gets the place where it stopped
  obtain ⟨⟨problem, place⟩, cur', h, hproblem, hplace⟩ := limits_unknown ms hnodup hval hk hunknown rest ⟨1, 0⟩
  obtain ⟨q, rfl⟩ := Option.isSome_iff_exists.1 hplace
  refine ⟨q.line, q.column, ?_⟩
  have htext : '{' :: membersChars true ms ++ separator ms.isEmpty ++ '"' :: (k ++ '"' :: rest) =
      '{' :: (membersChars true ms ++ (separator ms.isEmpty ++ '"' :: (k ++ ['"']))) ++ rest := by
    simp
  unfold ofJsonText Cursor.start
  rw [String.toList_ofList, String.length_ofList, htext, h]
  simp only at hproblem
  subst hproblem
  rfl

/-- The text of a configuration is the object of its two members, the arity limit first. -/
theorem jsonText_eq (l : Limits) :
    l.jsonText = String.ofList ('{' :: membersChars true [(.arity, l.maxArity), (.depth, l.maxChainDepth)] ++ ['}']) := by
  -- unfolded by `delta`: building the equation lemma of a definition made of string literals is slow
  delta jsonText
  rw [← String.toList_inj]
  simp only [membersChars, separator, Member.key, String.toList_append, String.toList_ofList]
  simp

theorem toNat_le_wordMax (x : UInt64) : x.toNat ≤ wordMax := by
  have hx := x.toNat_lt_size
  have hw : wordMax + 1 = UInt64.size := by decide
  omega

/-- Every configuration of two 64-bit limits reads back from its text, validated. -/
theorem ofJsonText_jsonText (a d : UInt64) :
    ofJsonText (jsonText ⟨a.toNat, d.toNat⟩) = validate ⟨a.toNat, d.toNat⟩ := by
  rw [jsonText_eq]
  refine ofJsonText_members [(.arity, a.toNat), (.depth, d.toNat)] (by simp) ?_
  intro p hp
  simp only [List.mem_cons, List.not_mem_nil, or_false] at hp
  rcases hp with rfl | rfl
  · exact toNat_le_wordMax a
  · exact toNat_le_wordMax d

/-! ## Validation -/

/-- Validation accepts a configuration unchanged exactly when its arity limit is at most the supported maximum and
its chain limit is at least one. -/
theorem validate_eq_ok (l l' : Limits) :
    l.validate = .ok l' ↔ l' = l ∧ l.maxArity ≤ maxSupportedArity ∧ 1 ≤ l.maxChainDepth := by
  unfold validate
  split
  · simp only [reduceCtorEq, false_iff]
    omega
  · split
    · simp only [reduceCtorEq, false_iff]
      omega
    · simp only [Except.ok.injEq]
      constructor
      · rintro rfl
        exact ⟨rfl, by omega, by omega⟩
      · rintro ⟨rfl, -, -⟩
        rfl

/-- The arity limit is checked first: above the supported maximum it is refused whatever the chain limit. -/
theorem validate_of_maxArity {l : Limits} (h : maxSupportedArity < l.maxArity) :
    l.validate = .error (.arityTooLarge l.maxArity) := by
  unfold validate
  rw [if_pos h]

theorem validate_of_maxChainDepth {l : Limits} (ha : l.maxArity ≤ maxSupportedArity) (hd : l.maxChainDepth = 0) :
    l.validate = .error .zeroChainDepth := by
  unfold validate
  rw [if_neg (by omega), if_pos hd]

/-! ## Configuration texts -/

/-- **Configuration texts.** A configuration's text reads back exactly when it is valid and is refused otherwise,
arity first; objects of members read as the defaults with those members set. -/
theorem limits_text_round_trip :
    (∀ a d : UInt64,
      (ofJsonText (jsonText ⟨a.toNat, d.toNat⟩) = .ok ⟨a.toNat, d.toNat⟩ ↔
          a.toNat ≤ maxSupportedArity ∧ 1 ≤ d.toNat) ∧
      (maxSupportedArity < a.toNat → ofJsonText (jsonText ⟨a.toNat, d.toNat⟩) = .error (.arityTooLarge a.toNat)) ∧
      (a.toNat ≤ maxSupportedArity → d.toNat = 0 →
        ofJsonText (jsonText ⟨a.toNat, d.toNat⟩) = .error .zeroChainDepth)) ∧
    (∀ ms : List (Member × Nat), (ms.map Prod.fst).Nodup → (∀ p ∈ ms, p.2 ≤ wordMax) →
      ofJsonText (String.ofList ('{' :: membersChars true ms ++ ['}'])) =
        validate (ms.foldl (fun l p => p.1.set l p.2) {})) ∧
    (∀ l l' : Limits, l.validate = .ok l' → l' = l) ∧
    (∀ ms : List (Member × Nat), (ms.map Prod.fst).Nodup → (∀ p ∈ ms, p.2 ≤ wordMax) →
      ∀ k : List Char, Plain k → String.ofList k ≠ "max_arity" → String.ofList k ≠ "max_chain_depth" →
      ∀ rest : List Char, ∃ line column : Nat,
        ofJsonText (String.ofList ('{' :: membersChars true ms ++ separator ms.isEmpty ++ '"' :: (k ++ '"' :: rest))) =
          .error (.parse ("unknown field `" ++ String.ofList k ++ "`, expected `max_arity` or `max_chain_depth`" ++
            " at line " ++ toString line ++ " column " ++ toString column))) := by
  refine ⟨fun a d => ?_, ofJsonText_members, fun l l' h => ((validate_eq_ok l l').1 h).1,
    fun ms hnodup hval k hk h₁ h₂ rest => ofJsonText_unknown ms hnodup hval hk ⟨h₁, h₂⟩ rest⟩
  rw [ofJsonText_jsonText]
  refine ⟨?_, fun h => validate_of_maxArity h, fun ha hd => validate_of_maxChainDepth ha hd⟩
  rw [validate_eq_ok]
  simp

/-- The text of an arity limit of 26 with a chain limit of 0 is refused for its arity, the object of the two default
members reads as the default configuration, and an object whose single key is `max_depth` is refused for that key. -/
theorem limits_text_round_trip_at_defaults :
    maxSupportedArity < (26 : UInt64).toNat ∧
      ofJsonText (jsonText ⟨(26 : UInt64).toNat, (0 : UInt64).toNat⟩) = .error (.arityTooLarge 26) ∧
    ([(Member.arity, 25), (Member.depth, 10000)].map Prod.fst).Nodup ∧
      (∀ p ∈ [(Member.arity, 25), (Member.depth, 10000)], p.2 ≤ wordMax) ∧
      ofJsonText (String.ofList ('{' :: membersChars true [(.arity, 25), (.depth, 10000)] ++ ['}'])) =
        validate {} ∧
    Plain "max_depth".toList ∧
      ∃ line column : Nat, ofJsonText "\x7b\"max_depth\":1\x7d" =
        .error (.parse ("unknown field `" ++ "max_depth" ++ "`, expected `max_arity` or `max_chain_depth`" ++
          " at line " ++ toString line ++ " column " ++ toString column)) := by
  have hnodup : ([(Member.arity, 25), (Member.depth, 10000)].map Prod.fst).Nodup := by simp
  have hval : ∀ p ∈ [(Member.arity, 25), (Member.depth, 10000)], p.2 ≤ wordMax := by
    intro p hp
    simp only [List.mem_cons, List.not_mem_nil, or_false] at hp
    rcases hp with rfl | rfl <;> decide
  have hplain : Plain "max_depth".toList := by simp [Plain]
  -- the unknown key stands first, with no member before it
  have htext : String.ofList ('{' :: membersChars true [] ++ separator ([] : List (Member × Nat)).isEmpty ++
      '"' :: ("max_depth".toList ++ '"' :: [':', '1', '}'])) = "\x7b\"max_depth\":1\x7d" := by decide
  obtain ⟨line, column, hkey⟩ := limits_text_round_trip.2.2.2 [] List.nodup_nil (by simp) "max_depth".toList hplain
    (by decide) (by decide) [':', '1', '}']
  rw [htext, String.ofList_toList] at hkey
  exact ⟨by decide, (limits_text_round_trip.1 26 0).2.1 (by decide), hnodup, hval,
    limits_text_round_trip.2.1 _ hnodup hval, hplain, line, column, hkey⟩

end LazyCall.Limits
