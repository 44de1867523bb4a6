import AgentCluster.Python.FloatText

/-!
# Integers as floats

`float(n)` rounds to one of the integers `m * 2 ^ k` with `m < 2 ^ 53` and `k ≤ 971`, or overflows. An
integer that is one of these is kept (`roundsTo_self_iff`), any other becomes another number.

`integerOf` reads the decimal integer literals: digits after an optional sign. `float` reads them as
these integers (`pyFloat_of_integerOf`).
-/

set_option autoImplicit false

namespace AgentCluster.Python

/-- An integer that a float can hold. -/
def IsDouble (n : Int) : Prop := ∃ m k, m < 2 ^ 53 ∧ k ≤ 971 ∧ n.natAbs = m * 2 ^ k

/-- The nearest float, an infinity on overflow. -/
def Binary64.ofInt (n : Int) : Binary64 := ofRatio (decide (n < 0)) n.natAbs 1

/-- As a float, the integer becomes `k`. -/
def RoundsTo (n k : Int) : Prop := (Binary64.ofInt n).magnitude = Magnitude.ofInt k

instance (n k : Int) : Decidable (RoundsTo n k) :=
  inferInstanceAs (Decidable (_ = _))

/-! ## Exact integers -/

/-- An integer that a float can hold has a canonical significand and shift. -/
theorem IsDouble.canonical {n : Int} (h : IsDouble n) :
    ∃ m q, Canonical m q ∧ n.natAbs * unitsPerOne = m * 2 ^ q := by
  obtain ⟨m, k, hm, hk, hn⟩ := h
  by_cases h0 : m = 0
  · subst h0
    refine ⟨0, 0, ⟨by decide, Or.inl rfl, by decide⟩, ?_⟩
    rw [hn, Nat.zero_mul, Nat.zero_mul, Nat.zero_mul]
  -- shift the significand up to 53 bits
  have hlog : m.log2 ≤ 52 := Nat.le_of_lt_succ ((Nat.log2_lt h0).2 hm)
  refine ⟨m * 2 ^ (52 - m.log2), 1074 + k - (52 - m.log2), ⟨?_, Or.inr ?_, by omega⟩, ?_⟩
  · calc m * 2 ^ (52 - m.log2) < 2 ^ (m.log2 + 1) * 2 ^ (52 - m.log2) :=
          Nat.mul_lt_mul_of_pos_right Nat.lt_log2_self (Nat.two_pow_pos _)
      _ = 2 ^ 53 := by
          rw [← Nat.pow_add]
          congr 1
          omega
  · calc 2 ^ 52 = 2 ^ m.log2 * 2 ^ (52 - m.log2) := by
          rw [← Nat.pow_add]
          congr 1
          omega
      _ ≤ m * 2 ^ (52 - m.log2) := Nat.mul_le_mul_right _ (Nat.log2_self_le h0)
  · have hsplit : 1074 + k = 52 - m.log2 + (1074 + k - (52 - m.log2)) := by omega
    rw [hn, unitsPerOne, unitExponent, Nat.mul_assoc, Nat.mul_assoc, ← Nat.pow_add, ← Nat.pow_add,
      Nat.add_comm k, ← hsplit]

theorem isDouble_of_canonical {n : Int} {m q : Nat} (h : Canonical m q)
    (hval : n.natAbs * unitsPerOne = m * 2 ^ q) : IsDouble n := by
  have hunit : unitExponent = 1074 := rfl
  have hq := h.2.2
  by_cases hle : unitExponent ≤ q
  · refine ⟨m, q - unitExponent, h.1, by omega, ?_⟩
    have hsplit : 2 ^ q = 2 ^ (q - unitExponent) * unitsPerOne := by
      rw [unitsPerOne, ← Nat.pow_add, Nat.sub_add_cancel hle]
    rw [hsplit, ← Nat.mul_assoc] at hval
    exact Nat.eq_of_mul_eq_mul_right unitsPerOne_pos hval
  · refine ⟨n.natAbs, 0, ?_, by decide, (Nat.mul_one _).symm⟩
    have hunits : n.natAbs * 2 ^ q ≤ m * 2 ^ q := by
      rw [← hval]
      exact Nat.mul_le_mul_left _ (Nat.pow_le_pow_right (by decide) (by omega))
    exact Nat.lt_of_le_of_lt (Nat.le_of_mul_le_mul_right hunits (Nat.two_pow_pos q)) h.1

namespace Binary64

theorem ofRatio_zero (neg : Bool) : (ofRatio neg 0 1).magnitude = .units 0 := by
  have hcanonical : Canonical 0 0 := ⟨by decide, Or.inl rfl, by decide⟩
  rw [ofRatio_exact neg hcanonical Nat.one_pos (by rw [Nat.zero_mul, Nat.zero_mul, Nat.zero_mul])]
  cases neg <;> rfl

/-- The sign of a zero does not show in the number. -/
theorem magnitude_ofRatio (neg : Bool) (n : Nat) :
    (ofRatio neg n 1).magnitude = (ofInt (if neg then -(n : Int) else n)).magnitude := by
  by_cases hn : n = 0
  · subst hn
    have hzero : (if neg = true then -((0 : Nat) : Int) else (0 : Nat)) = 0 := by cases neg <;> rfl
    rw [hzero, ofRatio_zero, ofInt]
    exact (ofRatio_zero false).symm
  · cases neg with
    | true =>
      have hneg : decide (-(n : Int) < 0) = true := by
        rw [decide_eq_true_eq]
        omega
      rw [if_pos rfl, ofInt, hneg, Int.natAbs_neg, Int.natAbs_natCast]
    | false =>
      have hneg : decide ((n : Int) < 0) = false := by
        rw [decide_eq_false_iff_not]
        omega
      rw [if_neg Bool.false_ne_true, ofInt, hneg, Int.natAbs_natCast]

/-- The units of an integer, from its sign and its absolute value. -/
theorem finite_magnitude_eq_ofInt {neg : Bool} {m q : Nat} {h : Canonical m q} {n : Int} :
    (finite neg m q h).magnitude = Magnitude.ofInt n ↔
      (if neg then -((m * 2 ^ q : Nat) : Int) else (m * 2 ^ q : Nat)) = n * unitsPerOne := by
  rw [magnitude, Magnitude.ofInt]
  exact ⟨Magnitude.units.inj, congrArg Magnitude.units⟩

theorem natAbs_of_magnitude {neg : Bool} {m q : Nat} {h : Canonical m q} {n : Int}
    (heq : (finite neg m q h).magnitude = Magnitude.ofInt n) :
    m * 2 ^ q = n.natAbs * unitsPerOne := by
  have habs := congrArg Int.natAbs (finite_magnitude_eq_ofInt.1 heq)
  rw [Int.natAbs_mul, Int.natAbs_natCast] at habs
  rw [← habs]
  cases neg
  · rw [if_neg Bool.false_ne_true, Int.natAbs_natCast]
  · rw [if_pos rfl, Int.natAbs_neg, Int.natAbs_natCast]

/-- A float that is an integer is the one `int` makes of it. -/
theorem magnitude_of_isInteger {x : Binary64} (h : x.isInteger = true) :
    x.magnitude = Magnitude.ofInt x.toInt := by
  cases x with
  | finite neg m q hcanonical =>
    rw [isInteger, beq_iff_eq] at h
    have hdiv : m * 2 ^ q / unitsPerOne * unitsPerOne = m * 2 ^ q :=
      Nat.div_mul_cancel (Nat.dvd_of_mod_eq_zero h)
    rw [finite_magnitude_eq_ofInt, toInt]
    cases neg
    · rw [if_neg Bool.false_ne_true, if_neg Bool.false_ne_true, ← Int.natCast_mul, hdiv]
    · rw [if_pos rfl, if_pos rfl, Int.neg_mul, ← Int.natCast_mul, hdiv]
  | inf neg => cases h
  | nan => cases h

theorem isInteger_of_magnitude {x : Binary64} {n : Int} (h : x.magnitude = Magnitude.ofInt n) :
    x.isInteger = true ∧ x.toInt = n := by
  cases x with
  | finite neg m q hcanonical =>
    have hmod : m * 2 ^ q % unitsPerOne = 0 := by
      rw [natAbs_of_magnitude h]
      exact Nat.mul_mod_left _ _
    have hinteger : (finite neg m q hcanonical).isInteger = true := beq_iff_eq.2 hmod
    refine ⟨hinteger, ?_⟩
    have heq := Magnitude.units.inj ((magnitude_of_isInteger hinteger).symm.trans h)
    exact Int.eq_of_mul_eq_mul_right (Int.natCast_ne_zero.2 unitsPerOne_pos.ne') heq
  | inf neg => cases h
  | nan => cases h

end Binary64

/-- An integer is kept exactly when a float can hold it. -/
theorem roundsTo_self_iff (n : Int) : RoundsTo n n ↔ IsDouble n := by
  constructor
  · intro h
    rw [RoundsTo] at h
    cases hx : Binary64.ofInt n with
    | finite neg m q hcanonical =>
      rw [hx] at h
      exact isDouble_of_canonical hcanonical (Binary64.natAbs_of_magnitude h).symm
    | inf neg =>
      rw [hx] at h
      cases h
    | nan =>
      rw [hx] at h
      cases h
  · intro h
    obtain ⟨m, q, hcanonical, hval⟩ := h.canonical
    rw [RoundsTo, Binary64.ofInt, Binary64.ofRatio_exact _ hcanonical Nat.one_pos
      (by rw [Nat.mul_one]; exact hval), Binary64.finite_magnitude_eq_ofInt, ← hval]
    by_cases hneg : n < 0
    · rw [if_pos (decide_eq_true hneg), Int.natCast_mul, Int.ofNat_natAbs_of_nonpos hneg.le,
        Int.neg_mul, Int.neg_neg]
    · rw [if_neg (by rw [decide_eq_true_eq]; exact hneg), Int.natCast_mul,
        Int.natAbs_of_nonneg (by omega)]

/-! ## Integer literals -/

/-- The integer a text of digits with an optional sign denotes. -/
def integerOf (s : String) : Option Int :=
  let (neg, ds) := takeSign s.toList
  if !ds.isEmpty && ds.all Char.isDigit then
    some (if neg then -(digitsValue ds : Int) else digitsValue ds)
  else none

/-- The sign and the digits of an integer literal. -/
theorem integerOf_eq_some {s : String} {n : Int} (h : integerOf s = some n) :
    ∃ neg ds, takeSign s.toList = (neg, ds) ∧ ds ≠ [] ∧ (∀ c ∈ ds, c.isDigit = true) ∧
      n = if neg then -(digitsValue ds : Int) else digitsValue ds := by
  rw [integerOf] at h
  cases hsign : takeSign s.toList with
  | mk neg ds =>
    rw [hsign] at h
    simp only at h
    split at h
    · next hds =>
      rw [Bool.and_eq_true, Bool.not_eq_true', List.isEmpty_eq_false_iff, List.all_eq_true] at hds
      exact ⟨neg, ds, rfl, hds.1, hds.2, (Option.some.inj h).symm⟩
    · cases h

theorem integerOf_of_takeSign {s : String} {neg : Bool} {ds : List Char}
    (hsign : takeSign s.toList = (neg, ds)) (hne : ds ≠ [])
    (hds : ∀ c ∈ ds, c.isDigit = true) :
    integerOf s = some (if neg then -(digitsValue ds : Int) else digitsValue ds) := by
  have hvalid : (!ds.isEmpty && ds.all Char.isDigit) = true := by
    rw [List.isEmpty_eq_false_iff.2 hne, List.all_eq_true.2 hds]
    rfl
  rw [integerOf, hsign]
  exact if_pos hvalid

theorem takeSign_cases {s : List Char} {neg : Bool} {ds : List Char} (h : takeSign s = (neg, ds)) :
    s = '-' :: ds ∧ neg = true ∨ s = '+' :: ds ∧ neg = false ∨ s = ds ∧ neg = false := by
  unfold takeSign at h
  split at h
  · cases h
    exact Or.inl ⟨rfl, rfl⟩
  · cases h
    exact Or.inr (Or.inl ⟨rfl, rfl⟩)
  · cases h
    exact Or.inr (Or.inr ⟨rfl, rfl⟩)

/-- A character of an integer literal. -/
def isIntegerChar (c : Char) : Bool := c.isDigit || c == '-' || c == '+'

theorem isIntegerChar_of_mem {s : List Char} {neg : Bool} {ds : List Char}
    (h : takeSign s = (neg, ds)) (hds : ∀ c ∈ ds, c.isDigit = true) :
    ∀ c ∈ s, isIntegerChar c = true := by
  have hdigits : ∀ c ∈ ds, isIntegerChar c = true := by
    intro c hc
    rw [isIntegerChar, hds c hc]
    rfl
  rcases takeSign_cases h with ⟨rfl, -⟩ | ⟨rfl, -⟩ | ⟨rfl, -⟩
  · exact List.forall_mem_cons.2 ⟨rfl, hdigits⟩
  · exact List.forall_mem_cons.2 ⟨rfl, hdigits⟩
  · exact hdigits

/-- Digits have no sign before them. -/
theorem takeSign_digits {ds : List Char} (hds : ∀ c ∈ ds, c.isDigit = true) :
    takeSign ds = (false, ds) := by
  unfold takeSign
  split
  · exact absurd (hds '-' List.mem_cons_self) (by decide)
  · exact absurd (hds '+' List.mem_cons_self) (by decide)
  · rfl

/-- `str(n)` denotes `n`. -/
theorem integerOf_ofInt (n : Int) :
    integerOf (String.ofList (DecimalLiteral.ofInt n).render) = some n := by
  have hne : digits n.natAbs ≠ [] := Nat.toDigits_ne_nil
  have hds : ∀ c ∈ digits n.natAbs, c.isDigit = true := fun c hc => isDigit_of_mem_digits hc
  have hrender : (DecimalLiteral.ofInt n).render =
      (if decide (n < 0) = true then ['-'] else []) ++ digits n.natAbs := by
    simp [DecimalLiteral.render, DecimalLiteral.ofInt]
  by_cases hneg : n < 0
  · rw [if_pos (decide_eq_true hneg)] at hrender
    rw [hrender, integerOf_of_takeSign (by rw [String.toList_ofList]; rfl) hne hds, if_pos rfl,
      digitsValue_digits, Int.ofNat_natAbs_of_nonpos hneg.le, Int.neg_neg]
  · rw [if_neg (by rw [decide_eq_true_eq]; exact hneg), List.nil_append] at hrender
    rw [hrender, integerOf_of_takeSign (by rw [String.toList_ofList, takeSign_digits hds]) hne hds,
      if_neg Bool.false_ne_true, digitsValue_digits, Int.natAbs_of_nonneg (by omega)]

/-! ## `int` and `float` of an integer literal -/

theorem toNat_of_isDigit {c : Char} (h : c.isDigit = true) : 48 ≤ c.toNat ∧ c.toNat ≤ 57 := by
  rw [Char.isDigit, Bool.and_eq_true, decide_eq_true_eq, decide_eq_true_eq] at h
  exact h

theorem toLower_of_isDigit {c : Char} (h : c.isDigit = true) : c.toLower = c := by
  have hn := toNat_of_isDigit h
  refine dif_neg ?_
  rintro ⟨hA, -⟩
  have hA' : 65 ≤ c.toNat := hA
  omega

/-- A character that `int` and `float` read as it stands: ASCII, neither a space nor an underscore. -/
def IsPlain (c : Char) : Prop := toAsciiDecimal c = c ∧ isAsciiSpace c = false ∧ c ≠ '_'

theorem isPlain_of_isDigit {c : Char} (h : c.isDigit = true) : IsPlain c := by
  have hn := toNat_of_isDigit h
  refine ⟨if_pos (by omega), ?_, ?_⟩
  · rw [isAsciiSpace, Bool.or_eq_false_iff, beq_eq_false_iff_ne, Bool.and_eq_false_iff,
      decide_eq_false_iff_not, decide_eq_false_iff_not]
    refine ⟨?_, Or.inr (by omega)⟩
    rintro rfl
    cases h
  · rintro rfl
    cases h

theorem isPlain_of_isIntegerChar {c : Char} (h : isIntegerChar c = true) : IsPlain c := by
  rw [isIntegerChar, Bool.or_eq_true, Bool.or_eq_true, beq_iff_eq, beq_iff_eq] at h
  rcases h with (hdigit | rfl) | rfl
  · exact isPlain_of_isDigit hdigit
  · exact ⟨rfl, rfl, by decide⟩
  · exact ⟨rfl, rfl, by decide⟩

theorem removeUnderscores_of_none {s : List Char} (h : ∀ c ∈ s, c ≠ '_') {prev : Char}
    (hprev : prev ≠ '_') : removeUnderscores prev s = some s := by
  induction s generalizing prev with
  | nil => rw [removeUnderscores, if_neg (by rw [beq_iff_eq]; exact hprev)]
  | cons c s ih =>
    have hc := h c List.mem_cons_self
    have hrest := ih (fun d hd => h d (List.mem_cons_of_mem c hd)) hc
    rw [removeUnderscores, if_neg (by rw [beq_iff_eq]; exact hc), beq_eq_false_iff_ne.2 hprev,
      Bool.false_and, if_neg Bool.false_ne_true, hrest]
    rfl

section Plain

variable {s : List Char} (h : ∀ c ∈ s, IsPlain c)

include h

theorem map_toAsciiDecimal_of_plain : s.map toAsciiDecimal = s := by
  have hid : s.map toAsciiDecimal = s.map id := List.map_congr_left fun c hc => (h c hc).1
  rw [hid, List.map_id]

theorem stripWith_of_plain : stripWith isAsciiSpace s = s :=
  stripWith_of_all fun c hc => (h c hc).2.1

theorem removeUnderscores_of_plain : removeUnderscores ' ' s = some s :=
  removeUnderscores_of_none (fun c hc => (h c hc).2.2) (by decide)

end Plain

/-- What `float` makes of the text after the sign. -/
def readUnsigned (neg : Bool) (body : List Char) : Option Binary64 :=
  let word := body.map Char.toLower
  if word = ['i', 'n', 'f'] ∨ word = ['i', 'n', 'f', 'i', 'n', 'i', 't', 'y'] then some (.inf neg)
  else if word = ['n', 'a', 'n'] then some .nan
  else (parseDecimal neg body).map DecimalLiteral.toBinary64

/-- `float` of plain characters: the sign and the rest. -/
theorem pyFloat_of_plain {s : String} {neg : Bool} {body : List Char}
    (h : ∀ c ∈ s.toList, IsPlain c) (hsign : takeSign s.toList = (neg, body)) :
    pyFloat s = readUnsigned neg body := by
  simp only [pyFloat, map_toAsciiDecimal_of_plain h, stripWith_of_plain h,
    removeUnderscores_of_plain h, Option.bind_some, hsign]
  rfl

theorem parseDecimal_digits (neg : Bool) {ds : List Char} (hne : ds ≠ [])
    (hds : ∀ c ∈ ds, c.isDigit = true) : parseDecimal neg ds = some ⟨neg, ds, [], none⟩ := by
  have htake : ds.takeWhile Char.isDigit = ds := List.takeWhile_eq_self_iff.2 hds
  have hdrop : ds.dropWhile Char.isDigit = [] := List.dropWhile_eq_nil_iff.2 hds
  have hempty : ds.isEmpty = false := List.isEmpty_eq_false_iff.2 hne
  simp only [parseDecimal, htake, hdrop, hempty, Bool.false_and, Bool.false_eq_true, if_false,
    parseExponent, Option.map_some]

/-- What starts with a digit is read as a decimal literal. -/
theorem readUnsigned_of_digit (neg : Bool) {c : Char} (hc : c.isDigit = true) (body : List Char) :
    readUnsigned neg (c :: body) = (parseDecimal neg (c :: body)).map DecimalLiteral.toBinary64 := by
  have hword : ∀ {d : Char}, d.isDigit = false → ∀ word, (c :: body).map Char.toLower ≠ d :: word := by
    intro d hd word heq
    rw [List.map_cons, toLower_of_isDigit hc] at heq
    rw [(List.cons.inj heq).1, hd] at hc
    cases hc
  rw [readUnsigned, if_neg (not_or.2 ⟨hword rfl _, hword rfl _⟩), if_neg (hword rfl _)]

/-- `float` rounds the integer that the literal denotes. -/
theorem pyFloat_of_integerOf {s : String} {n : Int} (h : integerOf s = some n) :
    ∃ x, pyFloat s = some x ∧ x.magnitude = (Binary64.ofInt n).magnitude := by
  obtain ⟨neg, ds, hsign, hne, hds, rfl⟩ := integerOf_eq_some h
  have hchars : ∀ c ∈ s.toList, IsPlain c :=
    fun c hc => isPlain_of_isIntegerChar (isIntegerChar_of_mem hsign hds c hc)
  have hvalue : DecimalLiteral.toBinary64 ⟨neg, ds, [], none⟩ =
      Binary64.ofRatio neg (digitsValue ds) 1 := by
    show Binary64.ofRatio neg (digitsValue (ds ++ []) * 10 ^ 0) 1 = _
    rw [List.append_nil, pow_zero, Nat.mul_one]
  obtain ⟨c, rest, rfl⟩ := List.exists_cons_of_ne_nil hne
  refine ⟨Binary64.ofRatio neg (digitsValue (c :: rest)) 1, ?_, Binary64.magnitude_ofRatio neg _⟩
  rw [pyFloat_of_plain hchars hsign, readUnsigned_of_digit neg (hds c List.mem_cons_self),
    parseDecimal_digits neg hne hds, Option.map_some, hvalue]

end AgentCluster.Python
