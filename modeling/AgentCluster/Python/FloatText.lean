import AgentCluster.Python.Binary64
import AgentCluster.Python.Text

/-!
# Decimal text of floats

`float(s)` and `repr(x)`. Both go through `DecimalLiteral`, the pieces of a decimal literal: sign,
digits before and after the point, and exponent.

`repr` is the shortest spelling that reads back as the same float. `shortestLiteral` searches for
it among the spellings with 1 to 17 significant digits and falls back on the exact decimal
expansion, which every binary64 value has, so reading back is part of its definition
(`toBinary64_shortestLiteral`). Seventeen digits are always enough, so the fallback is not taken.
-/

set_option autoImplicit false

namespace AgentCluster.Python

/-- Digits of a decimal literal; `frac` is empty when there is no point, and `exp` is the sign and
the digits of the exponent. -/
structure DecimalLiteral where
  neg : Bool
  whole : List Char
  frac : List Char
  exp : Option (Bool × List Char)
  deriving DecidableEq

/-- The number a run of ASCII digits denotes. -/
abbrev digitsValue (ds : List Char) : Nat := Nat.ofDigitChars 10 ds 0

/-- The ASCII digits of a number. -/
abbrev digits (n : Nat) : List Char := Nat.toDigits 10 n

namespace DecimalLiteral

/-- A point or an exponent is present. -/
def isFloat (d : DecimalLiteral) : Bool := !d.frac.isEmpty || d.exp.isSome

/-- The signed exponent as written. -/
def exponent (d : DecimalLiteral) : Int :=
  match d.exp with
  | none => 0
  | some (neg, ds) => if neg then -(digitsValue ds : Int) else digitsValue ds

/-- The correctly rounded value. -/
def toBinary64 (d : DecimalLiteral) : Binary64 :=
  let m := digitsValue (d.whole ++ d.frac)
  match d.exponent - d.frac.length with
  | .ofNat k => Binary64.ofRatio d.neg (m * 10 ^ k) 1
  | .negSucc k => Binary64.ofRatio d.neg m (10 ^ (k + 1))

/-- The value of a literal without point and exponent. -/
def toInt (d : DecimalLiteral) : Int :=
  if d.neg then -(digitsValue d.whole : Int) else digitsValue d.whole

/-- The spelling `repr` uses: the exponent always carries its sign. -/
def render (d : DecimalLiteral) : List Char :=
  (if d.neg then ['-'] else []) ++ d.whole ++
    (if d.frac.isEmpty then [] else '.' :: d.frac) ++
    match d.exp with
    | none => []
    | some (neg, ds) => 'e' :: (if neg then '-' else '+') :: ds

/-- The integer literal `n`. -/
def ofInt (n : Int) : DecimalLiteral := ⟨n < 0, digits n.natAbs, [], none⟩

/-- The shape of a JSON number: digits only, no superfluous leading zero. -/
structure WellFormed (d : DecimalLiteral) : Prop where
  whole_digits : ∀ c ∈ d.whole, c.isDigit = true
  whole_head : d.whole = ['0'] ∨ ∃ c ds, d.whole = c :: ds ∧ c ≠ '0'
  frac_digits : ∀ c ∈ d.frac, c.isDigit = true
  exp_digits : ∀ neg ds, d.exp = some (neg, ds) → ds ≠ [] ∧ ∀ c ∈ ds, c.isDigit = true

end DecimalLiteral

/-! ## `repr` -/

/-- Position of the decimal point: `10 ^ (p - 1) ≤ a / b < 10 ^ p`. -/
def decimalPoint (a b : Nat) : Int :=
  if b ≤ a then (digits (a / b)).length else 1 - (digits ((b + a - 1) / a - 1)).length

/-- The digits `ds` with the point after `p` of them: positional when `-4 < p ≤ 16`, otherwise with
an exponent of at least two digits. -/
def formatDigits (neg : Bool) (ds : List Char) (p : Int) : DecimalLiteral :=
  if -4 < p ∧ p ≤ 16 then
    if p ≤ 0 then ⟨neg, ['0'], List.replicate (-p).toNat '0' ++ ds, none⟩
    else if ds.length ≤ p.toNat then
      ⟨neg, ds ++ List.replicate (p.toNat - ds.length) '0', ['0'], none⟩
    else ⟨neg, ds.take p.toNat, ds.drop p.toNat, none⟩
  else
    let e := digits (p - 1).natAbs
    ⟨neg, ds.take 1, ds.drop 1, some (p - 1 < 0, if e.length < 2 then '0' :: e else e)⟩

/-- The spelling of the significand `c` scaled by `10 ^ (-t)`, trailing zeros dropped. -/
def spell (neg : Bool) (c : Nat) (t : Int) : DecimalLiteral :=
  formatDigits neg ((digits c).reverse.dropWhile (· == '0')).reverse ((digits c).length - t)

/-- The two spellings of `a / b` with `n` significant digits, the nearer one first. -/
def candidates (neg : Bool) (a b n : Nat) : List DecimalLiteral :=
  let t : Int := n - decimalPoint a b
  let num := a * 10 ^ t.toNat
  let den := b * 10 ^ (-t).toNat
  let near := roundHalfEven num den
  let other := if near = num / den then near + 1 else num / den
  ([near, other].filter (0 < ·)).map fun c => spell neg c t

/-- The full decimal expansion of `u` units. -/
def exactLiteral (neg : Bool) (u : Nat) : DecimalLiteral :=
  ⟨neg, digits (u * 5 ^ unitExponent), [], some (true, digits unitExponent)⟩

/-- All spellings of `u` units with 1 to 17 significant digits, shorter ones first. -/
def spellings (neg : Bool) (u : Nat) : List DecimalLiteral :=
  (List.range 17).flatMap fun n => candidates neg u unitsPerOne (n + 1)

/-- The shortest literal that reads back as the given finite value. -/
def shortestLiteral (x : Binary64) : DecimalLiteral :=
  match x with
  | .finite neg m q _ =>
      if m = 0 then ⟨neg, ['0'], ['0'], none⟩
      else
        ((spellings neg (m * 2 ^ q)).find? fun d => d.toBinary64 = x).getD
          (exactLiteral neg (m * 2 ^ q))
  | .inf neg => ⟨neg, ['0'], ['0'], none⟩
  | .nan => ⟨false, ['0'], ['0'], none⟩

/-- `repr(x)`. -/
def Binary64.repr : Binary64 → List Char
  | .inf neg => (if neg then ['-'] else []) ++ ['i', 'n', 'f']
  | .nan => ['n', 'a', 'n']
  | x => (shortestLiteral x).render

/-! ## `float(s)` -/

/-- Characters `float` strips: the ASCII spaces. -/
def isAsciiSpace (c : Char) : Bool := c == ' ' || (9 ≤ c.toNat && c.toNat ≤ 13)

/-- Underscores are allowed between two digits only; `prev` is the character before. -/
def removeUnderscores (prev : Char) : List Char → Option (List Char)
  | [] => if prev == '_' then none else some []
  | c :: s =>
      if c == '_' then
        if prev.isDigit then removeUnderscores c s else none
      else if prev == '_' && !c.isDigit then none
      else (removeUnderscores c s).map (c :: ·)

/-- The sign and what follows it. -/
def takeSign : List Char → Bool × List Char
  | '-' :: s => (true, s)
  | '+' :: s => (false, s)
  | s => (false, s)

/-- An exponent part, if the whole rest is one. -/
def parseExponent : List Char → Option (Option (Bool × List Char))
  | [] => some none
  | c :: s =>
      let (neg, ds) := takeSign s
      if c.toLower == 'e' && !ds.isEmpty && ds.all Char.isDigit then some (some (neg, ds)) else none

/-- An unsigned decimal literal: a digit before or after the point is required. -/
def parseDecimal (neg : Bool) (s : List Char) : Option DecimalLiteral :=
  let whole := s.takeWhile Char.isDigit
  let rest := s.dropWhile Char.isDigit
  let (frac, rest) := match rest with
    | '.' :: r => (r.takeWhile Char.isDigit, r.dropWhile Char.isDigit)
    | r => ([], r)
  if whole.isEmpty && frac.isEmpty then none
  else (parseExponent rest).map fun e => ⟨neg, whole, frac, e⟩

/-- `float(s)`, with `none` for the `ValueError`. -/
def pyFloat (s : String) : Option Binary64 :=
  let text := stripWith isAsciiSpace (s.toList.map toAsciiDecimal)
  (removeUnderscores ' ' text).bind fun text =>
    let (neg, body) := takeSign text
    let word := body.map Char.toLower
    if word = ['i', 'n', 'f'] ∨ word = ['i', 'n', 'f', 'i', 'n', 'i', 't', 'y'] then some (.inf neg)
    else if word = ['n', 'a', 'n'] then some .nan
    else (parseDecimal neg body).map DecimalLiteral.toBinary64

/-! ## `int(s)` -/

/-- The most digits that `int` reads. -/
def intMaxStrDigits : Nat := 4300

/-- `int(s)`, with `none` for the `ValueError`. -/
def pyInt (s : String) : Option Int :=
  let (neg, body) := takeSign (stripWith isAsciiSpace (s.toList.map toAsciiDecimal))
  (removeUnderscores ' ' body).bind fun ds =>
    if ds ≠ [] ∧ ds.all Char.isDigit ∧ ds.length ≤ intMaxStrDigits then
      some (if neg then -(digitsValue ds : Int) else digitsValue ds)
    else none

/-! ## Reading a spelling back -/

theorem digitsValue_digits (n : Nat) : digitsValue (digits n) = n :=
  Nat.ofDigitChars_ten_toDigits

theorem isDigit_of_mem_digits {n : Nat} {c : Char} (h : c ∈ digits n) : c.isDigit = true :=
  Nat.isDigit_of_mem_toDigits (by decide) (by decide) h

theorem digits_head (n : Nat) : digits n = ['0'] ∨ ∃ c ds, digits n = c :: ds ∧ c ≠ '0' := by
  induction n using Nat.strongRecOn with
  | ind n ih =>
    by_cases hn : n < 10
    · have hone : digits n = [n.digitChar] := Nat.toDigits_of_lt_base hn
      by_cases h0 : n = 0
      · subst h0
        exact Or.inl (Nat.toDigits_zero 10)
      · refine Or.inr ⟨n.digitChar, [], hone, ?_⟩
        have hne : ∀ k, k < 10 → k ≠ 0 → k.digitChar ≠ '0' := by decide
        exact hne n hn h0
    · have hsplit : digits n = digits (n / 10) ++ [(n % 10).digitChar] :=
        Nat.toDigits_of_base_le (by decide) (by omega)
      have hpos : 0 < n / 10 := by omega
      rcases ih (n / 10) (by omega) with hz | ⟨c, ds, hc, hne⟩
      · have hval := digitsValue_digits (n / 10)
        rw [hz] at hval
        have hzero : digitsValue ['0'] = 0 := rfl
        omega
      · exact Or.inr ⟨c, ds ++ [(n % 10).digitChar], by rw [hsplit, hc]; rfl, hne⟩

theorem digits_head_of_pos {n : Nat} (h : 0 < n) : ∃ c ds, digits n = c :: ds ∧ c ≠ '0' := by
  rcases digits_head n with hz | hc
  · have hval := digitsValue_digits n
    rw [hz] at hval
    have hzero : digitsValue ['0'] = 0 := rfl
    omega
  · exact hc

/-- The exact expansion denotes the value it expands. -/
theorem toBinary64_exactLiteral (neg : Bool) {m q : Nat} (h : Canonical m q) :
    (exactLiteral neg (m * 2 ^ q)).toBinary64 = .finite neg m q h := by
  have hexp : (exactLiteral neg (m * 2 ^ q)).exponent = -(unitExponent : Int) := by
    simp only [exactLiteral, DecimalLiteral.exponent, digitsValue_digits, if_true]
  have hsig : digitsValue (digits (m * 2 ^ q * 5 ^ unitExponent) ++ []) =
      m * 2 ^ q * 5 ^ unitExponent := by
    rw [List.append_nil, digitsValue_digits]
  have hshift : -(unitExponent : Int) - (([] : List Char).length : Int) = .negSucc 1073 := rfl
  have hten : 5 ^ unitExponent * unitsPerOne = 10 ^ unitExponent := by
    rw [unitsPerOne, ← Nat.mul_pow]
  have hval : m * 2 ^ q * 5 ^ unitExponent * unitsPerOne = m * 2 ^ q * 10 ^ unitExponent := by
    rw [mul_assoc, hten]
  have hden : 0 < 10 ^ unitExponent := Nat.pow_pos (by decide)
  have hplaces : 1073 + 1 = unitExponent := rfl
  unfold DecimalLiteral.toBinary64
  rw [hexp]
  simp only [exactLiteral, hsig, hshift, hplaces]
  exact Binary64.ofRatio_exact neg h hden hval

/-- Zero is spelled `0.0`. -/
theorem toBinary64_zero (neg : Bool) (q : Nat) (h : Canonical 0 q) :
    (⟨neg, ['0'], ['0'], none⟩ : DecimalLiteral).toBinary64 = .finite neg 0 q h := by
  obtain rfl : q = 0 := by
    rcases h.2.1 with h0 | h0
    · exact h0
    · exact absurd h0 (by decide)
  have hval : 0 * unitsPerOne = 0 * 2 ^ 0 * 10 ^ (0 + 1) := by simp
  exact Binary64.ofRatio_exact neg h (by decide) hval

/-- `float(repr(x)) == x` for a finite `x`. -/
theorem toBinary64_shortestLiteral {x : Binary64} (hx : x.isFinite = true) :
    (shortestLiteral x).toBinary64 = x := by
  cases x with
  | inf neg => simp [Binary64.isFinite] at hx
  | nan => simp [Binary64.isFinite] at hx
  | finite neg m q h =>
    by_cases hm : m = 0
    · subst hm
      simp only [shortestLiteral, if_true]
      exact toBinary64_zero neg q h
    · simp only [shortestLiteral, if_neg hm]
      cases hfind : (spellings neg (m * 2 ^ q)).find? fun d => d.toBinary64 = .finite neg m q h with
      | none => exact toBinary64_exactLiteral neg h
      | some d => simpa using List.find?_some hfind

/-! ## Spellings are well formed -/

theorem digits_exp (n : Nat) (neg : Bool) :
    ∀ neg' ds, some (neg, digits n) = some (neg', ds) →
      ds ≠ [] ∧ ∀ c ∈ ds, c.isDigit = true := by
  rintro neg' ds h
  simp only [Option.some.injEq, Prod.mk.injEq] at h
  obtain ⟨-, rfl⟩ := h
  exact ⟨Nat.toDigits_ne_nil, fun c hc => isDigit_of_mem_digits hc⟩

theorem wellFormed_exactLiteral (neg : Bool) (u : Nat) : (exactLiteral neg u).WellFormed where
  whole_digits := fun _ hc => isDigit_of_mem_digits hc
  whole_head := digits_head _
  frac_digits := by simp [exactLiteral]
  exp_digits := digits_exp unitExponent true

theorem wellFormed_ofInt (n : Int) : (DecimalLiteral.ofInt n).WellFormed where
  whole_digits := fun _ hc => isDigit_of_mem_digits hc
  whole_head := digits_head _
  frac_digits := by simp [DecimalLiteral.ofInt]
  exp_digits := by simp [DecimalLiteral.ofInt]

/-- Trailing zeros leave a number that starts with the same nonzero digit. -/
theorem dropTrailingZeros_digits {n : Nat} (h : 0 < n) :
    ∃ c ds, ((digits n).reverse.dropWhile (· == '0')).reverse = c :: ds ∧ c ≠ '0' ∧
      ∀ x ∈ c :: ds, x.isDigit = true := by
  obtain ⟨c, ds, hds, hne⟩ := digits_head_of_pos h
  have hdrop : (digits n).reverse.dropWhile (· == '0') =
      ds.reverse.dropWhile (· == '0') ++ [c] := by
    rw [hds, List.reverse_cons, List.dropWhile_append]
    split
    · rename_i hnil
      have hhead : ([c] : List Char).dropWhile (· == '0') = [c] := by simp [hne]
      rw [hhead, List.isEmpty_iff.1 hnil, List.nil_append]
    · rfl
  refine ⟨c, (ds.reverse.dropWhile (· == '0')).reverse, ?_, hne, ?_⟩
  · rw [hdrop, List.reverse_append]
    rfl
  · intro x hx
    have hmem : x ∈ digits n := by
      rw [hds]
      rcases List.mem_cons.1 hx with rfl | hx
      · exact List.mem_cons_self
      · have hx' := (List.dropWhile_suffix (· == '0')).subset (List.mem_reverse.1 hx)
        exact List.mem_cons_of_mem _ (List.mem_reverse.1 hx')
    exact isDigit_of_mem_digits hmem

/-- Padding an exponent to two digits keeps it a run of digits. -/
theorem padded_exp (neg : Bool) (n : Nat) :
    ∀ neg' ds,
      some (neg, if (digits n).length < 2 then '0' :: digits n else digits n) = some (neg', ds) →
        ds ≠ [] ∧ ∀ c ∈ ds, c.isDigit = true := by
  rintro neg' ds h
  simp only [Option.some.injEq, Prod.mk.injEq] at h
  obtain ⟨-, rfl⟩ := h
  split
  · refine ⟨by simp, fun c hc => ?_⟩
    rcases List.mem_cons.1 hc with rfl | hc
    · rfl
    · exact isDigit_of_mem_digits hc
  · exact ⟨Nat.toDigits_ne_nil, fun c hc => isDigit_of_mem_digits hc⟩

theorem isDigit_of_mem_replicate_zero {n : Nat} {x : Char} (h : x ∈ List.replicate n '0') :
    x.isDigit = true := by
  obtain rfl := List.eq_of_mem_replicate h
  rfl

/-- Every layout of a number with a nonzero leading digit has the shape of a JSON number. -/
theorem wellFormed_formatDigits (neg : Bool) {c : Char} {ds : List Char} (hc : c ≠ '0')
    (hd : ∀ x ∈ c :: ds, x.isDigit = true) (p : Int) :
    (formatDigits neg (c :: ds) p).WellFormed ∧
      (formatDigits neg (c :: ds) p).isFloat = true := by
  unfold formatDigits
  split
  · split
    -- All digits behind the point: zeros first.
    · refine ⟨⟨by simp, Or.inl rfl, ?_, by simp⟩, by simp [DecimalLiteral.isFloat]⟩
      intro x hx
      rcases List.mem_append.1 hx with hx | hx
      · exact isDigit_of_mem_replicate_zero hx
      · exact hd x hx
    · split
      -- The point is behind all digits, which are padded with zeros.
      · refine ⟨⟨?_, Or.inr ⟨c, _, rfl, hc⟩, by simp, by simp⟩, by simp [DecimalLiteral.isFloat]⟩
        intro x hx
        rcases List.mem_append.1 hx with hx | hx
        · exact hd x hx
        · exact isDigit_of_mem_replicate_zero hx
      -- The point is among the digits.
      · rename_i hp hlen
        obtain ⟨k, hk⟩ : ∃ k, p.toNat = k + 1 := ⟨p.toNat - 1, by omega⟩
        have hdrop : (c :: ds).drop p.toNat ≠ [] := by
          intro hnil
          rw [List.drop_eq_nil_iff] at hnil
          omega
        refine ⟨⟨?_, Or.inr ⟨c, ds.take k, by rw [hk]; rfl, hc⟩, ?_, by simp⟩, ?_⟩
        · exact fun x hx => hd x (List.mem_of_mem_take hx)
        · exact fun x hx => hd x (List.mem_of_mem_drop hx)
        · simpa [DecimalLiteral.isFloat] using hdrop
  -- Scientific notation: one digit before the point.
  · refine ⟨⟨?_, Or.inr ⟨c, [], rfl, hc⟩, ?_, padded_exp _ _⟩, by simp [DecimalLiteral.isFloat]⟩
    · exact fun x hx => hd x (List.mem_of_mem_take hx)
    · exact fun x hx => hd x (List.mem_of_mem_drop hx)

theorem wellFormed_of_mem_candidates {neg : Bool} {a b n : Nat} {d : DecimalLiteral}
    (h : d ∈ candidates neg a b n) : d.WellFormed ∧ d.isFloat = true := by
  simp only [candidates, List.mem_map, List.mem_filter, decide_eq_true_eq] at h
  obtain ⟨c, ⟨-, hpos⟩, rfl⟩ := h
  obtain ⟨c', ds, hds, hne, hdig⟩ := dropTrailingZeros_digits hpos
  unfold spell
  rw [hds]
  exact wellFormed_formatDigits neg hne hdig _

theorem wellFormed_zero (neg : Bool) :
    (⟨neg, ['0'], ['0'], none⟩ : DecimalLiteral).WellFormed :=
  ⟨by simp, Or.inl rfl, by simp, by simp⟩

/-- `repr` of a float has the shape of a JSON number with a point or an exponent. -/
theorem wellFormed_shortestLiteral (x : Binary64) :
    (shortestLiteral x).WellFormed ∧ (shortestLiteral x).isFloat = true := by
  cases x with
  | inf neg => exact ⟨wellFormed_zero neg, rfl⟩
  | nan => exact ⟨wellFormed_zero false, rfl⟩
  | finite neg m q h =>
    by_cases hm : m = 0
    · simp only [shortestLiteral, if_pos hm]
      exact ⟨wellFormed_zero neg, rfl⟩
    · simp only [shortestLiteral, if_neg hm]
      cases hfind : (spellings neg (m * 2 ^ q)).find? fun d => d.toBinary64 = .finite neg m q h with
      | none => exact ⟨wellFormed_exactLiteral neg _, rfl⟩
      | some d =>
        obtain ⟨n, -, hd⟩ := List.mem_flatMap.1 (List.mem_of_find?_eq_some hfind)
        exact wellFormed_of_mem_candidates hd

end AgentCluster.Python
