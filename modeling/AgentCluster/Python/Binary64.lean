import Mathlib.Tactic.Ring
import Mathlib.Tactic.Linarith

/-!
# Binary64 numbers

The values of Python's `float`, without the machine type. Every finite binary64 value is an integer
multiple of the smallest subnormal `2 ^ (-1074)`, so a finite value is a sign, a significand `m`
and a shift `q`, denoting `m * 2 ^ q` of these units. `Canonical` leaves exactly one such pair for
every magnitude.

`Binary64.ofRatio` rounds a nonnegative rational to nearest, ties to even. A rational that is a
binary64 value already is returned unchanged (`ofRatio_exact`).
-/

set_option autoImplicit false

namespace AgentCluster.Python

/-- The smallest subnormal, the unit of all magnitudes, is `2 ^ (-1074)`. -/
def unitExponent : Nat := 1074

/-- The number of units in `1`. -/
def unitsPerOne : Nat := 2 ^ unitExponent

theorem unitsPerOne_pos : 0 < unitsPerOne := Nat.two_pow_pos unitExponent

/-- The nearest natural number to `n / d`, ties to the even one. -/
def roundHalfEven (n d : Nat) : Nat :=
  let q := n / d
  let r := n % d
  if 2 * r < d then q
  else if d < 2 * r then q + 1
  else if q % 2 = 0 then q
  else q + 1

/-- The pairs of significand and shift in use: 53 bits, normalised unless the shift is zero, and
below the overflow threshold. -/
def Canonical (m q : Nat) : Prop :=
  m < 2 ^ 53 ∧ (q = 0 ∨ 2 ^ 52 ≤ m) ∧ q ≤ 2045

instance (m q : Nat) : Decidable (Canonical m q) :=
  inferInstanceAs (Decidable (_ ∧ _ ∧ _))

/-- A binary64 value. All NaNs are one value. -/
inductive Binary64 where
  | finite (neg : Bool) (m q : Nat) (canonical : Canonical m q)
  | inf (neg : Bool)
  | nan
  deriving DecidableEq

/-- The exact extended number a float denotes, in these units. -/
inductive Magnitude where
  | units (n : Int)
  | inf (neg : Bool)
  | nan
  deriving DecidableEq

namespace Magnitude

/-- Numeric equality: a NaN differs from everything, itself included. -/
def eq : Magnitude → Magnitude → Bool
  | units a, units b => a == b
  | inf s, inf t => s == t
  | _, _ => false

/-- An integer as a magnitude. -/
def ofInt (n : Int) : Magnitude := units (n * unitsPerOne)

theorem eq_comm (a b : Magnitude) : a.eq b = b.eq a := by
  cases a <;> cases b <;> simp [eq, Bool.beq_comm]

theorem eq_iff (a b : Magnitude) : a.eq b = true ↔ a = b ∧ a ≠ nan := by
  cases a <;> cases b <;> simp [eq]

theorem ofInt_eq_ofInt (a b : Int) : (ofInt a).eq (ofInt b) = (a == b) := by
  have hpos : (unitsPerOne : Int) ≠ 0 := Int.natCast_ne_zero.2 unitsPerOne_pos.ne'
  show (a * (unitsPerOne : Int) == b * unitsPerOne) = (a == b)
  rw [Bool.eq_iff_iff, beq_iff_eq, beq_iff_eq]
  exact mul_left_inj' hpos

end Magnitude

namespace Binary64

/-- The number denoted. -/
def magnitude : Binary64 → Magnitude
  | finite neg m q _ => .units (if neg then -(m * 2 ^ q : Nat) else (m * 2 ^ q : Nat))
  | inf neg => .inf neg
  | nan => .nan

/-- Neither an infinity nor a NaN. -/
def isFinite : Binary64 → Bool
  | finite .. => true
  | _ => false

/-- A finite value, or an infinity when the shift is past the range. -/
def pack (neg : Bool) (m q : Nat) : Binary64 :=
  if h : Canonical m q then finite neg m q h else inf neg

/-- The binary64 value nearest to `num / den`, ties to even. The shift is the one that leaves 53
significant bits before the point, or zero in the subnormal range; a significand that rounds up to
`2 ^ 53` moves to the next shift. -/
def ofRatio (neg : Bool) (num den : Nat) : Binary64 :=
  let scaled := num * unitsPerOne
  let q := (scaled / den).log2 - 52
  let m := roundHalfEven scaled (den * 2 ^ q)
  if m = 2 ^ 53 then pack neg (2 ^ 52) (q + 1) else pack neg m q

/-- `float.is_integer`. -/
def isInteger : Binary64 → Bool
  | finite _ m q _ => m * 2 ^ q % unitsPerOne == 0
  | _ => false

/-- `int(x)` of a finite float: truncation toward zero. -/
def toInt : Binary64 → Int
  | finite neg m q _ =>
      if neg then -(m * 2 ^ q / unitsPerOne : Nat) else (m * 2 ^ q / unitsPerOne : Nat)
  | _ => 0

end Binary64

/-! ## Rounding -/

theorem roundHalfEven_exact (m d : Nat) (hd : 0 < d) : roundHalfEven (m * d) d = m := by
  simp [roundHalfEven, hd]

namespace Binary64

/-- The shift chosen for a canonical magnitude is the canonical shift. -/
theorem log2_canonical {m q : Nat} (h : Canonical m q) : (m * 2 ^ q).log2 - 52 = q := by
  obtain ⟨hlt, hnorm, -⟩ := h
  by_cases hq : q = 0
  · subst hq
    have hle : m.log2 < 53 := by
      by_cases hm : m = 0
      · subst hm
        decide
      · exact (Nat.log2_lt hm).2 hlt
    simp only [pow_zero, mul_one]
    omega
  · have hge : 2 ^ 52 ≤ m := hnorm.resolve_left hq
    have hm : m ≠ 0 := by
      intro h0
      subst h0
      exact absurd hge (by decide)
    have hlog : (m * 2 ^ q).log2 = 52 + q := by
      have hne : m * 2 ^ q ≠ 0 := Nat.mul_ne_zero hm (Nat.two_pow_pos q).ne'
      refine (Nat.log2_eq_iff hne).2 ⟨?_, ?_⟩
      · rw [Nat.pow_add]
        exact Nat.mul_le_mul_right _ hge
      · have hsplit : 2 ^ (52 + q + 1) = 2 ^ 53 * 2 ^ q := by ring
        rw [hsplit]
        exact Nat.mul_lt_mul_of_pos_right hlt (Nat.two_pow_pos q)
    omega

/-- A rational that is a binary64 value is rounded to that value. -/
theorem ofRatio_exact (neg : Bool) {num den m q : Nat} (h : Canonical m q) (hden : 0 < den)
    (hval : num * unitsPerOne = m * 2 ^ q * den) : ofRatio neg num den = finite neg m q h := by
  have hdiv : num * unitsPerOne / den = m * 2 ^ q := by
    rw [hval]
    exact Nat.mul_div_cancel _ hden
  have hround : roundHalfEven (num * unitsPerOne) (den * 2 ^ q) = m := by
    have hshape : num * unitsPerOne = m * (den * 2 ^ q) := by
      rw [hval]
      ring
    rw [hshape]
    exact roundHalfEven_exact m _ (Nat.mul_pos hden (Nat.two_pow_pos q))
  have hne : m ≠ 2 ^ 53 := Nat.ne_of_lt h.1
  simp only [ofRatio, hdiv, log2_canonical h, hround, if_neg hne, pack, dif_pos h]

end Binary64

end AgentCluster.Python
