import AgentCluster.Python.Arithmetic

/-!
# Integers past the range of floats

The integers that `float` cannot convert are those from the midpoint between the largest float and
`2 ^ 1024` on (`Binary64.isInf_ofInt_iff`); a midpoint rounds to the even side, which is the overflow.
-/

set_option autoImplicit false

namespace AgentCluster.Python

/-- Rounding reaches an even number from the midpoint before it on. -/
theorem roundHalfEven_eq_top {T n d : Nat} (heven : T % 2 = 0) (hlt : n < T * d) :
    roundHalfEven n d = T ↔ (2 * T - 1) * d ≤ 2 * n := by
  have hd : 0 < d := by
    rcases Nat.eq_zero_or_pos d with rfl | hd
    · omega
    · exact hd
  have hmod := Nat.mod_lt n hd
  have hsplit := Nat.div_add_mod n d
  have hdiv : n / d < T := Nat.div_lt_of_lt_mul (by rw [Nat.mul_comm]; exact hlt)
  unfold roundHalfEven
  simp only
  generalize n / d = q at hsplit hdiv ⊢
  generalize n % d = r at hmod hsplit ⊢
  by_cases htop : T = q + 1
  · subst htop
    have hmid : (2 * (q + 1) - 1) * d = 2 * (d * q) + d := by
      have hodd : 2 * (q + 1) - 1 = 2 * q + 1 := by omega
      rw [hodd]
      ring
    rw [hmid]
    split_ifs <;> omega
  · have hbelow : 2 * (d * q) + 3 * d ≤ (2 * T - 1) * d := by
      calc 2 * (d * q) + 3 * d = (2 * q + 3) * d := by ring
        _ ≤ (2 * T - 1) * d := Nat.mul_le_mul_right d (by omega)
    split_ifs <;> omega

namespace Binary64

theorem isInf_pack {neg : Bool} {m q : Nat} (hm : m < 2 ^ 53) (hnorm : 2 ^ 52 ≤ m) :
    (pack neg m q).isInf = true ↔ 2045 < q := by
  by_cases hq : q ≤ 2045
  · have hcanonical : Canonical m q := ⟨hm, Or.inr hnorm, hq⟩
    rw [pack, dif_pos hcanonical]
    exact ⟨fun h => absurd h Bool.false_ne_true, fun h => absurd hq (Nat.not_le.2 h)⟩
  · have hover : ¬Canonical m q := fun h => hq h.2.2
    rw [pack, dif_neg hover]
    exact ⟨fun _ => Nat.not_le.1 hq, fun _ => rfl⟩

end Binary64

/-- Rounding stays between two integers. -/
theorem roundHalfEven_bounds {a b n d : Nat} (hlo : a * d ≤ n) (hhi : n < b * d) :
    a ≤ roundHalfEven n d ∧ roundHalfEven n d ≤ b := by
  have hdiv : n / d < b := Nat.div_lt_of_lt_mul (by rw [Nat.mul_comm]; exact hhi)
  have hd : 0 < d := by
    rcases Nat.eq_zero_or_pos d with rfl | hd
    · omega
    · exact hd
  have hle : a ≤ n / d := (Nat.le_div_iff_mul_le hd).2 hlo
  unfold roundHalfEven
  simp only
  split_ifs <;> omega

/-- An integer with `l + 1` bits, scaled to 53 of them before the point. -/
theorem scaled_bounds {k l e : Nat} (he : unitExponent = 52 + e) (hlo : 2 ^ l ≤ k)
    (hhi : k < 2 ^ (l + 1)) :
    2 ^ 52 * 2 ^ (l + e) ≤ k * unitsPerOne ∧ k * unitsPerOne < 2 ^ 53 * 2 ^ (l + e) := by
  have hpos : 0 < 2 ^ e := Nat.two_pow_pos e
  rw [unitsPerOne, he, Nat.pow_add, Nat.pow_add]
  rw [Nat.pow_succ] at hhi
  generalize 2 ^ e = b at hpos ⊢
  generalize 2 ^ l = p at hlo hhi ⊢
  constructor
  · calc 2 ^ 52 * (p * b) = p * (2 ^ 52 * b) := by ring
      _ ≤ k * (2 ^ 52 * b) := Nat.mul_le_mul_right _ hlo
  · calc k * (2 ^ 52 * b) < p * 2 * (2 ^ 52 * b) :=
          Nat.mul_lt_mul_of_pos_right hhi (Nat.mul_pos (Nat.two_pow_pos 52) hpos)
      _ = 2 ^ 53 * (p * b) := by ring

/-- The midpoint before the power of two past the range, scaled. -/
theorem midpoint_iff {k a e : Nat} (he : unitExponent = 52 + e) :
    (2 * 2 ^ 53 - 1) * 2 ^ (a + 53 + e) ≤ 2 * (k * unitsPerOne) ↔ (2 ^ 54 - 1) * 2 ^ a ≤ k := by
  have hpos : 0 < 2 ^ 53 * 2 ^ e := Nat.mul_pos (Nat.two_pow_pos 53) (Nat.two_pow_pos e)
  rw [unitsPerOne, he, Nat.pow_add, Nat.pow_add, Nat.pow_add]
  generalize 2 ^ e = b at hpos ⊢
  generalize 2 ^ a = c
  have hleft : (2 * 2 ^ 53 - 1) * (c * 2 ^ 53 * b) = (2 ^ 54 - 1) * c * (2 ^ 53 * b) := by ring
  have hright : 2 * (k * (2 ^ 52 * b)) = k * (2 ^ 53 * b) := by ring
  rw [hleft, hright]
  exact ⟨fun h => Nat.le_of_mul_le_mul_right h hpos, fun h => Nat.mul_le_mul_right _ h⟩

namespace Binary64

/-- Rounding an integer of `l + 1` bits: the significand, and the shift it is scaled by. -/
theorem log2_scaled {k l e : Nat} (he : unitExponent = 52 + e) (hlo : 2 ^ l ≤ k)
    (hhi : k < 2 ^ (l + 1)) : (k * unitsPerOne).log2 - 52 = l + e := by
  have hk : 0 < k := Nat.lt_of_lt_of_le (Nat.two_pow_pos l) hlo
  have hlog : (k * unitsPerOne).log2 = l + unitExponent := by
    refine (Nat.log2_eq_iff (Nat.mul_pos hk unitsPerOne_pos).ne').2 ⟨?_, ?_⟩
    · rw [Nat.pow_add]
      exact Nat.mul_le_mul_right _ hlo
    · rw [Nat.add_right_comm, Nat.pow_add]
      exact Nat.mul_lt_mul_of_pos_right hhi unitsPerOne_pos
  omega

/-- Packing a rounded significand overflows when the shift is past the range, or when the significand
rounds up at the last shift. -/
theorem isInf_round {neg : Bool} {m q : Nat} (hge : 2 ^ 52 ≤ m) (hle : m ≤ 2 ^ 53) :
    (if m = 2 ^ 53 then pack neg (2 ^ 52) (q + 1) else pack neg m q).isInf = true ↔
      2045 < q ∨ m = 2 ^ 53 ∧ q = 2045 := by
  by_cases hm : m = 2 ^ 53
  · rw [if_pos hm, isInf_pack (by decide) (Nat.le_refl _)]
    omega
  · rw [if_neg hm, isInf_pack (by omega) hge]
    omega

/-- An integer overflows from the midpoint between the largest float and `2 ^ 1024` on. -/
theorem isInf_ofInt_iff (n : Int) :
    (ofInt n).isInf = true ↔ (2 ^ 54 - 1) * 2 ^ 970 ≤ n.natAbs := by
  obtain ⟨e, he, hvalue⟩ : ∃ e, unitExponent = 52 + e ∧ e = 1022 := ⟨1022, rfl, rfl⟩
  obtain ⟨a, ha⟩ : ∃ a, a = 970 := ⟨970, rfl⟩
  rw [ofInt, ← ha]
  have hp : 0 < 2 ^ a := Nat.two_pow_pos a
  generalize decide (n < 0) = neg
  generalize n.natAbs = k
  -- Zero has no leading bit and is handled apart.
  by_cases hk : k = 0
  · subst hk
    have hcanonical : Canonical 0 0 := ⟨by decide, Or.inl rfl, by decide⟩
    rw [ofRatio_exact neg hcanonical Nat.one_pos (by rw [Nat.zero_mul, Nat.zero_mul, Nat.zero_mul])]
    refine ⟨fun h => absurd h Bool.false_ne_true, fun h => ?_⟩
    omega
  have hlo := Nat.log2_self_le hk
  have hhi := Nat.lt_log2_self (n := k)
  have hshift := log2_scaled he hlo hhi
  obtain ⟨hmin, hmax⟩ := scaled_bounds he hlo hhi
  obtain ⟨hge, hle⟩ := roundHalfEven_bounds hmin hmax
  have htop := roundHalfEven_eq_top (by decide) hmax
  simp only [ofRatio, Nat.div_one, Nat.one_mul, hshift]
  rw [isInf_round hge hle]
  rcases Nat.lt_trichotomy k.log2 (a + 53) with hlt | heq | hgt
  · -- fewer than 1024 bits
    have hbelow : k < 2 ^ a * 2 ^ 53 := by
      rw [← Nat.pow_add]
      exact Nat.lt_of_lt_of_le hhi (Nat.pow_le_pow_right (by decide) hlt)
    constructor
    · intro h
      omega
    · intro h
      omega
  -- Exactly 1024 bits: it overflows when the rounding reaches the next power of two.
  · rw [heq, midpoint_iff he] at htop
    rw [heq]
    constructor
    · intro h
      exact htop.1 (by omega)
    · intro h
      exact Or.inr ⟨htop.2 h, by omega⟩
  -- more than 1024 bits
  · have habove : 2 ^ a * 2 ^ 54 ≤ k := by
      rw [← Nat.pow_add]
      exact Nat.le_trans (Nat.pow_le_pow_right (by decide) hgt) hlo
    constructor
    · intro h
      omega
    · intro h
      exact Or.inl (by omega)

end Binary64

/-- Converting an integer to a float fails on the integers past the range. -/
theorem floatOfInt_eq_error {n : Int} {e : Exception} (h : floatOfInt n = .error e) :
    (2 ^ 54 - 1) * 2 ^ 970 ≤ n.natAbs ∧ e.kind = .overflowError := by
  refine ⟨?_, kind_of_floatOfInt h⟩
  rw [floatOfInt] at h
  by_cases hinf : (Binary64.ofInt n).isInf = true
  · exact (Binary64.isInf_ofInt_iff n).1 hinf
  · simp only [if_neg hinf] at h
    cases h

/-- Small integers are converted. -/
theorem not_large_of_lt {n : Int} (h : n.natAbs < 2 ^ 53) : ¬(2 ^ 54 - 1) * 2 ^ 970 ≤ n.natAbs := by
  obtain ⟨a, ha⟩ : ∃ a, a = 970 := ⟨970, rfl⟩
  rw [← ha]
  have hp : 0 < 2 ^ a := Nat.two_pow_pos a
  omega

theorem floatOfInt_of_large {n : Int} (h : (2 ^ 54 - 1) * 2 ^ 970 ≤ n.natAbs) :
    ∃ e, floatOfInt n = .error e ∧ e.kind = .overflowError := by
  rw [floatOfInt]
  simp only [if_pos ((Binary64.isInf_ofInt_iff n).2 h)]
  exact ⟨_, rfl, rfl⟩

end AgentCluster.Python
