import AgentCluster.Agents.MathTools
import AgentCluster.Python.IntegerFloat

/-!
# Canonical spellings of integers

`canonicalValue` reads a number as a float and writes the float. An integer literal keeps its integer
exactly when a float can hold it, and another integer gets the same spelling exactly when it rounds to
it (`canonicalValue_iff`).
-/

set_option autoImplicit false

namespace AgentCluster.Agents

open Python

/-- The spelling of a number. -/
def spelling (number : Binary64) : List Char :=
  if number.isInteger then (DecimalLiteral.ofInt number.toInt).render else number.repr

/-- What is no integer is spelled with a point, an exponent or letters. -/
theorem not_all_integerChar_repr {x : Binary64} : ¬∀ c ∈ x.repr, isIntegerChar c = true := by
  intro h
  have hletter : ∀ c ∈ x.repr, isIntegerChar c = false → False := by
    intro c hc hfalse
    rw [h c hc] at hfalse
    cases hfalse
  cases x with
  | nan => exact hletter 'n' (by simp [Binary64.repr]) (by decide)
  | inf neg => exact hletter 'n' (by simp [Binary64.repr]) (by decide)
  | finite neg m q hcanonical =>
    have hfloat := (wellFormed_shortestLiteral (.finite neg m q hcanonical)).2
    have hrepr : (Binary64.finite neg m q hcanonical).repr =
        (shortestLiteral (.finite neg m q hcanonical)).render := rfl
    rw [hrepr] at hletter
    generalize shortestLiteral (.finite neg m q hcanonical) = d at hfloat hletter
    rw [DecimalLiteral.isFloat, Bool.or_eq_true, Bool.not_eq_true', List.isEmpty_eq_false_iff] at hfloat
    rcases hfloat with hfrac | hexp
    · apply hletter '.' _ (by decide)
      simp [DecimalLiteral.render, hfrac]
    · obtain ⟨e, he⟩ := Option.isSome_iff_exists.1 hexp
      apply hletter 'e' _ (by decide)
      simp [DecimalLiteral.render, he]

/-- An integer has one spelling. -/
theorem spelling_of_magnitude {x : Binary64} {n : Int} (h : x.magnitude = Magnitude.ofInt n) :
    spelling x = (DecimalLiteral.ofInt n).render := by
  obtain ⟨hinteger, hint⟩ := Binary64.isInteger_of_magnitude h
  rw [spelling, if_pos hinteger, hint]

/-- A number is spelled as an integer literal exactly when it is that integer. -/
theorem integerOf_spelling {x : Binary64} {n : Int} :
    integerOf (String.ofList (spelling x)) = some n ↔ x.magnitude = Magnitude.ofInt n := by
  constructor
  · intro h
    by_cases hinteger : x.isInteger = true
    · rw [spelling, if_pos hinteger, integerOf_ofInt] at h
      rw [← Option.some.inj h]
      exact Binary64.magnitude_of_isInteger hinteger
    · rw [spelling, if_neg hinteger] at h
      obtain ⟨neg, ds, hsign, -, hds, -⟩ := integerOf_eq_some h
      rw [String.toList_ofList] at hsign
      exact absurd (isIntegerChar_of_mem hsign hds) not_all_integerChar_repr
  · intro h
    rw [spelling_of_magnitude h]
    exact integerOf_ofInt n

/-- The canonical value of an integer literal is the spelling of the float nearest to it. -/
theorem canonicalValue_of_integerOf {a : String} {n : Int} (h : integerOf a = some n) :
    ∃ x, canonicalValue a = String.ofList (spelling x) ∧
      x.magnitude = (Binary64.ofInt n).magnitude := by
  obtain ⟨x, hx, hmagnitude⟩ := pyFloat_of_integerOf h
  refine ⟨x, ?_, hmagnitude⟩
  simp only [canonicalValue, hx, spelling]
  split <;> rfl

theorem integerOf_canonicalValue {a : String} {n : Int} (h : integerOf a = some n) (k : Int) :
    integerOf (canonicalValue a) = some k ↔ RoundsTo n k := by
  obtain ⟨x, hx, hmagnitude⟩ := canonicalValue_of_integerOf h
  rw [hx, integerOf_spelling, hmagnitude]
  rfl

/-- Integer literals that become the same integer get the same spelling. -/
theorem canonicalValue_eq_of_roundsTo {a b : String} {m n k : Int} (ha : integerOf a = some m)
    (hb : integerOf b = some n) (hm : RoundsTo m k) (hn : RoundsTo n k) :
    canonicalValue a = canonicalValue b := by
  obtain ⟨x, hx, hxm⟩ := canonicalValue_of_integerOf ha
  obtain ⟨y, hy, hyn⟩ := canonicalValue_of_integerOf hb
  rw [hx, hy, spelling_of_magnitude (hxm.trans hm), spelling_of_magnitude (hyn.trans hn)]

section Publish

variable [UnicodeData]

/-- Whatever the other arguments are, what is proposed or published as `value` denotes `n`. -/
def PublishesInteger (value : String) (n : Int) : Prop :=
  ∀ publications label approvedBy note, ∃ v, integerOf v = some n ∧
    (publishResult publications value label approvedBy note =
        (proposalResult v label, publications) ∨
      publishResult publications value label approvedBy note =
        (publishedResult ⟨v, label, approvedBy⟩ note, publications ++ [⟨v, label, approvedBy⟩]))

theorem publishesInteger_of_canonicalValue {value : String} {n : Int}
    (h : integerOf (canonicalValue value) = some n) : PublishesInteger value n := by
  intro publications label approvedBy note
  refine ⟨canonicalValue value, h, ?_⟩
  cases happroved : isApprover approvedBy with
  | false => exact Or.inl (publishResult_of_not_isApprover happroved)
  | true => exact Or.inr (publishResult_of_isApprover happroved)

/-- The canonical value tells the first literal from the second and keeps its integer, in proposals
and publications too, exactly when a float can hold the first integer and the second is not rounded
to it. -/
theorem canonicalValue_iff {a b : String} {m n : Int} (ha : integerOf a = some m)
    (hb : integerOf b = some n) :
    (canonicalValue a ≠ canonicalValue b ∧ integerOf (canonicalValue a) = some m ∧
        PublishesInteger a m) ↔
      IsDouble m ∧ ¬RoundsTo n m := by
  rw [← roundsTo_self_iff]
  constructor
  · rintro ⟨hdiffers, hkept, -⟩
    have hm := (integerOf_canonicalValue ha m).1 hkept
    exact ⟨hm, fun hn => hdiffers (canonicalValue_eq_of_roundsTo ha hb hm hn)⟩
  · rintro ⟨hm, hn⟩
    have hkept := (integerOf_canonicalValue ha m).2 hm
    refine ⟨?_, hkept, publishesInteger_of_canonicalValue hkept⟩
    intro heq
    rw [heq] at hkept
    exact hn ((integerOf_canonicalValue hb m).1 hkept)

end Publish

/-- Integers of nine digits are floats, and so are the ones next to them. -/
theorem canonicalValue_neighbours :
    canonicalValue "+123456789" ≠ canonicalValue "123456790" ∧
      integerOf (canonicalValue "+123456789") = some 123456789 ∧
      @PublishesInteger asciiData "+123456789" 123456789 :=
  (@canonicalValue_iff asciiData "+123456789" "123456790" 123456789 123456790 (by decide +kernel)
    (by decide +kernel)).2
    ⟨⟨123456789, 0, by decide, by decide, by decide⟩, by decide +kernel⟩

/-- `2 ^ 53 + 1` is spelled as `2 ^ 53`. -/
theorem canonicalValue_hides :
    integerOf "9007199254740993" = some 9007199254740993 ∧
      integerOf "9007199254740992" = some 9007199254740992 ∧
      canonicalValue "9007199254740993" = canonicalValue "9007199254740992" ∧
      integerOf (canonicalValue "9007199254740993") = some 9007199254740992 := by
  decide +kernel

end AgentCluster.Agents
