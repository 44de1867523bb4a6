import AgentCluster.Python.Arithmetic
import AgentCluster.Python.JsonRoundTrip

/-!
# Reading the text of a number back

`float(str(x))` is `x` for every float, infinities and NaN included (`pyFloat_repr`), and `float`
refuses the text of every complex number (`pyFloat_complex`).
-/

set_option autoImplicit false

namespace AgentCluster.Python

open Json

/-! ## Floats -/

theorem isPlain_of_mem_renderFrac {ds : List Char} (hd : ∀ c ∈ ds, c.isDigit = true) :
    ∀ c ∈ renderFrac ds, IsPlain c := by
  intro c hc
  rw [renderFrac] at hc
  split at hc
  · cases hc
  · rcases List.mem_cons.1 hc with rfl | hc
    · exact ⟨rfl, rfl, by decide⟩
    · exact isPlain_of_isDigit (hd c hc)

theorem isPlain_of_mem_renderExp {e : Option (Bool × List Char)}
    (he : ∀ neg ds, e = some (neg, ds) → ds ≠ [] ∧ ∀ c ∈ ds, c.isDigit = true) :
    ∀ c ∈ renderExp e, IsPlain c := by
  intro c hc
  cases e with
  | none => cases hc
  | some p =>
    obtain ⟨neg, ds⟩ := p
    rcases List.mem_cons.1 hc with rfl | hc
    · exact ⟨rfl, rfl, by decide⟩
    · rcases List.mem_cons.1 hc with rfl | hc
      · cases neg <;> exact ⟨rfl, rfl, by decide⟩
      · exact isPlain_of_isDigit ((he neg ds rfl).2 c hc)

theorem isPlain_of_mem_render {d : DecimalLiteral} (h : d.WellFormed) :
    ∀ c ∈ d.render, IsPlain c := by
  intro c hc
  rw [render_eq, List.mem_append, List.mem_append, List.mem_append] at hc
  rcases hc with hsign | hwhole | hfrac | hexp
  · cases hneg : d.neg with
    | true =>
      rw [hneg, if_pos rfl, List.mem_singleton] at hsign
      rw [hsign]
      exact ⟨rfl, rfl, by decide⟩
    | false =>
      rw [hneg, if_neg Bool.false_ne_true] at hsign
      cases hsign
  · exact isPlain_of_isDigit (h.whole_digits c hwhole)
  · exact isPlain_of_mem_renderFrac h.frac_digits c hfrac
  · exact isPlain_of_mem_renderExp h.exp_digits c hexp

/-- The sign of a rendered literal, and the digits after it. -/
theorem takeSign_render {d : DecimalLiteral} (h : d.WellFormed) :
    takeSign d.render = (d.neg, d.whole ++ (renderFrac d.frac ++ renderExp d.exp)) := by
  obtain ⟨c, ds, hwhole, hc⟩ := whole_cons h
  rw [render_eq, hwhole]
  cases d.neg with
  | true => rfl
  | false =>
    have hminus : c ≠ '-' := ne_of_isDigit hc rfl
    have hplus : c ≠ '+' := ne_of_isDigit hc rfl
    simp [takeSign, hminus, hplus]

theorem parseExponent_render {e : Option (Bool × List Char)}
    (he : ∀ neg ds, e = some (neg, ds) → ds ≠ [] ∧ ∀ c ∈ ds, c.isDigit = true) :
    parseExponent (renderExp e) = some e := by
  cases e with
  | none => rfl
  | some p =>
    obtain ⟨neg, ds⟩ := p
    obtain ⟨hne, hds⟩ := he neg ds rfl
    have hsign : takeSign ((if neg then '-' else '+') :: ds) = (neg, ds) := by
      cases neg <;> rfl
    have hvalid : ('e'.toLower == 'e' && !ds.isEmpty && ds.all Char.isDigit) = true := by
      rw [List.isEmpty_eq_false_iff.2 hne, List.all_eq_true.2 hds]
      rfl
    rw [renderExp, parseExponent, hsign]
    exact if_pos hvalid

/-- The unsigned part of a rendered literal reads back. -/
theorem parseDecimal_render {d : DecimalLiteral} (h : d.WellFormed) :
    parseDecimal d.neg (d.whole ++ (renderFrac d.frac ++ renderExp d.exp)) = some d := by
  obtain ⟨htake, hdrop⟩ := span_digits h.whole_digits (s := renderFrac d.frac ++ renderExp d.exp)
    (by simpa using @fracHead d.frac d.exp [] numberEnd_nil)
  obtain ⟨c, ds, hwhole, -⟩ := whole_cons h
  have hempty : d.whole.isEmpty = false := by
    rw [hwhole]
    rfl
  have hexp := parseExponent_render h.exp_digits
  simp only [parseDecimal, htake, hdrop, hempty, Bool.false_and, Bool.false_eq_true, if_false]
  cases hfrac : d.frac with
  | nil =>
    -- what follows the digits is the exponent, which does not start with a point
    have hrest : renderFrac [] ++ renderExp d.exp = renderExp d.exp := List.nil_append _
    rw [hrest]
    split
    · next r hr =>
      have hhead := expHead (e := d.exp) numberEnd_nil '.' r
      rw [List.append_nil] at hhead
      exact absurd rfl (hhead hr).2
    · rw [hexp, Option.map_some, ← hfrac]
  | cons f fs =>
    have hdigits : ∀ x ∈ f :: fs, x.isDigit = true := by
      rw [← hfrac]
      exact h.frac_digits
    obtain ⟨htake', hdrop'⟩ := span_digits hdigits (s := renderExp d.exp)
      fun x t hx => (expHead (e := d.exp) numberEnd_nil x t (by rw [List.append_nil, hx])).1
    have hrest : renderFrac (f :: fs) ++ renderExp d.exp = '.' :: (f :: fs ++ renderExp d.exp) := rfl
    rw [hrest]
    simp only [htake', hdrop', hexp, Option.map_some]
    rw [← hfrac]

/-- `float` of a rendered literal is its value. -/
theorem pyFloat_render {d : DecimalLiteral} (h : d.WellFormed) :
    pyFloat (String.ofList d.render) = some d.toBinary64 := by
  obtain ⟨c, ds, hwhole, hc⟩ := whole_cons h
  have hplain : ∀ c ∈ (String.ofList d.render).toList, IsPlain c := by
    rw [String.toList_ofList]
    exact isPlain_of_mem_render h
  have hread := parseDecimal_render h
  have hsign := takeSign_render h
  rw [← String.toList_ofList (l := d.render)] at hsign
  rw [pyFloat_of_plain hplain hsign]
  rw [hwhole, List.cons_append] at hread ⊢
  rw [readUnsigned_of_digit _ hc, hread, Option.map_some]

/-- `float(str(x))` is `x`. -/
theorem pyFloat_repr (x : Binary64) : pyFloat (String.ofList x.repr) = some x := by
  cases x with
  | nan => decide
  | inf neg => cases neg <;> decide
  | finite neg m q h =>
    have hvalue := toBinary64_shortestLiteral (x := .finite neg m q h) rfl
    have hread := pyFloat_render (wellFormed_shortestLiteral (.finite neg m q h)).1
    rw [hvalue] at hread
    exact hread

/-! ## Complex numbers -/

/-- A character of the numbers that are no words. -/
def isDecimalChar (c : Char) : Bool :=
  c.isDigit || c == '.' || c.toLower == 'e' || c == '-' || c == '+'

theorem all_of_takeSign {p : Char → Bool} (hminus : p '-' = true) (hplus : p '+' = true)
    {s body : List Char} {neg : Bool} (h : takeSign s = (neg, body))
    (hbody : ∀ c ∈ body, p c = true) : ∀ c ∈ s, p c = true := by
  rcases takeSign_cases h with ⟨rfl, -⟩ | ⟨rfl, -⟩ | ⟨rfl, -⟩
  · exact List.forall_mem_cons.2 ⟨hminus, hbody⟩
  · exact List.forall_mem_cons.2 ⟨hplus, hbody⟩
  · exact hbody

theorem isDecimalChar_of_isDigit {c : Char} (h : c.isDigit = true) : isDecimalChar c = true := by
  rw [isDecimalChar, h]
  rfl

theorem isDecimalChar_of_parseExponent {s : List Char} {e : Option (Bool × List Char)}
    (h : parseExponent s = some e) : ∀ c ∈ s, isDecimalChar c = true := by
  cases s with
  | nil => exact fun c hc => absurd hc List.not_mem_nil
  | cons c s =>
    cases hsign : takeSign s with
    | mk neg ds =>
      simp only [parseExponent, hsign] at h
      split at h
      · next hvalid =>
        rw [Bool.and_eq_true, Bool.and_eq_true, List.all_eq_true] at hvalid
        have hds : ∀ d ∈ ds, isDecimalChar d = true :=
          fun d hd => isDecimalChar_of_isDigit (hvalid.2 d hd)
        refine List.forall_mem_cons.2 ⟨?_, all_of_takeSign rfl rfl hsign hds⟩
        rw [isDecimalChar, hvalid.1.1]
        simp
      · cases h

theorem isDecimalChar_of_mem_takeWhile {s : List Char} :
    ∀ c ∈ s.takeWhile Char.isDigit, isDecimalChar c = true :=
  fun _ hc => isDecimalChar_of_isDigit (List.mem_takeWhile_imp hc)

theorem isDecimalChar_of_split {s : List Char}
    (h : ∀ c ∈ s.dropWhile Char.isDigit, isDecimalChar c = true) :
    ∀ c ∈ s, isDecimalChar c = true := by
  intro c hc
  rw [← List.takeWhile_append_dropWhile (p := Char.isDigit) (l := s), List.mem_append] at hc
  exact hc.elim (isDecimalChar_of_mem_takeWhile c) (h c)

theorem isDecimalChar_of_parseDecimal {neg : Bool} {s : List Char} {d : DecimalLiteral}
    (h : parseDecimal neg s = some d) : ∀ c ∈ s, isDecimalChar c = true := by
  refine isDecimalChar_of_split ?_
  simp only [parseDecimal] at h
  split at h
  · next r hr =>
    split at h
    · cases h
    · obtain ⟨e, he, -⟩ := Option.map_eq_some_iff.1 h
      rw [hr]
      exact List.forall_mem_cons.2 ⟨rfl, isDecimalChar_of_split (isDecimalChar_of_parseExponent he)⟩
  · split at h
    · cases h
    · obtain ⟨e, he, -⟩ := Option.map_eq_some_iff.1 h
      exact isDecimalChar_of_parseExponent he

theorem removeUnderscores_subset {prev : Char} {s t : List Char}
    (h : removeUnderscores prev s = some t) : ∀ c ∈ s, c ≠ '_' → c ∈ t := by
  induction s generalizing prev t with
  | nil => exact fun c hc => absurd hc List.not_mem_nil
  | cons d s ih =>
    rw [removeUnderscores] at h
    intro c hc hne
    split at h
    · next hd =>
      split at h
      · rcases List.mem_cons.1 hc with rfl | hc
        · exact absurd (eq_of_beq hd) hne
        · exact ih h c hc hne
      · cases h
    · split at h
      · cases h
      · obtain ⟨u, hu, rfl⟩ := Option.map_eq_some_iff.1 h
        rcases List.mem_cons.1 hc with rfl | hc
        · exact List.mem_cons_self
        · exact List.mem_cons_of_mem _ (ih hu c hc hne)

theorem mem_dropWhile_of_not {p : Char → Bool} {s : List Char} {c : Char} (h : c ∈ s)
    (hc : p c = false) : c ∈ s.dropWhile p := by
  rw [← List.takeWhile_append_dropWhile (p := p) (l := s), List.mem_append] at h
  rcases h with h | h
  · rw [List.mem_takeWhile_imp h] at hc
    cases hc
  · exact h

theorem mem_stripWith_of_not {p : Char → Bool} {s : List Char} {c : Char} (h : c ∈ s)
    (hc : p c = false) : c ∈ stripWith p s := by
  rw [stripWith, List.rdropWhile, List.mem_reverse]
  exact mem_dropWhile_of_not (List.mem_reverse.2 (mem_dropWhile_of_not h hc)) hc

/-- No number is written with a `j`. -/
theorem pyFloat_eq_none_of_mem {s : String} (h : 'j' ∈ s.toList) : pyFloat s = none := by
  have hmem : 'j' ∈ stripWith isAsciiSpace (s.toList.map toAsciiDecimal) :=
    mem_stripWith_of_not (List.mem_map.2 ⟨'j', h, rfl⟩) rfl
  rw [pyFloat]
  cases htext : removeUnderscores ' ' (stripWith isAsciiSpace (s.toList.map toAsciiDecimal)) with
  -- `j` is no white space, underscore or sign, so it is still there when the body is matched.
  | none => rfl
  | some text =>
    have htextmem := removeUnderscores_subset htext 'j' hmem (by decide)
    cases hsign : takeSign text with
    | mk neg body =>
      have hbody : 'j' ∈ body := by
        rcases takeSign_cases hsign with ⟨rfl, -⟩ | ⟨rfl, -⟩ | ⟨rfl, -⟩
        · exact (List.mem_cons.1 htextmem).resolve_left (by decide)
        · exact (List.mem_cons.1 htextmem).resolve_left (by decide)
        · exact htextmem
      -- The body is neither `inf`, `infinity` nor `nan`, and no decimal literal.
      have hword : ∀ word : List Char, 'j' ∉ word → body.map Char.toLower ≠ word := by
        rintro word hword rfl
        exact hword (List.mem_map.2 ⟨'j', hbody, rfl⟩)
      have hparse : parseDecimal neg body = none := by
        cases hd : parseDecimal neg body with
        | none => rfl
        | some d => exact absurd (isDecimalChar_of_parseDecimal hd 'j' hbody) (by decide)
      rw [Option.bind_some]
      simp only [hsign]
      rw [if_neg (not_or.2 ⟨hword _ (by decide), hword _ (by decide)⟩), if_neg (hword _ (by decide)),
        hparse, Option.map_none]

/-- `float` refuses the text of a complex number. -/
theorem pyFloat_complex (z : Complex) : pyFloat (String.ofList z.repr) = none := by
  refine pyFloat_eq_none_of_mem ?_
  rw [String.toList_ofList, Complex.repr]
  split
  · exact List.mem_append_right _ (List.mem_singleton_self _)
  · exact List.mem_append_right _ List.mem_cons_self

end AgentCluster.Python
