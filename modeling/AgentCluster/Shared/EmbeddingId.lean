import AgentCluster.Shared.ModelId

/-!
# The ids of embedding models

An id belongs to a family when it is the name of the family, or starts with it and a dash. The parser
strips every dash in front of what follows, and raises on tokens of digits that `int` does not read.
-/

set_option autoImplicit false

namespace AgentCluster.Shared

open Python

/-- The id belongs to one of the families. -/
def Supported (modelId : String) : Prop :=
  ∃ family ∈ embeddingFamilies, modelId = family ∨ ∃ rest, modelId = family ++ "-" ++ rest

/-- A token of digits after the family is not a number that `int` reads. -/
def UnreadableEmbedding (modelId : String) : Prop :=
  ∃ family ∈ embeddingFamilies, ∃ rest, modelId = family ++ "-" ++ rest ∧
    ∃ token ∈ split rest '-', isDigit token = true ∧ ¬IsReadable token

theorem supported_of_unreadable {modelId : String} (h : UnreadableEmbedding modelId) :
    Supported modelId := by
  obtain ⟨family, hfamily, rest, rfl, -⟩ := h
  exact ⟨family, hfamily, Or.inr ⟨rest, rfl⟩⟩

theorem embeddingFamily_spec {modelId family : String} {rank : Nat}
    (h : embeddingFamily modelId = some (family, rank)) :
    family ∈ embeddingFamilies ∧ (modelId = family ∨ ∃ rest, modelId = family ++ "-" ++ rest) := by
  have hmem := List.mem_of_find?_eq_some h
  have hfound := List.find?_some h
  refine ⟨List.fst_mem_of_mem_zipIdx hmem, ?_⟩
  simpa only [Bool.or_eq_true, beq_iff_eq, startsWith_iff] using hfound

theorem embeddingFamily_eq_none_iff {modelId : String} :
    embeddingFamily modelId = none ↔ ¬Supported modelId := by
  constructor
  · rintro hnone ⟨family, hfamily, hspelled⟩
    rw [← List.zipIdx_map_fst 0 embeddingFamilies] at hfamily
    obtain ⟨p, hp, rfl⟩ := List.mem_map.1 hfamily
    have hnot := List.find?_eq_none.1 hnone p hp
    rw [Bool.or_eq_true, beq_iff_eq, startsWith_iff] at hnot
    exact hnot hspelled
  · intro hnot
    cases hfound : embeddingFamily modelId with
    | none => rfl
    | some found =>
      obtain ⟨hfamily, hspelled⟩ := embeddingFamily_spec hfound
      exact absurd ⟨found.1, hfamily, hspelled⟩ hnot

/-- The dash after a family tells which one it is. -/
theorem family_unique {family family' rest rest' : String} (hfamily : family ∈ embeddingFamilies)
    (hfamily' : family' ∈ embeddingFamilies) (h : family ++ "-" ++ rest = family' ++ "-" ++ rest') :
    family = family' ∧ rest = rest' := by
  have hapart : ∀ f ∈ embeddingFamilies, ∀ f' ∈ embeddingFamilies,
      (f ++ "-").toList <+: (f' ++ "-").toList → f = f' := by
    decide +kernel
  have hlists : (family ++ "-").toList ++ rest.toList = (family' ++ "-").toList ++ rest'.toList := by
    rw [← String.toList_append, h, String.toList_append]
  have heq : family = family' := by
    rcases List.prefix_or_prefix_of_prefix (List.prefix_append _ _) ⟨_, hlists.symm⟩ with hpre | hpre
    · exact hapart family hfamily family' hfamily' hpre
    · exact (hapart family' hfamily' family hfamily hpre).symm
  subst heq
  exact ⟨rfl, String.toList_inj.1 (List.append_cancel_left hlists)⟩

/-- A family alone is not another one with a dash and more. -/
theorem family_ne {family family' rest : String} (hfamily : family ∈ embeddingFamilies)
    (hfamily' : family' ∈ embeddingFamilies) : family ≠ family' ++ "-" ++ rest := by
  have hapart : ∀ f ∈ embeddingFamilies, ∀ f' ∈ embeddingFamilies,
      ¬(f' ++ "-").toList <+: f.toList := by
    decide +kernel
  rintro rfl
  exact hapart _ hfamily family' hfamily' ⟨rest.toList, String.toList_append.symm⟩

/-- Dashes in front hide no token of digits. -/
theorem filter_split_lstrip (s : String) :
    (split (lstrip s '-') '-').filter isDigit = (split s '-').filter isDigit := by
  rw [lstrip, split, split, String.toList_ofList]
  induction s.toList with
  | nil => rfl
  | cons c cs ih =>
    rw [List.dropWhile_cons]
    split
    · next hdash =>
      have hempty : isDigit (String.ofList []) = false := rfl
      rw [ih, List.splitOn_cons_eq_if_modifyHead, if_pos hdash, List.map_cons, List.filter_cons,
        hempty, if_neg Bool.false_ne_true]
    · rfl

/-- The numbers are those of the tokens after the family and its dash. -/
theorem classifyEmbeddingModel_of_dash {family : String} (hfamily : family ∈ embeddingFamilies)
    (rest : String) :
    ∃ rank stable, classifyEmbeddingModel (family ++ "-" ++ rest) =
      (suffixNumbers (split rest '-')).map fun numbers =>
        some (toLex (embeddingFamilies.length - rank, toLex (stable, numbers))) := by
  cases hfound : embeddingFamily (family ++ "-" ++ rest) with
  | none =>
    exact absurd ⟨family, hfamily, Or.inr ⟨rest, rfl⟩⟩ (embeddingFamily_eq_none_iff.1 hfound)
  | some found =>
    obtain ⟨family', rank⟩ := found
    obtain ⟨hfamily', hspelled⟩ := embeddingFamily_spec hfound
    -- The two families differ only at a dash, so the family that matched is this one.
    obtain rfl : family = family' := by
      rcases hspelled with heq | ⟨rest', heq⟩
      · exact absurd heq.symm (family_ne hfamily' hfamily)
      · exact (family_unique hfamily hfamily' heq).1
    have hdrop : (family ++ "-" ++ rest).toList.drop family.length = '-' :: rest.toList := by
      rw [String.append_assoc, String.toList_append, ← String.length_toList, List.drop_left,
        String.toList_append]
      rfl
    -- The code strips every leading dash, this one and those of `rest`.
    have hstrip : lstrip (String.ofList ('-' :: rest.toList)) '-' = lstrip rest '-' := by
      rw [lstrip, String.toList_ofList, List.dropWhile_cons, if_pos (beq_self_eq_true '-')]
      rfl
    -- Empty tokens have no digits, so stripping the dashes loses no number.
    have hnumbers : ∀ tokens : List String,
        tokens = (if lstrip rest '-' = "" then [] else split (lstrip rest '-') '-') →
          suffixNumbers tokens = suffixNumbers (split rest '-') := by
      rintro tokens rfl
      rw [suffixNumbers, suffixNumbers, ← filter_split_lstrip rest]
      split
      · next hempty =>
        rw [hempty]
        rfl
      · rfl
    rw [classifyEmbeddingModel, hfound]
    simp only [hdrop, hstrip, hnumbers _ rfl]
    exact ⟨_, _, rfl⟩

/-- The name of a family has no tokens after it. -/
theorem classifyEmbeddingModel_of_family {family : String} (hfamily : family ∈ embeddingFamilies) :
    ∃ rank, classifyEmbeddingModel family =
      .ok (some (toLex (embeddingFamilies.length - rank, toLex (true, [])))) := by
  cases hfound : embeddingFamily family with
  | none => exact absurd ⟨family, hfamily, Or.inl rfl⟩ (embeddingFamily_eq_none_iff.1 hfound)
  | some found =>
    obtain ⟨family', rank⟩ := found
    obtain ⟨hfamily', hspelled⟩ := embeddingFamily_spec hfound
    obtain rfl : family = family' :=
      hspelled.resolve_right fun ⟨rest, heq⟩ => family_ne hfamily hfamily' heq
    have hdrop : family.toList.drop family.length = [] := by
      rw [← String.length_toList, List.drop_length]
    have hstrip : lstrip (String.ofList []) '-' = "" := rfl
    rw [classifyEmbeddingModel, hfound]
    simp only [hdrop, hstrip]
    exact ⟨rank, rfl⟩

/-- The three ways the parser ends. -/
theorem classifyEmbeddingModel_cases (modelId : String) :
    (∃ e, classifyEmbeddingModel modelId = .error e ∧ e.kind = .valueError ∧
        UnreadableEmbedding modelId) ∨
      (classifyEmbeddingModel modelId = .ok none ∧ ¬Supported modelId) ∨
      ∃ key, classifyEmbeddingModel modelId = .ok (some key) ∧ Supported modelId ∧
        ¬UnreadableEmbedding modelId := by
  by_cases hsupported : Supported modelId
  · obtain ⟨family, hfamily, rfl | ⟨rest, rfl⟩⟩ := hsupported
    -- The family alone: there are no tokens to read.
    · obtain ⟨rank, hclassify⟩ := classifyEmbeddingModel_of_family hfamily
      refine Or.inr (Or.inr ⟨_, hclassify, ⟨modelId, hfamily, Or.inl rfl⟩, ?_⟩)
      rintro ⟨family', hfamily', rest, heq, -⟩
      exact family_ne hfamily hfamily' heq
    · obtain ⟨rank, stable, hclassify⟩ := classifyEmbeddingModel_of_dash hfamily rest
      rw [hclassify]
      cases hnumbers : suffixNumbers (split rest '-') with
      | error e =>
        obtain ⟨token, htoken, hread⟩ := exists_error_of_mapM hnumbers
        obtain ⟨htoken, hdigit⟩ := List.mem_filter.1 htoken
        exact Or.inl ⟨e, rfl, kind_of_parseInt hread, family, hfamily, rest, rfl, token, htoken,
          hdigit, not_isReadable_of_parseInt hread⟩
      | ok numbers =>
        refine Or.inr (Or.inr ⟨_, rfl, ⟨family, hfamily, Or.inr ⟨rest, rfl⟩⟩, ?_⟩)
        rintro ⟨family', hfamily', rest', heq, token, htoken, hdigit, hnot⟩
        obtain ⟨-, rfl⟩ := family_unique hfamily hfamily' heq
        exact hnot (suffixNumbers_ok_iff.1 ⟨numbers, hnumbers⟩ token htoken hdigit)
  · refine Or.inr (Or.inl ⟨?_, hsupported⟩)
    rw [classifyEmbeddingModel, embeddingFamily_eq_none_iff.2 hsupported]

end AgentCluster.Shared
