import AgentCluster.Shared.EmbeddingId

/-!
# What the selectors choose

`selectLatestModel` returns an id that no other id of the family beats, and `selectEmbeddingModel` one
that no other supported id beats, unless an id with a number that cannot be read is in the catalog:
then both raise, whatever else the catalog holds (`selection_optimal_iff`).

Of several unbeaten ids the first one is returned, so that the order of the catalog matters as soon as
two ids tie (`selection_perm_iff`).
-/

set_option autoImplicit false

namespace AgentCluster.Shared

open Python

/-! ## The documented order -/

/-- A higher version, then a stable model over a preview, the alias over a numbered model, and the
higher numbers. -/
def ModelInfo.Beats (m other : ModelInfo) : Prop :=
  other.version < m.version ∨ other.version = m.version ∧
    (other.isPreview = true ∧ m.isPreview = false ∨ other.isPreview = m.isPreview ∧
      (other.isPlain = false ∧ m.isPlain = true ∨ other.isPlain = m.isPlain ∧
        other.suffixNumbers < m.suffixNumbers))

/-- The keys compare the same way. -/
theorem ModelInfo.beats_iff (m other : ModelInfo) : m.Beats other ↔ other.key < m.key := by
  rw [ModelInfo.key, ModelInfo.key, Prod.Lex.toLex_lt_toLex, Prod.Lex.toLex_lt_toLex,
    Prod.Lex.toLex_lt_toLex, ModelInfo.Beats]
  cases m.isPreview <;> cases other.isPreview <;> cases m.isPlain <;> cases other.isPlain <;> simp

def embeddingPriority (key : EmbeddingKey) : Nat := (ofLex key).1

def embeddingStable (key : EmbeddingKey) : Bool := (ofLex (ofLex key).2).1

def embeddingNumbers (key : EmbeddingKey) : List Nat := (ofLex (ofLex key).2).2

/-- A family of higher priority, then a stable release over a variant, and the higher numbers. -/
def EmbeddingBeats (key other : EmbeddingKey) : Prop :=
  embeddingPriority other < embeddingPriority key ∨
    embeddingPriority other = embeddingPriority key ∧
      (embeddingStable other = false ∧ embeddingStable key = true ∨
        embeddingStable other = embeddingStable key ∧ embeddingNumbers other < embeddingNumbers key)

theorem embeddingBeats_iff (key other : EmbeddingKey) : EmbeddingBeats key other ↔ other < key := by
  rw [Prod.Lex.lt_iff, Prod.Lex.lt_iff, EmbeddingBeats, embeddingStable, embeddingStable,
    Bool.lt_iff]
  rfl

/-! ## Text models -/

/-- An id of the family that no other one beats is returned, and a `ValueError` says that there is
none. -/
structure SelectsLatest (modelIds : List String) (family : String) : Prop where
  best : ∀ modelId, selectLatestModel modelIds family = .ok modelId →
    modelId ∈ modelIds ∧ OfFamily family modelId ∧
      ∃ m, classifyModel modelId = .ok (some m) ∧ ∀ other ∈ modelIds, OfFamily family other →
        ∃ m', classifyModel other = .ok (some m') ∧ ¬m'.Beats m
  raises : (∃ e, selectLatestModel modelIds family = .error e) ↔
    ∀ modelId ∈ modelIds, ¬OfFamily family modelId
  kind : ∀ e, selectLatestModel modelIds family = .error e → e.kind = .valueError

/-- A larger catalog still has a selection, and none that the one before beats. -/
def KeepsLatest (modelIds more : List String) (family : String) : Prop :=
  ∀ modelId, selectLatestModel modelIds family = .ok modelId →
    ∃ later m m', selectLatestModel more family = .ok later ∧ classifyModel modelId = .ok (some m) ∧
      classifyModel later = .ok (some m') ∧ ¬m.Beats m'

/-- The id is one of the family, and no id of the family beats it. -/
def IsLatest (modelIds : List String) (family modelId : String) : Prop :=
  ∃ m, classifyModel modelId = .ok (some m) ∧ m.family = family ∧
    ∀ other ∈ modelIds, ∀ m', classifyModel other = .ok (some m') → m'.family = family →
      ¬m'.Beats m

theorem family_of_ofFamily {family modelId : String} {m : ModelInfo} (h : OfFamily family modelId)
    (hm : classifyModel modelId = .ok (some m)) : m.family = family := by
  obtain ⟨version, extra, hreads, -⟩ := h
  obtain ⟨version', extra', hreads', -⟩ := classifyModel_eq_ok_iff.1 hm
  exact (hreads'.unique hreads).2.1

theorem kind_of_selectLatestModel {modelIds : List String} {family : String} {e : Exception}
    (h : selectLatestModel modelIds family = .error e) : e.kind = .valueError := by
  rcases Library.error_of_select h with rfl | ⟨modelId, -, hkey⟩
  · rfl
  · exact kind_of_classifyModel (modelKey_eq_error_iff.1 hkey)

/-- What is selected has a key. -/
theorem classifyModel_of_select {modelIds : List String} {family modelId : String}
    (h : selectLatestModel modelIds family = .ok modelId) :
    ∃ m, classifyModel modelId = .ok (some m) ∧ m.family = family := by
  obtain ⟨-, key, hbest⟩ := Library.select_eq_ok_iff.1 h
  obtain ⟨m, hm, hfamily, -⟩ := modelKey_eq_ok_iff.1 hbest.keyed
  exact ⟨m, hm, hfamily⟩

theorem selectsLatest_iff {modelIds : List String} {family : String} :
    SelectsLatest modelIds family ↔
      Library.Optimal (modelKey family) (noModel family) (OfFamily family) modelIds := by
  constructor
  · intro h
    refine ⟨?_, h.raises⟩
    intro modelId hselect
    obtain ⟨hmem, hfamily, m, hm, hunbeaten⟩ := h.best modelId hselect
    refine ⟨hmem, hfamily, m.key,
      modelKey_eq_ok_iff.2 ⟨m, hm, family_of_ofFamily hfamily hm, rfl⟩, ?_⟩
    intro other hother hfamily'
    obtain ⟨m', hm', hnot⟩ := hunbeaten other hother hfamily'
    rw [ModelInfo.beats_iff, not_lt] at hnot
    exact ⟨m'.key, modelKey_eq_ok_iff.2 ⟨m', hm', family_of_ofFamily hfamily' hm', rfl⟩, hnot⟩
  · intro h
    refine ⟨?_, h.fails, fun e => kind_of_selectLatestModel⟩
    intro modelId hselect
    obtain ⟨hmem, hfamily, key, hkey, hle⟩ := h.best modelId hselect
    obtain ⟨m, hm, -, rfl⟩ := modelKey_eq_ok_iff.1 hkey
    refine ⟨hmem, hfamily, m, hm, ?_⟩
    intro other hother hfamily'
    obtain ⟨key', hkey', hle'⟩ := hle other hother hfamily'
    obtain ⟨m', hm', -, rfl⟩ := modelKey_eq_ok_iff.1 hkey'
    refine ⟨m', hm', ?_⟩
    rwa [ModelInfo.beats_iff, not_lt]

theorem keepsLatest_iff {modelIds more : List String} {family : String} :
    KeepsLatest modelIds more family ↔
      Library.Grows (modelKey family) (noModel family) modelIds more := by
  apply forall₂_congr
  intro modelId hselect
  constructor
  · rintro ⟨later, m, m', hlater, hm, hm', hunbeaten⟩
    obtain ⟨n, hn, hfamily⟩ := classifyModel_of_select hselect
    obtain ⟨n', hn', hfamily'⟩ := classifyModel_of_select hlater
    rw [hm] at hn
    cases hn
    rw [hm'] at hn'
    cases hn'
    refine ⟨later, m.key, m'.key, hlater, modelKey_eq_ok_iff.2 ⟨m, hm, hfamily, rfl⟩,
      modelKey_eq_ok_iff.2 ⟨m', hm', hfamily', rfl⟩, ?_⟩
    rwa [ModelInfo.beats_iff, not_lt] at hunbeaten
  · rintro ⟨later, k, j, hlater, hk, hj, hle⟩
    obtain ⟨m, hm, -, rfl⟩ := modelKey_eq_ok_iff.1 hk
    obtain ⟨m', hm', -, rfl⟩ := modelKey_eq_ok_iff.1 hj
    refine ⟨later, m, m', hlater, hm, hm', ?_⟩
    rwa [ModelInfo.beats_iff, not_lt]

theorem isLargest_modelKey_iff {modelIds : List String} {family modelId : String} :
    Library.IsLargest (modelKey family) modelIds modelId ↔ IsLatest modelIds family modelId := by
  constructor
  · rintro ⟨key, hkey, hle⟩
    obtain ⟨m, hm, hfamily, rfl⟩ := modelKey_eq_ok_iff.1 hkey
    refine ⟨m, hm, hfamily, ?_⟩
    intro other hother m' hm' hfamily'
    rw [ModelInfo.beats_iff, not_lt]
    exact hle other hother m'.key (modelKey_eq_ok_iff.2 ⟨m', hm', hfamily', rfl⟩)
  · rintro ⟨m, hm, hfamily, hunbeaten⟩
    refine ⟨m.key, modelKey_eq_ok_iff.2 ⟨m, hm, hfamily, rfl⟩, ?_⟩
    intro other hother key hkey
    obtain ⟨m', hm', hfamily', rfl⟩ := modelKey_eq_ok_iff.1 hkey
    rw [← not_lt, ← ModelInfo.beats_iff]
    exact hunbeaten other hother m' hm' hfamily'

/-! ## Embedding models -/

/-- A supported id that no other one beats is returned, and a `ValueError` says that there is none. -/
structure SelectsEmbedding (modelIds : List String) : Prop where
  best : ∀ modelId, selectEmbeddingModel modelIds = .ok modelId →
    modelId ∈ modelIds ∧ Supported modelId ∧
      ∃ key, classifyEmbeddingModel modelId = .ok (some key) ∧ ∀ other ∈ modelIds, Supported other →
        ∃ key', classifyEmbeddingModel other = .ok (some key') ∧ ¬EmbeddingBeats key' key
  raises : (∃ e, selectEmbeddingModel modelIds = .error e) ↔
    ∀ modelId ∈ modelIds, ¬Supported modelId
  kind : ∀ e, selectEmbeddingModel modelIds = .error e → e.kind = .valueError

/-- A larger catalog still has a selection, and none that the one before beats. -/
def KeepsEmbedding (modelIds more : List String) : Prop :=
  ∀ modelId, selectEmbeddingModel modelIds = .ok modelId →
    ∃ later key key', selectEmbeddingModel more = .ok later ∧
      classifyEmbeddingModel modelId = .ok (some key) ∧
        classifyEmbeddingModel later = .ok (some key') ∧ ¬EmbeddingBeats key key'

/-- The id is supported, and no id of the list beats it. -/
def IsBestEmbedding (modelIds : List String) (modelId : String) : Prop :=
  ∃ key, classifyEmbeddingModel modelId = .ok (some key) ∧
    ∀ other ∈ modelIds, ∀ key', classifyEmbeddingModel other = .ok (some key') →
      ¬EmbeddingBeats key' key

theorem isLargest_embedding_iff {modelIds : List String} {modelId : String} :
    Library.IsLargest classifyEmbeddingModel modelIds modelId ↔ IsBestEmbedding modelIds modelId := by
  simp only [Library.IsLargest, IsBestEmbedding, embeddingBeats_iff, not_lt]

/-- The parser raises on the unreadable ids, and knows the others that are supported. -/
theorem describes_embedding :
    Library.Describes classifyEmbeddingModel UnreadableEmbedding Supported := by
  constructor
  · intro modelId
    rcases classifyEmbeddingModel_cases modelId with ⟨e, he, -, hbad⟩ | ⟨hnone, hnot⟩ |
      ⟨key, hkey, -, hreadable⟩
    · exact iff_of_true ⟨e, he⟩ hbad
    · refine iff_of_false (fun ⟨e, he⟩ => ?_) fun hbad => hnot (supported_of_unreadable hbad)
      rw [hnone] at he
      cases he
    · refine iff_of_false (fun ⟨e, he⟩ => ?_) hreadable
      rw [hkey] at he
      cases he
  · intro modelId hreadable
    rcases classifyEmbeddingModel_cases modelId with ⟨-, -, -, hbad⟩ | ⟨hnone, hnot⟩ |
      ⟨key, hkey, hsupported, -⟩
    · exact absurd hbad hreadable
    · refine iff_of_false (fun ⟨key, hkey⟩ => ?_) hnot
      rw [hnone] at hkey
      cases hkey
    · exact iff_of_true ⟨key, hkey⟩ hsupported

theorem kind_of_selectEmbeddingModel {modelIds : List String} {e : Exception}
    (h : selectEmbeddingModel modelIds = .error e) : e.kind = .valueError := by
  rcases Library.error_of_select h with rfl | ⟨modelId, -, hkey⟩
  · rfl
  · rcases classifyEmbeddingModel_cases modelId with ⟨e', he, hkind, -⟩ | ⟨hnone, -⟩ | ⟨key, hok, -⟩
    · rw [he] at hkey
      cases hkey
      exact hkind
    · rw [hnone] at hkey
      cases hkey
    · rw [hok] at hkey
      cases hkey

theorem selectsEmbedding_iff {modelIds : List String} :
    SelectsEmbedding modelIds ↔
      Library.Optimal classifyEmbeddingModel noEmbeddingModel Supported modelIds := by
  constructor
  · rintro ⟨hbest, hraises, -⟩
    simp only [embeddingBeats_iff, not_lt] at hbest
    exact ⟨hbest, hraises⟩
  · rintro ⟨hbest, hfails⟩
    refine ⟨?_, hfails, fun e => kind_of_selectEmbeddingModel⟩
    simp only [embeddingBeats_iff, not_lt]
    exact hbest

theorem keepsEmbedding_iff {modelIds more : List String} :
    KeepsEmbedding modelIds more ↔
      Library.Grows classifyEmbeddingModel noEmbeddingModel modelIds more := by
  simp only [KeepsEmbedding, embeddingBeats_iff, not_lt]
  rfl

/-! ## The selectors -/

/-- When the selectors are optimal, and stay so as the catalog grows: unless an id that cannot be read
stands beside one that could be selected. -/
theorem selection_optimal_iff (modelIds more : List String) (family : String) :
    (SelectsLatest modelIds family ↔
        (∀ a ∈ modelIds, ¬Unreadable a) ∨ ∀ a ∈ modelIds, ¬OfFamily family a) ∧
      (SelectsEmbedding modelIds ↔ ∀ a ∈ modelIds, ¬UnreadableEmbedding a) ∧
      (modelIds ⊆ more →
        (KeepsLatest modelIds more family ↔
          (∃ a ∈ modelIds, Unreadable a) ∨ (∀ a ∈ modelIds, ¬OfFamily family a) ∨
            ∀ a ∈ more, ¬Unreadable a)) ∧
      (modelIds ⊆ more →
        (KeepsEmbedding modelIds more ↔
          (∃ a ∈ modelIds, UnreadableEmbedding a) ∨ (∀ a ∈ modelIds, ¬Supported a) ∨
            ∀ a ∈ more, ¬UnreadableEmbedding a)) := by
  refine ⟨?_, ?_, ?_, ?_⟩
  · rw [selectsLatest_iff]
    exact (describes_modelKey family).optimal_iff
  · rw [selectsEmbedding_iff, describes_embedding.optimal_iff]
    refine or_iff_left_of_imp fun hnone a ha hbad => ?_
    exact hnone a ha (supported_of_unreadable hbad)
  · intro hsub
    rw [keepsLatest_iff]
    exact (describes_modelKey family).grows_iff hsub
  · intro hsub
    rw [keepsEmbedding_iff]
    exact describes_embedding.grows_iff hsub

/-- A superscript is a digit for `str.isdigit` and no number for `int`: one such id fails a selection
that had succeeded, and that of every other family. -/
theorem superscript_fails :
    ¬SelectsLatest ["gemini-2.5-flash", "gemini-2.5-flash-²"] flashFamily ∧
      ¬KeepsLatest ["gemini-2.5-pro"] ["gemini-2.5-pro", "gemini-2.5-flash-²"] proFamily ∧
      ¬KeepsEmbedding ["gemini-embedding-001"] ["gemini-embedding-001", "text-embedding-²"] := by
  refine ⟨?_, ?_, ?_⟩
  · intro h
    -- `'²'.isdigit()` is true and `int('²')` raises.
    have hraises : selectLatestModel ["gemini-2.5-flash", "gemini-2.5-flash-²"] flashFamily =
        .error ⟨.valueError, "invalid literal for int() with base 10: '²'"⟩ := by decide +kernel
    have hkept : classifyModel "gemini-2.5-flash" = .ok (some ⟨[2, 5], flashFamily, false, true, []⟩) :=
      by decide +kernel
    obtain ⟨version, extra, hreads, hallowed, -⟩ := classifyModel_eq_ok_iff.1 hkept
    exact h.raises.1 ⟨_, hraises⟩ _ List.mem_cons_self ⟨version, extra, hreads, hallowed⟩
  -- One more id, of another family, turns a selection into an error.
  · intro h
    have hselect : selectLatestModel ["gemini-2.5-pro"] proFamily = .ok "gemini-2.5-pro" := by
      decide +kernel
    have hraises : selectLatestModel ["gemini-2.5-pro", "gemini-2.5-flash-²"] proFamily =
        .error ⟨.valueError, "invalid literal for int() with base 10: '²'"⟩ := by decide +kernel
    obtain ⟨later, m, m', hlater, -⟩ := h _ hselect
    rw [hraises] at hlater
    cases hlater
  · intro h
    have hselect : selectEmbeddingModel ["gemini-embedding-001"] = .ok "gemini-embedding-001" := by
      decide +kernel
    have hraises : selectEmbeddingModel ["gemini-embedding-001", "text-embedding-²"] =
        .error ⟨.valueError, "invalid literal for int() with base 10: '²'"⟩ := by decide +kernel
    obtain ⟨later, key, key', hlater, -⟩ := h _ hselect
    rw [hraises] at hlater
    cases hlater

/-! ## The order of the catalog -/

/-- What a selector does with the order of the catalog. Every order has a candidate that is returned,
or none has one; of several candidates the first in the catalog is returned; and the same id is returned
in every order exactly when an id cannot be read, so that no order returns any, or there is one
candidate only. -/
structure FirstCandidate (select : List String → Except Exception String) (Bad : String → Prop)
    (Candidate : List String → String → Prop) (modelIds : List String) : Prop where
  perm : ∀ other modelId, modelIds.Perm other → select modelIds = .ok modelId →
    ∃ modelId', select other = .ok modelId' ∧ Candidate modelIds modelId ∧ Candidate modelIds modelId'
  first : ∀ modelId, select modelIds = .ok modelId →
    ∃ pre post, modelIds = pre ++ modelId :: post ∧ ∀ a ∈ pre, ¬Candidate modelIds a
  none : (∃ a ∈ modelIds, Bad a) → ∀ other, modelIds.Perm other → ∀ modelId, select other ≠ .ok modelId
  same : (∀ other, modelIds.Perm other → ∀ modelId,
      select modelIds = .ok modelId ↔ select other = .ok modelId) ↔
    (∃ a ∈ modelIds, Bad a) ∨
      ∀ a ∈ modelIds, ∀ b ∈ modelIds, Candidate modelIds a → Candidate modelIds b → a = b

theorem firstCandidate {κ : Type*} [LinearOrder κ] {keyOf : String → Except Exception (Option κ)}
    {Bad Belongs : String → Prop} (h : Library.Describes keyOf Bad Belongs) (missing : Exception)
    (modelIds : List String) :
    FirstCandidate (Library.select keyOf missing) Bad (Library.IsLargest keyOf) modelIds := by
  refine ⟨?_, ?_, ?_, ?_⟩
  · intro other modelId hperm hselect
    obtain ⟨modelId', -, hother, hlargest⟩ := Library.select_of_perm hperm hselect
    obtain ⟨-, key, hbest⟩ := Library.select_eq_ok_iff.1 hselect
    exact ⟨modelId', hother, hbest.isLargest, hlargest⟩
  · intro modelId hselect
    obtain ⟨-, key, hbest⟩ := Library.select_eq_ok_iff.1 hselect
    exact hbest.first
  · intro hbad other hperm modelId hselect
    obtain ⟨hall, -⟩ := Library.select_eq_ok_iff.1 hselect
    exact h.not_allKeyed_iff.2 hbad (hall.perm hperm.symm)
  · rw [← h.not_allKeyed_iff]
    exact Library.select_perm_iff

/-- The order of the catalog decides between ids of the largest key only, and the first one wins. -/
theorem selection_perm_iff (modelIds : List String) :
    (∀ family, FirstCandidate (selectLatestModel · family) Unreadable (IsLatest · family) modelIds) ∧
      FirstCandidate selectEmbeddingModel UnreadableEmbedding IsBestEmbedding modelIds := by
  constructor
  · intro family
    have hlargest : (IsLatest · family) = Library.IsLargest (modelKey family) := by
      funext ids a
      exact propext isLargest_modelKey_iff.symm
    rw [hlargest]
    exact firstCandidate (describes_modelKey family) (noModel family) modelIds
  · have hlargest : IsBestEmbedding = Library.IsLargest classifyEmbeddingModel := by
      funext ids a
      exact propext isLargest_embedding_iff.symm
    rw [hlargest]
    exact firstCandidate describes_embedding noEmbeddingModel modelIds

/-- A marker does not rank a model above another marker: the first of the two is returned. -/
theorem selection_perm_iff_markers :
    ∃ pre post, ["gemini-2.5-flash-preview", "gemini-2.5-flash-exp"] =
        pre ++ "gemini-2.5-flash-preview" :: post ∧
      ∀ a ∈ pre, ¬IsLatest ["gemini-2.5-flash-preview", "gemini-2.5-flash-exp"] flashFamily a :=
  ((selection_perm_iff _).1 flashFamily).first "gemini-2.5-flash-preview" (by decide +kernel)

/-- Zeros in front of a number do not count, so that two ids tie. -/
theorem zeros_tie :
    ["gemini-2.0-flash-001", "gemini-2.0-flash-1"].Perm ["gemini-2.0-flash-1", "gemini-2.0-flash-001"] ∧
      selectLatestModel ["gemini-2.0-flash-001", "gemini-2.0-flash-1"] flashFamily =
        .ok "gemini-2.0-flash-001" ∧
      selectLatestModel ["gemini-2.0-flash-1", "gemini-2.0-flash-001"] flashFamily =
        .ok "gemini-2.0-flash-1" ∧
      ["text-embedding-005", "text-embedding-5"].Perm ["text-embedding-5", "text-embedding-005"] ∧
      selectEmbeddingModel ["text-embedding-005", "text-embedding-5"] = .ok "text-embedding-005" ∧
      selectEmbeddingModel ["text-embedding-5", "text-embedding-005"] = .ok "text-embedding-5" := by
  decide +kernel

end AgentCluster.Shared
