import AgentCluster.Shared.ModelId

/-!
# General-purpose models

The ids of the general-purpose models are those in which numbers and preview markers follow the
family, and nothing else. The parser looks at the first token after the family only, and `$` stands
before a newline too, so that it keeps more ids than these: `classifyModel_eq_ok_iff`.
-/

set_option autoImplicit false

namespace AgentCluster.Shared

open Python

/-- What may follow the family in the id of a general-purpose model. -/
def IsSuffix (token : String) : Prop := IsNumeric token ∨ token ∈ previewMarkers

instance (token : String) : Decidable (IsSuffix token) :=
  inferInstanceAs (Decidable (IsNumeric token ∨ token ∈ previewMarkers))

/-- The id is the version, the family and the tokens, and nothing else. -/
structure Spelled (modelId : String) (version : List String) (family : String)
    (extra : List String) : Prop where
  isVersion : IsVersion version
  tail : IsTail family extra
  text : modelId = idText version (join "-" (family :: extra))

/-- The family is followed by numbers and markers only. -/
def GeneralPurpose (modelId : String) : Prop :=
  ∃ version family extra, Spelled modelId version family extra ∧ ∀ token ∈ extra, IsSuffix token

/-- The family is followed by some other token. -/
def Specialised (modelId : String) : Prop :=
  ∃ version family extra, Spelled modelId version family extra ∧ ∃ token ∈ extra, ¬IsSuffix token

theorem Spelled.reads {modelId family : String} {version extra : List String}
    (h : Spelled modelId version family extra) (hline : '\n' ∉ modelId.toList) :
    Reads modelId version family extra := by
  refine ⟨⟨h.isVersion, ?_, ?_, Or.inl h.text⟩, h.tail⟩
  · have hfamily : family ≠ "" := by
      rintro rfl
      exact absurd h.tail.isFamily (by decide)
    cases extra with
    | nil => exact hfamily
    | cons token extra =>
      rw [join_cons "-" family (List.cons_ne_nil token extra), Ne, String.append_eq_empty_iff,
        String.append_eq_empty_iff]
      exact fun heq => hfamily heq.1.1
  · intro hmem
    apply hline
    rw [h.text, toList_idText]
    exact List.mem_append_right _ (List.mem_append_right _ (List.mem_cons_of_mem _ hmem))

theorem Reads.spelled {modelId family : String} {version extra : List String}
    (h : Reads modelId version family extra) (hline : '\n' ∉ modelId.toList) :
    Spelled modelId version family extra := by
  refine ⟨h.matched.isVersion, h.tail, h.matched.spelled.resolve_right ?_⟩
  intro heq
  apply hline
  rw [heq, String.toList_append]
  exact List.mem_append_right _ List.mem_cons_self

theorem newline_not_mem_of_isSuffix {token : String} (h : IsSuffix token) : '\n' ∉ token.toList := by
  rcases h with h | h
  · exact not_mem_of_isNumeric h (by decide)
  · simp only [previewMarkers, List.mem_cons, List.not_mem_nil, or_false] at h
    rcases h with rfl | rfl
    · decide
    · decide

/-- The id of a general-purpose model is one line. -/
theorem newline_not_mem_of_spelled {modelId family : String} {version extra : List String}
    (h : Spelled modelId version family extra) (hextra : ∀ token ∈ extra, IsSuffix token) :
    '\n' ∉ modelId.toList := by
  have hversion : '\n' ∉ (join "." version).toList := by
    apply not_mem_join (by decide)
    exact fun part hpart => not_mem_of_isNumeric (h.isVersion.numeric part hpart) (by decide)
  have hrest : '\n' ∉ (join "-" (family :: extra)).toList := by
    apply not_mem_join (by decide)
    rw [List.forall_mem_cons]
    refine ⟨?_, fun token htoken => newline_not_mem_of_isSuffix (hextra token htoken)⟩
    have hfamily := h.tail.isFamily
    simp only [textFamilies, List.mem_cons, List.not_mem_nil, or_false] at hfamily
    rcases hfamily with rfl | rfl | rfl
    · decide
    · decide
    · decide
  rw [h.text, toList_idText, List.mem_append, List.mem_append, List.mem_cons]
  rintro (hmem | hmem | hmem | hmem)
  · exact absurd hmem (by decide)
  · exact hversion hmem
  · cases hmem
  · exact hrest hmem

/-- What makes an id that reads one of a general-purpose model. -/
theorem generalPurpose_iff {modelId family : String} {version extra : List String}
    (h : Reads modelId version family extra) :
    GeneralPurpose modelId ↔ (∀ token ∈ extra, IsSuffix token) ∧ '\n' ∉ modelId.toList := by
  constructor
  · rintro ⟨version', family', extra', hspelled, hsuffix⟩
    have hline := newline_not_mem_of_spelled hspelled hsuffix
    obtain ⟨-, -, rfl⟩ := h.unique (hspelled.reads hline)
    exact ⟨hsuffix, hline⟩
  · rintro ⟨hsuffix, hline⟩
    exact ⟨version, family, extra, h.spelled hline, hsuffix⟩

theorem not_specialised_of_generalPurpose {modelId : String} (h : GeneralPurpose modelId) :
    ¬Specialised modelId := by
  obtain ⟨version, family, extra, hspelled, hsuffix⟩ := h
  have hline := newline_not_mem_of_spelled hspelled hsuffix
  rintro ⟨version', family', extra', hspelled', token, htoken, hother⟩
  obtain ⟨-, -, rfl⟩ := (hspelled.reads hline).unique (hspelled'.reads hline)
  exact hother (hsuffix token htoken)

/-- The parser keeps the id although a token after the first one, or a newline, follows that has no
place there. -/
def Escapes (modelId : String) : Prop :=
  ∃ version family extra, Reads modelId version family extra ∧ extraAllowed extra = true ∧
    AllReadable version extra ∧ ((∃ token ∈ extra, ¬IsSuffix token) ∨ '\n' ∈ modelId.toList)

/-- The id of a general-purpose model has a number of more than 4300 digits. -/
def TooLong (modelId : String) : Prop :=
  ∃ version family extra, Spelled modelId version family extra ∧ (∀ token ∈ extra, IsSuffix token) ∧
    ∃ part ∈ version ++ extra, IsNumeric part ∧ maxStrDigits < part.length

theorem escapes_iff {modelId : String} :
    Escapes modelId ↔ (∃ family, Accepted family modelId) ∧ ¬GeneralPurpose modelId := by
  constructor
  · rintro ⟨version, family, extra, hreads, hallowed, hreadable, hescapes⟩
    refine ⟨⟨family, version, extra, hreads, hallowed, hreadable⟩, ?_⟩
    rw [generalPurpose_iff hreads]
    rintro ⟨hsuffix, hline⟩
    rcases hescapes with ⟨token, htoken, hother⟩ | hnewline
    · exact hother (hsuffix token htoken)
    · exact hline hnewline
  · rintro ⟨⟨family, version, extra, hreads, hallowed, hreadable⟩, hnot⟩
    refine ⟨version, family, extra, hreads, hallowed, hreadable, ?_⟩
    by_contra hfine
    rw [not_or] at hfine
    refine hnot ((generalPurpose_iff hreads).2 ⟨?_, hfine.2⟩)
    exact fun token htoken => by_contra fun hother => hfine.1 ⟨token, htoken, hother⟩

theorem extraAllowed_of_isSuffix {extra : List String} (h : ∀ token ∈ extra, IsSuffix token) :
    extraAllowed extra = true := by
  cases extra with
  | nil => rfl
  | cons token extra =>
    rw [extraAllowed, Bool.or_eq_true]
    rcases h token List.mem_cons_self with hnumeric | hmarker
    · exact Or.inl (isDigit_of_isNumeric hnumeric)
    · exact Or.inr (List.contains_iff_mem.2 hmarker)

theorem isNumeric_of_isSuffix {token : String} (h : IsSuffix token) (hdigit : isDigit token = true) :
    IsNumeric token := by
  rcases h with h | h
  · exact h
  · simp only [previewMarkers, List.mem_cons, List.not_mem_nil, or_false] at h
    rcases h with rfl | rfl
    · exact absurd hdigit (by decide)
    · exact absurd hdigit (by decide)

theorem tooLong_iff {modelId : String} :
    TooLong modelId ↔ GeneralPurpose modelId ∧ ¬∃ family, Accepted family modelId := by
  constructor
  · rintro ⟨version, family, extra, hspelled, hsuffix, part, hpart, hnumeric, hlong⟩
    refine ⟨⟨version, family, extra, hspelled, hsuffix⟩, ?_⟩
    rintro ⟨family', version', extra', hreads, -, hversion, hextra⟩
    have hline := newline_not_mem_of_spelled hspelled hsuffix
    -- The text is read in one way only, so the two readings are the same.
    obtain ⟨rfl, -, rfl⟩ := (hspelled.reads hline).unique hreads
    have hread : IsReadable part := by
      rcases List.mem_append.1 hpart with hpart | hpart
      · exact hversion part hpart
      · exact hextra part hpart (isDigit_of_isNumeric hnumeric)
    exact absurd hread.2 (not_le.2 hlong)
  · rintro ⟨⟨version, family, extra, hspelled, hsuffix⟩, hnot⟩
    refine ⟨version, family, extra, hspelled, hsuffix, ?_⟩
    by_contra hfine
    -- If no number is too long, every token the code would read is a plain number it can read.
    have hshort : ∀ part ∈ version ++ extra, IsNumeric part → IsReadable part :=
      fun part hpart hnumeric =>
        ⟨hnumeric, not_lt.1 fun hlong => hfine ⟨part, hpart, hnumeric, hlong⟩⟩
    refine hnot ⟨family, version, extra, hspelled.reads (newline_not_mem_of_spelled hspelled hsuffix),
      extraAllowed_of_isSuffix hsuffix, ?_, ?_⟩
    · intro part hpart
      exact hshort part (List.mem_append_left _ hpart) (hspelled.isVersion.numeric part hpart)
    · intro token htoken hdigit
      exact hshort token (List.mem_append_right _ htoken)
        (isNumeric_of_isSuffix (hsuffix token htoken) hdigit)

/-- Which ids the parser keeps, and when the selector returns a general-purpose model only: unless an
id kept by mistake is in the catalog and no general-purpose one goes before it. -/
theorem selected_generalPurpose_iff (modelId : String) (modelIds : List String) (family : String) :
    (((∃ m, classifyModel modelId = .ok (some m)) ↔ GeneralPurpose modelId) ↔
        ¬Escapes modelId ∧ ¬TooLong modelId) ∧
      ((∀ selected, selectLatestModel modelIds family = .ok selected → GeneralPurpose selected) ↔
        (∃ a ∈ modelIds, Unreadable a) ∨
          ∀ a ∈ modelIds, OfFamily family a → ¬GeneralPurpose a →
            ∃ b ∈ modelIds, GeneralPurpose b ∧ Library.Outranks (modelKey family) modelIds b a) ∧
      ((∀ selected, selectLatestModel modelIds family = .ok selected → ¬Specialised selected) ↔
        (∃ a ∈ modelIds, Unreadable a) ∨
          ∀ a ∈ modelIds, OfFamily family a → Specialised a →
            ∃ b ∈ modelIds, ¬Specialised b ∧ Library.Outranks (modelKey family) modelIds b a) := by
  refine ⟨?_, ?_, ?_⟩
  · have hkept : (∃ m, classifyModel modelId = .ok (some m)) ↔ ∃ family, Accepted family modelId := by
      constructor
      · rintro ⟨m, hm⟩
        exact ⟨m.family, accepted_iff.1 ⟨m, hm, rfl⟩⟩
      · rintro ⟨family, haccepted⟩
        obtain ⟨m, hm, -⟩ := accepted_iff.2 haccepted
        exact ⟨m, hm⟩
    rw [hkept, escapes_iff, tooLong_iff]
    tauto
  · exact (describes_modelKey family).good_iff (noModel family) GeneralPurpose modelIds
  · have h := (describes_modelKey family).good_iff (noModel family)
      (fun modelId => ¬Specialised modelId) modelIds
    simp only [not_not] at h
    exact h

/-- A speech model is taken for a preview of a text model, and goes before a stable one. -/
theorem speechModel_selected :
    (∃ m, classifyModel "gemini-2.5-flash-preview-tts" = .ok (some m)) ∧
      ¬GeneralPurpose "gemini-2.5-flash-preview-tts" ∧
      Specialised "gemini-2.5-flash-preview-tts" ∧
      selectLatestModel ["gemini-2.0-flash-001", "gemini-2.5-flash-preview-tts"] flashFamily =
        .ok "gemini-2.5-flash-preview-tts" := by
  have hspecial : Specialised "gemini-2.5-flash-preview-tts" := by
    refine ⟨["2", "5"], flashFamily, ["preview", "tts"], ⟨⟨?_, Or.inr rfl⟩, ⟨?_, ?_, ?_⟩, ?_⟩,
      "tts", ?_, ?_⟩
    · decide
    · decide
    · decide
    · decide
    · decide +kernel
    · decide
    · decide
  refine ⟨⟨⟨[2, 5], flashFamily, true, false, []⟩, by decide +kernel⟩, ?_, hspecial, by decide +kernel⟩
  exact fun hgeneral => not_specialised_of_generalPurpose hgeneral hspecial

end AgentCluster.Shared
