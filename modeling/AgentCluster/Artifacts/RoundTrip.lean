import AgentCluster.Artifacts.Envelope

/-!
# The envelope round trip

What `_part_from_envelope` gives back for what `_build_envelope` accepted.
-/

set_option autoImplicit false

namespace AgentCluster.Artifacts

open Python Library Adk.Artifact

/-- What was set is kept. -/
def Kept (before after : Option String) : Prop := ∀ s, before = some s → s ≠ "" → after = some s

/-- The decoded part is of the same kind and has the same content. -/
def SameContent (artifact decoded : Part) : Prop :=
  match artifact with
  | { inlineData := some blob, .. } =>
      ∃ blob', decoded = { inlineData := some blob' } ∧ blob'.data = some (blob.data.getD []) ∧
        Kept blob.mimeType blob'.mimeType ∧ Kept blob.displayName blob'.displayName
  | { text := some text, .. } => decoded = { text := some text }
  | { fileData := some fileData, .. } =>
      ∃ fileData', decoded = { fileData := some fileData' } ∧
        fileData'.fileUri = fileData.fileUri ∧ Kept fileData.mimeType fileData'.mimeType ∧
        Kept fileData.displayName fileData'.displayName
  | _ => False

/-- The payload is a URI with a display name. -/
def IsNamedFile (artifact : Part) : Prop :=
  artifact.inlineData = none ∧ artifact.text = none ∧
    ∃ fileData name, artifact.fileData = some fileData ∧ fileData.displayName = some name ∧
      name ≠ ""

section RoundTrip

variable {artifact : Part}

theorem kept_filter (s : Option String) : Kept s (s.filter (· ≠ "")) := by
  intro t ht hne
  rw [ht, Option.filter_some_pos]
  exact decide_eq_true hne

theorem kept_getD (s : Option String) (t : String) :
    Kept s (some ((s.filter (· ≠ "")).getD t)) := by
  intro r hr hne
  rw [hr, Option.filter_some_pos]
  · rfl
  · exact decide_eq_true hne

/-- Only the display name of a file is lost. -/
theorem sameContent_file {fileData : FileData} {fileUri : String}
    (hinline : artifact.inlineData = none) (htext : artifact.text = none)
    (hdata : artifact.fileData = some fileData) (huri : fileData.fileUri = some fileUri) :
    SameContent artifact
        { fileData := some { fileUri := some fileUri, mimeType := fileData.mimeType } } ↔
      ¬IsNamedFile artifact := by
  obtain ⟨inlineData, text, data⟩ := artifact
  cases hinline
  cases htext
  cases hdata
  constructor
  · rintro ⟨fileData', heq, -, -, hkept⟩ ⟨-, -, fileData'', name, hsome, hname, hne⟩
    cases heq
    cases hsome
    cases hkept name hname hne
  · intro hnamed
    refine ⟨_, rfl, huri.symm, fun s hs _ => hs, ?_⟩
    intro name hname hne
    exact absurd ⟨rfl, rfl, fileData, name, rfl, hname, hne⟩ hnamed

variable [ArtifactUtil]

theorem startsWith_of_not_artifactRef {fileData : FileData} {fileUri : String}
    (h : ArtifactUtil.isArtifactRef artifact = false) (hdata : artifact.fileData = some fileData)
    (huri : fileData.fileUri = some fileUri) : startsWith fileUri "artifact://" = false := by
  rw [ArtifactUtil.isArtifactRef_eq, hdata] at h
  obtain ⟨uri, mimeType, displayName⟩ := fileData
  cases huri
  exact h

/-- What an accepted artifact's envelope decodes to has the artifact's content, except for the
display name of a file. -/
theorem roundTrips_iff {version : Int} {now : Binary64} {customMetadata : Option Metadata}
    {appName userId : String} {sessionId : Option String} {envelope : Dict} {text : String}
    (hbuild : buildEnvelope version artifact customMetadata appName userId sessionId now =
      .ok envelope)
    (href : ArtifactUtil.isArtifactRef artifact = false)
    (hdumps : Json.dumpsStrict (.dict envelope) = some text)
    (readApp readUser : String) (readSession : Option String) :
    (∃ decoded, partFromText text readApp readUser readSession = .ok (.part decoded) ∧
        SameContent artifact decoded) ↔
      ¬IsNamedFile artifact := by
  -- Metadata may come back as another value; the fields the reader looks at do not.
  obtain ⟨hseen, hjson, hsame⟩ := readBack_envelope hbuild
  have htext : partFromText text readApp readUser readSession =
      partFromEnvelope (.dict (Json.seenDict envelope)) readApp readUser readSession := by
    rw [Json.dumpsStrict] at hdumps
    split at hdumps
    · cases hdumps
      rw [partFromText, ← hsame, Json.loads_dumps hjson]
    · cases hdumps
  rw [htext]
  obtain ⟨fields, hfields, heq⟩ := buildEnvelope_ok hseen
  rw [heq]
  -- one case for each kind of payload; a named file loses its display name
  rcases payloadFields_cases hfields with ⟨blob, hblob, rfl⟩ | ⟨content, hblob, hcontent, rfl⟩ |
    ⟨fileData, fileUri, hblob, hcontent, hdata, huri, -, rfl⟩
  · rw [decode_inline]
    refine iff_of_true ⟨_, rfl, ?_⟩ ?_
    · obtain ⟨inlineData, content, data⟩ := artifact
      cases hblob
      exact ⟨_, rfl, rfl, kept_getD _ _, kept_filter _⟩
    · rintro ⟨hnone, -⟩
      rw [hblob] at hnone
      cases hnone
  · rw [decode_text]
    refine iff_of_true ⟨_, rfl, ?_⟩ ?_
    · obtain ⟨inlineData, content', data⟩ := artifact
      cases hblob
      cases hcontent
      exact rfl
    · rintro ⟨-, hnone, -⟩
      rw [hcontent] at hnone
      cases hnone
  · rw [decode_file _ _ _ _ _ _ _ (startsWith_of_not_artifactRef href hdata huri),
      ← sameContent_file hblob hcontent hdata huri]
    constructor
    · rintro ⟨decoded, heq, hsame⟩
      cases heq
      exact hsame
    · exact fun hsame => ⟨_, rfl, hsame⟩

end RoundTrip

attribute [local instance] basicUtil

/-- A picture with everything set. -/
def chart : Blob where
  data := some [137, 80, 78, 71, 0, 255]
  mimeType := some "image/png"
  displayName := some "chart.png"

/-- Its size, as a pair. -/
def chartMetadata : Metadata where
  items := [("size", .tuple [.int 640, .int 480])]
  keyed := rfl

/-- Bytes keep their mime type and their name, and a text its content, the empty one included. -/
theorem roundTrips_iff_chart_emptyText :
    ((∃ decoded, partFromText (Json.dumps (.dict
          (header 3 (Binary64.ofRatio false 1 2) (some chartMetadata) ++ inlineFields chart)))
          "app" "user" (some "s") = .ok (.part decoded) ∧
          SameContent { inlineData := some chart } decoded) ↔
        ¬IsNamedFile { inlineData := some chart }) ∧
      ((∃ decoded, partFromText
          (Json.dumps (.dict (header 0 (Binary64.ofRatio false 1 2) none ++ textFields "")))
          "app" "user" none = .ok (.part decoded) ∧
          SameContent { text := some "" } decoded) ↔
        ¬IsNamedFile { text := some "" }) := by
  constructor
  · exact @roundTrips_iff { inlineData := some chart } basicUtil 3 (Binary64.ofRatio false 1 2)
      (some chartMetadata) "app" "user" (some "s") _ _ rfl rfl rfl "app" "user" (some "s")
  · exact @roundTrips_iff { text := some "" } basicUtil 0 (Binary64.ofRatio false 1 2) none "app"
      "user" none _ _ rfl rfl rfl "app" "user" none

/-- A file with a display name. -/
def namedReport : Part where
  fileData := some {
    fileUri := some "gs://bucket/report.pdf"
    mimeType := some "application/pdf"
    displayName := some "report.pdf" }

/-- The envelope of a file has no place for its display name. -/
theorem namedReport_loses_name :
    ∃ envelope text, buildEnvelope 0 namedReport none "app" "user" none (Binary64.ofRatio false 1 2) =
        .ok envelope ∧
      ArtifactUtil.isArtifactRef namedReport = false ∧
      Json.dumpsStrict (.dict envelope) = some text ∧
      ¬∃ decoded, partFromText text "app" "user" none = .ok (.part decoded) ∧
        SameContent namedReport decoded := by
  let now := Binary64.ofRatio false 1 2
  let envelope := header 0 now none ++ fileFields "gs://bucket/report.pdf" (some "application/pdf")
  have hbuild : buildEnvelope 0 namedReport none "app" "user" none now = .ok envelope := rfl
  refine ⟨envelope, Json.dumps (.dict envelope), hbuild, rfl, rfl, ?_⟩
  rintro ⟨decoded, hdecoded, hsame⟩
  rw [partFromText, Json.loads_dumps (isJson_envelope hbuild rfl)] at hdecoded
  change partFromEnvelope (.dict envelope) "app" "user" none = _ at hdecoded
  rw [decode_file 0 now none "app" "user" none (some "application/pdf") rfl] at hdecoded
  cases hdecoded
  obtain ⟨fileData, heq, -, -, hkept⟩ := hsame
  cases heq
  cases hkept "report.pdf" rfl (by decide)

end AgentCluster.Artifacts
