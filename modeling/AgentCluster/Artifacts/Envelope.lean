import AgentCluster.Adk.Artifact
import AgentCluster.Library.Base64
import AgentCluster.Library.Except
import AgentCluster.Python.JsonLines

/-!
# Artifact envelopes

`_build_envelope` and `_part_from_envelope`, the two directions between a `types.Part` and the JSON
object stored for one artifact version.

`time.time()` is an argument. Where a stored value has a type the framework's models refuse, their
`ValidationError` is a `ValueError`.
-/

set_option autoImplicit false

namespace AgentCluster.Artifacts

open Python Library Adk.Artifact

/-- What the service raises, by exception type; `json` is the `TypeError` or `ValueError` of
`json.dumps`. -/
inductive Error where
  | inputValidation (message : String)
  | key (key : String)
  | attribute
  | type
  | value
  | json
  | os
  | recursion
  deriving DecidableEq, Repr

/-- Fallback mime type for inline payloads persisted without one. -/
def defaultMimeType : String := "application/octet-stream"

/-- Custom metadata: a dict in which, as in every Python dict, no key occurs twice. -/
structure Metadata where
  items : Dict
  keyed : Json.Keyed (.dict items)

/-- The metadata as JSON gives it back, with lists for tuples. -/
def Metadata.seen (metadata : Metadata) : Metadata where
  items := Json.seenDict metadata.items
  keyed := Json.keyed_of_isJson metadata.keyed

/-- `d[key]`. -/
def getItem (d : Dict) (key : String) : Except Error Value :=
  match d.lookup key with
  | some v => .ok v
  | none => .error (.key key)

/-- A `str | None` as a value. -/
def ofOption : Option String → Value
  | none => .none
  | some s => .str s

/-- The value of a field typed `str | None`. -/
def optionalStr : Value → Except Error (Option String)
  | .none => .ok none
  | .str s => .ok (some s)
  | _ => .error .value

/-- The value of a field typed `str | None`, where a false value counts as `None`. -/
def truthyStr (v : Value) : Except Error (Option String) :=
  if v.truthy then optionalStr v else .ok none

/-- `base64.b64encode(data).decode("ascii")`. -/
def b64encode (data : List UInt8) : String := String.ofList (Base64.encode data)

/-- `base64.b64decode(v)`. -/
def b64decode : Value → Except Error (List UInt8)
  | .str s =>
      if s.toList.all fun c => c.toNat < 128 then
        match Base64.decode s.toList with
        | some data => .ok data
        | none => .error .value
      else .error .value
  | _ => .error .type

theorem b64decode_b64encode (data : List UInt8) : b64decode (.str (b64encode data)) = .ok data := by
  have hascii : ((b64encode data).toList.all fun c => c.toNat < 128) = true := by
    rw [b64encode, String.toList_ofList, List.all_eq_true]
    exact fun c hc => decide_eq_true (Base64.encode_ascii data c hc)
  rw [b64decode, if_pos hascii, b64encode, String.toList_ofList, Base64.decode_encode]

theorem isJson_ofOption (s : Option String) : (ofOption s).isJson = true := by
  cases s <;> rfl

/-- The field for a display name that was set. -/
def displayNameField : Option String → Dict
  | none | some "" => []
  | some name => [("display_name", .str name)]

theorem displayNameField_cases (name : Option String) :
    displayNameField name = [] ∧ (∀ s, name = some s → s = "") ∨
      ∃ s, name = some s ∧ s ≠ "" ∧ displayNameField name = [("display_name", .str s)] := by
  fun_cases displayNameField name with
  | case1 => exact Or.inl ⟨rfl, fun s hs => by cases hs⟩
  | case2 => exact Or.inl ⟨rfl, fun s hs => (Option.some.inj hs).symm⟩
  | case3 s hne => exact Or.inr ⟨s, rfl, hne, rfl⟩

theorem truthyStr_ofOption (s : Option String) :
    truthyStr (ofOption s) = .ok (s.filter (· ≠ "")) := by
  cases s with
  | none => rfl
  | some s =>
    by_cases h : s = ""
    · rw [h]
      rfl
    · simp [truthyStr, ofOption, Value.truthy, optionalStr, Option.filter, h]

theorem optionalStr_ofOption (s : Option String) : optionalStr (ofOption s) = .ok s := by
  cases s <;> rfl

section Reference

variable [ArtifactUtil]

/-- The target of a reference, if its URI can be read and is in scope. -/
def resolveReference (appName userId : String) (sessionId : Option String) (fileUri : String) :
    Except Error ParsedArtifactUri :=
  match ArtifactUtil.parseArtifactUri fileUri with
  | none => .error (.inputValidation ("Invalid artifact reference URI: " ++ fileUri))
  | some parsedUri =>
      match ArtifactUtil.validateArtifactReferenceScope appName userId sessionId parsedUri with
      | some message => .error (.inputValidation message)
      | none => .ok parsedUri

/-! ## Encoding -/

/-- The fields every envelope has. -/
def header (version : Int) (now : Binary64) (customMetadata : Option Metadata) : Dict :=
  [("version", .int version), ("create_time", .float now),
   ("custom_metadata", .dict (customMetadata.elim [] Metadata.items))]

def inlineFields (blob : Blob) : Dict :=
  [("kind", .str "inline"), ("mime_type", ofOption blob.mimeType),
   ("data", .str (b64encode (blob.data.getD [])))] ++ displayNameField blob.displayName

def textFields (text : String) : Dict :=
  [("kind", .str "text"), ("mime_type", .str "text/plain"), ("text", .str text)]

def fileFields (fileUri : String) (mimeType : Option String) : Dict :=
  [("kind", .str "file"), ("file_uri", .str fileUri), ("mime_type", ofOption mimeType)]

/-- The fields for the payload: inline data before text before a URI. -/
def payloadFields (artifact : Part) (appName userId : String) (sessionId : Option String) :
    Except Error Dict :=
  match artifact with
  | { inlineData := some blob, .. } => .ok (inlineFields blob)
  | { text := some text, .. } => .ok (textFields text)
  | { fileData := some fileData, .. } =>
      match fileData.fileUri with
      | none | some "" => .error (.inputValidation "Artifact file_data must have a file_uri.")
      | some fileUri => do
          if ArtifactUtil.isArtifactRef artifact then
            let _ ← resolveReference appName userId sessionId fileUri
          .ok (fileFields fileUri fileData.mimeType)
  | _ => .error (.inputValidation "Artifact must have either inline_data or text.")

/-- The JSON-serializable envelope describing an artifact version. -/
def buildEnvelope (version : Int) (artifact : Part) (customMetadata : Option Metadata)
    (appName userId : String) (sessionId : Option String) (now : Binary64) : Except Error Dict :=
  (payloadFields artifact appName userId sessionId).map (header version now customMetadata ++ ·)

/-! ## Decoding -/

/-- What an envelope decodes to: a part, or the call of `_load_artifact` that resolves a
reference. -/
inductive Decoded where
  | part (part : Part)
  | load (target : ParsedArtifactUri)
  deriving DecidableEq

/-- Reconstruct a part from a persisted envelope. -/
def partFromEnvelope (envelope : Value) (appName userId : String) (sessionId : Option String) :
    Except Error Decoded :=
  match envelope with
  | .dict d =>
      if (Dict.get d "kind").pyEq (.str "text") then do
        let text ← optionalStr (← getItem d "text")
        .ok (.part { text := text })
      else if (Dict.get d "kind").pyEq (.str "file") then do
        match ← getItem d "file_uri" with
        | .str fileUri =>
            if startsWith fileUri "artifact://" then
              .load <$> resolveReference appName userId sessionId fileUri
            else
              let mimeType ← optionalStr (Dict.get d "mime_type")
              .ok (.part { fileData := some { fileUri := some fileUri, mimeType := mimeType } })
        | _ => .error .attribute
      else do
        let data ← b64decode (← getItem d "data")
        let mimeType ← truthyStr (Dict.get d "mime_type")
        let displayName ← truthyStr (Dict.get d "display_name")
        .ok (.part { inlineData := some {
          data := some data
          mimeType := some (mimeType.getD defaultMimeType)
          displayName := displayName } })
  | _ => .error .attribute

/-- `_part_from_envelope(json.loads(text))`. -/
def partFromText (text : String) (appName userId : String) (sessionId : Option String) :
    Except Error Decoded :=
  match Json.loads text with
  | some envelope => partFromEnvelope envelope appName userId sessionId
  | none => .error .value

/-! ## What an envelope holds -/

/-- What an accepted payload is. -/
theorem payloadFields_cases {artifact : Part} {appName userId : String}
    {sessionId : Option String} {fields : Dict}
    (h : payloadFields artifact appName userId sessionId = .ok fields) :
    (∃ blob, artifact.inlineData = some blob ∧ fields = inlineFields blob) ∨
      (∃ text, artifact.inlineData = none ∧ artifact.text = some text ∧
        fields = textFields text) ∨
      ∃ fileData fileUri, artifact.inlineData = none ∧ artifact.text = none ∧
        artifact.fileData = some fileData ∧ fileData.fileUri = some fileUri ∧
        (ArtifactUtil.isArtifactRef artifact = true →
          ∃ target, resolveReference appName userId sessionId fileUri = .ok target) ∧
        fields = fileFields fileUri fileData.mimeType := by
  obtain ⟨inlineData, text, fileData⟩ := artifact
  -- the payloads are tried in the order of the source: inline data, text, file
  cases inlineData with
  | some blob =>
    cases h
    exact Or.inl ⟨blob, rfl, rfl⟩
  | none =>
    right
    cases text with
    | some text =>
      cases h
      exact Or.inl ⟨text, rfl, rfl, rfl⟩
    | none =>
      right
      cases fileData with
      | none => cases h
      | some fileData =>
        simp only [payloadFields] at h
        split at h
        · cases h
        · cases h
        · next fileUri hne huri =>
          refine ⟨fileData, fileUri, rfl, rfl, rfl, huri, ?_⟩
          -- only a reference is resolved when it is saved
          split at h
          · next href =>
            cases htarget : resolveReference appName userId sessionId fileUri with
            | error e =>
              rw [htarget] at h
              cases h
            | ok target =>
              rw [htarget] at h
              cases h
              exact ⟨fun _ => ⟨target, rfl⟩, rfl⟩
          · next href =>
            cases h
            exact ⟨fun h => absurd h href, rfl⟩

theorem isJson_payloadFields {artifact : Part} {appName userId : String}
    {sessionId : Option String} {fields : Dict}
    (h : payloadFields artifact appName userId sessionId = .ok fields) :
    ∀ kv ∈ fields, kv.2.isJson = true := by
  have hstr : ∀ s, (Value.str s).isJson = true := fun s => rfl
  rcases payloadFields_cases h with ⟨blob, -, rfl⟩ | ⟨text, -, -, rfl⟩ |
    ⟨fileData, fileUri, -, -, -, -, -, rfl⟩
  · rcases displayNameField_cases blob.displayName with ⟨hname, -⟩ | ⟨name, -, -, hname⟩
    · simp [inlineFields, hname, hstr, isJson_ofOption]
    · simp [inlineFields, hname, hstr, isJson_ofOption]
  · simp [textFields, hstr]
  · simp [fileFields, hstr, isJson_ofOption]

theorem nodup_keys_envelope {version : Int} {now : Binary64} {customMetadata : Option Metadata}
    {artifact : Part} {appName userId : String} {sessionId : Option String} {fields : Dict}
    (h : payloadFields artifact appName userId sessionId = .ok fields) :
    (PyDict.keys (header version now customMetadata ++ fields)).Nodup := by
  rcases payloadFields_cases h with ⟨blob, -, rfl⟩ | ⟨text, -, -, rfl⟩ |
    ⟨fileData, fileUri, -, -, -, -, -, rfl⟩
  · rcases displayNameField_cases blob.displayName with ⟨hname, -⟩ | ⟨name, -, -, hname⟩
    · simp [PyDict.keys, header, inlineFields, hname]
    · simp [PyDict.keys, header, inlineFields, hname]
  · simp [PyDict.keys, header, textFields]
  · simp [PyDict.keys, header, fileFields]

theorem buildEnvelope_ok {version : Int} {now : Binary64} {customMetadata : Option Metadata}
    {artifact : Part} {appName userId : String} {sessionId : Option String} {envelope : Dict}
    (h : buildEnvelope version artifact customMetadata appName userId sessionId now = .ok envelope) :
    ∃ fields, payloadFields artifact appName userId sessionId = .ok fields ∧
      envelope = header version now customMetadata ++ fields := by
  rw [buildEnvelope] at h
  cases hfields : payloadFields artifact appName userId sessionId with
  | error e =>
    rw [hfields] at h
    cases h
  | ok fields =>
    rw [hfields] at h
    cases h
    exact ⟨fields, rfl, rfl⟩

section ReadBack

variable {version : Int} {now : Binary64} {customMetadata : Option Metadata} {artifact : Part}
  {appName userId : String} {sessionId : Option String} {envelope : Dict}
  (h : buildEnvelope version artifact customMetadata appName userId sessionId now = .ok envelope)
include h

/-- The envelope of an accepted artifact is a JSON value if its metadata is one. -/
theorem isJson_envelope
    (hmetadata : (Value.dict (customMetadata.elim [] Metadata.items)).isJson = true) :
    (Value.dict envelope).isJson = true := by
  obtain ⟨fields, hfields, rfl⟩ := buildEnvelope_ok h
  rw [Value.isJson_dict_iff]
  refine ⟨nodup_keys_envelope hfields, ?_⟩
  intro kv hkv
  rcases List.mem_append.1 hkv with hkv | hkv
  · rw [header] at hkv
    rcases List.mem_cons.1 hkv with rfl | hkv
    · rfl
    rcases List.mem_cons.1 hkv with rfl | hkv
    · rfl
    obtain rfl := List.mem_singleton.1 hkv
    exact hmetadata
  · exact isJson_payloadFields hfields kv hkv

/-- What is read back of an envelope is the envelope with the metadata as JSON gives it back. -/
theorem readBack_envelope :
    buildEnvelope version artifact (customMetadata.map Metadata.seen) appName userId sessionId now =
        .ok (Json.seenDict envelope) ∧
      (Value.dict (Json.seenDict envelope)).isJson = true ∧
      Json.dumps (.dict (Json.seenDict envelope)) = Json.dumps (.dict envelope) := by
  have hbuild : buildEnvelope version artifact (customMetadata.map Metadata.seen) appName userId
      sessionId now = .ok (Json.seenDict envelope) := by
    obtain ⟨fields, hfields, rfl⟩ := buildEnvelope_ok h
    have hseen : Json.seenDict fields = fields := by
      rw [Json.seenDict_eq_map]
      refine (List.map_congr_left fun kv hkv => ?_).trans (List.map_id fields)
      rw [Json.seen_of_isJson (isJson_payloadFields hfields kv hkv)]
      rfl
    rw [buildEnvelope, hfields, Json.seenDict_append, hseen]
    cases customMetadata <;> rfl
  refine ⟨hbuild, isJson_envelope hbuild ?_, ?_⟩
  · cases customMetadata with
    | none => rfl
    | some metadata => exact metadata.keyed
  · rw [Json.dumps, Json.dumps]
    exact congrArg String.ofList (Json.encode_seen (.dict envelope))

end ReadBack

section Decode

variable (version : Int) (now : Binary64) (customMetadata : Option Metadata)
  (appName userId : String) (sessionId : Option String)

theorem decode_inline (blob : Blob) :
    partFromEnvelope (.dict (header version now customMetadata ++ inlineFields blob)) appName userId
      sessionId = .ok (.part { inlineData := some {
        data := some (blob.data.getD [])
        mimeType := some ((blob.mimeType.filter (· ≠ "")).getD defaultMimeType)
        displayName := blob.displayName.filter (· ≠ "") } }) := by
  have hkind : ∀ kind, kind ≠ "inline" →
      ¬(Dict.get (header version now customMetadata ++ inlineFields blob) "kind").pyEq
        (.str kind) = true := by
    intro kind hne heq
    rw [Value.pyEq_str_iff] at heq
    exact hne (Value.str.inj heq).symm
  -- an empty display name is not written, and reads back as none
  have hname : Dict.get (header version now customMetadata ++ inlineFields blob) "display_name" =
      ofOption (blob.displayName.filter (· ≠ "")) := by
    rcases displayNameField_cases blob.displayName with ⟨hfield, hempty⟩ | ⟨name, hsome, hne, hfield⟩
    · rw [inlineFields, hfield]
      cases hn : blob.displayName with
      | none => rfl
      | some s => simp [hempty s hn, Option.filter]; rfl
    · rw [inlineFields, hfield, hsome]
      simp [Option.filter, hne]; rfl
  rw [partFromEnvelope, if_neg (hkind "text" (by decide)), if_neg (hkind "file" (by decide))]
  show (b64decode (.str (b64encode (blob.data.getD [])))).bind _ = _
  rw [b64decode_b64encode]
  show (truthyStr (ofOption blob.mimeType)).bind _ = _
  rw [truthyStr_ofOption]
  show (truthyStr (Dict.get _ "display_name")).bind _ = _
  rw [hname, truthyStr_ofOption, Option.filter_filter]
  simp only [Except.bind, Bool.and_self]

theorem decode_text (text : String) :
    partFromEnvelope (.dict (header version now customMetadata ++ textFields text)) appName userId
      sessionId = .ok (.part { text := some text }) := by
  have hkind : (Dict.get (header version now customMetadata ++ textFields text) "kind").pyEq
      (.str "text") = true := (Value.pyEq_str_iff _ _).2 rfl
  rw [partFromEnvelope, if_pos hkind]
  rfl

omit [ArtifactUtil] in
theorem kind_file (fileUri : String) (mimeType : Option String) (kind : String) :
    (Dict.get (header version now customMetadata ++ fileFields fileUri mimeType) "kind").pyEq
      (.str kind) = true ↔ "file" = kind := by
  rw [Value.pyEq_str_iff]
  exact ⟨Value.str.inj, congrArg Value.str⟩

theorem decode_file {fileUri : String} (mimeType : Option String)
    (h : startsWith fileUri "artifact://" = false) :
    partFromEnvelope (.dict (header version now customMetadata ++ fileFields fileUri mimeType))
      appName userId sessionId =
        .ok (.part { fileData := some { fileUri := some fileUri, mimeType := mimeType } }) := by
  rw [partFromEnvelope, if_neg (by rw [kind_file]; decide), if_pos (by rw [kind_file])]
  show (if startsWith fileUri "artifact://" then _ else _) = _
  rw [h]
  show (optionalStr (ofOption mimeType)).bind _ = _
  rw [optionalStr_ofOption]
  rfl

/-- An `artifact://` reference decodes to the call that resolves it. -/
theorem decode_reference {fileUri : String} (mimeType : Option String)
    (h : startsWith fileUri "artifact://" = true) :
    partFromEnvelope (.dict (header version now customMetadata ++ fileFields fileUri mimeType))
      appName userId sessionId =
        (resolveReference appName userId sessionId fileUri).map .load := by
  rw [partFromEnvelope, if_neg (by rw [kind_file]; decide), if_pos (by rw [kind_file])]
  show (if startsWith fileUri "artifact://" then _ else _) = _
  rw [h]
  rfl

end Decode

end Reference

end AgentCluster.Artifacts
