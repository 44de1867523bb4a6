import AgentCluster.Python.Path

/-!
# Artifacts and artifact references

The payloads of `types.Part` that an artifact can have, and `artifact_util`, the framework's checks
of path segments and of `artifact://` references. The checks belong to the framework and are a
parameter, `ArtifactUtil`; which references it lets through is a law of its own (`ScopedReferences`),
for what relies on it.
-/

set_option autoImplicit false

namespace AgentCluster.Adk.Artifact

open Python

/-- Inline bytes. -/
structure Blob where
  data : Option (List UInt8) := none
  mimeType : Option String := none
  displayName : Option String := none
  deriving DecidableEq

/-- A URI in place of the bytes. -/
structure FileData where
  fileUri : Option String := none
  mimeType : Option String := none
  displayName : Option String := none
  deriving DecidableEq

/-- A part, as far as an artifact has it. -/
structure Part where
  inlineData : Option Blob := none
  text : Option String := none
  fileData : Option FileData := none
  deriving DecidableEq

/-- The artifact version a reference names. -/
structure ParsedArtifactUri where
  appName : String
  userId : String
  sessionId : Option String
  filename : String
  version : Int
  deriving DecidableEq

/-- The framework's checks. A check of a value answers with the message of the
`InputValidationError` it raises. -/
class ArtifactUtil where
  validatePathSegment (value field : String) : Option String
  isArtifactRef (artifact : Part) : Bool
  parseArtifactUri (uri : String) : Option ParsedArtifactUri
  validateArtifactReferenceScope (appName userId : String) (sessionId : Option String)
    (parsedUri : ParsedArtifactUri) : Option String
  isArtifactRef_eq (artifact : Part) :
    isArtifactRef artifact =
      match artifact.fileData with
      | some { fileUri := some uri, .. } => startsWith uri "artifact://"
      | _ => false

/-- A reference is let through only within the app and the user it is followed for, and to a session's
artifact only within that session. -/
class ScopedReferences [ArtifactUtil] : Prop where
  within {appName userId : String} {sessionId : Option String} {parsedUri : ParsedArtifactUri}
    (h : ArtifactUtil.validateArtifactReferenceScope appName userId sessionId parsedUri = none) :
    parsedUri.appName = appName ∧ parsedUri.userId = userId ∧
      ∀ s, parsedUri.sessionId = some s → sessionId = some s

/-- The parts of a URI between slashes. -/
def uriSegments (uri : String) : List String := (uri.toList.splitOn '/').map String.ofList

/-- The two forms of a reference: to a session's artifact and to a user's. -/
def parseSegments : List String → Option ParsedArtifactUri
  | ["artifact:", "", "apps", appName, "users", userId, "sessions", sessionId, "artifacts",
      filename, "versions", version] =>
      (intOfDigits version).map fun v => ⟨appName, userId, some sessionId, filename, v⟩
  | ["artifact:", "", "apps", appName, "users", userId, "artifacts", filename, "versions",
      version] => (intOfDigits version).map fun v => ⟨appName, userId, none, filename, v⟩
  | _ => none

/-- Checks that accept single names as segments, read both forms of a reference, and accept a
reference within the app, the user and, where it names one, the session. -/
@[reducible]
def basicUtil : ArtifactUtil where
  validatePathSegment value field :=
    if value = "" ∨ value = "." ∨ value = ".." ∨ '/' ∈ value.toList then
      some (field ++ " is not a path segment.")
    else none
  isArtifactRef artifact :=
    match artifact.fileData with
    | some { fileUri := some uri, .. } => startsWith uri "artifact://"
    | _ => false
  parseArtifactUri uri := parseSegments (uriSegments uri)
  validateArtifactReferenceScope appName userId sessionId parsedUri :=
    if parsedUri.appName ≠ appName ∨ parsedUri.userId ≠ userId then
      some "Artifact references must stay within the same app and user."
    else if parsedUri.sessionId.isSome ∧ parsedUri.sessionId ≠ sessionId then
      some "Artifact references must stay within the same session."
    else none
  isArtifactRef_eq _ := rfl

theorem scopedReferences_basicUtil : @ScopedReferences basicUtil := by
  let _ := basicUtil
  constructor
  intro appName userId sessionId parsedUri h
  change (if _ then _ else if _ then _ else none) = none at h
  split at h
  · cases h
  · next hwithin =>
    split at h
    · cases h
    · next hsession =>
      rw [not_or, not_not, not_not] at hwithin
      refine ⟨hwithin.1, hwithin.2, fun s hs => ?_⟩
      rw [hs] at hsession
      by_contra hne
      exact hsession ⟨rfl, fun heq => hne heq.symm⟩

end AgentCluster.Adk.Artifact
