import AgentCluster.Artifacts.Envelope
import AgentCluster.Library.FileTree

/-!
# The artifact service

The synchronous core of `CloudPathArtifactService` on the local filesystem. A method is a script of
calls to a `FileTree`; each call carries the artifact it is made for, which nothing but statements
about the calls reads.

`ensure_part` belongs to the framework, and its outcome is an argument of `saveArtifact`. Following
references is a recursion through stored data; `loadArtifact` takes the depth the interpreter allows
it.
-/

set_option autoImplicit false

namespace AgentCluster.Artifacts

open Python Library Adk.Artifact

/-- The artifact a method is called for. -/
structure Address where
  appName : String
  userId : String
  sessionId : Option String
  filename : String
  deriving DecidableEq

/-- The base path of the service. -/
structure Root where
  path : List String
  names : ∀ c ∈ path, IsName c

/-- A service whose base path is one directory. -/
def dataRoot : Root where
  path := ["data"]
  names := List.forall_mem_singleton.2 {
    ne_empty := by decide
    ne_dot := by decide
    ne_dotdot := by decide
    noSlash := by decide }

/-- An artifact with the given filename. -/
def inSession (filename : String) : Address := ⟨"app", "user", some "s", filename⟩

/-- A call to the filesystem, for an artifact or for a listing of keys. -/
structure Access where
  owner : Option Address
  op : FileOp
  deriving DecidableEq

/-- What a call is answered with. -/
def Access.Res (access : Access) : Type := access.op.Res

/-- The filesystem. -/
def device [FileOp.ListingOrder] (access : Access) (T : FileTree) :
    Except Error access.Res × FileTree := access.op.perform Error.os T

/-- A method of the service. -/
abbrev Action (α : Type) := Script Access Access.Res Error α

section Calls

variable (owner : Option Address) (path : List String)

def pathExists : Action Bool := Script.perform (Access.mk owner (.pathExists path))

def iterdir : Action (List String) := Script.perform (Access.mk owner (.iterdir path))

def files : Action (List (List String)) := Script.perform (Access.mk owner (.files path))

def readText : Action String := Script.perform (Access.mk owner (.read path))

def mkdirs : Action Unit := Script.perform (Access.mk owner (.mkdirs path))

def writeText (text : String) : Action Unit := Script.perform (Access.mk owner (.write path text))

def unlink : Action Unit := Script.perform (Access.mk owner (.unlink path))

end Calls

/-! ## Paths -/

section Paths

variable [ArtifactUtil]

def validatePathSegment (value field : String) : Except Error Unit :=
  match ArtifactUtil.validatePathSegment value field with
  | some message => .error (.inputValidation message)
  | none => .ok ()

/-- `filename` is user-scoped. -/
def fileHasUserNamespace (filename : String) : Bool := startsWith filename "user:"

/-- The directory holding every version of one artifact. -/
def artifactDir (root : Root) (a : Address) : Except Error (List String) := do
  validatePathSegment a.appName "app_name"
  validatePathSegment a.userId "user_id"
  if fileHasUserNamespace a.filename then
    return joinPath (joinPath (joinPath (joinPath root.path a.appName) a.userId) "user") a.filename
  match a.sessionId with
  | none =>
      throw (.inputValidation "Session ID must be provided for session-scoped artifacts.")
  | some sessionId =>
      validatePathSegment sessionId "session_id"
      return joinPath (joinPath (joinPath (joinPath root.path a.appName) a.userId) sessionId)
        a.filename

/-- The envelope path of one version. -/
def versionPath (root : Root) (a : Address) (version : Int) : Except Error (List String) :=
  (artifactDir root a).map fun directory => joinPath directory (intStr version)

end Paths

/-! ## Methods -/

/-- The numbers among the names in a version directory. -/
def versionsOf (names : List String) : Except Error (List Nat) :=
  (names.filter isDigit).mapM fun name =>
    match intOfDigits name with
    | some version => .ok version
    | none => .error .value

/-- `json.loads(text)`. -/
def loadsEnvelope (text : String) : Except Error Value :=
  match Json.loads text with
  | some envelope => .ok envelope
  | none => .error .value

/-- `json.dumps(envelope)`. -/
def dumpsEnvelope (envelope : Dict) : Except Error String :=
  match Json.dumpsStrict (.dict envelope) with
  | some text => .ok text
  | none => .error .json

/-- Metadata of one stored version. -/
structure ArtifactVersion where
  version : Int
  canonicalUri : String
  createTime : Value
  mimeType : Value
  customMetadata : Value

/-- The metadata an envelope holds; `now` is the time of the call. -/
def metaOf (version : Int) (path : List String) (now : Binary64) :
    Value → Except Error ArtifactVersion
  | .dict envelope =>
      .ok {
        version := version
        canonicalUri := pathStr path
        createTime := Dict.getD envelope "create_time" (.float now)
        mimeType := Dict.get envelope "mime_type"
        customMetadata :=
          if (Dict.get envelope "custom_metadata").truthy then Dict.get envelope "custom_metadata"
          else .dict [] }
  | _ => .error .attribute

/-- The number of the next version. -/
def nextVersion (versions : List Nat) : Nat :=
  match versions.max? with
  | none => 0
  | some version => version + 1

def writeEnvelope (a : Address) (path : List String) (envelope : Dict) : Action Unit := do
  mkdirs a path.dropLast
  let text ← Script.ofExcept (dumpsEnvelope envelope)
  writeText a path text

/-- The filename under which the file at `leaf` is a version, if it is one. -/
def filenameOf (baseDepth : Nat) (leaf : List String) : Option String :=
  let parts := leaf.drop baseDepth
  if parts.length < 2 || !isDigit (parts.getLastD "") then none
  else some (join "/" parts.dropLast)

/-- The filenames of the artifacts beneath a scope directory. -/
def filenamesUnder (scopeDir : List String) : Action (List String) := do
  if ← pathExists none scopeDir then
    let leaves ← files none scopeDir
    return leaves.filterMap (filenameOf scopeDir.length)
  else
    return []

section Methods

variable [ArtifactUtil] (root : Root)

/-- Every stored version number of an artifact, in the order of the directory. -/
def listVersions (a : Address) : Action (List Nat) := do
  let directory ← Script.ofExcept (artifactDir root a)
  if ← pathExists a directory then
    let names ← iterdir a directory
    Script.ofExcept (versionsOf names)
  else
    return []

/-- Persist a new version of an artifact. -/
def saveArtifact (a : Address) (artifact : Except Error Part) (customMetadata : Option Metadata)
    (now : Binary64) : Action Nat := do
  let part ← Script.ofExcept artifact
  let versions ← listVersions root a
  let version := nextVersion versions
  let envelope ← Script.ofExcept
    (buildEnvelope version part customMetadata a.appName a.userId a.sessionId now)
  let path ← Script.ofExcept (versionPath root a version)
  writeEnvelope a path envelope
  return version

/-- The version a method is asked for: the latest when none is given. -/
def chooseVersion (a : Address) : Option Int → Action (Option Int)
  | some version => return some version
  | none => do
      let versions ← listVersions root a
      return versions.max?.map Int.ofNat

/-- The envelope of a version, if there is one. -/
def readEnvelope (a : Address) (version : Int) : Action (Option Value) := do
  let path ← Script.ofExcept (versionPath root a version)
  if ← pathExists a path then
    let text ← readText a path
    some <$> Script.ofExcept (loadsEnvelope text)
  else
    return none

/-- The envelope `_load_artifact` finds. -/
def findEnvelope (a : Address) (version : Option Int) : Action (Option Value) := do
  match ← chooseVersion root a version with
  | none => return none
  | some version => readEnvelope root a version

/-- The artifact a reference names. -/
def targetAddress (target : ParsedArtifactUri) : Address :=
  ⟨target.appName, target.userId, target.sessionId, target.filename⟩

/-- Load a single version, through references. -/
def loadArtifact : Nat → Address → Option Int → Action (Option Part)
  | 0, _, _ => .raise .recursion
  | depth + 1, a, version => do
      match ← findEnvelope root a version with
      | none => return none
      | some envelope =>
          match ← Script.ofExcept (partFromEnvelope envelope a.appName a.userId a.sessionId) with
          | .part part => return some part
          | .load target => loadArtifact depth (targetAddress target) (some target.version)

/-- The files of the given versions, removed one after the other. -/
def deleteVersions (a : Address) : List Nat → Action Unit
  | [] => return ()
  | version :: versions => do
      let path ← Script.ofExcept (versionPath root a version)
      if ← pathExists a path then
        unlink a path
      deleteVersions a versions

/-- Delete every version of an artifact. -/
def deleteArtifact (a : Address) : Action Unit := do
  deleteVersions root a (← listVersions root a)

/-- The metadata of one stored version. -/
def artifactVersionMeta (a : Address) (version : Int) (now : Binary64) :
    Action (Option ArtifactVersion) := do
  match ← readEnvelope root a version with
  | none => return none
  | some envelope =>
      let path ← Script.ofExcept (versionPath root a version)
      some <$> Script.ofExcept (metaOf version path now envelope)

/-- The metadata of one version, the latest when none is given. -/
def getArtifactVersion (a : Address) (version : Option Int) (now : Binary64) :
    Action (Option ArtifactVersion) := do
  match ← chooseVersion root a version with
  | none => return none
  | some version => artifactVersionMeta root a version now

/-- The metadata of the given versions, as far as they exist. -/
def versionMetas (a : Address) (now : Binary64) : List Nat → Action (List ArtifactVersion)
  | [] => return []
  | version :: versions => do
      let found ← artifactVersionMeta root a version now
      let rest ← versionMetas a now versions
      return found.toList ++ rest

/-- The metadata of every version, ordered by version number. -/
def listArtifactVersions (a : Address) (now : Binary64) : Action (List ArtifactVersion) := do
  let metas ← versionMetas root a now (← listVersions root a)
  return metas.insertionSort fun m n => m.version ≤ n.version

/-- Session-scoped and user-scoped filenames. -/
def listArtifactKeys (appName userId : String) (sessionId : Option String) :
    Action (List String) := do
  Script.ofExcept (validatePathSegment appName "app_name")
  Script.ofExcept (validatePathSegment userId "user_id")
  let userDir := joinPath (joinPath root.path appName) userId
  let inSession ←
    match sessionId with
    | none => pure []
    | some sessionId => do
        Script.ofExcept (validatePathSegment sessionId "session_id")
        filenamesUnder (joinPath userDir sessionId)
  let inUser ← filenamesUnder (joinPath userDir "user")
  return (inSession ++ inUser).dedup.insertionSort (· ≤ ·)

end Methods

/-! ## Calls of the service for one artifact -/

/-- A call of a public method for one artifact. -/
inductive Request where
  | saveArtifact (artifact : Except Error Part) (customMetadata : Option Metadata) (now : Binary64)
  | loadArtifact (version : Option Int)
  | listVersions
  | listArtifactVersions (now : Binary64)
  | getArtifactVersion (version : Option Int) (now : Binary64)
  | deleteArtifact

/-- What a call returns. -/
inductive Reply where
  | saved (version : Nat)
  | loaded (part : Option Part)
  | versions (versions : List Nat)
  | metas (metas : List ArtifactVersion)
  | metadata (metadata : Option ArtifactVersion)
  | deleted

/-- The method a call runs. -/
def Request.script [ArtifactUtil] (root : Root) (depth : Nat) (a : Address) :
    Request → Action Reply
  | .saveArtifact artifact customMetadata now =>
      .saved <$> Artifacts.saveArtifact root a artifact customMetadata now
  | .loadArtifact version => .loaded <$> Artifacts.loadArtifact root depth a version
  | .listVersions => .versions <$> Artifacts.listVersions root a
  | .listArtifactVersions now => .metas <$> Artifacts.listArtifactVersions root a now
  | .getArtifactVersion version now =>
      .metadata <$> Artifacts.getArtifactVersion root a version now
  | .deleteArtifact => (fun _ => .deleted) <$> Artifacts.deleteArtifact root a

end AgentCluster.Artifacts
