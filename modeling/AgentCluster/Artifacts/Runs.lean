import AgentCluster.Artifacts.Service

/-!
# What the methods do

Each method reduced to what it finds at the paths it builds: the methods that only read by their
answer, `saveArtifact` and `deleteArtifact` by the tree they leave.
-/

set_option autoImplicit false

namespace AgentCluster.Artifacts

open Python Library Adk.Artifact

/-! ## Paths -/

/-- The directory name of the scope of an artifact: the user's namespace or the session. -/
def scopeName (a : Address) : Option String :=
  if fileHasUserNamespace a.filename then some "user" else a.sessionId

/-- The directory of a scope whose ids are single names. -/
def scopePath (root : Root) (appName userId scope : String) : List String :=
  root.path ++ [appName, userId, scope]

section Paths

variable [ArtifactUtil] {root : Root} {a : Address}

omit [ArtifactUtil] in
theorem joinPath_scope {appName userId scope : String} (happ : IsName appName)
    (huser : IsName userId) (hscope : IsName scope) :
    joinPath (joinPath (joinPath root.path appName) userId) scope =
      scopePath root appName userId scope := by
  rw [joinPath_name happ, joinPath_name huser, joinPath_name hscope, scopePath]
  simp

omit [ArtifactUtil] in
theorem isName_user : IsName "user" where
  ne_empty := by decide
  ne_dot := by decide
  ne_dotdot := by decide
  noSlash := by decide

/-- What an accepted artifact's directory is. -/
theorem artifactDir_ok {directory : List String} (h : artifactDir root a = .ok directory) :
    ∃ scope, scopeName a = some scope ∧
      directory = joinPath (joinPath (joinPath (joinPath root.path a.appName) a.userId) scope)
        a.filename := by
  rw [artifactDir] at h
  cases happ : validatePathSegment a.appName "app_name" with
  | error e =>
    rw [happ] at h
    cases h
  | ok _ =>
  cases huser : validatePathSegment a.userId "user_id" with
  | error e =>
    rw [happ, huser] at h
    cases h
  | ok _ =>
  rw [happ, huser] at h
  change (if fileHasUserNamespace a.filename = true then _ else _) = _ at h
  split at h
  · next hns =>
    -- names with the user prefix need no session
    cases h
    exact ⟨"user", if_pos hns, rfl⟩
  · next hns =>
    cases hsession : a.sessionId with
    | none =>
      rw [hsession] at h
      cases h
    | some sessionId =>
      rw [hsession] at h
      cases hvalid : validatePathSegment sessionId "session_id" with
      | error e =>
        simp only [hvalid] at h
        cases h
      | ok _ =>
        simp only [hvalid] at h
        cases h
        exact ⟨sessionId, by rw [scopeName, if_neg hns, hsession], rfl⟩

theorem versionPath_eq (version : Int) :
    versionPath root a version =
      (artifactDir root a).map fun directory => directory ++ [intStr version] := by
  rw [versionPath]
  congr 1
  funext directory
  exact joinPath_name (isName_intStr version) directory

theorem versionPath_ok {directory : List String} (h : artifactDir root a = .ok directory)
    (version : Int) : versionPath root a version = .ok (directory ++ [intStr version]) := by
  rw [versionPath_eq, h]
  rfl

end Paths

/-! ## Methods that only read -/

section Read

variable [FileOp.ListingOrder]

theorem reads_pathExists (owner : Option Address) (path : List String) :
    Script.Reads device (pathExists owner path) := Script.reads_perform fun _ => rfl

theorem reads_iterdir (owner : Option Address) (path : List String) :
    Script.Reads device (iterdir owner path) := by
  apply Script.reads_perform
  intro T
  simp only [device, FileOp.perform]
  split <;> rfl

theorem reads_readText (owner : Option Address) (path : List String) :
    Script.Reads device (readText owner path) := by
  apply Script.reads_perform
  intro T
  simp only [device, FileOp.perform]
  split <;> rfl

theorem reads_files (owner : Option Address) (path : List String) :
    Script.Reads device (files owner path) := by
  apply Script.reads_perform
  intro T
  simp only [device, FileOp.perform]
  split <;> rfl

/-- The version numbers found in a directory. -/
def versionsAt (T : FileTree) (directory : List String) : Except Error (List Nat) :=
  match T.find directory with
  | none => .ok []
  | some .dir =>
      versionsOf (FileOp.ListingOrder.order T (Loc.resolve directory)
        (T.children (Loc.resolve directory)))
  | some (.file _) => .error .os

/-- The envelope found at a path. -/
def envelopeAt (T : FileTree) (path : List String) : Except Error (Option Value) :=
  match T.find path with
  | none => .ok none
  | some .dir => .error .os
  | some (.file text) => (loadsEnvelope text).map some

section Answers

variable {T : FileTree} {path : List String} (owner : Option Address)

theorem answer_pathExists (T : FileTree) (path : List String) :
    (pathExists owner path).answer device T = .ok (T.find path).isSome :=
  Script.answer_perform _ T

theorem answer_iterdir (h : T.find path = some .dir) :
    (iterdir owner path).answer device T =
      .ok (FileOp.ListingOrder.order T (Loc.resolve path) (T.children (Loc.resolve path))) :=
  (Script.answer_perform _ T).trans (congrArg Prod.fst (if_pos h))

theorem answer_iterdir_file {text : String} (h : T.find path = some (.file text)) :
    (iterdir owner path).answer device T = .error .os := by
  have hdir : T.find path ≠ some .dir := by
    rw [h]
    simp
  exact (Script.answer_perform _ T).trans (congrArg Prod.fst (if_neg hdir))

theorem answer_readText (T : FileTree) (path : List String) :
    (readText owner path).answer device T =
      match T.find path with
      | some (.file text) => .ok text
      | _ => .error .os := by
  refine (Script.answer_perform _ T).trans ?_
  simp only [device, FileOp.perform]
  cases T.find path with
  | none => rfl
  | some node => cases node <;> rfl

end Answers

variable [ArtifactUtil] (root : Root) (a : Address)

theorem reads_listVersions : Script.Reads device (listVersions root a) := by
  refine (Script.reads_ofExcept _).bind fun directory => ?_
  refine (reads_pathExists _ _).bind fun found => ?_
  cases found with
  | true => exact (reads_iterdir _ _).bind fun names => Script.reads_ofExcept _
  | false => exact Script.reads_ret []

theorem reads_readEnvelope (version : Int) :
    Script.Reads device (readEnvelope root a version) := by
  refine (Script.reads_ofExcept _).bind fun path => ?_
  refine (reads_pathExists _ _).bind fun found => ?_
  cases found with
  | true =>
    refine (reads_readText _ _).bind fun text => ?_
    exact (Script.reads_ofExcept (loadsEnvelope text)).bind fun envelope => Script.reads_ret _
  | false => exact Script.reads_ret none

theorem reads_chooseVersion (version : Option Int) :
    Script.Reads device (chooseVersion root a version) := by
  cases version with
  | some version => exact Script.reads_ret _
  | none => exact (reads_listVersions root a).bind fun versions => Script.reads_ret _

theorem reads_findEnvelope (version : Option Int) :
    Script.Reads device (findEnvelope root a version) := by
  refine (reads_chooseVersion root a version).bind fun chosen => ?_
  cases chosen with
  | none => exact Script.reads_ret none
  | some version => exact reads_readEnvelope root a version

theorem reads_loadArtifact (depth : Nat) (a : Address) (version : Option Int) :
    Script.Reads device (loadArtifact root depth a version) := by
  induction depth generalizing a version with
  | zero => exact Script.reads_raise _
  | succ depth ih =>
    refine (reads_findEnvelope root a version).bind fun found => ?_
    cases found with
    | none => exact Script.reads_ret none
    | some envelope =>
      refine (Script.reads_ofExcept _).bind fun decoded => ?_
      cases decoded with
      | part part => exact Script.reads_ret _
      | load target => exact ih (targetAddress target) (some target.version)

theorem reads_artifactVersionMeta (version : Int) (now : Binary64) :
    Script.Reads device (artifactVersionMeta root a version now) := by
  refine (reads_readEnvelope root a version).bind fun found => ?_
  cases found with
  | none => exact Script.reads_ret none
  | some envelope =>
    refine (Script.reads_ofExcept _).bind fun path => ?_
    exact (Script.reads_ofExcept _).bind fun found => Script.reads_ret _

theorem reads_getArtifactVersion (version : Option Int) (now : Binary64) :
    Script.Reads device (getArtifactVersion root a version now) := by
  refine (reads_chooseVersion root a version).bind fun chosen => ?_
  cases chosen with
  | none => exact Script.reads_ret none
  | some version => exact reads_artifactVersionMeta root a version now

theorem reads_versionMetas (now : Binary64) (versions : List Nat) :
    Script.Reads device (versionMetas root a now versions) := by
  induction versions with
  | nil => exact Script.reads_ret []
  | cons version versions ih =>
    refine (reads_artifactVersionMeta root a version now).bind fun found => ?_
    exact ih.bind fun rest => Script.reads_ret _

theorem reads_listArtifactVersions (now : Binary64) :
    Script.Reads device (listArtifactVersions root a now) := by
  refine (reads_listVersions root a).bind fun versions => ?_
  exact (reads_versionMetas root a now versions).bind fun metas => Script.reads_ret _

variable (T : FileTree)

theorem answer_listVersions :
    (listVersions root a).answer device T = (artifactDir root a).bind (versionsAt T) := by
  rw [listVersions, (Script.reads_ofExcept _).answer_bind, Script.answer_ofExcept]
  congr 1
  funext directory
  rw [(reads_pathExists _ _).answer_bind, answer_pathExists, versionsAt]
  cases hfind : T.find directory with
  | none => rfl
  | some node =>
    show (iterdir a directory >>= _).answer device T = _
    rw [(reads_iterdir _ _).answer_bind]
    cases node with
    | dir =>
      rw [answer_iterdir _ hfind]
      exact Script.answer_ofExcept _ T
    | file text =>
      rw [answer_iterdir_file _ hfind]
      rfl

theorem answer_readEnvelope (version : Int) :
    (readEnvelope root a version).answer device T =
      (versionPath root a version).bind (envelopeAt T) := by
  rw [readEnvelope, (Script.reads_ofExcept _).answer_bind, Script.answer_ofExcept]
  congr 1
  funext path
  rw [(reads_pathExists _ _).answer_bind, answer_pathExists, envelopeAt]
  cases hfind : T.find path with
  | none => rfl
  | some node =>
    show (readText a path >>= _).answer device T = _
    rw [(reads_readText _ _).answer_bind, answer_readText, hfind]
    cases node with
    | dir => rfl
    | file text =>
      show (Script.ofExcept (loadsEnvelope text) >>= _).answer device T = _
      rw [(Script.reads_ofExcept _).answer_bind, Script.answer_ofExcept]
      show _ = (loadsEnvelope text).map some
      cases loadsEnvelope text <;> rfl

/-- Lookups of an artifact that is not accepted are refused. -/
theorem answer_findEnvelope_error {e : Error} (hdir : artifactDir root a = .error e)
    (version : Option Int) : (findEnvelope root a version).answer device T = .error e := by
  rw [findEnvelope, (reads_chooseVersion root a version).answer_bind]
  cases version with
  | some version =>
    show (readEnvelope root a version).answer device T = _
    rw [answer_readEnvelope, versionPath_eq, hdir]
    rfl
  | none =>
    rw [chooseVersion, (reads_listVersions root a).answer_bind, answer_listVersions, hdir]
    rfl

/-- One step of a load. -/
theorem answer_loadArtifact (depth : Nat) (version : Option Int) :
    (loadArtifact root (depth + 1) a version).answer device T =
      ((findEnvelope root a version).answer device T).bind fun found =>
        match found with
        | none => .ok none
        | some envelope =>
            (partFromEnvelope envelope a.appName a.userId a.sessionId).bind fun decoded =>
              match decoded with
              | .part part => .ok (some part)
              | .load target =>
                  (loadArtifact root depth (targetAddress target) (some target.version)).answer
                    device T := by
  rw [loadArtifact, (reads_findEnvelope root a version).answer_bind]
  congr 1
  funext found
  cases found with
  | none => rfl
  | some envelope =>
    simp only
    rw [(Script.reads_ofExcept _).answer_bind, Script.answer_ofExcept]
    congr 1
    funext decoded
    cases decoded <;> rfl

variable {root a T}

theorem load_of_none {depth : Nat} {version : Option Int}
    (hfind : (findEnvelope root a version).answer device T = .ok none) :
    (loadArtifact root (depth + 1) a version).answer device T = .ok none := by
  rw [answer_loadArtifact, hfind]
  rfl

theorem load_of_part {depth : Nat} {version : Option Int} {envelope : Value} {part : Part}
    (hfind : (findEnvelope root a version).answer device T = .ok (some envelope))
    (hdecode : partFromEnvelope envelope a.appName a.userId a.sessionId = .ok (.part part)) :
    (loadArtifact root (depth + 1) a version).answer device T = .ok (some part) := by
  rw [answer_loadArtifact, hfind]
  simp only [Except.bind, hdecode]

/-- A reference is loaded in place of the artifact. -/
theorem load_of_reference {depth : Nat} {version : Option Int} {envelope : Value}
    {target : ParsedArtifactUri}
    (hfind : (findEnvelope root a version).answer device T = .ok (some envelope))
    (hdecode : partFromEnvelope envelope a.appName a.userId a.sessionId = .ok (.load target)) :
    (loadArtifact root (depth + 1) a version).answer device T =
      (loadArtifact root depth (targetAddress target) (some target.version)).answer device T := by
  rw [answer_loadArtifact, hfind]
  simp only [Except.bind, hdecode]

end Read

/-! ## Saving and deleting -/

theorem dumpsEnvelope_ok {envelope : Dict} {text : String} (h : dumpsEnvelope envelope = .ok text) :
    Json.serializable (.dict envelope) = true ∧ text = Json.dumps (.dict envelope) := by
  rw [dumpsEnvelope, Json.dumpsStrict] at h
  split at h
  · next found hfound =>
    split at hfound
    · next hser =>
      cases hfound
      cases h
      exact ⟨hser, rfl⟩
    · cases hfound
  · cases h

section Write

variable [FileOp.ListingOrder] [ArtifactUtil] (root : Root) (a : Address)

omit [ArtifactUtil] in
theorem run_mkdirs (owner : Option Address) (path : List String) (T : FileTree) :
    (mkdirs owner path).run device T =
      match T.mkdirsFrom [] path with
      | (true, T') => (.ok (), T')
      | (false, T') => (.error .os, T') := Script.run_perform _ T

omit [ArtifactUtil] in
theorem run_writeText (owner : Option Address) (path : List String) (text : String)
    (T : FileTree) :
    (writeText owner path text).run device T =
      match T.walk path with
      | some l => if T.Placeable l then (.ok (), T.place l (.file text)) else (.error .os, T)
      | none => (.error .os, T) := Script.run_perform _ T

omit [ArtifactUtil] in
/-- Writing an envelope makes the directories, then serialises, then writes. -/
theorem run_writeEnvelope (directory : List String) (version : Int) (envelope : Dict)
    (T : FileTree) :
    (writeEnvelope a (directory ++ [intStr version]) envelope).run device T =
      match T.mkdirsFrom [] directory with
      | (false, T₁) => (.error .os, T₁)
      | (true, T₁) =>
          match dumpsEnvelope envelope with
          | .error e => (.error e, T₁)
          | .ok text =>
              if T₁.Placeable (intStr version :: Loc.resolve directory) then
                (.ok (), T₁.place (intStr version :: Loc.resolve directory) (.file text))
              else (.error .os, T₁) := by
  rw [writeEnvelope, List.dropLast_concat, Script.run_bind, run_mkdirs]
  -- the walk to the file is known once the directory is made
  have hwalk := FileTree.walk_of_mkdirsFrom (T := T) (p := directory) (isName_intStr version).ne_dotdot
  generalize T.mkdirsFrom [] directory = made at hwalk
  obtain ⟨made, T₁⟩ := made
  cases made with
  | false => rfl
  | true =>
    show (Script.ofExcept (dumpsEnvelope envelope) >>= _).run device T₁ = _
    rw [(Script.reads_ofExcept _).run_bind, Script.answer_ofExcept]
    cases dumpsEnvelope envelope with
    | error e => rfl
    | ok text =>
      show (writeText a (directory ++ [intStr version]) text).run device T₁ = _
      rw [run_writeText, hwalk rfl]

/-- What a save writes, or why it is refused before it writes. -/
def pendingSave (a : Address) (artifact : Except Error Part) (customMetadata : Option Metadata)
    (now : Binary64) (T : FileTree) : Except Error (List String × Nat × Dict) := do
  let part ← artifact
  let directory ← artifactDir root a
  let versions ← versionsAt T directory
  let envelope ← buildEnvelope (nextVersion versions) part customMetadata a.appName a.userId
    a.sessionId now
  return (directory, nextVersion versions, envelope)

variable {root a}

theorem pendingSave_eq {part : Part} {directory : List String} (customMetadata : Option Metadata)
    (now : Binary64) (T : FileTree) (hdir : artifactDir root a = .ok directory) :
    pendingSave root a (.ok part) customMetadata now T =
      (versionsAt T directory).bind fun versions =>
        (buildEnvelope (nextVersion versions) part customMetadata a.appName a.userId a.sessionId
          now).bind fun envelope => .ok (directory, nextVersion versions, envelope) := by
  rw [pendingSave, hdir]
  rfl

/-- A save that is not refused writes. -/
theorem run_saveArtifact (artifact : Except Error Part) (customMetadata : Option Metadata)
    (now : Binary64) (T : FileTree) :
    (saveArtifact root a artifact customMetadata now).run device T =
      match pendingSave root a artifact customMetadata now T with
      | .error e => (.error e, T)
      | .ok (directory, version, envelope) =>
          match (writeEnvelope a (directory ++ [intStr version]) envelope).run device T with
          | (.ok (), T') => (.ok version, T')
          | (.error e, T') => (.error e, T') := by
  rw [saveArtifact, (Script.reads_ofExcept _).run_bind, Script.answer_ofExcept]
  -- one case for each step at which the save can stop
  cases artifact with
  | error e => rfl
  | ok part =>
  show (listVersions root a >>= _).run device T = _
  rw [(reads_listVersions root a).run_bind, answer_listVersions]
  cases hdir : artifactDir root a with
  | error e =>
    rw [pendingSave, hdir]
    rfl
  | ok directory =>
  have hbind : (Except.ok directory).bind (versionsAt T) = versionsAt T directory := rfl
  rw [pendingSave_eq customMetadata now T hdir, hbind]
  cases versionsAt T directory with
  | error e => rfl
  | ok versions =>
  show (Script.ofExcept (buildEnvelope (nextVersion versions) part customMetadata a.appName a.userId
    a.sessionId now) >>= _).run device T = _
  rw [(Script.reads_ofExcept _).run_bind, Script.answer_ofExcept]
  have hbind : ∀ k : List Nat → Except Error (List String × Nat × Dict),
    (Except.ok versions).bind k = k versions := fun k => rfl
  rw [hbind]
  cases buildEnvelope (nextVersion versions) part customMetadata a.appName a.userId a.sessionId
    now with
  | error e => rfl
  | ok envelope =>
  show (Script.ofExcept (versionPath root a (nextVersion versions)) >>= _).run device T = _
  rw [versionPath_ok hdir, (Script.reads_ofExcept _).run_bind, Script.answer_ofExcept]
  show (writeEnvelope a (directory ++ [intStr (nextVersion versions)]) envelope >>= _).run device T
    = _
  rw [Script.run_bind]
  show _ = match (writeEnvelope a (directory ++ [intStr (nextVersion versions)]) envelope).run
    device T with
  | (.ok (), T') => _
  | (.error e, T') => _
  generalize (writeEnvelope a (directory ++ [intStr (nextVersion versions)]) envelope).run
    device T = written
  obtain ⟨r, T'⟩ := written
  cases r <;> rfl

/-- What a save that is not refused has found. -/
theorem pendingSave_ok {artifact : Except Error Part} {customMetadata : Option Metadata}
    {now : Binary64} {T : FileTree} {directory : List String} {version : Nat} {envelope : Dict}
    (h : pendingSave root a artifact customMetadata now T = .ok (directory, version, envelope)) :
    ∃ part versions, artifact = .ok part ∧ artifactDir root a = .ok directory ∧
      versionsAt T directory = .ok versions ∧ version = nextVersion versions ∧
      buildEnvelope (nextVersion versions) part customMetadata a.appName a.userId a.sessionId now =
        .ok envelope := by
  cases artifact with
  | error e => cases h
  -- each step before the last one succeeded, since the error of a step is that of the whole
  | ok part =>
  cases hdir : artifactDir root a with
  | error e =>
    rw [pendingSave, hdir] at h
    cases h
  | ok found =>
  rw [pendingSave_eq customMetadata now T hdir] at h
  cases hversions : versionsAt T found with
  | error e =>
    rw [hversions] at h
    cases h
  | ok versions =>
  rw [hversions] at h
  change (buildEnvelope (nextVersion versions) part customMetadata a.appName a.userId a.sessionId
    now).bind _ = _ at h
  cases hbuild : buildEnvelope (nextVersion versions) part customMetadata a.appName a.userId
      a.sessionId now with
  | error e =>
    rw [hbuild] at h
    cases h
  | ok built =>
    rw [hbuild] at h
    cases h
    exact ⟨part, versions, rfl, rfl, hversions, rfl, hbuild⟩

/-- What a save does to the tree and answers. -/
theorem save_cases {artifact : Except Error Part} {customMetadata : Option Metadata}
    {now : Binary64} {T T' : FileTree} {r : Except Error Nat}
    (h : (saveArtifact root a artifact customMetadata now).run device T = (r, T')) :
    (∃ e, r = .error e ∧ T' = T) ∨
      ∃ part directory versions envelope, artifact = .ok part ∧
        artifactDir root a = .ok directory ∧ versionsAt T directory = .ok versions ∧
        buildEnvelope (nextVersion versions) part customMetadata a.appName a.userId a.sessionId now =
          .ok envelope ∧
        ((∃ e, r = .error e ∧ T' = (T.mkdirsFrom [] directory).2) ∨
          ∃ text, (T.mkdirsFrom [] directory).1 = true ∧ dumpsEnvelope envelope = .ok text ∧
            (T.mkdirsFrom [] directory).2.Placeable
              (intStr (nextVersion versions) :: Loc.resolve directory) ∧
            r = .ok (nextVersion versions) ∧
            T' = (T.mkdirsFrom [] directory).2.place
              (intStr (nextVersion versions) :: Loc.resolve directory) (.file text)) := by
  rw [run_saveArtifact] at h
  cases hpending : pendingSave root a artifact customMetadata now T with
  | error e =>
    rw [hpending] at h
    cases h
    exact Or.inl ⟨e, rfl, rfl⟩
  | ok pending =>
    obtain ⟨directory, version, envelope⟩ := pending
    obtain ⟨part, versions, hpart, hdir, hversions, rfl, hbuild⟩ := pendingSave_ok hpending
    refine Or.inr ⟨part, directory, versions, envelope, hpart, hdir, hversions, hbuild, ?_⟩
    rw [hpending] at h
    simp only [run_writeEnvelope] at h
    -- the steps of the write: the directory, the text, and the place of the file
    cases hmade : T.mkdirsFrom [] directory with
    | mk made T₁ =>
    rw [hmade] at h
    cases made with
    | false =>
      cases h
      exact Or.inl ⟨.os, rfl, rfl⟩
    | true =>
    cases hdumps : dumpsEnvelope envelope with
    | error e =>
      rw [hdumps] at h
      cases h
      exact Or.inl ⟨e, rfl, rfl⟩
    | ok text =>
    rw [hdumps] at h
    by_cases hplace : T₁.Placeable (intStr (nextVersion versions) :: Loc.resolve directory)
    · simp only [if_pos hplace] at h
      cases h
      exact Or.inr ⟨text, rfl, rfl, hplace, rfl, rfl⟩
    · simp only [if_neg hplace] at h
      cases h
      exact Or.inl ⟨.os, rfl, rfl⟩

/-- A save that meets nothing in its way. -/
theorem run_saveArtifact_ok {part : Part} {customMetadata : Option Metadata} {now : Binary64}
    {T : FileTree} {directory : List String} {versions : List Nat} {envelope : Dict} {text : String}
    (hdir : artifactDir root a = .ok directory) (hversions : versionsAt T directory = .ok versions)
    (hbuild : buildEnvelope (nextVersion versions) part customMetadata a.appName a.userId
      a.sessionId now = .ok envelope)
    (hmade : (T.mkdirsFrom [] directory).1 = true) (hdumps : dumpsEnvelope envelope = .ok text)
    (hplace : (T.mkdirsFrom [] directory).2.Placeable
      (intStr (nextVersion versions) :: Loc.resolve directory)) :
    (saveArtifact root a (.ok part) customMetadata now).run device T =
      (.ok (nextVersion versions), (T.mkdirsFrom [] directory).2.place
        (intStr (nextVersion versions) :: Loc.resolve directory) (.file text)) := by
  rw [run_saveArtifact, pendingSave_eq customMetadata now T hdir, hversions]
  simp only [Except.bind, hbuild, run_writeEnvelope]
  generalize T.mkdirsFrom [] directory = made at hmade hplace
  obtain ⟨made, T₁⟩ := made
  obtain rfl : made = true := hmade
  simp only [hdumps, if_pos hplace]

/-- The files of the given versions in a directory, removed one after the other. -/
def deleteAt (directory : List String) : List Nat → FileTree → Except Error Unit × FileTree
  | [], T => (.ok (), T)
  | version :: versions, T =>
      match T.find (directory ++ [intStr version]) with
      | none => deleteAt directory versions T
      | some .dir => (.error .os, T)
      | some (.file _) =>
          deleteAt directory versions (T.remove (intStr version :: Loc.resolve directory))

omit [ArtifactUtil] in
theorem run_unlink (owner : Option Address) (path : List String) (T : FileTree) :
    (unlink owner path).run device T =
      match T.find path with
      | some (.file _) => (.ok (), T.remove (Loc.resolve path))
      | _ => (.error .os, T) := Script.run_perform _ T

theorem run_deleteVersions {directory : List String} (hdir : artifactDir root a = .ok directory)
    (versions : List Nat) (T : FileTree) :
    (deleteVersions root a versions).run device T = deleteAt directory versions T := by
  induction versions generalizing T with
  | nil => rfl
  | cons version versions ih =>
    rw [deleteVersions, versionPath_ok hdir, (Script.reads_ofExcept _).run_bind,
      Script.answer_ofExcept]
    show (pathExists a (directory ++ [intStr version]) >>= _).run device T = _
    rw [(reads_pathExists _ _).run_bind, answer_pathExists, deleteAt]
    have hunlink := run_unlink a (directory ++ [intStr version]) T
    rw [Loc.resolve_append_name (isName_intStr version).ne_dotdot] at hunlink
    cases hfind : T.find (directory ++ [intStr version]) with
    | none => exact ih T
    | some node =>
      rw [hfind] at hunlink
      show (unlink a (directory ++ [intStr version]) >>= fun _ => deleteVersions root a versions).run
        device T = _
      cases node with
      | dir => rw [Script.run_bind_error hunlink]
      | file text =>
        rw [Script.run_bind_ok hunlink]
        exact ih _

theorem run_deleteArtifact (T : FileTree) :
    (deleteArtifact root a).run device T =
      match artifactDir root a with
      | .error e => (.error e, T)
      | .ok directory =>
          match versionsAt T directory with
          | .error e => (.error e, T)
          | .ok versions => deleteAt directory versions T := by
  rw [deleteArtifact, (reads_listVersions root a).run_bind, answer_listVersions]
  cases hdir : artifactDir root a with
  | error e => rfl
  | ok directory =>
    have hbind : (Except.ok directory).bind (versionsAt T) = versionsAt T directory := rfl
    rw [hbind]
    cases hversions : versionsAt T directory with
    | error e => simp only [hversions]
    | ok versions =>
      simp only [hversions]
      exact run_deleteVersions hdir versions T

end Write

end AgentCluster.Artifacts
