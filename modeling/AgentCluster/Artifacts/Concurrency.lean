import AgentCluster.Artifacts.Location

/-!
# Concurrent saves of one artifact

Any number of saves of one artifact, one step per call to the filesystem. A save takes its version
number from a listing that precedes its write by one step at least, so another save can take the same
number in between; the later write then replaces the earlier one
(`overlappingSaves_lose_version`). What is lost is lost in this way only: as long as no write meets a
file, the versions are distinct and each holds what its own save stored (`keepsVersions`).
-/

set_option autoImplicit false

namespace AgentCluster.Artifacts

open Python Library Adk.Artifact

/-- A save of the artifact. -/
structure SaveCall where
  artifact : Except Error Part
  customMetadata : Option Metadata
  now : Binary64

/-- Running saves. -/
abbrev Saves := Pool FileTree Error Nat SaveCall

/-! ## Saves and their steps -/

section Saves

variable [FileOp.ListingOrder] [ArtifactUtil] (root : Root) (a : Address)

/-- `save_artifact` with each call to the filesystem one step. -/
def SaveCall.program (call : SaveCall) : Program FileTree Error Nat :=
  (saveArtifact root a call.artifact call.customMetadata call.now).program device

/-- What is left of a save that has listed the versions. -/
def storeNext (part : Part) (customMetadata : Option Metadata) (now : Binary64)
    (versions : List Nat) : Action Nat := do
  let version := nextVersion versions
  let envelope ← Script.ofExcept
    (buildEnvelope version part customMetadata a.appName a.userId a.sessionId now)
  let path ← Script.ofExcept (versionPath root a version)
  writeEnvelope a path envelope
  return version

/-- What is left of a save that has found the artifact's directory. -/
def listThenStore (directory : List String) (part : Part) (customMetadata : Option Metadata)
    (now : Binary64) : Action Nat := do
  let names ← iterdir a directory
  let versions ← Script.ofExcept (versionsOf names)
  storeNext root a part customMetadata now versions

/-- What is left of a save that has made the artifact's directory. -/
def writeVersion (path : List String) (version : Nat) (text : String) : Action Nat := do
  writeText a path text
  return version

/-- The next step of the run does not write a version whose file exists. -/
def WritesNew (P : Saves) (action : PoolAction SaveCall) : Prop :=
  ∀ i call (version : Nat) path text, action = .advance i → versionPath root a version = .ok path →
    P.running[i]? = some (call, (writeVersion a path version text).program device) →
      ∀ old, P.state.find path ≠ some (.file old)

/-- The versions that saves have returned. -/
def returned (P : Saves) : List Nat := P.answers.filterMap fun answer => answer.2.toOption

/-- The version holds the envelope of the save, as JSON gives it back, and loading it loads what that
decodes to. -/
def Holds (T : FileTree) (call : SaveCall) (version : Nat) : Prop :=
  ∃ part envelope, call.artifact = .ok part ∧
    buildEnvelope version part call.customMetadata a.appName a.userId a.sessionId call.now =
      .ok envelope ∧
    (findEnvelope root a (some version)).answer device T =
      .ok (some (.dict (Json.seenDict envelope))) ∧
    ∀ decoded, partFromEnvelope (.dict (Json.seenDict envelope)) a.appName a.userId a.sessionId =
        .ok (.part decoded) →
      ∀ depth, (loadArtifact root (depth + 1) a (some version)).answer device T = .ok (some decoded)

/-- No version is returned twice, and each one returned holds what its save stored. -/
structure KeepsVersions (P : Saves) : Prop where
  distinct : (returned P).Nodup
  holds : ∀ call version, (call, Except.ok version) ∈ P.answers → Holds root a P.state call version

/-- The artifact's directory is found, or no version is stored where its path leads. -/
def Settled (T : FileTree) : Prop :=
  ∀ directory, artifactDir root a = .ok directory →
    T.find directory = some .dir ∨
      ∀ version : Nat, T.text? (intStr version :: Loc.resolve directory) = none

end Saves

/-! ## The stages of a save -/

section Stages

variable [FileOp.ListingOrder] [ArtifactUtil] (root : Root) (a : Address) (directory : List String)
  (T₀ : FileTree)

/-- The version a save has chosen, and its envelope. In a settled storage no such version was there
before the run. -/
structure Chosen (call : SaveCall) (version : Nat) (envelope : Dict) : Prop where
  built : ∃ part, call.artifact = .ok part ∧
    buildEnvelope version part call.customMetadata a.appName a.userId a.sessionId call.now =
      .ok envelope
  fresh : Settled root a T₀ → T₀.text? (intStr version :: Loc.resolve directory) = none

/-- Where a running save is. -/
inductive Stage : SaveCall → Program FileTree Error Nat → Prop
  | start (call : SaveCall) : Stage call (call.program root a)
  | list (call : SaveCall) (part : Part) (hpart : call.artifact = .ok part) :
      Stage call ((listThenStore root a directory part call.customMetadata call.now).program device)
  | make (call : SaveCall) (version : Nat) (envelope : Dict)
      (hchosen : Chosen root a directory T₀ call version envelope) :
      Stage call ((writeEnvelope a (directory ++ [intStr version]) envelope >>= fun _ =>
        .ret version).program device)
  | write (call : SaveCall) (version : Nat) (envelope : Dict)
      (hchosen : Chosen root a directory T₀ call version envelope)
      (hser : Json.serializable (.dict envelope) = true) :
      Stage call ((writeVersion a (directory ++ [intStr version]) version
        (Json.dumps (.dict envelope))).program device)

/-- Directories stay, and files with their texts. -/
structure Quiet (T T' : FileTree) : Prop where
  dir : ∀ k, T.get? k = some .dir → T'.get? k = some .dir
  text : ∀ k, T'.text? k = T.text? k

/-- A step that writes a version and ends its save. -/
structure WritesVersion (call : SaveCall) (p : Program FileTree Error Nat) (T T' : FileTree)
    (version : Nat) (envelope : Dict) : Prop where
  chosen : Chosen root a directory T₀ call version envelope
  serializable : Json.serializable (.dict envelope) = true
  program : p = (writeVersion a (directory ++ [intStr version]) version
    (Json.dumps (.dict envelope))).program device
  find : T.find directory = some .dir
  placeable : T.Placeable (intStr version :: Loc.resolve directory)
  written : T' = T.place (intStr version :: Loc.resolve directory)
    (.file (Json.dumps (.dict envelope)))

/-- A save that has not ended, or has failed. -/
def Continues (call : SaveCall) (p : Program FileTree Error Nat) : Prop :=
  Stage root a directory T₀ call p ∧ p.outcome = none ∨ ∃ e, p.outcome = some (.error e)

/-- The next step of a save writes its version and ends it, or touches no file and does not end it
well. -/
def StageSpec (call : SaveCall) (T : FileTree) : Program FileTree Error Nat → Prop
  | .atomic act next =>
      Quiet T (act T) ∧ Continues root a directory T₀ call (next T) ∨
        ∃ version envelope, (next T).outcome = some (.ok version) ∧
          WritesVersion root a directory T₀ call (.atomic act next) T (act T) version envelope
  | _ => True

/-- What a step finds of the storage the run began with. -/
structure Grown (T : FileTree) : Prop where
  dir : ∀ k, T₀.get? k = some .dir → T.get? k = some .dir
  file : ∀ k, (T₀.text? k).isSome → (T.text? k).isSome

variable {root a directory T₀} {T T' : FileTree} {call : SaveCall}

omit [FileOp.ListingOrder] [ArtifactUtil] in
theorem quiet_refl (T : FileTree) : Quiet T T := ⟨fun _ h => h, fun _ => rfl⟩

omit [FileOp.ListingOrder] [ArtifactUtil] in
theorem quiet_mkdirs (T : FileTree) (directory : List String) :
    Quiet T (T.mkdirsFrom [] directory).2 :=
  ⟨fun _ => FileTree.dir_mkdirsFrom FileTree.get?_root,
    FileTree.text?_mkdirsFrom FileTree.get?_root⟩

theorem continues_raise (e : Error) : Continues root a directory T₀ call (.raise e) :=
  Or.inr ⟨e, rfl⟩

theorem stageSpec_exec {β : Type} {f : FileTree → β × FileTree}
    {k : β → Program FileTree Error Nat} :
    StageSpec root a directory T₀ call T (.exec f k) ↔
      Quiet T (f T).2 ∧ Continues root a directory T₀ call (k (f T).1) ∨
        ∃ version envelope, (k (f T).1).outcome = some (.ok version) ∧
          WritesVersion root a directory T₀ call (.exec f k) T (f T).2 version envelope := Iff.rfl

/-- A call that touches no file. -/
theorem stageSpec_of_quiet {access : Access} {next : access.Res → Action Nat}
    {r : Except Error access.Res} (hrun : device access T = (r, T')) (hquiet : Quiet T T')
    (hnext : ∀ x, r = .ok x → Continues root a directory T₀ call ((next x).program device)) :
    StageSpec root a directory T₀ call T (Script.program device (.call access next)) := by
  rw [Script.program_call, stageSpec_exec, hrun]
  refine Or.inl ⟨hquiet, ?_⟩
  cases r with
  | error e => exact continues_raise e
  | ok x => exact hnext x rfl

variable (hdir : artifactDir root a = .ok directory)
include hdir

/-- With the versions listed, the next version is chosen. -/
theorem continues_storeNext {part : Part} {versions : List Nat} (hpart : call.artifact = .ok part)
    (hfresh : Settled root a T₀ →
      T₀.text? (intStr (nextVersion versions) :: Loc.resolve directory) = none) :
    Continues root a directory T₀ call
      ((storeNext root a part call.customMetadata call.now versions).program device) := by
  rw [storeNext]
  cases hbuild : buildEnvelope (nextVersion versions) part call.customMetadata a.appName a.userId
      a.sessionId call.now with
  | error e => exact continues_raise e
  | ok envelope =>
    rw [versionPath_ok hdir]
    exact Or.inl ⟨.make call _ envelope ⟨⟨part, hpart, hbuild⟩, hfresh⟩,
      Script.outcome_program_call _ _⟩

theorem spec_start (hgrown : Grown T₀ T) (call : SaveCall) :
    StageSpec root a directory T₀ call T (call.program root a) := by
  rw [SaveCall.program, saveArtifact]
  cases hpart : call.artifact with
  | error e => trivial
  | ok part =>
  rw [listVersions, hdir]
  have hexists : device ⟨a, .pathExists directory⟩ T = (.ok (T.find directory).isSome, T) := rfl
  apply stageSpec_of_quiet hexists (quiet_refl T)
  intro found hfound
  cases found with
  | true => exact Or.inl ⟨.list call part hpart, Script.outcome_program_call _ _⟩
  | false =>
    apply continues_storeNext hdir hpart
    intro hsettled
    rcases hsettled directory hdir with hdirs | hnone
    · have hfind : T.find directory = some .dir := by
        rw [FileTree.find_eq_dir] at hdirs ⊢
        exact fun k hk => hgrown.dir k (hdirs k hk)
      have hexists : (T.find directory).isSome = false := Except.ok.inj hfound
      rw [hfind] at hexists
      cases hexists
    · exact hnone _

theorem spec_list (hgrown : Grown T₀ T) {part : Part} (hpart : call.artifact = .ok part) :
    StageSpec root a directory T₀ call T
      ((listThenStore root a directory part call.customMetadata call.now).program device) := by
  by_cases hfind : T.find directory = some .dir
  · have hrun : device ⟨a, .iterdir directory⟩ T =
        (.ok (FileOp.ListingOrder.order T (Loc.resolve directory)
          (T.children (Loc.resolve directory))), T) := if_pos hfind
    apply stageSpec_of_quiet hrun (quiet_refl T)
    intro names hnames
    obtain rfl := Except.ok.inj hnames
    show Continues root a directory T₀ call
      ((Script.ofExcept (versionsOf (FileOp.ListingOrder.order T (Loc.resolve directory)
        (T.children (Loc.resolve directory)))) >>=
          storeNext root a part call.customMetadata call.now).program device)
    cases hversions : versionsOf (FileOp.ListingOrder.order T (Loc.resolve directory)
        (T.children (Loc.resolve directory))) with
    | error e => exact continues_raise e
    | ok versions =>
      refine continues_storeNext hdir hpart fun _ => ?_
      by_contra hnone
      -- what was there is listed, and the next version is above all that are listed
      obtain ⟨text, htext⟩ := Option.isSome_iff_exists.1
        (hgrown.file _ (Option.isSome_iff_ne_none.2 hnone))
      refine nextVersion_not_mem versions (mem_of_versionsOf hversions ?_)
      rw [(FileOp.ListingOrder.perm T _ _).mem_iff, FileTree.mem_children,
        FileTree.text?_eq_some.1 htext]
      rfl
  · have hrun : device ⟨a, .iterdir directory⟩ T = (.error .os, T) := if_neg hfind
    apply stageSpec_of_quiet hrun (quiet_refl T)
    intro names hnames
    cases hnames

omit hdir in
theorem spec_make {version : Nat} {envelope : Dict}
    (hchosen : Chosen root a directory T₀ call version envelope) :
    StageSpec root a directory T₀ call T
      ((writeEnvelope a (directory ++ [intStr version]) envelope >>= fun _ =>
        .ret version).program device) := by
  rw [writeEnvelope, List.dropLast_concat]
  -- making directories adds no text, whether it succeeds or stops at a file in the way
  have hquiet := quiet_mkdirs T directory
  cases hmade : T.mkdirsFrom [] directory with
  | mk made T' =>
  rw [hmade] at hquiet
  cases made with
  | false =>
    have hrun : device ⟨a, .mkdirs directory⟩ T = (.error .os, T') := by
      rw [device, FileOp.perform, hmade]
      rfl
    apply stageSpec_of_quiet hrun hquiet
    intro x hx
    cases hx
  | true =>
    have hrun : device ⟨a, .mkdirs directory⟩ T = (.ok (), T') := by
      rw [device, FileOp.perform, hmade]
      rfl
    apply stageSpec_of_quiet hrun hquiet
    intro x _
    -- what is left of the call: serialise the envelope, then write it
    show Continues root a directory T₀ call (((Script.ofExcept (dumpsEnvelope envelope) >>=
      fun text => writeText a (directory ++ [intStr version]) text) >>= fun _ =>
        .ret version).program device)
    cases hdumps : dumpsEnvelope envelope with
    | error e => exact continues_raise e
    | ok text =>
      obtain ⟨hser, rfl⟩ := dumpsEnvelope_ok hdumps
      exact Or.inl ⟨.write call version envelope hchosen hser, Script.outcome_program_call _ _⟩

omit hdir in
theorem spec_write {version : Nat} {envelope : Dict}
    (hchosen : Chosen root a directory T₀ call version envelope)
    (hser : Json.serializable (.dict envelope) = true) :
    StageSpec root a directory T₀ call T ((writeVersion a (directory ++ [intStr version]) version
      (Json.dumps (.dict envelope))).program device) := by
  have hprogram : (writeVersion a (directory ++ [intStr version]) version
      (Json.dumps (.dict envelope))).program device =
        Script.program device (.call ⟨a, .write (directory ++ [intStr version])
          (Json.dumps (.dict envelope))⟩ fun _ => .ret version) := rfl
  -- the write happens where the walk leads, unless a directory is in its place
  cases hwalk : T.walk (directory ++ [intStr version]) with
  | none =>
    have hrun : device ⟨a, .write (directory ++ [intStr version]) (Json.dumps (.dict envelope))⟩ T =
        (.error .os, T) := by
      rw [device, FileOp.perform, hwalk]
      rfl
    apply stageSpec_of_quiet hrun (quiet_refl T)
    intro x hx
    cases hx
  | some l =>
    obtain ⟨hfind, rfl⟩ := FileTree.walk_append_name (isName_intStr version).ne_dotdot hwalk
    by_cases hplace : T.Placeable (intStr version :: Loc.resolve directory)
    · have hrun : device ⟨a, .write (directory ++ [intStr version])
          (Json.dumps (.dict envelope))⟩ T =
            (.ok (), T.place (intStr version :: Loc.resolve directory)
              (.file (Json.dumps (.dict envelope)))) := by
        rw [device, FileOp.perform, hwalk]
        exact if_pos hplace
      rw [hprogram, Script.program_call, stageSpec_exec, hrun]
      refine Or.inr ⟨version, envelope, rfl, hchosen, hser, ?_, hfind, hplace, rfl⟩
      rw [hprogram, Script.program_call]
    · have hrun : device ⟨a, .write (directory ++ [intStr version])
          (Json.dumps (.dict envelope))⟩ T = (.error .os, T) := by
        rw [device, FileOp.perform, hwalk]
        exact if_neg hplace
      apply stageSpec_of_quiet hrun (quiet_refl T)
      intro x hx
      cases hx

theorem Stage.spec (hgrown : Grown T₀ T) {p : Program FileTree Error Nat}
    (h : Stage root a directory T₀ call p) : StageSpec root a directory T₀ call T p := by
  cases h with
  | start => exact spec_start hdir hgrown call
  | list part hpart => exact spec_list hdir hgrown hpart
  | make version envelope hchosen => exact spec_make hchosen
  | write version envelope hchosen hser => exact spec_write hchosen hser

end Stages

/-! ## Steps of the pool -/

section Steps

variable [FileOp.ListingOrder] [ArtifactUtil] {root : Root} {a : Address} {directory : List String}
  {T₀ : FileTree} {P P' : Saves} {action : PoolAction SaveCall}

variable (root a directory T₀) in
/-- Where the running saves are, and where the files of versions come from. -/
structure Tracks (P : Saves) : Prop where
  stages : ∀ cp ∈ P.running, Stage root a directory T₀ cp.1 cp.2
  grown : Grown T₀ P.state
  found : ∀ version : Nat, (P.state.text? (intStr version :: Loc.resolve directory)).isSome →
    (T₀.text? (intStr version :: Loc.resolve directory)).isSome ∨ version ∈ returned P

variable (root a directory T₀) in
/-- The versions returned are distinct, and their files are those of their saves. -/
structure Intact (P : Saves) : Prop where
  distinct : (returned P).Nodup
  files : ∀ call (version : Nat), (call, Except.ok version) ∈ P.answers →
    ∃ envelope, Chosen root a directory T₀ call version envelope ∧
      Json.serializable (.dict envelope) = true ∧ P.state.find directory = some .dir ∧
      P.state.get? (intStr version :: Loc.resolve directory) =
        some (.file (Json.dumps (.dict envelope)))

omit [FileOp.ListingOrder] [ArtifactUtil] in
theorem returned_of_answer {call : SaveCall} {result : Except Error Nat}
    (h : P'.answers = P.answers ++ [(call, result)]) :
    returned P' = returned P ++ result.toOption.toList := by
  rw [returned, h, List.filterMap_append, returned]
  cases result <;> rfl

omit [FileOp.ListingOrder] [ArtifactUtil] in
theorem mem_returned {version : Nat} :
    version ∈ returned P ↔ ∃ call, (call, Except.ok version) ∈ P.answers := by
  rw [returned, List.mem_filterMap]
  constructor
  · rintro ⟨⟨call, result⟩, hmem, hresult⟩
    cases result with
    | error e => cases hresult
    | ok v =>
      cases hresult
      exact ⟨call, hmem⟩
  · rintro ⟨call, hmem⟩
    exact ⟨_, hmem, rfl⟩

omit [FileOp.ListingOrder] [ArtifactUtil] in
/-- A step that touches no file, and may end a save with an error. -/
structure QuietStep (P P' : Saves) : Prop where
  quiet : Quiet P.state P'.state
  answers : P'.answers = P.answers ∨ ∃ call e, P'.answers = P.answers ++ [(call, .error e)]

variable (hdir : artifactDir root a = .ok directory)
include hdir

/-- What a step does. -/
theorem step_effect (h : Tracks root a directory T₀ P)
    (hstep : Pool.step (SaveCall.program root a) P action = some P') :
    (∀ cp ∈ P'.running, Stage root a directory T₀ cp.1 cp.2) ∧
      (QuietStep P P' ∨ ∃ i call p version envelope, action = .advance i ∧
        P.running[i]? = some (call, p) ∧
        WritesVersion root a directory T₀ call p P.state P'.state version envelope ∧
        P'.answers = P.answers ++ [(call, .ok version)]) := by
  rcases Pool.step_cases hstep with ⟨call, -, rfl⟩ | ⟨i, call, act, next, ha, hi, rfl⟩
  -- a call that begins has done nothing yet
  · refine ⟨?_, Or.inl ⟨quiet_refl P.state, Or.inl rfl⟩⟩
    intro cp hcp
    rcases List.mem_append.1 hcp with hcp | hcp
    · exact h.stages cp hcp
    · obtain rfl := List.mem_singleton.1 hcp
      exact .start call
  · have hspec := (h.stages _ (List.mem_of_getElem? hi)).spec hdir h.grown
    have hrest : ∀ cp ∈ P.running.eraseIdx i, Stage root a directory T₀ cp.1 cp.2 :=
      fun cp hcp => h.stages cp (List.mem_of_mem_eraseIdx hcp)
    -- the call goes on, it ends with an error, or it writes its version and ends with it
    rcases hspec with ⟨hquiet, ⟨hstage, hnone⟩ | ⟨e, he⟩⟩ | ⟨version, envelope, hok, hwrites⟩
    · rw [Pool.afterStep_running hnone]
      refine ⟨?_, Or.inl ⟨hquiet, Or.inl rfl⟩⟩
      intro cp hcp
      rcases List.mem_or_eq_of_mem_set hcp with hcp | rfl
      · exact h.stages cp hcp
      · exact hstage
    · rw [Pool.afterStep_answered he]
      exact ⟨hrest, Or.inl ⟨hquiet, Or.inr ⟨call, e, rfl⟩⟩⟩
    · rw [Pool.afterStep_answered hok]
      exact ⟨hrest, Or.inr ⟨i, call, _, version, envelope, ha, hi, hwrites, rfl⟩⟩

omit [FileOp.ListingOrder] [ArtifactUtil] hdir in
theorem QuietStep.returned (h : QuietStep P P') : returned P' = returned P := by
  rcases h.answers with heq | ⟨call, e, heq⟩
  · rw [Artifacts.returned, heq, Artifacts.returned]
  · rw [returned_of_answer heq]
    exact List.append_nil _

theorem Tracks.step (h : Tracks root a directory T₀ P)
    (hstep : Pool.step (SaveCall.program root a) P action = some P') :
    Tracks root a directory T₀ P' := by
  obtain ⟨hstages, hquiet | ⟨i, call, p, version, envelope, -, -, hwrites, hanswers⟩⟩ :=
    step_effect hdir h hstep
  · refine ⟨hstages, ⟨fun k hk => hquiet.quiet.dir k (h.grown.dir k hk), ?_⟩, ?_⟩
    · intro k hk
      rw [hquiet.quiet.text]
      exact h.grown.file k hk
    · intro version hversion
      rw [hquiet.quiet.text] at hversion
      rw [hquiet.returned]
      exact h.found version hversion
  · have hget := FileTree.get?_place hwrites.placeable (.file (Json.dumps (.dict envelope)))
    rw [← hwrites.written] at hget
    refine ⟨hstages, ⟨?_, ?_⟩, ?_⟩
    -- the new file replaces no directory, since a file can only be placed where there is none
    · intro k hk
      rw [hget, if_neg]
      · exact h.grown.dir k hk
      · rintro rfl
        exact hwrites.placeable.2 (h.grown.dir _ hk)
    · intro k hk
      rw [FileTree.text?, hget]
      by_cases heq : k = intStr version :: Loc.resolve directory
      · rw [if_pos heq]
        rfl
      · rw [if_neg heq]
        exact h.grown.file k hk
    -- a version with a file is old, or the one just written, which is now an answer
    · intro v hv
      rw [returned_of_answer hanswers]
      by_cases heq : v = version
      · exact Or.inr (List.mem_append_right _ (List.mem_singleton.2 heq))
      · rw [FileTree.text?, hget, if_neg fun hk => heq (intStr_natCast_inj (List.cons.inj hk).1)]
          at hv
        exact (h.found v hv).imp_right (List.mem_append_left _)

/-- What has been written is kept while no write meets a file. -/
theorem Intact.step (h : Tracks root a directory T₀ P) (hintact : Intact root a directory T₀ P)
    (hnew : WritesNew root a P action)
    (hstep : Pool.step (SaveCall.program root a) P action = some P') :
    Intact root a directory T₀ P' := by
  obtain ⟨-, hquiet | ⟨i, call, p, version, envelope, ha, hi, hwrites, hanswers⟩⟩ :=
    step_effect hdir h hstep
  · refine ⟨by rw [hquiet.returned]; exact hintact.distinct, ?_⟩
    intro call version hmem
    have hold : (call, Except.ok version) ∈ P.answers := by
      rcases hquiet.answers with heq | ⟨call', e, heq⟩
      · rwa [heq] at hmem
      · rw [heq] at hmem
        rcases List.mem_append.1 hmem with hmem | hmem
        · exact hmem
        · cases List.mem_singleton.1 hmem
    obtain ⟨envelope, hchosen, hser, hfind, hfile⟩ := hintact.files call version hold
    refine ⟨envelope, hchosen, hser, ?_, ?_⟩
    · rw [FileTree.find_eq_dir] at hfind ⊢
      exact fun k hk => hquiet.quiet.dir k (hfind k hk)
    · rw [← FileTree.text?_eq_some, hquiet.quiet.text, FileTree.text?_eq_some]
      exact hfile
  · have hget := FileTree.get?_place hwrites.placeable (.file (Json.dumps (.dict envelope)))
    rw [← hwrites.written] at hget
    have hfree := hnew i call version _ _ ha (versionPath_ok hdir version)
      (hi.trans (congrArg (fun p => some (call, p)) hwrites.program))
    have hfind : P'.state.find directory = some .dir := by
      rw [FileTree.find_eq_dir]
      intro k hk
      have hkdir := FileTree.find_eq_dir.1 hwrites.find k hk
      rw [hget, if_neg, hkdir]
      rintro rfl
      exact hwrites.placeable.2 hkdir
    -- the version's file is new, so no save has returned it
    have hunused : version ∉ returned P := by
      intro hmem
      obtain ⟨call', hmem⟩ := mem_returned.1 hmem
      obtain ⟨old, -, -, hdirectory, hold⟩ := hintact.files call' version hmem
      refine hfree (Json.dumps (.dict old)) ?_
      rw [FileTree.find_append_name (isName_intStr version).ne_dotdot, if_pos hdirectory, hold]
    constructor
    · rw [returned_of_answer hanswers]
      exact List.nodup_append.2 ⟨hintact.distinct, List.nodup_singleton _, by
        intro v hv w hw heq
        rw [List.mem_singleton.1 hw] at heq
        exact hunused (heq ▸ hv)⟩
    · intro call' v hmem
      rw [hanswers] at hmem
      rcases List.mem_append.1 hmem with hbefore | hmem
      · obtain ⟨old, hchosen, hser, -, hfile⟩ := hintact.files call' v hbefore
        refine ⟨old, hchosen, hser, hfind, ?_⟩
        rw [hget, if_neg, hfile]
        intro heq
        obtain rfl := intStr_natCast_inj (List.cons.inj heq).1
        exact hunused (mem_returned.2 ⟨call', hbefore⟩)
      · cases List.mem_singleton.1 hmem
        exact ⟨envelope, hwrites.chosen, hwrites.serializable, hfind, by rw [hget, if_pos rfl]⟩

/-- A file written as the envelope of a save holds it. -/
theorem Intact.holds (hintact : Intact root a directory T₀ P) {call : SaveCall} {version : Nat}
    (hmem : (call, Except.ok version) ∈ P.answers) : Holds root a P.state call version := by
  obtain ⟨envelope, ⟨⟨part, hpart, hbuild⟩, -⟩, hser, hdirectory, hfile⟩ :=
    hintact.files call version hmem
  obtain ⟨-, hjson, hsame⟩ := readBack_envelope hbuild
  have hread : (findEnvelope root a (some version)).answer device P.state =
      .ok (some (.dict (Json.seenDict envelope))) := by
    show (readEnvelope root a version).answer device P.state = _
    rw [answer_readEnvelope, versionPath_ok hdir]
    show envelopeAt P.state (directory ++ [intStr version]) = _
    rw [envelopeAt, FileTree.find_append_name (isName_intStr version).ne_dotdot,
      if_pos hdirectory, hfile]
    simp only [loadsEnvelope, ← hsame, Json.loads_dumps hjson]
    rfl
  exact ⟨part, envelope, hpart, hbuild, hread, fun decoded hdecode depth =>
    load_of_part hread hdecode⟩

/-- A write that meets a file of a save returns a version for the second time. -/
theorem writesNew_of_distinct (hsettled : Settled root a T₀) (h : Tracks root a directory T₀ P)
    (hstep : Pool.step (SaveCall.program root a) P action = some P')
    (hdistinct : (returned P').Nodup) : WritesNew root a P action := by
  rintro i call version path text rfl hpath hi old hfind
  rw [versionPath_ok hdir] at hpath
  cases hpath
  obtain ⟨l, hwalk, hl⟩ := Option.bind_eq_some_iff.1 hfind
  obtain ⟨hdirectory, rfl⟩ := FileTree.walk_append_name (isName_intStr version).ne_dotdot hwalk
  -- a file stands where the call is about to write, so that the write goes through
  have hplace : P.state.Placeable (intStr version :: Loc.resolve directory) := by
    refine ⟨FileTree.get?_parent (by rw [hl]; rfl), ?_⟩
    rw [hl]
    simp
  have hrun : device ⟨a, .write (directory ++ [intStr version]) text⟩ P.state =
      (.ok (), P.state.place (intStr version :: Loc.resolve directory) (.file text)) := by
    rw [device, FileOp.perform, hwalk]
    exact if_pos hplace
  have hprogram : (writeVersion a (directory ++ [intStr version]) version text).program device =
      Script.program device (.call ⟨a, .write (directory ++ [intStr version]) text⟩
        fun _ => .ret version) := rfl
  have hspec := (h.stages _ (List.mem_of_getElem? hi)).spec hdir h.grown
  rw [hprogram, Script.program_call] at hi hspec
  rw [stageSpec_exec, hrun] at hspec
  have hanswers : P'.answers = P.answers ++ [(call, .ok version)] :=
    Pool.answers_of_last hi (by rw [hrun]; rfl) hstep
  rcases hspec with ⟨-, ⟨-, hnone⟩ | ⟨e, he⟩⟩ | ⟨v, envelope, hv, hwrites⟩
  · cases hnone
  · cases he
  · cases hv
    rw [returned_of_answer hanswers] at hdistinct
    -- the file that was there belongs to an answered call or was there at the start; both would
    -- give the same version twice
    have hunused : version ∉ returned P := by
      intro hmem
      exact (List.nodup_append.1 hdistinct).2.2 version hmem version (List.mem_singleton_self _) rfl
    have hfound := h.found version (by rw [FileTree.text?_eq_some.2 hl]; rfl)
    rw [hwrites.chosen.fresh hsettled] at hfound
    rcases hfound with hfound | hfound
    · cases hfound
    · exact hunused hfound

end Steps

/-! ## The steps of a save that goes through -/

section SaveSteps

variable [FileOp.ListingOrder] [ArtifactUtil] {root : Root} {a : Address} {directory : List String}
  {P : Saves} {i : Nat} {call : SaveCall} {version : Nat} {envelope : Dict} {text : String}

omit [FileOp.ListingOrder] in
/-- With the versions listed and the envelope built, the rest of the save writes it. -/
theorem storeNext_eq {part : Part} {versions : List Nat} (hdir : artifactDir root a = .ok directory)
    (hbuild : buildEnvelope (nextVersion versions) part call.customMetadata a.appName a.userId
      a.sessionId call.now = .ok envelope) :
    storeNext root a part call.customMetadata call.now versions =
      writeEnvelope a (directory ++ [intStr (nextVersion versions)]) envelope >>= fun _ =>
        .ret (nextVersion versions) := by
  rw [storeNext, hbuild, versionPath_ok hdir]
  rfl

/-- A save of a first version, up to its next call. -/
theorem step_start {part : Part} (hdir : artifactDir root a = .ok directory)
    (hpart : call.artifact = .ok part)
    (hbuild : buildEnvelope (nextVersion []) part call.customMetadata a.appName a.userId a.sessionId
      call.now = .ok envelope)
    (hi : P.running[i]? = some (call, call.program root a))
    (hfind : P.state.find directory = none) :
    Pool.step (SaveCall.program root a) P (.advance i) =
      some { P with running := P.running.set i (call,
        (writeEnvelope a (directory ++ [intStr (nextVersion [])]) envelope >>= fun _ =>
          .ret (nextVersion [])).program device) } := by
  have hrun : device ⟨a, .pathExists directory⟩ P.state = (.ok false, P.state) := by
    rw [device, FileOp.perform, hfind]
    rfl
  rw [SaveCall.program, saveArtifact, hpart, listVersions, hdir] at hi
  have hnone : ((writeEnvelope a (directory ++ [intStr (nextVersion [])]) envelope >>= fun _ =>
      .ret (nextVersion [])).program device).outcome = none := Script.outcome_program_call _ _
  rw [Script.step_call hi hrun]
  show some (P.afterStep i call P.state
    ((storeNext root a part call.customMetadata call.now []).program device)) = _
  rw [storeNext_eq hdir hbuild, Pool.afterStep_running hnone]

/-- A save of a later version finds the directory. -/
theorem step_found {part : Part} (hdir : artifactDir root a = .ok directory)
    (hpart : call.artifact = .ok part) (hi : P.running[i]? = some (call, call.program root a))
    (hfind : P.state.find directory = some .dir) :
    Pool.step (SaveCall.program root a) P (.advance i) =
      some { P with running := P.running.set i (call,
        (listThenStore root a directory part call.customMetadata call.now).program device) } := by
  have hrun : device ⟨a, .pathExists directory⟩ P.state = (.ok true, P.state) := by
    rw [device, FileOp.perform, hfind]
    rfl
  have hnone : ((listThenStore root a directory part call.customMetadata call.now).program
      device).outcome = none := Script.outcome_program_call _ _
  rw [SaveCall.program, saveArtifact, hpart, listVersions, hdir] at hi
  rw [Script.step_call hi hrun]
  exact congrArg some (Pool.afterStep_running hnone)

/-- It takes the next number of those it lists. -/
theorem step_list {part : Part} {names : List String} {versions : List Nat}
    (hdir : artifactDir root a = .ok directory)
    (hbuild : buildEnvelope (nextVersion versions) part call.customMetadata a.appName a.userId
      a.sessionId call.now = .ok envelope)
    (hi : P.running[i]? = some (call,
      (listThenStore root a directory part call.customMetadata call.now).program device))
    (hlisted : device ⟨a, .iterdir directory⟩ P.state = (.ok names, P.state))
    (hversions : versionsOf names = .ok versions) :
    Pool.step (SaveCall.program root a) P (.advance i) =
      some { P with running := P.running.set i (call,
        (writeEnvelope a (directory ++ [intStr (nextVersion versions)]) envelope >>= fun _ =>
          .ret (nextVersion versions)).program device) } := by
  have hnone : ((writeEnvelope a (directory ++ [intStr (nextVersion versions)]) envelope >>=
      fun _ => .ret (nextVersion versions)).program device).outcome = none :=
    Script.outcome_program_call _ _
  rw [Script.step_call hi hlisted]
  show some (P.afterStep i call P.state ((Script.ofExcept (versionsOf names) >>=
    storeNext root a part call.customMetadata call.now).program device)) = _
  rw [hversions]
  show some (P.afterStep i call P.state
    ((storeNext root a part call.customMetadata call.now versions).program device)) = _
  rw [storeNext_eq hdir hbuild, Pool.afterStep_running hnone]

/-- The directory is made. -/
theorem step_make {T' : FileTree} (hdumps : dumpsEnvelope envelope = .ok text)
    (hi : P.running[i]? = some (call,
      (writeEnvelope a (directory ++ [intStr version]) envelope >>= fun _ =>
        .ret version).program device))
    (hmade : P.state.mkdirsFrom [] directory = (true, T')) :
    Pool.step (SaveCall.program root a) P (.advance i) =
      some { P with
        state := T'
        running := P.running.set i (call,
          (writeVersion a (directory ++ [intStr version]) version text).program device) } := by
  have hrun : device ⟨a, .mkdirs directory⟩ P.state = (.ok (), T') := by
    rw [device, FileOp.perform, hmade]
    rfl
  have hnone : ((writeVersion a (directory ++ [intStr version]) version text).program
      device).outcome = none := Script.outcome_program_call _ _
  have hnext : ((Script.ofExcept (dumpsEnvelope envelope) >>= fun text =>
      writeText a (directory ++ [intStr version]) text) >>= fun _ => .ret version) =
        writeVersion a (directory ++ [intStr version]) version text := by
    rw [hdumps]
    rfl
  rw [writeEnvelope, List.dropLast_concat] at hi
  rw [Script.step_call hi hrun]
  show some (P.afterStep i call T' (((Script.ofExcept (dumpsEnvelope envelope) >>= fun text =>
    writeText a (directory ++ [intStr version]) text) >>= fun _ => .ret version).program device)) = _
  rw [hnext, Pool.afterStep_running hnone]

/-- The envelope is written, whatever was there. -/
theorem step_write
    (hi : P.running[i]? = some (call,
      (writeVersion a (directory ++ [intStr version]) version text).program device))
    (hwalk : P.state.walk (directory ++ [intStr version]) =
      some (intStr version :: Loc.resolve directory))
    (hplace : P.state.Placeable (intStr version :: Loc.resolve directory)) :
    Pool.step (SaveCall.program root a) P (.advance i) =
      some {
        state := P.state.place (intStr version :: Loc.resolve directory) (.file text)
        running := P.running.eraseIdx i
        answers := P.answers ++ [(call, .ok version)] } := by
  have hrun : device ⟨a, .write (directory ++ [intStr version]) text⟩ P.state =
      (.ok (), P.state.place (intStr version :: Loc.resolve directory) (.file text)) := by
    rw [device, FileOp.perform, hwalk]
    exact if_pos hplace
  rw [Script.step_call hi hrun]
  exact congrArg some (Pool.afterStep_answered rfl)

end SaveSteps

/-! ## Runs -/

section Runs

variable [FileOp.ListingOrder] [ArtifactUtil] {root : Root} {a : Address} {T₀ : FileTree} {P : Saves}

/-- Saves of an artifact that is not accepted take no step. -/
theorem program_refused {e : Error} (hdir : artifactDir root a = .error e) (call : SaveCall) :
    ∃ e', call.program root a = .raise e' := by
  rw [SaveCall.program, saveArtifact]
  cases call.artifact with
  | error e' => exact ⟨e', rfl⟩
  | ok part =>
    rw [listVersions, hdir]
    exact ⟨e, rfl⟩

theorem answers_refused_saves {e : Error} (hdir : artifactDir root a = .error e)
    {actions : List (PoolAction SaveCall)}
    (hrun : Machine.run (Pool.step (SaveCall.program root a)) (Pool.initial T₀) actions = some P) :
    P.answers = [] := by
  refine (Machine.run_induct (I := fun P : Saves => P.answers = [] ∧
    ∀ cp ∈ P.running, ∃ e, cp.2 = .raise e) ?_ ⟨rfl, fun cp hcp => ?_⟩ hrun).1
  · rintro P action P' ⟨hanswers, hrunning⟩ hstep
    rcases Pool.step_cases hstep with ⟨call, -, rfl⟩ | ⟨i, call, act, next, -, hi, -⟩
    · refine ⟨hanswers, ?_⟩
      intro cp hcp
      rcases List.mem_append.1 hcp with hcp | hcp
      · exact hrunning cp hcp
      · obtain rfl := List.mem_singleton.1 hcp
        exact program_refused hdir call
    · obtain ⟨e, he⟩ := hrunning _ (List.mem_of_getElem? hi)
      cases he
  · cases hcp

theorem tracks_initial {directory : List String} :
    Tracks root a directory T₀ (Pool.initial T₀) :=
  ⟨fun cp hcp => (by cases hcp), ⟨fun _ h => h, fun _ h => h⟩, fun _ h => Or.inl h⟩

variable {actions : List (PoolAction SaveCall)}
  (hrun : Machine.run (Pool.step (SaveCall.program root a)) (Pool.initial T₀) actions = some P)
include hrun

/-- Where the storage is settled at the start, a run that returns distinct versions meets no file
with its writes. -/
theorem along_writesNew (hsettled : Settled root a T₀) (hdistinct : (returned P).Nodup) :
    Machine.Along (Pool.step (SaveCall.program root a)) (WritesNew root a) (Pool.initial T₀)
      actions := by
  cases hdir : artifactDir root a with
  | error e =>
    apply Machine.along_of_forall
    intro action _ Q i call version path text _ hpath
    rw [versionPath_eq, hdir] at hpath
    cases hpath
  | ok directory =>
    refine Machine.along_of_run (I := Tracks root a directory T₀)
      (P := fun Q => (returned Q).Nodup) (fun Q action Q' hQ hstep => hQ.step hdir hstep) ?_ ?_
      tracks_initial hrun hdistinct
    · intro Q action Q' hstep hdistinct
      exact hdistinct.sublist ((Pool.answers_of_step hstep).sublist.filterMap _)
    · exact fun Q action Q' hQ hstep hdistinct =>
        writesNew_of_distinct hdir hsettled hQ hstep hdistinct

/-- A run in which no write meets a file returns distinct versions, each with what its save stored. -/
theorem keepsVersions_of_along
    (halong : Machine.Along (Pool.step (SaveCall.program root a)) (WritesNew root a)
      (Pool.initial T₀) actions) : KeepsVersions root a P := by
  cases hdir : artifactDir root a with
  | error e =>
    have hanswers := answers_refused_saves hdir hrun
    refine ⟨by rw [returned, hanswers]; exact List.nodup_nil, ?_⟩
    intro call version hmem
    rw [hanswers] at hmem
    cases hmem
  | ok directory =>
    have hboth : Tracks root a directory T₀ P ∧ Intact root a directory T₀ P := by
      refine Machine.run_induct_along (I := fun Q => Tracks root a directory T₀ Q ∧
        Intact root a directory T₀ Q) ?_
        ⟨tracks_initial, List.nodup_nil, fun _ _ h => (by cases h)⟩ halong hrun
      rintro Q action Q' ⟨hQ, hintact⟩ hnew hstep
      exact ⟨hQ.step hdir hstep, hintact.step hdir hQ hnew hstep⟩
    exact ⟨hboth.2.distinct, fun call version hmem => hboth.2.holds hdir hmem⟩

/-- In a run in which no write meets a file no version is lost; and where the storage is settled at
the start, in every other run one is. -/
theorem keepsVersions :
    (Machine.Along (Pool.step (SaveCall.program root a)) (WritesNew root a) (Pool.initial T₀)
        actions → KeepsVersions root a P) ∧
      (Settled root a T₀ → KeepsVersions root a P →
        Machine.Along (Pool.step (SaveCall.program root a)) (WritesNew root a) (Pool.initial T₀)
          actions) :=
  ⟨keepsVersions_of_along hrun, fun hsettled hkeeps =>
    along_writesNew hrun hsettled hkeeps.distinct⟩

end Runs

/-! ## Overlapping saves -/

section Overlap

variable [FileOp.ListingOrder] [ArtifactUtil] {root : Root} {a : Address} {directory : List String}

/-- The directory was made on the way from one tree to the other. -/
structure Made (directory : List String) (T T' : FileTree) : Prop where
  made : T.mkdirsFrom [] directory = (true, T')
  dirs : ∀ k ∈ Loc.visited [] directory, T'.get? k = some .dir

namespace Made

variable {T T' : FileTree}

omit [FileOp.ListingOrder] [ArtifactUtil] in
theorem of_way (hway : ∀ k ∈ Loc.visited [] directory, T.text? k = none) :
    Made directory T (T.mkdirsFrom [] directory).2 := by
  have hmade : (T.mkdirsFrom [] directory).1 = true :=
    (FileTree.mkdirsFrom_fst FileTree.get?_root).2 hway
  exact ⟨Prod.ext hmade rfl, FileTree.dirs_of_mkdirsFrom FileTree.get?_root hmade⟩

omit [FileOp.ListingOrder] [ArtifactUtil] in
theorem walk (h : Made directory T T') (version : Int) :
    T'.walk (directory ++ [intStr version]) = some (intStr version :: Loc.resolve directory) := by
  have hwalk := FileTree.walk_of_mkdirsFrom (isName_intStr version).ne_dotdot (congrArg Prod.fst h.made)
  rwa [h.made] at hwalk

omit [FileOp.ListingOrder] [ArtifactUtil] in
/-- What is written below the directory leaves the way to it. -/
theorem place (h : Made directory T T') {name : String} {l : Loc} (hplace : T'.Placeable (name :: l))
    (n : Node) : Made directory (T'.place (name :: l) n) (T'.place (name :: l) n) := by
  have hdirs : ∀ k ∈ Loc.visited [] directory, (T'.place (name :: l) n).get? k = some .dir := by
    intro k hk
    rw [FileTree.get?_place hplace, if_neg, h.dirs k hk]
    rintro rfl
    exact hplace.2 (h.dirs _ hk)
  exact ⟨FileTree.mkdirsFrom_of_dirs hdirs, hdirs⟩

end Made

/-- Two saves of which the second begins in the middle of the first and lists the versions once the
first has written its own. -/
def interleaved (first second : SaveCall) : List (PoolAction SaveCall) :=
  [.begin first, .advance 0, .begin second, .advance 0, .advance 1, .advance 0, .advance 0,
    .advance 0, .advance 0]

/-- Two saves that both look for versions before either writes one. -/
def overlapping (first second : SaveCall) : List (PoolAction SaveCall) :=
  [.begin first, .begin second, .advance 0, .advance 1, .advance 0, .advance 0, .advance 0,
    .advance 0]

variable {first second : SaveCall} {part part' : Part} {envelope envelope' : Dict}
  {text text' : String}

/-- Each returns a version of its own. -/
theorem run_interleaved {T₀ : FileTree} {names : List String} {versions : List Nat}
    (hdir : artifactDir root a = .ok directory) (hfind : T₀.find directory = none)
    (hway : ∀ k ∈ Loc.visited [] directory, T₀.text? k = none)
    (hpart : first.artifact = .ok part) (hpart' : second.artifact = .ok part')
    (hbuild : buildEnvelope (nextVersion []) part first.customMetadata a.appName a.userId a.sessionId
      first.now = .ok envelope)
    (hdumps : dumpsEnvelope envelope = .ok text)
    (hplace : (T₀.mkdirsFrom [] directory).2.Placeable
      (intStr (nextVersion []) :: Loc.resolve directory))
    (hlisted : ∀ T, T = (T₀.mkdirsFrom [] directory).2.place
        (intStr (nextVersion []) :: Loc.resolve directory) (.file text) →
      device ⟨a, .iterdir directory⟩ T = (.ok names, T))
    (hversions : versionsOf names = .ok versions)
    (hbuild' : buildEnvelope (nextVersion versions) part' second.customMetadata a.appName a.userId
      a.sessionId second.now = .ok envelope')
    (hdumps' : dumpsEnvelope envelope' = .ok text')
    (hplace' : ((T₀.mkdirsFrom [] directory).2.place
        (intStr (nextVersion []) :: Loc.resolve directory) (.file text)).Placeable
      (intStr (nextVersion versions) :: Loc.resolve directory)) :
    ∃ P, Machine.run (Pool.step (SaveCall.program root a)) (Pool.initial T₀)
        (interleaved first second) = some P ∧
      P.answers = [(first, .ok (nextVersion [])), (second, .ok (nextVersion versions))] := by
  have hmade := Made.of_way hway
  generalize (T₀.mkdirsFrom [] directory).2 = T₁ at hmade hplace hlisted hplace'
  have hmade' := hmade.place hplace (.file text)
  let make (version : Nat) (envelope : Dict) : Program FileTree Error Nat :=
    (writeEnvelope a (directory ++ [intStr version]) envelope >>= fun _ => .ret version).program
      device
  let write (version : Nat) (text : String) : Program FileTree Error Nat :=
    (writeVersion a (directory ++ [intStr version]) version text).program device
  let list : Program FileTree Error Nat :=
    (listThenStore root a directory part' second.customMetadata second.now).program device
  let T₂ := T₁.place (intStr (nextVersion []) :: Loc.resolve directory) (.file text)
  let step := Pool.step (SaveCall.program root a)
  have hlook : step ⟨T₀, [(first, first.program root a)], []⟩ (.advance 0) =
      some ⟨T₀, [(first, make (nextVersion []) envelope)], []⟩ :=
    step_start hdir hpart hbuild rfl hfind
  have hmake : step ⟨T₀, [(first, make (nextVersion []) envelope),
      (second, second.program root a)], []⟩ (.advance 0) =
        some ⟨T₁, [(first, write (nextVersion []) text), (second, second.program root a)], []⟩ :=
    step_make hdumps rfl hmade.made
  -- the second save finds the directory while the first has not written yet
  have hlook' : step ⟨T₁, [(first, write (nextVersion []) text),
      (second, second.program root a)], []⟩ (.advance 1) =
        some ⟨T₁, [(first, write (nextVersion []) text), (second, list)], []⟩ :=
    step_found hdir hpart' rfl (FileTree.find_eq_dir.2 hmade.dirs)
  have hwrite : step ⟨T₁, [(first, write (nextVersion []) text), (second, list)], []⟩ (.advance 0) =
      some ⟨T₂, [(second, list)], [(first, .ok (nextVersion []))]⟩ := step_write rfl (hmade.walk _) hplace
  have hlist : step ⟨T₂, [(second, list)], [(first, .ok (nextVersion []))]⟩ (.advance 0) =
      some ⟨T₂, [(second, make (nextVersion versions) envelope')],
        [(first, .ok (nextVersion []))]⟩ :=
    step_list hdir hbuild' rfl (hlisted T₂ rfl) hversions
  have hmake' : step ⟨T₂, [(second, make (nextVersion versions) envelope')],
      [(first, .ok (nextVersion []))]⟩ (.advance 0) =
        some ⟨T₂, [(second, write (nextVersion versions) text')],
          [(first, .ok (nextVersion []))]⟩ := step_make hdumps' rfl hmade'.made
  have hwrite' : step ⟨T₂, [(second, write (nextVersion versions) text')],
      [(first, .ok (nextVersion []))]⟩ (.advance 0) =
        some ⟨T₂.place (intStr (nextVersion versions) :: Loc.resolve directory) (.file text'), [],
          [(first, .ok (nextVersion [])), (second, .ok (nextVersion versions))]⟩ :=
    step_write rfl (hmade'.walk _) hplace'
  exact ⟨⟨T₂.place (intStr (nextVersion versions) :: Loc.resolve directory) (.file text'), [],
    [(first, .ok (nextVersion [])), (second, .ok (nextVersion versions))]⟩,
    Machine.run_of_step rfl <| Machine.run_of_step hlook <| Machine.run_of_step rfl <|
      Machine.run_of_step hmake <| Machine.run_of_step hlook' <| Machine.run_of_step hwrite <|
      Machine.run_of_step hlist <| Machine.run_of_step hmake' <| Machine.run_of_step hwrite' rfl,
    rfl⟩

/-- Both return the same version. -/
theorem run_overlapping {T₀ : FileTree} (hdir : artifactDir root a = .ok directory)
    (hfind : T₀.find directory = none) (hway : ∀ k ∈ Loc.visited [] directory, T₀.text? k = none)
    (hplace : (T₀.mkdirsFrom [] directory).2.Placeable
      (intStr (nextVersion []) :: Loc.resolve directory))
    (hpart : first.artifact = .ok part) (hpart' : second.artifact = .ok part')
    (hbuild : buildEnvelope (nextVersion []) part first.customMetadata a.appName a.userId a.sessionId
      first.now = .ok envelope)
    (hbuild' : buildEnvelope (nextVersion []) part' second.customMetadata a.appName a.userId
      a.sessionId second.now = .ok envelope')
    (hdumps : dumpsEnvelope envelope = .ok text) (hdumps' : dumpsEnvelope envelope' = .ok text') :
    ∃ P, Machine.run (Pool.step (SaveCall.program root a)) (Pool.initial T₀)
        (overlapping first second) = some P ∧
      P.answers = [(first, .ok (nextVersion [])), (second, .ok (nextVersion []))] := by
  have hmade := Made.of_way hway
  generalize (T₀.mkdirsFrom [] directory).2 = T₁ at hmade hplace
  have hget := FileTree.get?_place hplace (.file text)
  -- the second save finds the directories made, and the first one's file as good as none
  have hmade' := hmade.place hplace (.file text)
  have hplace' : (T₁.place (intStr (nextVersion []) :: Loc.resolve directory)
      (.file text)).Placeable (intStr (nextVersion []) :: Loc.resolve directory) := by
    refine ⟨FileTree.get?_parent (by rw [hget, if_pos rfl]; rfl), ?_⟩
    rw [hget, if_pos rfl]
    simp
  let make (envelope : Dict) : Program FileTree Error Nat :=
    (writeEnvelope a (directory ++ [intStr (nextVersion [])]) envelope >>= fun _ =>
      .ret (nextVersion [])).program device
  let write (text : String) : Program FileTree Error Nat :=
    (writeVersion a (directory ++ [intStr (nextVersion [])]) (nextVersion []) text).program device
  let T₂ := T₁.place (intStr (nextVersion []) :: Loc.resolve directory) (.file text)
  let step := Pool.step (SaveCall.program root a)
  have hlist : step ⟨T₀, [(first, first.program root a), (second, second.program root a)], []⟩
      (.advance 0) =
        some ⟨T₀, [(first, make envelope), (second, second.program root a)], []⟩ :=
    step_start hdir hpart hbuild rfl hfind
  have hlist' : step ⟨T₀, [(first, make envelope), (second, second.program root a)], []⟩
      (.advance 1) = some ⟨T₀, [(first, make envelope), (second, make envelope')], []⟩ :=
    step_start hdir hpart' hbuild' rfl hfind
  have hmake : step ⟨T₀, [(first, make envelope), (second, make envelope')], []⟩ (.advance 0) =
      some ⟨T₁, [(first, write text), (second, make envelope')], []⟩ :=
    step_make hdumps rfl hmade.made
  have hwrite : step ⟨T₁, [(first, write text), (second, make envelope')], []⟩ (.advance 0) =
      some ⟨T₂, [(second, make envelope')], [(first, .ok (nextVersion []))]⟩ :=
    step_write rfl (hmade.walk _) hplace
  have hmake' : step ⟨T₂, [(second, make envelope')], [(first, .ok (nextVersion []))]⟩
      (.advance 0) = some ⟨T₂, [(second, write text')], [(first, .ok (nextVersion []))]⟩ :=
    step_make hdumps' rfl hmade'.made
  have hwrite' : step ⟨T₂, [(second, write text')], [(first, .ok (nextVersion []))]⟩ (.advance 0) =
      some ⟨T₂.place (intStr (nextVersion []) :: Loc.resolve directory) (.file text'), [],
        [(first, .ok (nextVersion [])), (second, .ok (nextVersion []))]⟩ :=
    step_write rfl (hmade'.walk _) hplace'
  exact ⟨⟨T₂.place (intStr (nextVersion []) :: Loc.resolve directory) (.file text'), [],
    [(first, .ok (nextVersion [])), (second, .ok (nextVersion []))]⟩,
    Machine.run_of_step rfl <| Machine.run_of_step rfl <| Machine.run_of_step hlist <|
      Machine.run_of_step hlist' <| Machine.run_of_step hmake <| Machine.run_of_step hwrite <|
      Machine.run_of_step hmake' <| Machine.run_of_step hwrite' rfl, rfl⟩

end Overlap

attribute [local instance] basicUtil FileOp.treeOrder

/-- A save of a text. -/
def savesText (text : String) (now : Binary64) : SaveCall := ⟨.ok { text := some text }, none, now⟩

/-- Two saves of `a.txt` at the same time, of which the second looks for versions after the first has
written, lose nothing. -/
theorem keepsVersions_interleaved :
    let first := savesText "x" (Binary64.ofRatio false 1 2)
    let second := savesText "y" (Binary64.ofRatio false 1 2)
    ∃ P, Machine.run (Pool.step (SaveCall.program dataRoot (inSession "a.txt")))
        (Pool.initial .empty) (interleaved first second) = some P ∧
      P.answers = [(first, .ok 0), (second, .ok 1)] ∧
      KeepsVersions dataRoot (inSession "a.txt") P := by
  intro first second
  have ha : artifactDir dataRoot (inSession "a.txt") = .ok ["data", "app", "user", "s", "a.txt"] :=
    rfl
  have hway : ∀ k ∈ Loc.visited [] ["data", "app", "user", "s", "a.txt"],
      FileTree.empty.text? k = none := by decide +kernel
  have hplace : (FileTree.empty.mkdirsFrom [] ["data", "app", "user", "s", "a.txt"]).2.Placeable
      ["0", "a.txt", "s", "user", "app", "data"] := by decide +kernel
  obtain ⟨P, hrun, hanswers⟩ : ∃ P, Machine.run (Pool.step (SaveCall.program dataRoot
      (inSession "a.txt"))) (Pool.initial .empty) (interleaved first second) = some P ∧
        P.answers = [(first, .ok 0), (second, .ok 1)] := by
    refine @run_interleaved _ _ _ _ _ _ _ _ _ _ _ _ _ _ ["0"] [0] ha rfl hway rfl rfl rfl rfl hplace
      ?_ rfl rfl rfl ?_
    · rintro T rfl
      rfl
    · decide +kernel
  have hsettled : Settled dataRoot (inSession "a.txt") .empty :=
    fun _ _ => Or.inr fun version => rfl
  have hdistinct : (returned P).Nodup := by
    rw [returned, hanswers]
    decide
  exact ⟨P, hrun, hanswers, (keepsVersions hrun).1 (along_writesNew hrun hsettled hdistinct)⟩

/-- Two overlapping saves of `a.txt` both return version 0, which can hold only one of them. -/
theorem overlappingSaves_lose_version :
    let first := savesText "x" (Binary64.ofRatio false 1 2)
    let second := savesText "y" (Binary64.ofRatio false 1 2)
    ∃ P, Machine.run (Pool.step (SaveCall.program dataRoot (inSession "a.txt")))
        (Pool.initial .empty) (overlapping first second) = some P ∧
      P.answers = [(first, .ok 0), (second, .ok 0)] ∧
      ¬KeepsVersions dataRoot (inSession "a.txt") P := by
  intro first second
  have ha : artifactDir dataRoot (inSession "a.txt") = .ok ["data", "app", "user", "s", "a.txt"] :=
    rfl
  have hway : ∀ k ∈ Loc.visited [] ["data", "app", "user", "s", "a.txt"],
      FileTree.empty.text? k = none := by decide +kernel
  obtain ⟨P, hrun, hanswers⟩ : ∃ P, Machine.run (Pool.step (SaveCall.program dataRoot
      (inSession "a.txt"))) (Pool.initial .empty) (overlapping first second) = some P ∧
        P.answers = [(first, .ok 0), (second, .ok 0)] :=
    run_overlapping ha rfl hway (by decide +kernel) rfl rfl rfl rfl rfl rfl
  refine ⟨P, hrun, hanswers, ?_⟩
  intro hkeeps
  have hdistinct := hkeeps.distinct
  rw [returned, hanswers] at hdistinct
  exact absurd hdistinct (by decide)

end AgentCluster.Artifacts
