import AgentCluster.Artifacts.Independence
import Mathlib.Logic.Relation

/-!
# Which paths a call touches

An access of a call is confined when its path, with `..` and absolute components resolved, lies strictly
inside the scope directory that the call's app, user and session make for the filename at hand: the
call's own, or that of an artifact it was referred to. References stay within the scope of the call
(`visits_within`). The checks look at the app, the user and the session, not at the filename;
`confined_iff` says for which stored references and which requests every access is confined.
-/

set_option autoImplicit false

namespace AgentCluster.Artifacts

open Python Library Adk.Artifact

/-- The scope directory of an artifact. -/
def scopeLoc (root : Root) (a : Address) : Loc :=
  Loc.resolve (joinPath (joinPath (joinPath root.path a.appName) a.userId) ((scopeName a).getD ""))

/-- Below a place, and not the place itself. -/
def StrictlyInside (scope l : Loc) : Prop := scope <:+ l ∧ l ≠ scope

/-- An access of a call for `c` stays strictly inside the scope of `c` for the filename it is made
for. -/
def Access.Confined (root : Root) (c : Address) (access : Access) : Prop :=
  ∀ a, access.owner = some a →
    StrictlyInside (scopeLoc root { c with filename := a.filename }) (Loc.resolve access.op.path)

theorem strictlyInside_cons {scope l : Loc} {name : String} :
    StrictlyInside scope (name :: l) ↔ scope <:+ l := by
  constructor
  · rintro ⟨hsuffix, hne⟩
    rcases List.suffix_cons_iff.1 hsuffix with heq | hsuffix
    · exact absurd heq.symm hne
    · exact hsuffix
  · intro hsuffix
    refine ⟨hsuffix.trans (List.suffix_cons name l), ?_⟩
    rintro rfl
    have hlength := hsuffix.length_le
    simp at hlength

section Confined

variable [ArtifactUtil] (root : Root) (a : Address)

/-- The version directory of the artifact lies inside its scope; unless one version is named, the
directory itself is listed and must not be the scope directory. -/
def Address.Inside (version : Option Int) : Prop :=
  ∀ directory, artifactDir root a = .ok directory →
    match version with
    | some _ => scopeLoc root a <:+ Loc.resolve directory
    | none => StrictlyInside (scopeLoc root a) (Loc.resolve directory)

/-- The artifact, if it is accepted, has the scope of `c`. -/
def SameScope (c : Address) : Prop :=
  ∀ directory, artifactDir root a = .ok directory →
    scopeLoc root { c with filename := a.filename } = scopeLoc root a

variable {root a} {c : Address} {directory : List String}

theorem sameScope_refl : SameScope root a a := fun _ _ => rfl

theorem confined_of_owner (hc : SameScope root a c) (hdir : artifactDir root a = .ok directory)
    (op : FileOp) (hinside : StrictlyInside (scopeLoc root a) (Loc.resolve op.path)) :
    (Access.mk (some a) op).Confined root c := by
  intro b hb
  cases hb
  rw [hc directory hdir]
  exact hinside

omit [ArtifactUtil] in
/-- The file of a version lies strictly inside the scope when its directory lies inside. -/
theorem inside_version (version : Int) :
    StrictlyInside (scopeLoc root a) (Loc.resolve (directory ++ [intStr version])) ↔
      scopeLoc root a <:+ Loc.resolve directory := by
  rw [Loc.resolve_append_name (isName_intStr version).ne_dotdot, strictlyInside_cons]

theorem Address.Inside.named {version : Option Int} (h : a.Inside root version) (v : Int) :
    a.Inside root (some v) := by
  intro directory hdir
  have hinside := h directory hdir
  cases version with
  | some _ => exact hinside
  | none => exact hinside.1

/-! ## Every call a method can make -/

section Calls

variable (hc : SameScope root a c)
include hc

theorem calls_listVersions (h : a.Inside root none) :
    (listVersions root a).Calls (Access.Confined root c) := by
  rw [listVersions]
  cases hdir : artifactDir root a with
  | error e => trivial
  | ok directory =>
    have hinside := h directory hdir
    refine (Script.calls_perform
      (confined_of_owner hc hdir (.pathExists directory) hinside)).bind fun found => ?_
    cases found with
    | true =>
      refine (Script.calls_perform
        (confined_of_owner hc hdir (.iterdir directory) hinside)).bind fun names => ?_
      exact Script.calls_ofExcept _
    | false => trivial

theorem calls_readEnvelope {version : Int} (h : a.Inside root (some version)) :
    (readEnvelope root a version).Calls (Access.Confined root c) := by
  rw [readEnvelope]
  cases hdir : artifactDir root a with
  | error e =>
    rw [versionPath_eq, hdir]
    trivial
  | ok directory =>
    rw [versionPath_ok hdir]
    have hpath := (inside_version version).2 (h directory hdir)
    refine (Script.calls_perform (confined_of_owner hc hdir (.pathExists _) hpath)).bind fun found => ?_
    cases found with
    | true =>
      refine (Script.calls_perform (confined_of_owner hc hdir (.read _) hpath)).bind fun text => ?_
      exact (Script.calls_ofExcept _).bind fun envelope => trivial
    | false => trivial

theorem calls_chooseVersion {version : Option Int} (h : a.Inside root version) :
    (chooseVersion root a version).Calls (Access.Confined root c) := by
  cases version with
  | some version => trivial
  | none => exact (calls_listVersions hc h).bind fun versions => trivial

theorem calls_findEnvelope {version : Option Int} (h : a.Inside root version) :
    (findEnvelope root a version).Calls (Access.Confined root c) := by
  refine (calls_chooseVersion hc h).bind fun chosen => ?_
  cases chosen with
  | none => trivial
  | some version => exact calls_readEnvelope hc (h.named version)

theorem calls_saveArtifact (h : a.Inside root none) (artifact : Except Error Part)
    (customMetadata : Option Metadata) (now : Binary64) :
    (saveArtifact root a artifact customMetadata now).Calls (Access.Confined root c) := by
  refine (Script.calls_ofExcept _).bind fun part => ?_
  refine (calls_listVersions hc h).bind fun versions => ?_
  refine (Script.calls_ofExcept _).bind fun envelope => ?_
  cases hdir : artifactDir root a with
  | error e =>
    rw [versionPath_eq, hdir]
    trivial
  | ok directory =>
    rw [versionPath_ok hdir]
    have hinside := h directory hdir
    have hpath := (inside_version (nextVersion versions)).2 hinside.1
    show (writeEnvelope a (directory ++ [_]) envelope >>= _).Calls _
    refine Script.Calls.bind ?_ fun _ => trivial
    rw [writeEnvelope, List.dropLast_concat]
    refine (Script.calls_perform (confined_of_owner hc hdir (.mkdirs directory) hinside)).bind fun _ => ?_
    refine (Script.calls_ofExcept _).bind fun text => ?_
    exact Script.calls_perform (confined_of_owner hc hdir (.write _ text) hpath)

theorem calls_deleteVersions {version : Int} (h : a.Inside root (some version))
    (versions : List Nat) :
    (deleteVersions root a versions).Calls (Access.Confined root c) := by
  induction versions with
  | nil => trivial
  | cons v versions ih =>
    rw [deleteVersions]
    cases hdir : artifactDir root a with
    | error e =>
      rw [versionPath_eq, hdir]
      trivial
    | ok directory =>
      rw [versionPath_ok hdir]
      have hpath := (inside_version v).2 (h directory hdir)
      refine (Script.calls_perform (confined_of_owner hc hdir (.pathExists _) hpath)).bind fun found => ?_
      cases found with
      | true =>
        exact (Script.calls_perform (confined_of_owner hc hdir (.unlink _) hpath)).bind fun _ => ih
      | false => exact ih

theorem calls_artifactVersionMeta {version : Int} (h : a.Inside root (some version))
    (now : Binary64) :
    (artifactVersionMeta root a version now).Calls (Access.Confined root c) := by
  refine (calls_readEnvelope hc h).bind fun found => ?_
  cases found with
  | none => trivial
  | some envelope =>
    refine (Script.calls_ofExcept _).bind fun path => ?_
    exact (Script.calls_ofExcept _).bind fun found => trivial

theorem calls_versionMetas (h : ∀ version, a.Inside root (some version)) (now : Binary64)
    (versions : List Nat) :
    (versionMetas root a now versions).Calls (Access.Confined root c) := by
  induction versions with
  | nil => trivial
  | cons version versions ih =>
    refine (calls_artifactVersionMeta hc (h version) now).bind fun found => ?_
    exact ih.bind fun rest => trivial

theorem calls_getArtifactVersion {version : Option Int} (h : a.Inside root version)
    (now : Binary64) :
    (getArtifactVersion root a version now).Calls (Access.Confined root c) := by
  refine (calls_chooseVersion hc h).bind fun chosen => ?_
  cases chosen with
  | none => trivial
  | some version => exact calls_artifactVersionMeta hc (h.named version) now

end Calls

/-! ## References -/

variable [FileOp.ListingOrder] (root) (T : FileTree)

/-- What `load_artifact` looks up: an artifact and a version of it. -/
abbrev Lookup := Address × Option Int

/-- The envelope found for one lookup is a reference whose target is the other. -/
def Refers (x y : Lookup) : Prop :=
  ∃ envelope target, (findEnvelope root x.1 x.2).answer device T = .ok (some envelope) ∧
    partFromEnvelope envelope x.1.appName x.1.userId x.1.sessionId = .ok (.load target) ∧
    y = (targetAddress target, some target.version)

/-- The lookup follows from the first one through references. -/
def Visits : Lookup → Lookup → Prop := Relation.ReflTransGen (Refers root T)

variable {root T} in
theorem refers_unique {x y z : Lookup} (hy : Refers root T x y) (hz : Refers root T x z) : y = z := by
  obtain ⟨envelope, target, hfind, hload, rfl⟩ := hy
  obtain ⟨envelope', target', hfind', hload', rfl⟩ := hz
  rw [hfind] at hfind'
  cases hfind'
  rw [hload] at hload'
  cases hload'
  rfl

/-- The calls of a load: those that find its envelope, and those for the reference it holds. -/
theorem trace_loadArtifact (depth : Nat) (x : Lookup) :
    ((loadArtifact root (depth + 1) x.1 x.2).trace device T =
        (findEnvelope root x.1 x.2).trace device T ∧ ¬∃ y, Refers root T x y) ∨
      ∃ y, Refers root T x y ∧
        (loadArtifact root (depth + 1) x.1 x.2).trace device T =
          (findEnvelope root x.1 x.2).trace device T ++
            (loadArtifact root depth y.1 y.2).trace device T := by
  rw [loadArtifact, (reads_findEnvelope root x.1 x.2).trace_bind]
  -- without an envelope that refers on, the load ends with the lookup
  cases hfind : (findEnvelope root x.1 x.2).answer device T with
  | error e =>
    refine Or.inl ⟨List.append_nil _, ?_⟩
    rintro ⟨y, envelope, target, hfound, -⟩
    rw [hfind] at hfound
    cases hfound
  | ok found =>
  cases found with
  | none =>
    refine Or.inl ⟨List.append_nil _, ?_⟩
    rintro ⟨y, envelope, target, hfound, -⟩
    rw [hfind] at hfound
    cases hfound
  | some envelope =>
  cases hdecode : partFromEnvelope envelope x.1.appName x.1.userId x.1.sessionId with
  | error e =>
    simp only [hdecode]
    refine Or.inl ⟨List.append_nil _, ?_⟩
    rintro ⟨y, envelope', target, hfound, hload, -⟩
    rw [hfind] at hfound
    cases hfound
    rw [hdecode] at hload
    cases hload
  | ok decoded =>
  simp only [hdecode]
  cases decoded with
  | part part =>
    refine Or.inl ⟨List.append_nil _, ?_⟩
    rintro ⟨y, envelope', target, hfound, hload, -⟩
    rw [hfind] at hfound
    cases hfound
    rw [hdecode] at hload
    cases hload
  | load target =>
    -- a reference: the rest of the trace is that of loading its target
    exact Or.inr ⟨(targetAddress target, some target.version),
      ⟨envelope, target, hfind, hdecode, rfl⟩, rfl⟩

variable {root T}

/-- Every access of a load is confined when every lookup it visits is inside its scope. -/
theorem confined_loadArtifact (depth : Nat) (x : Lookup)
    (hc : ∀ y, Visits root T x y → SameScope root y.1 c)
    (h : ∀ y, Visits root T x y → y.1.Inside root y.2) :
    ∀ access ∈ (loadArtifact root depth x.1 x.2).trace device T, access.Confined root c := by
  induction depth generalizing x with
  | zero => exact fun access haccess => absurd haccess List.not_mem_nil
  | succ depth ih =>
    have hfind : ∀ access ∈ (findEnvelope root x.1 x.2).trace device T, access.Confined root c :=
      (calls_findEnvelope (hc x .refl) (h x .refl)).trace T
    rcases trace_loadArtifact root T depth x with ⟨htrace, -⟩ | ⟨y, hrefers, htrace⟩
    · rw [htrace]
      exact hfind
    · rw [htrace, List.forall_mem_append]
      exact ⟨hfind, ih y (fun z hz => hc z (hz.head hrefers)) fun z hz => h z (hz.head hrefers)⟩

/-- A lookup that a load visits is part of the load, given depth enough. -/
theorem trace_of_visits {x y : Lookup} (h : Visits root T x y) (depth : Nat) :
    ∃ depth', (loadArtifact root depth y.1 y.2).trace device T ⊆
      (loadArtifact root depth' x.1 x.2).trace device T := by
  induction h using Relation.ReflTransGen.head_induction_on with
  | refl => exact ⟨depth, List.Subset.refl _⟩
  | @head x z hrefers _ ih =>
    obtain ⟨depth', hsubset⟩ := ih
    refine ⟨depth' + 1, ?_⟩
    rcases trace_loadArtifact root T depth' x with ⟨-, hnone⟩ | ⟨w, hw, htrace⟩
    · exact absurd ⟨z, hrefers⟩ hnone
    · rw [htrace, ← refers_unique hrefers hw]
      exact List.Subset.trans hsubset (List.subset_append_right _ _)

/-! ## References stay in scope -/

omit [FileOp.ListingOrder] in
theorem scope_of_resolveReference {appName userId fileUri : String} {sessionId : Option String}
    {target : ParsedArtifactUri}
    (h : resolveReference appName userId sessionId fileUri = .ok target) :
    ArtifactUtil.validateArtifactReferenceScope appName userId sessionId target = none := by
  rw [resolveReference] at h
  cases hparsed : ArtifactUtil.parseArtifactUri fileUri with
  | none =>
    rw [hparsed] at h
    cases h
  | some parsed =>
    simp only [hparsed] at h
    cases hscope : ArtifactUtil.validateArtifactReferenceScope appName userId sessionId parsed with
    | some message =>
      rw [hscope] at h
      cases h
    | none =>
      rw [hscope] at h
      cases h
      exact hscope

omit [FileOp.ListingOrder] in
/-- A reference is followed only if the framework's check of its scope lets it through. -/
theorem scope_of_load {envelope : Value} {appName userId : String} {sessionId : Option String}
    {target : ParsedArtifactUri}
    (h : partFromEnvelope envelope appName userId sessionId = .ok (.load target)) :
    ArtifactUtil.validateArtifactReferenceScope appName userId sessionId target = none := by
  unfold partFromEnvelope at h
  split at h
  · next d =>
    simp only [apply_ite (· = Except.ok (Decoded.load target)), bind_eq_ok_iff] at h
    -- text and inline data decode to a part
    split_ifs at h with htext hfile
    · obtain ⟨v, -, text, -, h⟩ := h
      cases h
    · obtain ⟨v, -, h⟩ := h
      cases v with
      | str fileUri =>
        simp only at h
        split at h
        · cases hresolve : resolveReference appName userId sessionId fileUri with
          | error e =>
            rw [hresolve] at h
            cases h
          | ok found =>
            rw [hresolve] at h
            cases h
            exact scope_of_resolveReference hresolve
        · obtain ⟨mimeType, -, h⟩ := (bind_eq_ok_iff _ _ _).1 h
          cases h
      | _ => cases h
    · obtain ⟨v, -, data, -, mimeType, -, displayName, -, h⟩ := h
      cases h
  · cases h

/-- In the app and the user of `c`, and in its session or in none. -/
structure InScopeOf (c b : Address) : Prop where
  app : b.appName = c.appName
  user : b.userId = c.userId
  session : ∀ s, b.sessionId = some s → c.sessionId = some s

omit [FileOp.ListingOrder] in
theorem sameScope_of_within (h : InScopeOf c a) : SameScope root a c := by
  intro directory hdir
  obtain ⟨scope, hscope, -⟩ := artifactDir_ok hdir
  have hsame : scopeName { c with filename := a.filename } = scopeName a := by
    rw [hscope]
    rw [scopeName] at hscope ⊢
    split at hscope
    · next hns => rw [if_pos hns, hscope]
    · next hns => rw [if_neg hns, h.session scope hscope]
  rw [scopeLoc, scopeLoc, hsame, h.app, h.user]

/-- What a load looks up stays in the scope of the call. -/
theorem visits_within [ScopedReferences] {version : Option Int} {x : Lookup}
    (h : Visits root T (c, version) x) : InScopeOf c x.1 := by
  induction h with
  | refl => exact ⟨rfl, rfl, fun _ hs => hs⟩
  | tail _ hrefers ih =>
    obtain ⟨envelope, target, -, hload, rfl⟩ := hrefers
    obtain ⟨happ, huser, hsession⟩ := ScopedReferences.within (scope_of_load hload)
    exact ⟨happ.trans ih.app, huser.trans ih.user, fun s hs => ih.session s (hsession s hs)⟩

/-! ## The first call -/

omit [FileOp.ListingOrder] in
theorem starts_listVersions (hdir : artifactDir root a = .ok directory) :
    Script.Starts ⟨some a, .pathExists directory⟩ (listVersions root a) := by
  rw [listVersions, hdir]
  exact (Script.starts_perform _).bind _

omit [FileOp.ListingOrder] in
theorem starts_readEnvelope (hdir : artifactDir root a = .ok directory) (version : Int) :
    Script.Starts ⟨some a, .pathExists (directory ++ [intStr version])⟩
      (readEnvelope root a version) := by
  rw [readEnvelope, versionPath_ok hdir]
  exact (Script.starts_perform _).bind _

/-- The path a method first asks for. -/
def firstPath (directory : List String) : Option Int → List String
  | none => directory
  | some version => directory ++ [intStr version]

omit [FileOp.ListingOrder] in
theorem starts_chosen {α : Type} (hdir : artifactDir root a = .ok directory)
    (version : Option Int) (k : Option Int → Action α)
    (hk : ∀ v, version = some v →
      Script.Starts ⟨some a, .pathExists (directory ++ [intStr v])⟩ (k (some v))) :
    Script.Starts ⟨some a, .pathExists (firstPath directory version)⟩
      (chooseVersion root a version >>= k) := by
  cases version with
  | none => exact ((starts_listVersions hdir).bind _).bind k
  | some v => exact hk v rfl

omit [FileOp.ListingOrder] in
theorem inside_of_confined (hc : SameScope root a c) {version : Option Int}
    (h : ∀ directory, artifactDir root a = .ok directory →
      (Access.mk (some a) (.pathExists (firstPath directory version))).Confined root c) :
    a.Inside root version := by
  intro directory hdir
  have hconfined := h directory hdir a rfl
  rw [hc directory hdir] at hconfined
  cases version with
  | none => exact hconfined
  | some v => exact (inside_version v).1 hconfined

omit [FileOp.ListingOrder] in
theorem starts_findEnvelope (hdir : artifactDir root a = .ok directory) (version : Option Int) :
    Script.Starts ⟨some a, .pathExists (firstPath directory version)⟩
      (findEnvelope root a version) :=
  starts_chosen hdir version _ fun v _ => starts_readEnvelope hdir v

/-! ## Requests -/

variable [ScopedReferences]

/-- The version a request names. -/
def Request.version : Request → Option Int
  | .loadArtifact version => version
  | .getArtifactVersion version _ => version
  | _ => none

/-- What a request looks up: its own artifact, and for a load also what references lead to. -/
def Request.Visits (root : Root) (T : FileTree) (a : Address) (request : Request)
    (x : Lookup) : Prop :=
  match request with
  | .loadArtifact version => Artifacts.Visits root T (a, version) x
  | .saveArtifact artifact _ _ => artifact.isOk = true ∧ x = (a, none)
  | _ => x = (a, request.version)

omit [ScopedReferences] in
/-- A script that first asks for the path of its lookup shows by that access where it is. -/
theorem inside_of_starts (hc : SameScope root a c) {α : Type} {version : Option Int}
    {script : Action α}
    (hstarts : ∀ directory, artifactDir root a = .ok directory →
      Script.Starts ⟨some a, .pathExists (firstPath directory version)⟩ script)
    (h : ∀ access ∈ script.trace device T, access.Confined root c) : a.Inside root version := by
  apply inside_of_confined hc
  intro directory hdir
  exact h _ ((hstarts directory hdir).mem_trace T)

omit [ScopedReferences] in
/-- Confined loads, at every depth, visit only lookups inside their scopes. -/
theorem inside_of_confined_loads {x y : Lookup} (hc : SameScope root y.1 c)
    (hvisits : Visits root T x y)
    (h : ∀ depth, ∀ access ∈ (loadArtifact root depth x.1 x.2).trace device T,
      access.Confined root c) : y.1.Inside root y.2 := by
  obtain ⟨depth, hsubset⟩ := trace_of_visits hvisits 1
  have hstarts : ∀ directory, artifactDir root y.1 = .ok directory →
      Script.Starts ⟨some y.1, .pathExists (firstPath directory y.2)⟩
        (loadArtifact root 1 y.1 y.2) :=
    fun directory hdir => (starts_findEnvelope hdir y.2).bind _
  exact inside_of_starts hc hstarts fun access haccess => h depth access (hsubset haccess)

/-- Every method starts by asking for its directory. -/
theorem inside_of_confined_request {request : Request}
    (h : ∀ depth, ∀ access ∈ (request.script root depth a).trace device T, access.Confined root a)
    {x : Lookup} (hx : request.Visits root T a x) : x.1.Inside root x.2 := by
  cases request with
  | loadArtifact version =>
    simp only [Request.script, Script.trace_map] at h
    exact inside_of_confined_loads (sameScope_of_within (visits_within hx)) hx h
  | saveArtifact artifact customMetadata now =>
    obtain ⟨hok, rfl⟩ := hx
    cases artifact with
    | error e => cases hok
    | ok part =>
    have h0 := h 0
    rw [Request.script, Script.trace_map] at h0
    exact inside_of_starts sameScope_refl (fun directory hdir => (starts_listVersions hdir).bind _) h0
  | listVersions =>
    cases hx
    have h0 := h 0
    rw [Request.script, Script.trace_map] at h0
    exact inside_of_starts sameScope_refl (fun directory hdir => starts_listVersions hdir) h0
  | listArtifactVersions now =>
    cases hx
    have h0 := h 0
    rw [Request.script, Script.trace_map] at h0
    exact inside_of_starts sameScope_refl (fun directory hdir => (starts_listVersions hdir).bind _) h0
  | getArtifactVersion version now =>
    cases hx
    have h0 := h 0
    rw [Request.script, Script.trace_map] at h0
    refine inside_of_starts sameScope_refl (fun directory hdir => starts_chosen hdir version _ ?_) h0
    exact fun v _ => (starts_readEnvelope hdir v).bind _
  | deleteArtifact =>
    cases hx
    have h0 := h 0
    rw [Request.script, Script.trace_map] at h0
    exact inside_of_starts sameScope_refl (fun directory hdir => (starts_listVersions hdir).bind _) h0

/-- All later accesses of a method are for the versions of its directory. -/
theorem confined_request {request : Request}
    (h : ∀ x, request.Visits root T a x → x.1.Inside root x.2) (depth : Nat) :
    ∀ access ∈ (request.script root depth a).trace device T, access.Confined root a := by
  cases request with
  | loadArtifact version =>
    rw [Request.script, Script.trace_map]
    exact confined_loadArtifact depth (a, version)
      (fun y hy => sameScope_of_within (visits_within hy)) h
  | saveArtifact artifact customMetadata now =>
    rw [Request.script, Script.trace_map]
    cases artifact with
    | error e => exact fun access haccess => absurd haccess List.not_mem_nil
    | ok part => exact (calls_saveArtifact sameScope_refl (h _ ⟨rfl, rfl⟩) _ customMetadata now).trace T
  | listVersions =>
    rw [Request.script, Script.trace_map]
    exact (calls_listVersions sameScope_refl (h _ rfl)).trace T
  | listArtifactVersions now =>
    rw [Request.script, Script.trace_map]
    refine ((calls_listVersions sameScope_refl (h _ rfl)).bind fun versions => ?_).trace T
    exact (calls_versionMetas sameScope_refl (h _ rfl).named now versions).bind fun metas => trivial
  | getArtifactVersion version now =>
    rw [Request.script, Script.trace_map]
    exact (calls_getArtifactVersion sameScope_refl (h _ rfl) now).trace T
  | deleteArtifact =>
    rw [Request.script, Script.trace_map]
    refine ((calls_listVersions sameScope_refl (h _ rfl)).bind fun versions => ?_).trace T
    exact calls_deleteVersions sameScope_refl ((h _ rfl).named 0) versions

/-- Every access of a request, whatever the recursion depth, is confined exactly when everything it
looks up is inside its own scope. -/
theorem confined_iff (root : Root) (T : FileTree) (a : Address) (request : Request) :
    (∀ depth, ∀ access ∈ (request.script root depth a).trace device T, access.Confined root a) ↔
      ∀ x, request.Visits root T a x → x.1.Inside root x.2 := by
  constructor
  · intro h x hx
    exact inside_of_confined_request h hx
  · intro h depth
    exact confined_request h depth

end Confined

attribute [local instance] basicUtil FileOp.treeOrder

/-- A load of `b.txt`, which refers to `a.txt`, stays in the session of both. -/
theorem confined_iff_link :
    let T := linkedStorage (Binary64.ofRatio false 1 2)
    ∀ depth, ∀ access ∈ ((Request.loadArtifact none).script dataRoot depth
      (inSession "b.txt")).trace device T, access.Confined dataRoot (inSession "b.txt") := by
  generalize Binary64.ofRatio false 1 2 = now
  intro T
  have hT : T = twoFiles _ _ := linkedStorage_eq now
  have hbuildtext : buildEnvelope 0 { text := some "x" } none "app" "user" (some "s") now =
      .ok (header 0 now none ++ textFields "x") := rfl
  have hbuildlink : buildEnvelope 0 { fileData := some { fileUri := some linkUri } } none "app"
      "user" (some "s") now = .ok (header 0 now none ++ fileFields linkUri none) := rfl
  have htext := text_of_twoFiles (t := Json.dumps (.dict (header 0 now none ++ textFields "x")))
    (l := Json.dumps (.dict (header 0 now none ++ fileFields linkUri none)))
    (Json.loads_dumps (isJson_envelope hbuildtext rfl))
  have hlink := link_of_twoFiles (t := Json.dumps (.dict (header 0 now none ++ textFields "x")))
    (l := Json.dumps (.dict (header 0 now none ++ fileFields linkUri none)))
    (Json.loads_dumps (isJson_envelope hbuildlink rfl))
  rw [← hT] at htext hlink
  have hdecode : partFromEnvelope (.dict (header 0 now none ++ textFields "x"))
      (inSession "a.txt").appName (inSession "a.txt").userId (inSession "a.txt").sessionId =
        .ok (.part { text := some "x" }) := decode_text 0 now none _ _ _ "x"
  have hrefers : Refers dataRoot T (inSession "b.txt", none) (inSession "a.txt", some 0) :=
    ⟨_, ⟨"app", "user", some "s", "a.txt", 0⟩, hlink, rfl, rfl⟩
  have hends : ¬∃ z, Refers dataRoot T (inSession "a.txt", some 0) z := by
    rintro ⟨z, envelope, target, hfind, hload, -⟩
    rw [htext] at hfind
    cases hfind
    rw [hdecode] at hload
    cases hload
  have hlaw := scopedReferences_basicUtil
  refine (confined_iff dataRoot T (inSession "b.txt") (.loadArtifact none)).2 ?_
  intro x hx
  -- the load looks up `b.txt`, then version 0 of `a.txt`, and no more
  rcases Relation.ReflTransGen.cases_head hx with rfl | ⟨y, hy, hrest⟩
  · intro directory hdir
    have hb : artifactDir dataRoot (inSession "b.txt") =
        .ok ["data", "app", "user", "s", "b.txt"] := rfl
    rw [hb] at hdir
    cases hdir
    exact ⟨by decide +kernel, by decide +kernel⟩
  · obtain rfl := refers_unique hrefers hy
    rcases hrest.cases_head with rfl | ⟨z, hz, -⟩
    · intro directory hdir
      have ha : artifactDir dataRoot (inSession "a.txt") =
          .ok ["data", "app", "user", "s", "a.txt"] := rfl
      rw [ha] at hdir
      cases hdir
      show _ <:+ _
      decide +kernel
    · exact absurd ⟨z, hz⟩ hends

/-- An accepted artifact whose filename leads into another session. -/
def otherSession : Address := ⟨"app", "user", some "s1", "../s2/report.txt"⟩

/-- Saving it writes there. -/
theorem otherSession_not_confined :
    artifactDir dataRoot otherSession =
        .ok ["data", "app", "user", "s1", "..", "s2", "report.txt"] ∧
      ∃ access ∈ ((Request.saveArtifact (.ok { text := some "x" }) none
          (Binary64.ofRatio false 1 2)).script dataRoot 1 otherSession).trace device .empty,
        (∃ text, access.op =
          .write ["data", "app", "user", "s1", "..", "s2", "report.txt", "0"] text) ∧
        ¬access.Confined dataRoot otherSession := by
  refine ⟨rfl, _, List.mem_of_getElem? (i := 2) rfl, ⟨_, rfl⟩, ?_⟩
  intro h
  have hsuffix := (h otherSession rfl).1
  revert hsuffix
  decide +kernel

end AgentCluster.Artifacts
