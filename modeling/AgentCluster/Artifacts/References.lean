import AgentCluster.Artifacts.Confinement
import AgentCluster.Artifacts.Independence
import AgentCluster.Artifacts.Storage

/-!
# Following references

A load goes from a stored `artifact://` reference to its target, which may be a reference again.
Nothing keeps a save from storing a reference that leads back to the version being written, be it
that very version or one deleted and written anew. As long as no save does that (`ClosesNoCircle`), and
the artifacts that are saved, referred to and loaded have separate directories, every load comes to an
end (`references_end`); a version that refers to itself is followed for ever
(`selfReference_never_ends`).
-/

set_option autoImplicit false

namespace AgentCluster.Artifacts

open Python Library Adk.Artifact

/-! ## Steps added to a relation without infinite descent -/

section Added

variable {α : Type*} {R R' : α → α → Prop} {N : α → Prop}

/-- What reaches no step at `N` through the old steps is accessible for the new ones. -/
theorem acc_of_avoids (hold : ∀ x y, ¬N x → R' x y → R x y) {x : α}
    (h : Acc (fun y x => R x y) x)
    (havoid : ∀ z, Relation.ReflTransGen R x z → N z → ∀ w, ¬R' z w) :
    Acc (fun y x => R' x y) x := by
  induction h with
  | intro x _ ih =>
    refine Acc.intro _ fun y hxy => ?_
    by_cases hN : N x
    · exact absurd hxy (havoid x .refl hN y)
    · have hR := hold x y hN hxy
      exact ih y hR fun z hz => havoid z (hz.head hR)

/-- Steps added at `N` that do not lead back to such a step add no infinite descent. -/
theorem wellFounded_of_added (hold : ∀ x y, ¬N x → R' x y → R x y)
    (hnew : ∀ x y, N x → R' x y → ∀ z, Relation.ReflTransGen R y z → N z → ∀ w, ¬R' z w)
    (h : WellFounded fun y x => R x y) : WellFounded fun y x => R' x y := by
  constructor
  intro x
  induction h.apply x with
  | intro x _ ih =>
    refine Acc.intro _ fun y hxy => ?_
    by_cases hN : N x
    · exact acc_of_avoids hold (h.apply y) (hnew x y hN hxy)
    · exact ih y (hold x y hN hxy)

end Added

section References

variable [FileOp.ListingOrder] [ArtifactUtil]

/-! ## Stored references -/

omit [FileOp.ListingOrder] in
/-- The part is stored as a reference. -/
structure StoredReference (part : Part) (uri : String) (target : ParsedArtifactUri) : Prop where
  inlineData : part.inlineData = none
  text : part.text = none
  fileUri : part.fileData.bind FileData.fileUri = some uri
  scheme : startsWith uri "artifact://" = true
  parsed : ArtifactUtil.parseArtifactUri uri = some target

/-- The save does not store a reference from whose target the version it writes is reached, where
the reference would be followed again. -/
def Request.ClosesNoCircle (root : Root) (T : FileTree) (a : Address) : Request → Prop
  | .saveArtifact (.ok part) _ _ =>
      ∀ versions uri target, (Artifacts.listVersions root a).answer device T = .ok versions →
        StoredReference part uri target →
        ∀ b v, Artifacts.Visits root T (targetAddress target, some target.version) (b, some v) →
          versionPath root b v = versionPath root a (nextVersion versions) →
          ∀ found, resolveReference b.appName b.userId b.sessionId uri ≠ .ok found
  | _ => True

/-- No call of the run closes a circle of references. -/
def NoCircle (root : Root) (depth : Nat) : FileTree → List (Address × Request) → Prop
  | _, [] => True
  | T, (a, request) :: requests =>
      request.ClosesNoCircle root T a ∧
        NoCircle root depth ((request.script root depth a).run device T).2 requests

omit [FileOp.ListingOrder] in
/-- The artifact has its directory in the set, unless it is refused. -/
def DirectoryIn (S : List String → Prop) (root : Root) (a : Address) : Prop :=
  ∀ directory, artifactDir root a = .ok directory → S directory

omit [FileOp.ListingOrder] in
/-- A save of an artifact with its directory in the set, and of a reference only to such an artifact. -/
structure Placed (S : List String → Prop) (root : Root) (a : Address) (part : Part) : Prop where
  own : DirectoryIn S root a
  target : ∀ uri target, StoredReference part uri target →
    DirectoryIn S root (targetAddress target)

/-- A load ends: from some depth on, with one and the same part, `None` or `InputValidationError`. -/
def Ends (root : Root) (T : FileTree) (x : Lookup) : Prop :=
  ∃ depth r, (∀ d, depth ≤ d → (loadArtifact root d x.1 x.2).answer device T = r) ∧
    ((∃ part, r = .ok part) ∨ ∃ message, r = .error (.inputValidation message))

variable {S : List String → Prop} {root : Root} {T T' : FileTree} {a b : Address} {part : Part}

omit [FileOp.ListingOrder] in
theorem resolveReference_ok {appName userId uri : String} {sessionId : Option String}
    {target : ParsedArtifactUri} (h : resolveReference appName userId sessionId uri = .ok target) :
    ArtifactUtil.parseArtifactUri uri = some target := by
  rw [resolveReference] at h
  cases hparsed : ArtifactUtil.parseArtifactUri uri with
  | none =>
    rw [hparsed] at h
    cases h
  | some parsed =>
    simp only [hparsed] at h
    split at h
    · cases h
    · cases h
      rfl

omit [FileOp.ListingOrder] in
theorem resolveReference_error {appName userId uri : String} {sessionId : Option String}
    {e : Error} (h : resolveReference appName userId sessionId uri = .error e) :
    ∃ message, e = .inputValidation message := by
  rw [resolveReference] at h
  split at h
  · cases h
    exact ⟨_, rfl⟩
  · split at h
    · cases h
      exact ⟨_, rfl⟩
    · cases h

omit [FileOp.ListingOrder] in
theorem artifactDir_error {e : Error} (h : artifactDir root a = .error e) :
    ∃ message, e = .inputValidation message := by
  -- each segment that is refused says so in an input validation error
  have hsegment : ∀ {value field e}, validatePathSegment value field = .error e →
      ∃ message, e = Error.inputValidation message := by
    intro value field e h
    rw [validatePathSegment] at h
    split at h
    · cases h
      exact ⟨_, rfl⟩
    · cases h
  rw [artifactDir] at h
  cases happ : validatePathSegment a.appName "app_name" with
  | error e' =>
    rw [happ] at h
    cases h
    exact hsegment happ
  | ok _ =>
  cases huser : validatePathSegment a.userId "user_id" with
  | error e' =>
    rw [happ, huser] at h
    cases h
    exact hsegment huser
  | ok _ =>
  rw [happ, huser] at h
  change (if fileHasUserNamespace a.filename = true then _ else _) = _ at h
  split at h
  · cases h
  · cases hsession : a.sessionId with
    | none =>
      rw [hsession] at h
      cases h
      exact ⟨_, rfl⟩
    | some sessionId =>
      rw [hsession] at h
      cases hvalid : validatePathSegment sessionId "session_id" with
      | error e' =>
        simp only [hvalid] at h
        cases h
        exact hsegment hvalid
      | ok _ =>
        simp only [hvalid] at h
        cases h

omit [FileOp.ListingOrder] in
/-- The envelope of a save decodes to a part or to the call for the reference that was saved, or it
is refused. -/
theorem decode_cases (appName userId : String) (sessionId : Option String) {version : Int}
    {customMetadata : Option Metadata} {now : Binary64} {envelope : Dict}
    (hbuild : buildEnvelope version part customMetadata a.appName a.userId a.sessionId now =
      .ok envelope) :
    (∃ found, partFromEnvelope (.dict envelope) appName userId sessionId = .ok (.part found)) ∨
      (∃ uri target, StoredReference part uri target ∧
        resolveReference appName userId sessionId uri = .ok target ∧
        partFromEnvelope (.dict envelope) appName userId sessionId = .ok (.load target)) ∨
      ∃ message, partFromEnvelope (.dict envelope) appName userId sessionId =
        .error (.inputValidation message) := by
  obtain ⟨fields, hfields, rfl⟩ := buildEnvelope_ok hbuild
  -- only a file with an artifact URI can ask for another load
  rcases payloadFields_cases hfields with ⟨blob, -, rfl⟩ | ⟨text, -, -, rfl⟩ |
    ⟨fileData, fileUri, hinline, htext, hdata, huri, -, rfl⟩
  · exact Or.inl ⟨_, decode_inline version now customMetadata _ _ _ blob⟩
  · exact Or.inl ⟨_, decode_text version now customMetadata _ _ _ text⟩
  · cases hscheme : startsWith fileUri "artifact://" with
    | false => exact Or.inl ⟨_, decode_file version now customMetadata _ _ _ _ hscheme⟩
    | true =>
      have hdecode := decode_reference version now customMetadata appName userId sessionId
        fileData.mimeType hscheme
      right
      -- the URI is resolved again when it is read, in the session that reads it
      cases hresolve : resolveReference appName userId sessionId fileUri with
      | error e =>
        obtain ⟨message, rfl⟩ := resolveReference_error hresolve
        rw [hresolve] at hdecode
        exact Or.inr ⟨message, hdecode⟩
      | ok target =>
        rw [hresolve] at hdecode
        refine Or.inl ⟨fileUri, target, ?_, hresolve, hdecode⟩
        exact ⟨hinline, htext, by rw [hdata]; exact huri, hscheme, resolveReference_ok hresolve⟩

/-! ## Where references lead -/

/-- A version of an artifact with its directory in the set. -/
structure Named (S : List String → Prop) (root : Root) (x : Lookup) : Prop where
  directory : DirectoryIn S root x.1
  version : x.2.isSome = true

/-- A reference met at such a version. -/
def Follows (S : List String → Prop) (root : Root) (T : FileTree) (x y : Lookup) : Prop :=
  Named S root x ∧ Refers root T x y

/-- No path of references is infinite. -/
def Acyclic (S : List String → Prop) (root : Root) (T : FileTree) : Prop :=
  WellFounded fun y x => Follows S root T x y

omit [FileOp.ListingOrder] in
theorem within_placed : Within S root (Placed S root) := fun _ _ directory hq => hq.own directory

theorem answer_findEnvelope_some (root : Root) (b : Address) (T : FileTree) (v : Int) :
    (findEnvelope root b (some v)).answer device T =
      (versionPath root b v).bind (envelopeAt T) := by
  rw [findEnvelope, (reads_chooseVersion root b (some v)).answer_bind]
  exact answer_readEnvelope root b T v

section Lookup

variable (hS : Separate root S)
include hS

omit [FileOp.ListingOrder] [ArtifactUtil] in
/-- What a lookup of a version finds depends on the node at its path. -/
theorem Separate.find_version {directory : List String} (hdirectory : S directory) (T : FileTree)
    (v : Int) : T.find (directory ++ [intStr v]) = T.get? (intStr v :: Loc.resolve directory) :=
  FileTree.find_down_append (hS.down directory hdirectory) (isName_intStr v).ne_dotdot

theorem refers_congr {v : Int} {y : Lookup} (hb : DirectoryIn S root b)
    (hget : ∀ directory, artifactDir root b = .ok directory →
      T'.get? (intStr v :: Loc.resolve directory) = T.get? (intStr v :: Loc.resolve directory) ∨
        T'.get? (intStr v :: Loc.resolve directory) = none)
    (h : Refers root T' (b, some v) y) : Refers root T (b, some v) y := by
  obtain ⟨envelope, target, hfind, hload, rfl⟩ := h
  refine ⟨envelope, target, ?_, hload, rfl⟩
  rw [answer_findEnvelope_some] at hfind ⊢
  cases hdir : artifactDir root b with
  | error e =>
    rw [versionPath_eq, hdir] at hfind
    cases hfind
  | ok directory =>
    rw [versionPath_ok hdir] at hfind ⊢
    change envelopeAt T' (directory ++ [intStr v]) = _ at hfind
    change envelopeAt T (directory ++ [intStr v]) = _
    rw [envelopeAt, hS.find_version (hb directory hdir)] at hfind ⊢
    rcases hget directory hdir with heq | hnone
    · rw [← heq]
      exact hfind
    · rw [hnone] at hfind
      cases hfind

/-- A reference met where an envelope was written is the one that was saved. -/
theorem refers_written {v : Int} {y : Lookup} {directory : List String} {envelope : Dict}
    {version : Int} {customMetadata : Option Metadata} {now : Binary64}
    (hdir : artifactDir root b = .ok directory) (hdirectory : S directory)
    (hbuild : buildEnvelope version part customMetadata a.appName a.userId a.sessionId now =
      .ok envelope)
    (hjson : (Value.dict envelope).isJson = true)
    (hget : T.get? (intStr v :: Loc.resolve directory) =
      some (.file (Json.dumps (.dict envelope))))
    (h : Refers root T (b, some v) y) :
    ∃ uri target, StoredReference part uri target ∧
      resolveReference b.appName b.userId b.sessionId uri = .ok target ∧
      y = (targetAddress target, some target.version) := by
  obtain ⟨found, target, hfind, hload, rfl⟩ := h
  rw [answer_findEnvelope_some, versionPath_ok hdir] at hfind
  change envelopeAt T (directory ++ [intStr v]) = _ at hfind
  rw [envelopeAt, hS.find_version hdirectory, hget] at hfind
  simp only [loadsEnvelope, Json.loads_dumps hjson] at hfind
  obtain rfl : Value.dict envelope = found := Option.some.inj (Except.ok.inj hfind)
  -- the envelope was built by a save, so what it refers to is what the save stored
  rcases decode_cases b.appName b.userId b.sessionId hbuild with ⟨found, hpart⟩ |
    ⟨uri, target', hstored, hresolve, hload'⟩ | ⟨message, herror⟩
  · rw [hpart] at hload
    cases hload
  · rw [hload'] at hload
    cases hload
    exact ⟨uri, target, hstored, hresolve, rfl⟩
  · rw [herror] at hload
    cases hload

end Lookup

/-! ## Runs -/

section Runs

variable (hS : Separate root S)
include hS

/-- A reference is met in both trees at a version whose file did not change. -/
theorem Follows.of_kept {x y : Lookup} (hxy : Follows S root T' x y)
    (horderly : Orderly (Placed S root) root T')
    (hget : ∀ v directory, x.2 = some v → artifactDir root x.1 = .ok directory →
      T'.get? (intStr v :: Loc.resolve directory) = T.get? (intStr v :: Loc.resolve directory) ∨
        T'.get? (intStr v :: Loc.resolve directory) = none ∨
        T'.get? (intStr v :: Loc.resolve directory) = some .dir) : Follows S root T x y := by
  obtain ⟨b, version⟩ := x
  obtain ⟨hnamed, hrefers⟩ := hxy
  obtain ⟨v, rfl⟩ := Option.isSome_iff_exists.1 hnamed.version
  refine ⟨hnamed, refers_congr hS hnamed.directory ?_ hrefers⟩
  intro directory hdir
  rcases hget v directory rfl hdir with heq | hnone | hnode
  · exact Or.inl heq
  · exact Or.inr hnone
  · obtain ⟨text, hfile, -⟩ := horderly.written hS within_placed (hnamed.directory directory hdir)
      (isVersion_intStr v) hnode
    cases hfile

omit hS in
/-- The version that a save writes, among the versions with directories in the set. -/
structure IsWritten (S : List String → Prop) (root : Root) (directory : List String) (n : Nat)
    (x : Lookup) : Prop where
  named : Named S root x
  dir : artifactDir root x.1 = .ok directory
  version : x.2 = some (n : Int)

/-- A version written without closing a circle keeps references acyclic. -/
theorem Acyclic.written (hacyclic : Acyclic S root T) (horderly : Orderly (Placed S root) root T')
    {customMetadata : Option Metadata} {now : Binary64} {directory : List String}
    {versions : List Nat} {envelope : Dict} (hdir : artifactDir root a = .ok directory)
    (hdirectory : S directory) (hversions : versionsAt T directory = .ok versions)
    (hbuild : buildEnvelope (nextVersion versions) part customMetadata a.appName a.userId
      a.sessionId now = .ok envelope)
    (hjson : (Value.dict envelope).isJson = true)
    (hfile : T'.get? (intStr (nextVersion versions) :: Loc.resolve directory) =
      some (.file (Json.dumps (.dict envelope))))
    (hkept : ∀ k, k ≠ intStr (nextVersion versions) :: Loc.resolve directory →
      T'.get? k = T.get? k ∨ T'.get? k = some .dir)
    (hcloses : (Request.saveArtifact (.ok part) customMetadata now).ClosesNoCircle root T a) :
    Acyclic S root T' := by
  -- the version written is the only one at which a new reference is met
  have hold : ∀ x y, ¬IsWritten S root directory (nextVersion versions) x →
      Follows S root T' x y → Follows S root T x y := by
    intro x y hx hxy
    refine hxy.of_kept hS horderly fun v directory' hv hdir' => ?_
    refine (hkept _ fun heq => hx ?_).imp_right Or.inr
    obtain ⟨hname, hdirs⟩ := List.cons.inj heq
    rw [Loc.resolve_down (hS.down directory hdirectory),
      Loc.resolve_down (hS.down directory' (hxy.1.directory directory' hdir'))] at hdirs
    obtain rfl := List.reverse_injective hdirs
    rw [intStr_injective hname] at hv
    exact ⟨hxy.1, hdir', hv⟩
  have hnew : ∀ x y, IsWritten S root directory (nextVersion versions) x → Follows S root T' x y →
      ∃ uri target, StoredReference part uri target ∧
        resolveReference x.1.appName x.1.userId x.1.sessionId uri = .ok target ∧
        y = (targetAddress target, some target.version) := by
    intro x y hx hxy
    obtain ⟨b, version⟩ := x
    obtain rfl : version = some (nextVersion versions : Int) := hx.version
    exact refers_written hS hx.dir hdirectory hbuild hjson hfile hxy.2
  refine wellFounded_of_added hold ?_ hacyclic
  intro x y hx hxy z hyz hz w hzw
  obtain ⟨uri, target, hstored, -, rfl⟩ := hnew x y hx hxy
  obtain ⟨uri', target', hstored', hresolve, -⟩ := hnew z w hz hzw
  obtain rfl : uri = uri' := Option.some.inj (hstored.fileUri.symm.trans hstored'.fileUri)
  have hlist : (listVersions root a).answer device T = .ok versions := by
    rw [answer_listVersions, hdir]
    exact hversions
  have hvisits : Visits root T (targetAddress target, some target.version) z :=
    Relation.ReflTransGen.mono (fun _ _ hfollows => hfollows.2) _ _ hyz
  obtain ⟨b, version⟩ := z
  obtain rfl : version = some (nextVersion versions : Int) := hz.version
  have hpath : versionPath root b (nextVersion versions) =
      versionPath root a (nextVersion versions) := by
    rw [versionPath_ok hz.dir, versionPath_ok hdir]
  exact hcloses versions uri target hlist hstored b _ hvisits hpath target' hresolve

/-- A save that closes no circle keeps references acyclic. -/
theorem Acyclic.save (hacyclic : Acyclic S root T) (h : Orderly (Placed S root) root T)
    {artifact : Except Error Part} {customMetadata : Option Metadata} {now : Binary64}
    {r : Except Error Nat}
    (hsave : (Request.saveArtifact artifact customMetadata now).Saves (Placed S root) root a)
    (hcloses : (Request.saveArtifact artifact customMetadata now).ClosesNoCircle root T a)
    (hrun : (saveArtifact root a artifact customMetadata now).run device T = (r, T')) :
    Acyclic S root T' := by
  have horderly : Orderly (Placed S root) root T' := by
    refine h.save hS within_placed ?_ hrun
    rintro part rfl
    exact hsave
  rcases save_cases hrun with ⟨e, -, rfl⟩ | ⟨part, directory, versions, envelope, rfl, hdir,
    hversions, hbuild, hwrite⟩
  · exact hacyclic
  have hmade : ∀ k, (T.mkdirsFrom [] directory).2.get? k = T.get? k ∨
      (T.mkdirsFrom [] directory).2.get? k = some .dir := by
    intro k
    exact (FileTree.get?_mkdirsFrom FileTree.get?_root k).imp_right fun hnew => hnew.2.2
  -- a save that stops early has made a directory at most, and directories refer to nothing
  rcases hwrite with ⟨e, -, rfl⟩ | ⟨text, -, hdumps, hplace, -, rfl⟩
  · refine Subrelation.wf ?_ hacyclic
    intro y x hxy
    exact hxy.of_kept hS horderly fun v directory _ _ => (hmade _).imp_right Or.inr
  · obtain ⟨-, rfl⟩ := dumpsEnvelope_ok hdumps
    obtain ⟨hseen, hjson, hsame⟩ := readBack_envelope hbuild
    -- the written version is the only place that refers to anything new
    have hget := FileTree.get?_place hplace (.file (Json.dumps (.dict envelope)))
    refine hacyclic.written hS horderly hdir ((hsave directory hdir).own directory hdir) hversions
      hseen hjson ?_ ?_ hcloses
    · rw [hget, if_pos rfl, hsame]
    · intro k hk
      rw [hget, if_neg hk]
      exact hmade k

/-- Deleting keeps references acyclic. -/
theorem Acyclic.removed (hacyclic : Acyclic S root T) (horderly : Orderly (Placed S root) root T')
    (hless : ∀ k, T'.get? k = T.get? k ∨ T'.get? k = none) : Acyclic S root T' := by
  refine Subrelation.wf ?_ hacyclic
  intro y x hxy
  exact hxy.of_kept hS horderly fun v directory _ _ => (hless _).imp_right Or.inl

theorem Acyclic.request (hacyclic : Acyclic S root T) (h : Orderly (Placed S root) root T)
    (depth : Nat) {request : Request} (hsaves : request.Saves (Placed S root) root a)
    (hcloses : request.ClosesNoCircle root T a) :
    Acyclic S root ((request.script root depth a).run device T).2 := by
  cases request with
  | saveArtifact artifact customMetadata now =>
    rw [Request.script, Script.run_map]
    exact hacyclic.save hS h hsaves hcloses rfl
  | deleteArtifact =>
    have horderly := h.request hS within_placed depth hsaves
    rw [Request.script, Script.run_map] at horderly ⊢
    exact hacyclic.removed hS horderly (get?_deleteArtifact rfl)
  | loadArtifact version =>
    rw [Request.script, Script.run_map, reads_loadArtifact root depth a version T]
    exact hacyclic
  | listVersions =>
    rw [Request.script, Script.run_map, reads_listVersions root a T]
    exact hacyclic
  | listArtifactVersions now =>
    rw [Request.script, Script.run_map, reads_listArtifactVersions root a now T]
    exact hacyclic
  | getArtifactVersion version now =>
    rw [Request.script, Script.run_map, reads_getArtifactVersion root a version now T]
    exact hacyclic

/-- In a run that closes no circle, references stay acyclic. -/
theorem acyclic_after (hacyclic : Acyclic S root T) (h : Orderly (Placed S root) root T)
    (depth : Nat) {requests : List (Address × Request)}
    (hsaves : ∀ ar ∈ requests, ar.2.Saves (Placed S root) root ar.1)
    (hcircle : NoCircle root depth T requests) :
    Acyclic S root (after root depth T requests) := by
  induction requests generalizing T with
  | nil => exact hacyclic
  | cons ar requests ih =>
    obtain ⟨a, request⟩ := ar
    have hfirst := hsaves (a, request) List.mem_cons_self
    have hrest := h.request hS within_placed depth hfirst
    exact ih (hacyclic.request hS h depth hfirst hcircle.1) hrest
      (fun ar har => hsaves ar (List.mem_cons_of_mem _ har)) hcircle.2

/-- Where nothing is stored there are no references. -/
theorem acyclic_of_unused (h : Unused root T) : Acyclic S root T := by
  constructor
  intro x
  refine Acc.intro _ fun y hxy => ?_
  obtain ⟨hnamed, envelope, target, hfind, -⟩ := hxy
  obtain ⟨b, version⟩ := x
  obtain ⟨v, rfl⟩ := Option.isSome_iff_exists.1 hnamed.version
  rw [answer_findEnvelope_some] at hfind
  cases hdir : artifactDir root b with
  | error e =>
    rw [versionPath_eq, hdir] at hfind
    cases hfind
  | ok directory =>
    rw [versionPath_ok hdir] at hfind
    change envelopeAt T (directory ++ [intStr v]) = _ at hfind
    have hdirectory := hnamed.directory directory hdir
    obtain ⟨p, -, rfl⟩ := hS.below directory hdirectory
    have hnone : T.get? (intStr v :: Loc.resolve (root.path ++ p)) = none := by
      have hbelow := h (p ++ [intStr v]) (by simp)
      rw [Loc.resolve_down (hS.down _ hdirectory), ← hbelow]
      simp
    rw [envelopeAt, hS.find_version hdirectory, hnone] at hfind
    cases hfind

/-! ## Loads -/

omit hS in
theorem ends_of_answer {x : Lookup} {r : Except Error (Option Part)}
    (hanswer : ∀ d, (loadArtifact root (d + 1) x.1 x.2).answer device T = r)
    (hr : (∃ part, r = .ok part) ∨ ∃ message, r = .error (.inputValidation message)) :
    Ends root T x := by
  refine ⟨1, r, ?_, hr⟩
  intro d hd
  obtain ⟨d, rfl⟩ := Nat.exists_eq_add_of_le' hd
  exact hanswer d

/-- A load ends when the load of each reference it meets does. -/
theorem Orderly.ends_step (h : Orderly (Placed S root) root T) {x : Lookup}
    (hx : DirectoryIn S root x.1)
    (hnext : ∀ y, Refers root T x y → Named S root y → Ends root T y) : Ends root T x := by
  cases hdir : artifactDir root x.1 with
  | error e =>
    obtain ⟨message, rfl⟩ := artifactDir_error hdir
    refine ends_of_answer (fun d => ?_) (Or.inr ⟨message, rfl⟩)
    rw [answer_loadArtifact, answer_findEnvelope_error root x.1 T hdir]
    rfl
  | ok directory =>
  rcases h.lookup hS within_placed hdir (hx directory hdir) x.2 with ⟨hnone, -⟩ |
    ⟨v, text, a, part, n, envelope, -, -, hq, hwritten, hfound⟩
  · exact ends_of_answer (fun d => load_of_none hnone) (Or.inl ⟨none, rfl⟩)
  obtain ⟨customMetadata, now, hbuild⟩ := hwritten.built
  -- the load ends at once, unless what is found refers on; then one more unit of depth is enough
  rcases decode_cases x.1.appName x.1.userId x.1.sessionId hbuild with ⟨found, hdecode⟩ |
    ⟨uri, target, hstored, -, hdecode⟩ | ⟨message, hdecode⟩
  · exact ends_of_answer (fun d => load_of_part hfound hdecode) (Or.inl ⟨some found, rfl⟩)
  · have hrefers : Refers root T x (targetAddress target, some target.version) :=
      ⟨_, target, hfound, hdecode, rfl⟩
    obtain ⟨depth, r, hanswer, hr⟩ := hnext _ hrefers ⟨hq.target uri target hstored, rfl⟩
    refine ⟨depth + 1, r, ?_, hr⟩
    intro d hd
    obtain ⟨d, rfl⟩ := Nat.exists_eq_add_of_le' (Nat.le_trans (Nat.le_add_left 1 depth) hd)
    rw [load_of_reference hfound hdecode]
    exact hanswer d (Nat.le_of_succ_le_succ hd)
  · refine ends_of_answer (fun d => ?_) (Or.inr ⟨message, rfl⟩)
    rw [answer_loadArtifact, hfound]
    simp only [Except.bind, hdecode]

theorem Acyclic.ends (hacyclic : Acyclic S root T) (h : Orderly (Placed S root) root T) {x : Lookup}
    (hx : DirectoryIn S root x.1) : Ends root T x := by
  have hversions : ∀ y, Named S root y → Ends root T y := by
    intro y
    induction hacyclic.apply y with
    | intro y _ ih =>
      intro hy
      exact h.ends_step hS hy.directory fun z hz hnamed => ih z ⟨hy, hz⟩ hnamed
  exact h.ends_step hS hx fun y _ hy => hversions y hy

/-- After any calls that close no circle of references, every load ends, where the artifacts that are
saved, referred to and loaded have their directories in a separate set. -/
theorem references_end {requests : List (Address × Request)} (hunused : Unused root T)
    (hsaves : ∀ ar ∈ requests, ar.2.Saves (Placed S root) root ar.1) (depth : Nat)
    (hcircle : NoCircle root depth T requests) (b : Address) (version : Option Int)
    (hb : DirectoryIn S root b) : Ends root (after root depth T requests) (b, version) := by
  have horderly : Orderly (Placed S root) root T := orderly_of_unused hunused
  have hacyclic := acyclic_after hS (acyclic_of_unused hS hunused) horderly depth hsaves hcircle
  exact hacyclic.ends hS (orderly_after horderly hS within_placed depth hsaves) hb

end Runs

end References

attribute [local instance] basicUtil FileOp.treeOrder

/-- A save of a reference to the first version of `a.txt`. -/
def savesLink (now : Binary64) : Request :=
  .saveArtifact (.ok { fileData := some { fileUri := some linkUri } }) none now

/-- A reference saved before its target: `b.txt` refers to `a.txt`, which is saved afterwards. -/
theorem references_end_dangling :
    Ends dataRoot (after dataRoot 1 .empty
      [(inSession "b.txt", savesLink (Binary64.ofRatio false 1 2)),
        (inSession "a.txt",
          .saveArtifact (.ok { text := some "x" }) none (Binary64.ofRatio false 1 2))])
      (inSession "b.txt", none) := by
  -- both artifacts have names with a dot, in one session
  have hin : ∀ filename : String, IsName filename → '.' ∈ filename.toList →
      DirectoryIn (TameDirectory dataRoot) dataRoot (inSession filename) := by
    intro filename hname hdot directory hdir
    exact ⟨inSession filename, hdir, scoped_inSession filename,
      tame_name hname hdot (by decide +kernel) (by decide)⟩
  have ha := hin "a.txt" ⟨by decide, by decide, by decide, by decide⟩ (by decide)
  have hb := hin "b.txt" ⟨by decide, by decide, by decide, by decide⟩ (by decide)
  have htarget : ∀ uri target, StoredReference { fileData := some { fileUri := some linkUri } } uri
      target → target = ⟨"app", "user", some "s", "a.txt", 0⟩ := by
    intro uri target hstored
    obtain rfl : linkUri = uri := Option.some.inj hstored.fileUri
    exact (Option.some.inj hstored.parsed).symm
  refine references_end (separate_tame dataRoot) (unused_empty dataRoot) ?_ 1 ?_
    (inSession "b.txt") none hb
  · rw [List.forall_mem_cons, List.forall_mem_singleton]
    constructor
    · intro directory _
      refine ⟨hb, fun uri target hstored => ?_⟩
      rw [htarget uri target hstored]
      exact ha
    · intro directory _
      exact ⟨ha, fun uri target hstored => by cases hstored.text⟩
  · refine ⟨?_, fun _ uri target _ hstored => (by cases hstored.text), trivial⟩
    intro versions uri target hlist hstored b v hvisits hpath
    obtain rfl := htarget uri target hstored
    -- the target is not saved yet, so that a visit of it finds nothing
    rcases hvisits.cases_head with heq | ⟨y, ⟨envelope, found, hfind, -⟩, -⟩
    · obtain ⟨rfl, hv⟩ := Prod.mk.inj heq
      obtain rfl := Option.some.inj hv
      obtain rfl : [] = versions := Except.ok.inj hlist
      have hpaths : Except.ok (ε := Error) ["data", "app", "user", "s", "a.txt", "0"] =
          .ok ["data", "app", "user", "s", "b.txt", "0"] := hpath
      exact absurd (Except.ok.inj hpaths) (by decide)
    · cases hfind

theorem save_selfReference (now : Binary64) :
    after dataRoot 1 .empty [(inSession "a.txt", savesLink now)] =
      oneFile (Json.dumps (.dict (header 0 now none ++ fileFields linkUri none))) := by
  let link := header 0 now none ++ fileFields linkUri none
  have hdumps : dumpsEnvelope link = .ok (Json.dumps (.dict link)) := rfl
  change after _ _ _ _ = oneFile (Json.dumps (.dict link))
  generalize Json.dumps (.dict link) = text at hdumps
  have hdir : artifactDir dataRoot (inSession "a.txt") = .ok ["data", "app", "user", "s", "a.txt"] :=
    rfl
  have hbuild : buildEnvelope (nextVersion []) { fileData := some { fileUri := some linkUri } } none
      "app" "user" (some "s") now = .ok link := rfl
  have hsave := run_saveArtifact_ok (T := .empty) hdir rfl hbuild rfl hdumps (by decide +kernel)
  change ((Request.script dataRoot 1 _ (savesLink now)).run device .empty).2 = _
  rw [savesLink, Request.script, Script.run_map]
  exact congrArg Prod.snd hsave

/-- A version that refers to itself is followed to every depth. -/
theorem selfReference_never_ends :
    let T := after dataRoot 1 .empty
      [(inSession "a.txt", savesLink (Binary64.ofRatio false 1 2))]
    (∀ depth, (loadArtifact dataRoot depth (inSession "a.txt") (some 0)).answer device T =
        .error .recursion) ∧ ¬Ends dataRoot T (inSession "a.txt", some 0) := by
  generalize Binary64.ofRatio false 1 2 = now
  intro T
  have hbuild : buildEnvelope 0 { fileData := some { fileUri := some linkUri } } none "app" "user"
      (some "s") now = .ok (header 0 now none ++ fileFields linkUri none) := rfl
  have hlink := Json.loads_dumps (isJson_envelope hbuild rfl)
  have hdecode : partFromEnvelope (.dict (header 0 now none ++ fileFields linkUri none))
      (inSession "a.txt").appName (inSession "a.txt").userId (inSession "a.txt").sessionId =
        .ok (.load ⟨"app", "user", some "s", "a.txt", 0⟩) := rfl
  have hfind : (findEnvelope dataRoot (inSession "a.txt") (some 0)).answer device T =
      .ok (some (.dict (header 0 now none ++ fileFields linkUri none))) := by
    apply findEnvelope_text
    have hT : T = oneFile _ := save_selfReference now
    rw [hT]
    generalize Json.dumps (.dict (header 0 now none ++ fileFields linkUri none)) = text at hlink
    show (loadsEnvelope text).map some = _
    rw [loadsEnvelope, hlink]
    rfl
  -- each load asks for the next with the depth that is left, down to none
  have hload : ∀ depth, (loadArtifact dataRoot depth (inSession "a.txt") (some 0)).answer device T =
      .error .recursion := by
    intro depth
    induction depth with
    | zero => rfl
    | succ depth ih =>
      rw [load_of_reference hfind hdecode]
      exact ih
  refine ⟨hload, ?_⟩
  rintro ⟨depth, r, hanswer, hr⟩
  have heq : Except.error Error.recursion = r :=
    (hload depth).symm.trans (hanswer depth (Nat.le_refl depth))
  rcases hr with ⟨part, rfl⟩ | ⟨message, rfl⟩
  · cases heq
  · cases heq

end AgentCluster.Artifacts
