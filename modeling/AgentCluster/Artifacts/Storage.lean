import AgentCluster.Artifacts.Location

/-!
# What a storage holds

After any calls, every file below the base path is the envelope of a save, at a version of the save's
artifact, and every directory leads to such an artifact, provided that the saves had their directories
in a separate set (`orderly_after`). `Q` stands for whatever else is known of the saves.

In such a storage an artifact whose directory is in the set as well is looked up without an error of the
filesystem (`Orderly.lookup`).
-/

set_option autoImplicit false

namespace AgentCluster.Artifacts

open Python Library Adk.Artifact

section Storage

variable [FileOp.ListingOrder] [ArtifactUtil]

/-- The storage after a sequence of calls. -/
def after (root : Root) (depth : Nat) : FileTree → List (Address × Request) → FileTree
  | T, [] => T
  | T, (a, request) :: requests =>
      after root depth ((request.script root depth a).run device T).2 requests

omit [FileOp.ListingOrder] [ArtifactUtil] in
/-- Nothing is stored below the base path. -/
def Unused (root : Root) (T : FileTree) : Prop :=
  ∀ p, p ≠ [] → T.get? (root.path ++ p).reverse = none

/-- The file at `path` was written by a save; `envelope` is what is read back of it. -/
structure WrittenBy (root : Root) (a : Address) (part : Part) (version : Nat) (envelope : Dict)
    (directory path : List String) (text : String) : Prop where
  accepted : artifactDir root a = .ok directory
  path_eq : path = directory ++ [intStr version]
  built : ∃ customMetadata now,
    buildEnvelope version part customMetadata a.appName a.userId a.sessionId now = .ok envelope
  isJson : (Value.dict envelope).isJson = true
  text_eq : text = Json.dumps (.dict envelope)

/-- Below the base path there are only files that saves have written, and directories that lead to
them. -/
structure Orderly (Q : Address → Part → Prop) (root : Root) (T : FileTree) : Prop where
  file : ∀ p text, p ≠ [] → T.get? (root.path ++ p).reverse = some (.file text) →
    ∃ a part version envelope directory, Q a part ∧
      WrittenBy root a part version envelope directory (root.path ++ p) text
  dir : ∀ p, p ≠ [] → T.get? (root.path ++ p).reverse = some .dir →
    ∃ a part directory, Q a part ∧ artifactDir root a = .ok directory ∧
      root.path ++ p <+: directory

/-- A save of a part that is accepted satisfies `Q`. -/
def Request.Saves (Q : Address → Part → Prop) (root : Root) (a : Address) : Request → Prop
  | .saveArtifact (.ok part) _ _ => ∀ directory, artifactDir root a = .ok directory → Q a part
  | _ => True

/-- The saves of `Q` have their directories in the set. -/
def Within (S : List String → Prop) (root : Root) (Q : Address → Part → Prop) : Prop :=
  ∀ a part directory, Q a part → artifactDir root a = .ok directory → S directory

variable {Q : Address → Part → Prop} {S : List String → Prop} {root : Root} {a b : Address}
  {T T' : FileTree}

omit [FileOp.ListingOrder] in
theorem orderly_of_unused (h : Unused root T) : Orderly Q root T := by
  constructor
  · intro p text hp hget
    rw [h p hp] at hget
    cases hget
  · intro p hp hget
    rw [h p hp] at hget
    cases hget

omit [FileOp.ListingOrder] [ArtifactUtil] in
theorem unused_empty (root : Root) : Unused root .empty := by
  intro p hp
  cases hk : (root.path ++ p).reverse with
  | nil =>
    rw [List.reverse_eq_nil_iff, List.append_eq_nil_iff] at hk
    exact absurd hk.2 hp
  | cons name l => rfl

/-! ## Runs -/

/-- A save of `Q` keeps the storage orderly. -/
theorem Orderly.save (h : Orderly Q root T) (hS : Separate root S) (hQ : Within S root Q)
    {artifact : Except Error Part} {customMetadata : Option Metadata} {now : Binary64}
    {r : Except Error Nat}
    (hsave : ∀ part, artifact = .ok part → ∀ directory, artifactDir root a = .ok directory →
      Q a part)
    (hrun : (saveArtifact root a artifact customMetadata now).run device T = (r, T')) :
    Orderly Q root T' := by
  rcases save_cases hrun with ⟨e, -, rfl⟩ | ⟨part, directory, versions, envelope, hpart, hdir, -,
    hbuild, hwrite⟩
  · exact h
  have hq := hsave part hpart directory hdir
  have hdown := hS.down directory (hQ a part directory hq hdir)
  -- making the directory adds directories on its path, which the artifact accounts for
  have hmkdirs : Orderly Q root (T.mkdirsFrom [] directory).2 := by
    constructor
    · intro p text hp hget
      rcases FileTree.get?_mkdirsFrom (T := T) (p := directory) FileTree.get?_root
          (root.path ++ p).reverse with heq | ⟨-, -, hnew⟩
      · exact h.file p text hp (heq.symm.trans hget)
      · rw [hnew] at hget
        cases hget
    · intro p hp hget
      rcases FileTree.get?_mkdirsFrom (T := T) (p := directory) FileTree.get?_root
          (root.path ++ p).reverse with heq | ⟨hvisited, -, -⟩
      · exact h.dir p hp (heq.symm.trans hget)
      · obtain ⟨q, s, hqs, -, hq'⟩ := Loc.visited_down hdown hvisited
        rw [List.append_nil] at hq'
        refine ⟨a, part, directory, hq, hdir, ?_⟩
        rw [List.reverse_injective hq', hqs]
        exact List.prefix_append q s
  rcases hwrite with ⟨e, -, rfl⟩ | ⟨text, -, hdumps, hplace, -, rfl⟩
  · exact hmkdirs
  have hget := FileTree.get?_place hplace (.file text)
  -- the one new file is the version just written
  have hplaced : intStr (nextVersion versions) :: Loc.resolve directory =
      (directory ++ [intStr (nextVersion versions)]).reverse := by
    rw [Loc.resolve_down hdown, List.reverse_append]
    rfl
  constructor
  · intro p text' hp hfile
    rw [hget] at hfile
    split at hfile
    · next heq =>
      cases hfile
      obtain ⟨-, rfl⟩ := dumpsEnvelope_ok hdumps
      obtain ⟨hseen, hjson, hsame⟩ := readBack_envelope hbuild
      rw [hplaced] at heq
      exact ⟨a, part, _, Json.seenDict envelope, directory, hq, hdir, List.reverse_injective heq,
        ⟨_, now, hseen⟩, hjson, hsame.symm⟩
    · exact hmkdirs.file p text' hp hfile
  · intro p hp hnode
    rw [hget] at hnode
    split at hnode
    · cases hnode
    · exact hmkdirs.dir p hp hnode

/-- A delete only takes files away. -/
theorem get?_deleteArtifact {r : Except Error Unit}
    (hrun : (deleteArtifact root a).run device T = (r, T')) (k : Loc) :
    T'.get? k = T.get? k ∨ T'.get? k = none := by
  rw [run_deleteArtifact] at hrun
  cases hdir : artifactDir root a with
  | error e =>
    rw [hdir] at hrun
    cases hrun
    exact Or.inl rfl
  | ok directory =>
    rw [hdir] at hrun
    simp only at hrun
    split at hrun
    · cases hrun
      exact Or.inl rfl
    · exact (get?_deleteAt hrun k).imp_right And.left

omit [FileOp.ListingOrder] in
theorem Orderly.removed (h : Orderly Q root T)
    (hless : ∀ k, T'.get? k = T.get? k ∨ T'.get? k = none) : Orderly Q root T' := by
  have hold : ∀ k node, T'.get? k = some node → T.get? k = some node := by
    intro k node hnode
    rcases hless k with heq | hnone
    · exact heq.symm.trans hnode
    · rw [hnone] at hnode
      cases hnode
  exact ⟨fun p text hp hfile => h.file p text hp (hold _ _ hfile),
    fun p hp hdir => h.dir p hp (hold _ _ hdir)⟩

theorem Orderly.request (h : Orderly Q root T) (hS : Separate root S) (hQ : Within S root Q)
    (depth : Nat) {request : Request} (hsaves : request.Saves Q root a) :
    Orderly Q root ((request.script root depth a).run device T).2 := by
  cases request with
  | saveArtifact artifact customMetadata now =>
    rw [Request.script, Script.run_map]
    refine h.save hS hQ ?_ rfl
    rintro part rfl
    exact hsaves
  | deleteArtifact =>
    rw [Request.script, Script.run_map]
    exact h.removed (get?_deleteArtifact rfl)
  | loadArtifact version =>
    rw [Request.script, Script.run_map, reads_loadArtifact root depth a version T]
    exact h
  | listVersions =>
    rw [Request.script, Script.run_map, reads_listVersions root a T]
    exact h
  | listArtifactVersions now =>
    rw [Request.script, Script.run_map, reads_listArtifactVersions root a now T]
    exact h
  | getArtifactVersion version now =>
    rw [Request.script, Script.run_map, reads_getArtifactVersion root a version now T]
    exact h

/-- Runs keep the storage orderly. -/
theorem orderly_after (h : Orderly Q root T) (hS : Separate root S) (hQ : Within S root Q)
    (depth : Nat) {requests : List (Address × Request)}
    (hsaves : ∀ ar ∈ requests, ar.2.Saves Q root ar.1) :
    Orderly Q root (after root depth T requests) := by
  induction requests generalizing T with
  | nil => exact h
  | cons ar requests ih =>
    obtain ⟨a, request⟩ := ar
    have hfirst := h.request hS hQ depth (hsaves (a, request) List.mem_cons_self)
    exact ih hfirst fun ar har => hsaves ar (List.mem_cons_of_mem _ har)

/-! ## Lookups -/

section Lookup

variable {directory : List String} (h : Orderly Q root T) (hS : Separate root S)
  (hQ : Within S root Q) (hdir : artifactDir root b = .ok directory) (hdirectory : S directory)
include h hS hQ hdirectory

omit [FileOp.ListingOrder] in
/-- Where the versions go there are only files of saves. -/
theorem Orderly.written {name : String} {node : Node} (hname : IsVersion name)
    (hnode : T.get? (name :: Loc.resolve directory) = some node) :
    ∃ text, node = .file text ∧ ∃ a part version envelope, Q a part ∧
      WrittenBy root a part version envelope directory (directory ++ [name]) text := by
  have hdown := hS.down directory hdirectory
  obtain ⟨p, -, hbelow⟩ := hS.below directory hdirectory
  have hplace : name :: Loc.resolve directory = (root.path ++ (p ++ [name])).reverse := by
    rw [Loc.resolve_down hdown, ← List.append_assoc, ← hbelow, List.reverse_append]
    rfl
  rw [hplace] at hnode
  cases node with
  | dir =>
    -- that directory would lead from this one to that of a save
    obtain ⟨a, part, directory', hq, hdir', r, hr⟩ := h.dir _ (by simp) hnode
    rw [← List.append_assoc, ← hbelow, List.append_assoc] at hr
    exact absurd hr.symm
      (hS.apart directory directory' hdirectory (hQ a part directory' hq hdir') name r hname)
  | file text =>
    obtain ⟨a, part, version, envelope, directory', hq, hwritten⟩ := h.file _ text (by simp) hnode
    rw [← List.append_assoc, ← hbelow] at hwritten
    obtain rfl := List.append_inj_left' hwritten.path_eq rfl
    exact ⟨text, rfl, a, part, version, envelope, hq, hwritten⟩

omit [FileOp.ListingOrder] in
/-- The directory is no file. -/
theorem Orderly.no_file : T.text? (Loc.resolve directory) = none := by
  have hdown := hS.down directory hdirectory
  obtain ⟨p, hp, hbelow⟩ := hS.below directory hdirectory
  rw [FileTree.text?_eq_none]
  intro text hfile
  rw [Loc.resolve_down hdown, hbelow] at hfile
  -- a file there would be a version in the directory of a save
  obtain ⟨a, part, version, envelope, directory', hq, hwritten⟩ := h.file p text hp hfile
  have hversion := hwritten.path_eq
  rw [← hbelow] at hversion
  exact hS.apart directory' directory (hQ a part directory' hq hwritten.accepted) hdirectory _ []
    (isVersion_intStr version) hversion

omit [FileOp.ListingOrder] in
/-- A version is missing or the envelope of a save. -/
theorem Orderly.envelopeAt (version : Int) :
    T.get? (intStr version :: Loc.resolve directory) = none ∧
        envelopeAt T (directory ++ [intStr version]) = .ok none ∨
      ∃ text a part v envelope, T.get? (intStr version :: Loc.resolve directory) = some (.file text) ∧
        Q a part ∧
        WrittenBy root a part v envelope directory (directory ++ [intStr version]) text ∧
        envelopeAt T (directory ++ [intStr version]) = .ok (some (.dict envelope)) := by
  rw [Artifacts.envelopeAt,
    FileTree.find_down_append (hS.down directory hdirectory) (isName_intStr version).ne_dotdot]
  cases hnode : T.get? (intStr version :: Loc.resolve directory) with
  | none => exact Or.inl ⟨rfl, rfl⟩
  | some node =>
    obtain ⟨text, rfl, a, part, v, envelope, hq, hwritten⟩ :=
      h.written hS hQ hdirectory (isVersion_intStr version) hnode
    refine Or.inr ⟨text, a, part, v, envelope, rfl, hq, hwritten, ?_⟩
    simp only [hwritten.text_eq, loadsEnvelope, Json.loads_dumps hwritten.isJson]
    rfl

/-- The versions listed are the files. -/
theorem Orderly.versionsAt :
    ∃ vs, versionsAt T directory = .ok vs ∧
      ∀ version, version ∈ vs ↔ (T.get? (intStr version :: Loc.resolve directory)).isSome := by
  obtain ⟨names, hnames, hperm⟩ :=
    versionsAt_eq (hS.down directory hdirectory) (h.no_file hS hQ hdirectory)
  -- a numbered entry is a file some save wrote, so its name is that of a version
  have hall : ∀ name ∈ names.filter isDigit, ∃ version : Nat, name = intStr version := by
    intro name hname
    have hmem := hperm.mem_iff.1 hname
    rw [List.mem_filter, FileTree.mem_children] at hmem
    obtain ⟨node, hnode⟩ := Option.isSome_iff_exists.1 hmem.1
    obtain ⟨text, -, a, part, version, envelope, -, hwritten⟩ :=
      h.written hS hQ hdirectory (Or.inl hmem.2) hnode
    exact ⟨version, List.singleton_inj.1 (List.append_inj_right' hwritten.path_eq rfl)⟩
  have hsome : ∀ name ∈ names.filter isDigit, (intOfDigits name).isSome := by
    intro name hname
    obtain ⟨version, rfl⟩ := hall name hname
    rw [intOfDigits_intStr]
    rfl
  refine ⟨numbersOf names, by rw [hnames, versionsOf_eq, if_pos hsome], ?_⟩
  intro version
  rw [numbersOf, List.mem_filterMap]
  constructor
  · rintro ⟨name, hname, hversion⟩
    obtain ⟨v, rfl⟩ := hall name hname
    rw [intOfDigits_intStr] at hversion
    obtain rfl := Option.some.inj hversion
    have hmem := hperm.mem_iff.1 hname
    rw [List.mem_filter, FileTree.mem_children] at hmem
    exact hmem.1
  · intro hversion
    refine ⟨intStr version, hperm.mem_iff.2 ?_, intOfDigits_intStr version⟩
    rw [List.mem_filter, FileTree.mem_children]
    exact ⟨hversion, isDigit_intStr version⟩

include hdir in
/-- A lookup finds the envelope of a save, or nothing. -/
theorem Orderly.lookup (version : Option Int) :
    (findEnvelope root b version).answer device T = .ok none ∧
        (version = none → ∀ v : Nat, T.get? (intStr v :: Loc.resolve directory) = none) ∨
      ∃ v text a part n envelope,
        T.get? (intStr v :: Loc.resolve directory) = some (.file text) ∧
        (∀ w, version = some w → w = v) ∧ Q a part ∧
        WrittenBy root a part n envelope directory (directory ++ [intStr v]) text ∧
        (findEnvelope root b version).answer device T = .ok (some (.dict envelope)) := by
  have hread : ∀ v, (readEnvelope root b v).answer device T =
      Artifacts.envelopeAt T (directory ++ [intStr v]) := by
    intro v
    rw [answer_readEnvelope, versionPath_ok hdir]
    rfl
  rw [findEnvelope, (reads_chooseVersion root b version).answer_bind]
  cases version with
  | some v =>
    show (readEnvelope root b v).answer device T = _ ∧ _ ∨ _
    rcases h.envelopeAt hS hQ hdirectory v with ⟨-, hnone⟩ | ⟨text, a, part, n, envelope, hfile, hq,
      hwritten, hfound⟩
    · exact Or.inl ⟨(hread v).trans hnone, fun hv => (by cases hv)⟩
    · exact Or.inr ⟨v, text, a, part, n, envelope, hfile, fun w hw => (Option.some.inj hw).symm, hq,
        hwritten, (hread v).trans hfound⟩
  -- without a version the largest one listed is read, and it is there
  | none =>
    obtain ⟨vs, hvs, hmem⟩ := h.versionsAt hS hQ hdirectory
    rw [chooseVersion, (reads_listVersions root b).answer_bind, answer_listVersions, hdir]
    have hbind : (Except.ok directory).bind (Artifacts.versionsAt T) =
      Artifacts.versionsAt T directory := rfl
    rw [hbind, hvs]
    cases hmax : vs.max? with
    | none =>
      simp only [Except.bind, Script.pure_eq, Script.answer, Script.run_ret, hmax]
      refine Or.inl ⟨rfl, fun _ v => ?_⟩
      rw [List.max?_eq_none_iff] at hmax
      have hv := hmem v
      rw [hmax] at hv
      exact Option.not_isSome_iff_eq_none.1 fun hsome => List.not_mem_nil (hv.2 hsome)
    | some v =>
      have hsome := (hmem v).1 (List.max?_eq_some_iff.1 hmax).1
      simp only [Except.bind, Script.pure_eq, Script.answer, Script.run_ret, hmax]
      show (readEnvelope root b v).answer device T = _ ∧ _ ∨ _
      rcases h.envelopeAt hS hQ hdirectory v with ⟨hnone, -⟩ | ⟨text, a, part, n, envelope, hfile, hq,
        hwritten, hfound⟩
      · rw [hnone] at hsome
        cases hsome
      · exact Or.inr ⟨v, text, a, part, n, envelope, hfile, fun w hw => (by cases hw), hq,
          hwritten, (hread v).trans hfound⟩

end Lookup

end Storage

end AgentCluster.Artifacts
