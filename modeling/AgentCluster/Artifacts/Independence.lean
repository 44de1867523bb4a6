import AgentCluster.Artifacts.Location

/-!
# Artifacts do not interfere

Saving or deleting one artifact leaves what can be observed of another unchanged, if the directory of
neither is in the way of the other's versions (`independent`). What a method reads of an artifact is the
versions in its directory and what its path comes to (`SameAt`); what the methods of another artifact
change lies elsewhere.

A reference is resolved when it is loaded, so a load that meets one shows what its target is at that
moment (`reference_follows_target`).
-/

set_option autoImplicit false

namespace AgentCluster.Artifacts

open Python Library Adk.Artifact

/-- What is written in `directory` is not what is read in `directory'`. They are different places; the
path of the first does not come to a version of the second, nor that of the second to a version of the
first; and what both paths come to is on the way to where the second leads. -/
structure Apart (directory directory' : List String) : Prop where
  different : Loc.resolve directory ≠ Loc.resolve directory'
  beside : ∀ name, IsVersion name →
    name :: Loc.resolve directory' ∉ Loc.visited [] directory
  free : ∀ version : Nat, intStr version :: Loc.resolve directory ∉ Loc.visited [] directory'
  shared : ∀ k ∈ Loc.visited [] directory', k ∈ Loc.visited [] directory →
    k <:+ Loc.resolve directory'

/-- Without `..`, the paths need not lead through each other's versions. -/
theorem apart_of_down {directory directory' : List String} (hdown : ∀ c ∈ directory, c ≠ "..")
    (hdown' : ∀ c ∈ directory', c ≠ "..") (hne : directory ≠ directory')
    (hbeside : ∀ name r, IsVersion name → directory ≠ directory' ++ name :: r)
    (hfree : ∀ name r, IsVersion name → directory' ≠ directory ++ name :: r) :
    Apart directory directory' where
  different heq := by
    rw [Loc.resolve_down hdown, Loc.resolve_down hdown'] at heq
    exact hne (List.reverse_injective heq)
  beside name hname hvisited := by
    obtain ⟨q, r, rfl, -, hq⟩ := Loc.visited_down hdown hvisited
    rw [List.append_nil, Loc.resolve_down hdown'] at hq
    refine hbeside name r hname ?_
    rw [← List.reverse_reverse q, ← hq]
    simp
  free version hvisited := by
    obtain ⟨q, r, rfl, -, hq⟩ := Loc.visited_down hdown' hvisited
    rw [List.append_nil, Loc.resolve_down hdown] at hq
    refine hfree _ r (isVersion_intStr version) ?_
    rw [← List.reverse_reverse q, ← hq]
    simp
  shared k hk _ := Loc.suffix_of_visited hdown' hk

/-- Two trees agree on what the methods of the artifact in `directory` look at. -/
structure SameAt (directory : List String) (T T' : FileTree) : Prop where
  version : ∀ name, IsVersion name →
    T'.get? (name :: Loc.resolve directory) = T.get? (name :: Loc.resolve directory)
  found : T'.find directory = T.find directory ∨
    T.find directory = none ∧ T'.find directory = some .dir ∧ T.get? (Loc.resolve directory) = none
  text : ∀ k ∈ Loc.visited [] directory, T'.text? k = T.text? k

/-- What the methods of one artifact change, those of another do not look at. -/
theorem sameAt_of_changedAt {T T' : FileTree} {directory directory' : List String}
    (hapart : Apart directory directory') (h : ChangedAt directory T T') :
    SameAt directory' T T' := by
  -- on the way to the other directory there is only a directory that was made
  have hway : ∀ k ∈ Loc.visited [] directory', T'.get? k = T.get? k ∨
      T.get? k = none ∧ T'.get? k = some .dir ∧ k <:+ Loc.resolve directory' := by
    intro k hk
    rcases h k with heq | ⟨hvisited, hold, hnew⟩ | ⟨version, rfl⟩
    · exact Or.inl heq
    · exact Or.inr ⟨hold, hnew, hapart.shared k hk hvisited⟩
    · exact absurd hk (hapart.free version)
  constructor
  · intro name hname
    rcases h (name :: Loc.resolve directory') with heq | ⟨hvisited, -⟩ | ⟨version, heq⟩
    · exact heq
    · exact absurd hvisited (hapart.beside name hname)
    · exact absurd (List.cons.inj heq).2.symm hapart.different
  · exact FileTree.find_of_added hway
  · intro k hk
    rcases hway k hk with heq | ⟨hold, hnew, -⟩
    · rw [FileTree.text?, heq, FileTree.text?]
    · rw [FileTree.text?, hnew, FileTree.text?, hold]

/-! ## What the methods read -/

section Read

variable [FileOp.ListingOrder] {T T' : FileTree} {directory : List String}

/-- The versions found in a directory are the numbers among the names there. -/
theorem versionsAt_dir (h : T.find directory = some .dir) :
    ∃ names, versionsAt T directory = versionsOf names ∧
      (names.filter isDigit).Perm ((T.children (Loc.resolve directory)).filter isDigit) := by
  rw [versionsAt, h]
  exact ⟨_, rfl, (FileOp.ListingOrder.perm T _ _).filter isDigit⟩

omit [FileOp.ListingOrder] in
theorem children_eq_nil (h : T.get? (Loc.resolve directory) = none) :
    T.children (Loc.resolve directory) = [] := by
  rw [List.eq_nil_iff_forall_not_mem]
  intro name hname
  rw [FileTree.mem_children] at hname
  rw [FileTree.get?_parent hname] at h
  cases h

variable (h : SameAt directory T T')
include h

omit [FileOp.ListingOrder] in
theorem SameAt.children :
    ((T.children (Loc.resolve directory)).filter isDigit).Perm
      ((T'.children (Loc.resolve directory)).filter isDigit) := by
  rw [List.perm_ext_iff_of_nodup ((T.nodup_children _).filter _) ((T'.nodup_children _).filter _)]
  intro name
  rw [List.mem_filter, List.mem_filter, FileTree.mem_children, FileTree.mem_children]
  constructor
  · rintro ⟨hsome, hdigit⟩
    exact ⟨by rw [h.version name (Or.inl hdigit)]; exact hsome, hdigit⟩
  · rintro ⟨hsome, hdigit⟩
    exact ⟨by rw [← h.version name (Or.inl hdigit)]; exact hsome, hdigit⟩

/-- Listing the versions finds the same ones, in some order. -/
theorem SameAt.versionsAt :
    (∃ vs vs', versionsAt T directory = .ok vs ∧ versionsAt T' directory = .ok vs' ∧ vs.Perm vs') ∨
      ∃ e, versionsAt T directory = .error e ∧ versionsAt T' directory = .error e := by
  rcases h.found with heq | ⟨hnone, hdir, hfree⟩
  · cases hfind : T.find directory with
    | none =>
      rw [hfind] at heq
      refine Or.inl ⟨[], [], ?_, ?_, .refl []⟩
      · rw [Artifacts.versionsAt, hfind]
      · rw [Artifacts.versionsAt, heq]
    | some node =>
      rw [hfind] at heq
      cases node with
      | file text =>
        refine Or.inr ⟨.os, ?_, ?_⟩
        · rw [Artifacts.versionsAt, hfind]
        · rw [Artifacts.versionsAt, heq]
      | dir =>
        obtain ⟨names, hnames, hperm⟩ := versionsAt_dir hfind
        obtain ⟨names', hnames', hperm'⟩ := versionsAt_dir heq
        rw [hnames, hnames']
        exact versionsOf_perm ((hperm.trans h.children).trans hperm'.symm)
  · -- the directory is new, and there is no version in it
    obtain ⟨names', hnames', hperm'⟩ := versionsAt_dir hdir
    have hempty : T.children (Loc.resolve directory) = [] := children_eq_nil hfree
    have hold : Artifacts.versionsAt T directory = versionsOf [] := by
      rw [Artifacts.versionsAt, hnone]
      rfl
    have hnone' : (([] : List String).filter isDigit).Perm (names'.filter isDigit) := by
      have hchildren := h.children
      rw [hempty] at hchildren
      exact hchildren.trans hperm'.symm
    rw [hold, hnames']
    exact versionsOf_perm hnone'

omit [FileOp.ListingOrder] in
theorem SameAt.envelopeAt (version : Int) :
    envelopeAt T' (directory ++ [intStr version]) =
      envelopeAt T (directory ++ [intStr version]) := by
  have hname := (isName_intStr version).ne_dotdot
  have hsame := h.version _ (isVersion_intStr version)
  have hfind : T'.find (directory ++ [intStr version]) = T.find (directory ++ [intStr version]) := by
    rw [FileTree.find_append_name hname, FileTree.find_append_name hname, hsame]
    rcases h.found with heq | ⟨hnone, hdir, hfree⟩
    · rw [heq]
    · -- the directory is new, and the version is not in it
      have hversion : T.get? (intStr version :: Loc.resolve directory) = none := by
        by_contra hsome
        rw [FileTree.get?_parent (Option.isSome_iff_ne_none.2 hsome)] at hfree
        cases hfree
      rw [hversion, ite_self, ite_self]
  rw [Artifacts.envelopeAt, hfind, Artifacts.envelopeAt]

omit [FileOp.ListingOrder] in
theorem SameAt.mkdirsFrom :
    (T'.mkdirsFrom [] directory).1 = (T.mkdirsFrom [] directory).1 := by
  rw [Bool.eq_iff_iff, FileTree.mkdirsFrom_fst FileTree.get?_root,
    FileTree.mkdirsFrom_fst FileTree.get?_root]
  refine forall₂_congr fun k hk => ?_
  rw [h.text k hk]

omit [FileOp.ListingOrder] in
theorem SameAt.placeable (hmade : (T.mkdirsFrom [] directory).1 = true) (version : Int) :
    (T'.mkdirsFrom [] directory).2.Placeable (intStr version :: Loc.resolve directory) ↔
      (T.mkdirsFrom [] directory).2.Placeable (intStr version :: Loc.resolve directory) := by
  have hmade' := h.mkdirsFrom.trans hmade
  rw [FileTree.placeable_of_mkdirsFrom hmade, FileTree.placeable_of_mkdirsFrom hmade',
    h.version _ (isVersion_intStr version)]

end Read

/-! ## What is observed -/

section Observe

variable [FileOp.ListingOrder] [ArtifactUtil] {root : Root} {b : Address}
  {directory : List String} {T T' : FileTree} (hb : artifactDir root b = .ok directory)
  (h : SameAt directory T T')
include hb h

theorem SameAt.chooseVersion (version : Option Int) :
    (chooseVersion root b version).answer device T' =
      (chooseVersion root b version).answer device T := by
  cases version with
  | some version => rfl
  | none =>
    rw [Artifacts.chooseVersion, (reads_listVersions root b).answer_bind,
      (reads_listVersions root b).answer_bind, answer_listVersions, answer_listVersions, hb]
    show (Artifacts.versionsAt T' directory).bind _ = (Artifacts.versionsAt T directory).bind _
    rcases h.versionsAt with ⟨vs, vs', hvs, hvs', hperm⟩ | ⟨e, he, he'⟩
    · rw [hvs, hvs']
      show Except.ok (vs'.max?.map Int.ofNat) = Except.ok (vs.max?.map Int.ofNat)
      rw [max?_perm hperm]
    · rw [he, he']
      rfl

theorem SameAt.readEnvelope (version : Int) :
    (readEnvelope root b version).answer device T' =
      (readEnvelope root b version).answer device T := by
  rw [answer_readEnvelope, answer_readEnvelope, versionPath_ok hb]
  exact h.envelopeAt version

theorem SameAt.findEnvelope (version : Option Int) :
    (findEnvelope root b version).answer device T' =
      (findEnvelope root b version).answer device T := by
  refine (reads_chooseVersion root b version).answer_congr (h.chooseVersion hb version) ?_
  intro chosen
  cases chosen with
  | none => rfl
  | some version => exact h.readEnvelope hb version

theorem SameAt.artifactVersionMeta (version : Int) (now : Binary64) :
    (artifactVersionMeta root b version now).answer device T' =
      (artifactVersionMeta root b version now).answer device T := by
  refine (reads_readEnvelope root b version).answer_congr (h.readEnvelope hb version) ?_
  intro found
  cases found with
  | none => rfl
  | some envelope =>
    apply Script.answer_congr_ofExcept
    intro path
    apply Script.answer_congr_ofExcept
    exact fun found => rfl

theorem SameAt.getArtifactVersion (version : Option Int) (now : Binary64) :
    (getArtifactVersion root b version now).answer device T' =
      (getArtifactVersion root b version now).answer device T := by
  refine (reads_chooseVersion root b version).answer_congr (h.chooseVersion hb version) ?_
  intro chosen
  cases chosen with
  | none => rfl
  | some version => exact h.artifactVersionMeta hb version now

theorem SameAt.versionMetas (now : Binary64) (versions : List Nat) :
    (versionMetas root b now versions).answer device T' =
      (versionMetas root b now versions).answer device T := by
  induction versions with
  | nil => rfl
  | cons version versions ih =>
    refine (reads_artifactVersionMeta root b version now).answer_congr
      (h.artifactVersionMeta hb version now) ?_
    intro found
    exact (reads_versionMetas root b now versions).answer_congr ih fun rest => rfl

/-- A load that meets no reference. -/
theorem SameAt.loadArtifact (depth : Nat) {version : Option Int}
    (href : ∀ envelope target,
      (Artifacts.findEnvelope root b version).answer device T = .ok (some envelope) →
      partFromEnvelope envelope b.appName b.userId b.sessionId ≠ .ok (.load target)) :
    (loadArtifact root depth b version).answer device T' =
      (loadArtifact root depth b version).answer device T := by
  cases depth with
  | zero => rfl
  | succ depth =>
    rw [answer_loadArtifact, answer_loadArtifact, h.findEnvelope hb version]
    cases hfound : (Artifacts.findEnvelope root b version).answer device T with
    | error e => rfl
    | ok found =>
    cases found with
    | none => rfl
    | some envelope =>
    simp only [Except.bind]
    cases hdecode : partFromEnvelope envelope b.appName b.userId b.sessionId with
    | error e => rfl
    | ok decoded =>
    cases decoded with
    | part part => rfl
    | load target => exact absurd hdecode (href envelope target hfound)

/-- The next save is answered alike, so it gets the same version number or is refused alike. -/
theorem SameAt.saveArtifact (artifact : Except Error Part) (customMetadata : Option Metadata)
    (now : Binary64) :
    ((saveArtifact root b artifact customMetadata now).run device T').1 =
      ((saveArtifact root b artifact customMetadata now).run device T).1 := by
  have hpending : pendingSave root b artifact customMetadata now T' =
      pendingSave root b artifact customMetadata now T := by
    cases artifact with
    | error e => rfl
    | ok part =>
      rw [pendingSave_eq customMetadata now T' hb, pendingSave_eq customMetadata now T hb]
      rcases h.versionsAt with ⟨vs, vs', hvs, hvs', hperm⟩ | ⟨e, he, he'⟩
      -- the listings may differ in their order, but not in the next number
      · have hnext : nextVersion vs' = nextVersion vs := by
          rw [nextVersion, nextVersion, max?_perm hperm]
        rw [hvs, hvs']
        simp only [Except.bind, hnext]
      · rw [he, he']
  rw [run_saveArtifact, run_saveArtifact, hpending]
  cases hfound : pendingSave root b artifact customMetadata now T with
  | error e => rfl
  | ok pending =>
    obtain ⟨found, version, envelope⟩ := pending
    obtain ⟨-, -, -, hdir, -⟩ := pendingSave_ok hfound
    rw [hb] at hdir
    cases hdir
    -- what the save writes is decided; it gets as far in one tree as in the other
    simp only [run_writeEnvelope]
    have hmade := h.mkdirsFrom
    have hplace := fun hmade => h.placeable hmade version
    generalize T.mkdirsFrom [] directory = made at hmade hplace
    generalize T'.mkdirsFrom [] directory = made' at hmade hplace
    obtain ⟨made, T₁⟩ := made
    obtain ⟨made', T₁'⟩ := made'
    obtain rfl : made' = made := hmade
    cases made' with
    | false => rfl
    | true =>
      cases dumpsEnvelope envelope with
      | error e => rfl
      | ok text =>
        by_cases hp : T₁.Placeable (intStr version :: Loc.resolve directory)
        · simp only [if_pos hp, if_pos ((hplace rfl).2 hp)]
        · simp only [if_neg hp, if_neg fun hp' => hp ((hplace rfl).1 hp')]

end Observe

/-! ## Metadata in version order -/

section Metas

variable [FileOp.ListingOrder] [ArtifactUtil] (root : Root) (b : Address) (now : Binary64)
  (T : FileTree)

/-- The metadata found for one version. -/
def foundMeta (version : Nat) : Option ArtifactVersion :=
  match (artifactVersionMeta root b version now).answer device T with
  | .ok found => found
  | .error _ => none

/-- Every version can be read. -/
def Readable (versions : List Nat) : Prop :=
  ∀ version ∈ versions, ∃ found,
    (artifactVersionMeta root b version now).answer device T = .ok found

theorem versionMetas_cons (version : Nat) (versions : List Nat) :
    (versionMetas root b now (version :: versions)).answer device T =
      ((artifactVersionMeta root b version now).answer device T).bind fun found =>
        ((versionMetas root b now versions).answer device T).bind fun rest =>
          .ok (found.toList ++ rest) := by
  rw [versionMetas, (reads_artifactVersionMeta root b version now).answer_bind]
  congr 1
  funext found
  rw [(reads_versionMetas root b now versions).answer_bind]
  rfl

theorem versionMetas_of_readable {versions : List Nat} (h : Readable root b now T versions) :
    (versionMetas root b now versions).answer device T =
      .ok (versions.filterMap (foundMeta root b now T)) := by
  induction versions with
  | nil => rfl
  | cons version versions ih =>
    obtain ⟨found, hfound⟩ := h version List.mem_cons_self
    rw [versionMetas_cons, ih fun v hv => h v (List.mem_cons_of_mem version hv), hfound,
      List.filterMap_cons, foundMeta, hfound]
    cases found <;> rfl

theorem versionMetas_of_not_readable {versions : List Nat}
    (h : ¬Readable root b now T versions) :
    ∃ e, (versionMetas root b now versions).answer device T = .error e := by
  induction versions with
  | nil => exact absurd (fun v hv => absurd hv List.not_mem_nil) h
  | cons version versions ih =>
    rw [versionMetas_cons]
    cases hfound : (artifactVersionMeta root b version now).answer device T with
    | error e => exact ⟨e, rfl⟩
    | ok found =>
      have hrest : ¬Readable root b now T versions := by
        intro hrest
        apply h
        intro v hv
        rcases List.mem_cons.1 hv with rfl | hv
        · exact ⟨found, hfound⟩
        · exact hrest v hv
      obtain ⟨e, he⟩ := ih hrest
      rw [he]
      exact ⟨e, rfl⟩

theorem version_of_foundMeta {version : Nat} {found : ArtifactVersion}
    (h : foundMeta root b now T version = some found) : found.version = version := by
  have hok : (artifactVersionMeta root b version now).answer device T = .ok (some found) := by
    rw [foundMeta] at h
    split at h
    · next heq => rw [heq, h]
    · cases h
  rw [artifactVersionMeta, (reads_readEnvelope root b version).answer_bind] at hok
  -- a lookup that finds metadata went through every step, and the last writes the version
  cases hread : (readEnvelope root b version).answer device T with
  | error e =>
    rw [hread] at hok
    cases hok
  | ok envelope =>
  rw [hread] at hok
  cases envelope with
  | none => cases hok
  | some envelope =>
  simp only [Except.bind] at hok
  rw [(Script.reads_ofExcept _).answer_bind, Script.answer_ofExcept] at hok
  cases hpath : versionPath root b version with
  | error e =>
    rw [hpath] at hok
    cases hok
  | ok path =>
  rw [hpath] at hok
  simp only [Except.bind] at hok
  cases envelope with
  | dict d =>
    cases hok
    rfl
  | _ => cases hok

/-- The order of the directory does not show in the list. -/
theorem listArtifactVersions_perm {vs vs' : List Nat} (h : vs.Perm vs') :
    (((versionMetas root b now vs).answer device T).map fun metas =>
        metas.insertionSort fun m n => m.version ≤ n.version).toOption =
      (((versionMetas root b now vs').answer device T).map fun metas =>
        metas.insertionSort fun m n => m.version ≤ n.version).toOption := by
  by_cases hread : Readable root b now T vs
  · have hread' : Readable root b now T vs' := fun v hv => hread v (h.mem_iff.2 hv)
    rw [versionMetas_of_readable root b now T hread, versionMetas_of_readable root b now T hread']
    apply congrArg some
    have htotal : Std.Total fun m n : ArtifactVersion => m.version ≤ n.version :=
      ⟨fun m n => Int.le_total _ _⟩
    have htrans : IsTrans ArtifactVersion fun m n => m.version ≤ n.version :=
      ⟨fun l m n => Int.le_trans⟩
    have hperm := h.filterMap (foundMeta root b now T)
    refine List.Perm.eq_of_pairwise ?_ (List.pairwise_insertionSort _ _)
      (List.pairwise_insertionSort _ _) (((List.perm_insertionSort _ _).trans hperm).trans
        (List.perm_insertionSort _ _).symm)
    -- two entries of one version are the metadata found for that version
    intro m n hm hn hmn hnm
    obtain ⟨v, -, hv⟩ := List.mem_filterMap.1 ((List.mem_insertionSort _).1 hm)
    obtain ⟨w, -, hw⟩ := List.mem_filterMap.1 ((List.mem_insertionSort _).1 hn)
    have hvw : (v : Int) = w := by
      rw [← version_of_foundMeta root b now T hv, ← version_of_foundMeta root b now T hw]
      exact Int.le_antisymm hmn hnm
    rw [Int.ofNat_inj.1 hvw, hw] at hv
    exact (Option.some.inj hv).symm
  · have hread' : ¬Readable root b now T vs' :=
      fun hread' => hread fun v hv => hread' v (h.mem_iff.1 hv)
    obtain ⟨e, he⟩ := versionMetas_of_not_readable root b now T hread
    obtain ⟨e', he'⟩ := versionMetas_of_not_readable root b now T hread'
    rw [he, he']
    rfl

end Metas

section Observe

variable [FileOp.ListingOrder] [ArtifactUtil] {root : Root} {b : Address}
  {directory : List String} {T T' : FileTree} (hb : artifactDir root b = .ok directory)
  (h : SameAt directory T T')
include hb h

theorem SameAt.listArtifactVersions (now : Binary64) :
    ((listArtifactVersions root b now).answer device T').toOption =
      ((listArtifactVersions root b now).answer device T).toOption := by
  have hanswer : ∀ S : FileTree, (Artifacts.listArtifactVersions root b now).answer device S =
      (Artifacts.versionsAt S directory).bind fun versions =>
        ((Artifacts.versionMetas root b now versions).answer device S).map fun metas =>
          metas.insertionSort fun m n => m.version ≤ n.version := by
    intro S
    rw [Artifacts.listArtifactVersions, (reads_listVersions root b).answer_bind,
      answer_listVersions, hb]
    show (Artifacts.versionsAt S directory).bind _ = _
    congr 1
    funext versions
    rw [(reads_versionMetas root b now versions).answer_bind]
    cases (Artifacts.versionMetas root b now versions).answer device S <;> rfl
  rw [hanswer, hanswer]
  rcases h.versionsAt with ⟨vs, vs', hvs, hvs', hperm⟩ | ⟨e, he, he'⟩
  · rw [hvs, hvs']
    simp only [Except.bind]
    rw [h.versionMetas hb]
    exact listArtifactVersions_perm root b now T hperm.symm
  · rw [he, he']
    rfl

end Observe

/-! ## Independence -/

section Independence

variable [FileOp.ListingOrder] [ArtifactUtil]

/-- What can be observed of an artifact is the same in both trees: the versions up to the order in
which they are listed, the next save's answer, each version's metadata, and what is loaded where no
reference is met. -/
structure SameObservations (root : Root) (b : Address) (T T' : FileTree) : Prop where
  versions :
    (∃ vs vs', (listVersions root b).answer device T = .ok vs ∧
        (listVersions root b).answer device T' = .ok vs' ∧ vs.Perm vs') ∨
      ∃ e, (listVersions root b).answer device T = .error e ∧
        (listVersions root b).answer device T' = .error e
  saved (artifact : Except Error Part) (customMetadata : Option Metadata) (now : Binary64) :
    ((saveArtifact root b artifact customMetadata now).run device T').1 =
      ((saveArtifact root b artifact customMetadata now).run device T).1
  loaded (depth : Nat) (version : Option Int) :
    (∀ envelope target, (findEnvelope root b version).answer device T = .ok (some envelope) →
        partFromEnvelope envelope b.appName b.userId b.sessionId ≠ .ok (.load target)) →
      (loadArtifact root depth b version).answer device T' =
        (loadArtifact root depth b version).answer device T
  metadata (version : Option Int) (now : Binary64) :
    (getArtifactVersion root b version now).answer device T' =
      (getArtifactVersion root b version now).answer device T
  metas (now : Binary64) :
    ((listArtifactVersions root b now).answer device T').toOption =
      ((listArtifactVersions root b now).answer device T).toOption

theorem SameAt.observations {root : Root} {b : Address} {directory : List String}
    {T T' : FileTree} (hb : artifactDir root b = .ok directory) (h : SameAt directory T T') :
    SameObservations root b T T' where
  versions := by
    rw [answer_listVersions, answer_listVersions, hb]
    exact h.versionsAt
  saved := h.saveArtifact hb
  loaded depth _ href := h.loadArtifact hb depth href
  metadata := h.getArtifactVersion hb
  metas := h.listArtifactVersions hb

/-- A request changes nothing outside what the methods of its artifact write. -/
theorem changedAt_request {root : Root} {a : Address} {directory : List String} {T : FileTree}
    (ha : artifactDir root a = .ok directory) (depth : Nat) (request : Request) :
    ChangedAt directory T ((request.script root depth a).run device T).2 := by
  cases request with
  | saveArtifact artifact customMetadata now =>
    rw [Request.script, Script.run_map]
    exact changedAt_save ha rfl
  | deleteArtifact =>
    rw [Request.script, Script.run_map]
    exact changedAt_delete ha rfl
  | loadArtifact version =>
    rw [Request.script, Script.run_map, reads_loadArtifact root depth a version T]
    exact .refl directory T
  | listVersions =>
    rw [Request.script, Script.run_map, reads_listVersions root a T]
    exact .refl directory T
  | listArtifactVersions now =>
    rw [Request.script, Script.run_map, reads_listArtifactVersions root a now T]
    exact .refl directory T
  | getArtifactVersion version now =>
    rw [Request.script, Script.run_map, reads_getArtifactVersion root a version now T]
    exact .refl directory T

/-- A call for one artifact, in whatever tree, leaves what can be observed of another as it was. -/
theorem independent {root : Root} {a b : Address} {directory directory' : List String}
    (ha : artifactDir root a = .ok directory) (hb : artifactDir root b = .ok directory')
    (hapart : Apart directory directory') (T : FileTree) (depth : Nat) (request : Request) :
    SameObservations root b T ((request.script root depth a).run device T).2 :=
  (sameAt_of_changedAt hapart (changedAt_request ha depth request)).observations hb

end Independence

attribute [local instance] basicUtil FileOp.treeOrder

/-- The tree with a first version of `reports/2024/q3.txt`. -/
def reportFile (text : String) : FileTree :=
  (FileTree.empty.mkdirsFrom [] ["data", "app", "user", "s", "reports", "2024", "q3.txt"]).2.place
    ["0", "q3.txt", "2024", "reports", "s", "user", "app", "data"] (.file text)

/-- Saving `notes.txt` leaves the report, of which there is a version, as it is. -/
theorem independent_report :
    (listVersions dataRoot (inSession "reports/2024/q3.txt")).answer device (reportFile "{}") =
        .ok [0] ∧
      SameObservations dataRoot (inSession "reports/2024/q3.txt") (reportFile "{}")
        (((Request.saveArtifact (.ok { text := some "x" }) none (Binary64.ofRatio false 1 2)).script
          dataRoot 1 (inSession "notes.txt")).run device (reportFile "{}")).2 := by
  have ha : artifactDir dataRoot (inSession "notes.txt") =
      .ok ["data", "app", "user", "s", "notes.txt"] := rfl
  have hb : artifactDir dataRoot (inSession "reports/2024/q3.txt") =
      .ok ["data", "app", "user", "s", "reports", "2024", "q3.txt"] := rfl
  have hapart : Apart ["data", "app", "user", "s", "notes.txt"]
      ["data", "app", "user", "s", "reports", "2024", "q3.txt"] :=
    apart_of_down (by decide) (by decide) (by decide) (by simp) (by simp)
  exact ⟨rfl, independent ha hb hapart (reportFile "{}") 1 _⟩

/-- A reference to the first version of `a.txt`. -/
def linkUri : String := "artifact://apps/app/users/user/sessions/s/artifacts/a.txt/versions/0"

/-- The storage after `a.txt` was saved, and then the reference to it as `b.txt`. -/
def linkedStorage (now : Binary64) : FileTree :=
  let saved := ((saveArtifact dataRoot (inSession "a.txt") (.ok { text := some "x" }) none
    now).run device .empty).2
  ((saveArtifact dataRoot (inSession "b.txt") (.ok { fileData := some { fileUri := some linkUri } })
    none now).run device saved).2

/-- The tree with a first version of `a.txt`. -/
def oneFile (text : String) : FileTree :=
  (FileTree.empty.mkdirsFrom [] ["data", "app", "user", "s", "a.txt"]).2.place
    ["0", "a.txt", "s", "user", "app", "data"] (.file text)

/-- The tree with a first version of `b.txt` as well. -/
def twoFiles (text link : String) : FileTree :=
  ((oneFile text).mkdirsFrom [] ["data", "app", "user", "s", "b.txt"]).2.place
    ["0", "b.txt", "s", "user", "app", "data"] (.file link)

theorem linkedStorage_eq (now : Binary64) :
    linkedStorage now =
      twoFiles (Json.dumps (.dict (header 0 now none ++ textFields "x")))
        (Json.dumps (.dict (header 0 now none ++ fileFields linkUri none))) := by
  let text := header 0 now none ++ textFields "x"
  let link := header 0 now none ++ fileFields linkUri none
  have htext : dumpsEnvelope text = .ok (Json.dumps (.dict text)) := rfl
  have hlink : dumpsEnvelope link = .ok (Json.dumps (.dict link)) := rfl
  change linkedStorage now = twoFiles (Json.dumps (.dict text)) (Json.dumps (.dict link))
  -- the texts stay variables, since only their being the dumps matters
  generalize Json.dumps (.dict text) = t at htext
  generalize Json.dumps (.dict link) = l at hlink
  have hdira : artifactDir dataRoot (inSession "a.txt") = .ok ["data", "app", "user", "s", "a.txt"] :=
    rfl
  have hdirb : artifactDir dataRoot (inSession "b.txt") = .ok ["data", "app", "user", "s", "b.txt"] :=
    rfl
  have hbuilda : buildEnvelope (nextVersion []) { text := some "x" } none "app" "user" (some "s")
      now = .ok text := rfl
  have hbuildb : buildEnvelope (nextVersion []) { fileData := some { fileUri := some linkUri } } none
      "app" "user" (some "s") now = .ok link := rfl
  have hplace : ((oneFile t).mkdirsFrom [] ["data", "app", "user", "s", "b.txt"]).2.Placeable
      ["0", "b.txt", "s", "user", "app", "data"] := by
    refine ⟨rfl, ?_⟩
    intro h
    cases (show none = some Node.dir from h)
  have ha := run_saveArtifact_ok (T := .empty) hdira rfl hbuilda rfl htext (by decide +kernel)
  have hb := run_saveArtifact_ok (T := oneFile t) hdirb rfl hbuildb rfl hlink hplace
  change ((saveArtifact _ _ _ _ _).run device ((saveArtifact _ _ _ _ _).run device .empty).2).2 = _
  rw [ha]
  exact congrArg Prod.snd hb

/-- The tree once `a.txt` is deleted. -/
def onlyLink (text link : String) : FileTree :=
  (twoFiles text link).remove ["0", "a.txt", "s", "user", "app", "data"]

theorem deleteArtifact_twoFiles (text link : String) :
    ((deleteArtifact dataRoot (inSession "a.txt")).run device (twoFiles text link)).2 =
      onlyLink text link := by
  rw [run_deleteArtifact, onlyLink]
  rfl

theorem findEnvelope_text {T : FileTree} {found : Except Error (Option Value)}
    (hread : envelopeAt T ["data", "app", "user", "s", "a.txt", "0"] = found) :
    (findEnvelope dataRoot (inSession "a.txt") (some 0)).answer device T = found :=
  (answer_readEnvelope dataRoot (inSession "a.txt") T 0).trans hread

theorem findEnvelope_link {T : FileTree} {found : Except Error (Option Value)}
    (hlist : Artifacts.versionsAt T ["data", "app", "user", "s", "b.txt"] = .ok [0])
    (hread : envelopeAt T ["data", "app", "user", "s", "b.txt", "0"] = found) :
    (findEnvelope dataRoot (inSession "b.txt") none).answer device T = found := by
  have hversions : (listVersions dataRoot (inSession "b.txt")).answer device T = .ok [0] :=
    (answer_listVersions dataRoot (inSession "b.txt") T).trans hlist
  rw [findEnvelope, (reads_chooseVersion _ _ _).answer_bind, chooseVersion,
    (reads_listVersions _ _).answer_bind, hversions]
  exact (answer_readEnvelope dataRoot (inSession "b.txt") T 0).trans hread

section Trees

variable {t l : String} {text link : Value} (ht : Json.loads t = some text)
  (hl : Json.loads l = some link)

include ht in
theorem text_of_twoFiles :
    (findEnvelope dataRoot (inSession "a.txt") (some 0)).answer device (twoFiles t l) =
      .ok (some text) := by
  apply findEnvelope_text
  show (loadsEnvelope t).map some = _
  rw [loadsEnvelope, ht]
  rfl

theorem text_of_onlyLink :
    (findEnvelope dataRoot (inSession "a.txt") (some 0)).answer device (onlyLink t l) =
      .ok none := findEnvelope_text rfl

include hl in
theorem link_of_twoFiles :
    (findEnvelope dataRoot (inSession "b.txt") none).answer device (twoFiles t l) =
      .ok (some link) := by
  apply findEnvelope_link rfl
  show (loadsEnvelope l).map some = _
  rw [loadsEnvelope, hl]
  rfl

include hl in
theorem link_of_onlyLink :
    (findEnvelope dataRoot (inSession "b.txt") none).answer device (onlyLink t l) =
      .ok (some link) := by
  apply findEnvelope_link rfl
  show (loadsEnvelope l).map some = _
  rw [loadsEnvelope, hl]
  rfl

end Trees

/-- What `b.txt` loads as changes when `a.txt`, which it refers to, is deleted. -/
theorem reference_follows_target :
    let T := linkedStorage (Binary64.ofRatio false 1 2)
    let T' := ((deleteArtifact dataRoot (inSession "a.txt")).run device T).2
    (loadArtifact dataRoot 2 (inSession "b.txt") none).answer device T =
        .ok (some { text := some "x" }) ∧
      (loadArtifact dataRoot 2 (inSession "b.txt") none).answer device T' = .ok none := by
  generalize Binary64.ofRatio false 1 2 = now
  have hbuildtext : buildEnvelope 0 { text := some "x" } none "app" "user" (some "s") now =
      .ok (header 0 now none ++ textFields "x") := rfl
  have hbuildlink : buildEnvelope 0 { fileData := some { fileUri := some linkUri } } none "app"
      "user" (some "s") now = .ok (header 0 now none ++ fileFields linkUri none) := rfl
  have htext := Json.loads_dumps (isJson_envelope hbuildtext rfl)
  have hlink := Json.loads_dumps (isJson_envelope hbuildlink rfl)
  have hdecodetext : partFromEnvelope (.dict (header 0 now none ++ textFields "x"))
      (inSession "a.txt").appName (inSession "a.txt").userId (inSession "a.txt").sessionId =
        .ok (.part { text := some "x" }) := decode_text 0 now none _ _ _ "x"
  have hdecodelink : partFromEnvelope (.dict (header 0 now none ++ fileFields linkUri none))
      (inSession "b.txt").appName (inSession "b.txt").userId (inSession "b.txt").sessionId =
        .ok (.load ⟨"app", "user", some "s", "a.txt", 0⟩) := rfl
  simp only [linkedStorage_eq, deleteArtifact_twoFiles]
  constructor
  · rw [load_of_reference (link_of_twoFiles hlink) hdecodelink]
    exact load_of_part (text_of_twoFiles htext) hdecodetext
  · rw [load_of_reference (link_of_onlyLink hlink) hdecodelink]
    exact load_of_none text_of_onlyLink

end AgentCluster.Artifacts
