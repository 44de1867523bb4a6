import AgentCluster.Artifacts.Runs

/-!
# Where artifacts are stored

What saving or deleting one artifact changes in the tree, and sets of version directories in which no
artifact is stored where another has its versions (`Separate`). The directories of scopes that are
single names, with filenames that stay below them and have no component that reads as a version number
(`Scoped`, `Tame`), are such a set.
-/

set_option autoImplicit false

namespace AgentCluster.Artifacts

open Python Library Adk.Artifact

/-! ## Version numbers in a directory -/

/-- A name that a version directory has for versions, or that is taken for one. -/
def IsVersion (name : String) : Prop := isDigit name = true ∨ ∃ version : Int, name = intStr version

theorem isVersion_intStr (version : Int) : IsVersion (intStr version) := Or.inr ⟨version, rfl⟩

/-- A name with a character that is neither a digit nor a minus sign. -/
theorem not_isVersion_of_mem {name : String} {c : Char} (hc : c ∈ name.toList)
    (hdigit : isDigitChar c = false) (hminus : c ≠ '-') : ¬IsVersion name := by
  rintro (h | ⟨version, rfl⟩)
  · rw [isDigit, Bool.and_eq_true, List.all_eq_true] at h
    rw [h.2 c hc] at hdigit
    cases hdigit
  · have hdecimal : ∀ n, c ∈ digits n → isDigitChar c = true := by
      intro n hn
      rw [isDigitChar, decimalValue_of_isDigit (isDigit_of_mem_digits hn)]
      rfl
    cases version with
    | ofNat n =>
      rw [intStr, String.toList_ofList] at hc
      rw [hdecimal n hc] at hdigit
      cases hdigit
    | negSucc n =>
      rw [intStr, String.toList_ofList] at hc
      rcases List.mem_cons.1 hc with rfl | hc
      · exact hminus rfl
      · rw [hdecimal (n + 1) hc] at hdigit
        cases hdigit

/-- The numbers among the names. -/
def numbersOf (names : List String) : List Nat := (names.filter isDigit).filterMap intOfDigits

theorem versionsOf_eq (names : List String) :
    versionsOf names =
      if ∀ name ∈ names.filter isDigit, (intOfDigits name).isSome then .ok (numbersOf names)
      else .error .value := by
  rw [versionsOf, numbersOf]
  -- by induction on the numbered names; the first one that is no number fails the whole
  induction names.filter isDigit with
  | nil => rfl
  | cons name names ih =>
    rw [List.mapM_cons, ih]
    cases hname : intOfDigits name with
    | none =>
      refine (if_neg ?_).symm
      intro h
      have hsome := h name List.mem_cons_self
      rw [hname] at hsome
      cases hsome
    | some version =>
      have hall : (∀ n ∈ name :: names, (intOfDigits n).isSome) ↔
          ∀ n ∈ names, (intOfDigits n).isSome := by
        rw [List.forall_mem_cons, hname]
        exact and_iff_right rfl
      rw [List.filterMap_cons, hname, if_congr hall rfl rfl]
      by_cases h : ∀ n ∈ names, (intOfDigits n).isSome
      · rw [if_pos h, if_pos h]
        rfl
      · rw [if_neg h, if_neg h]
        rfl

theorem mem_of_versionsOf {names : List String} {vs : List Nat} (h : versionsOf names = .ok vs)
    {version : Nat} (hversion : intStr version ∈ names) : version ∈ vs := by
  rw [versionsOf_eq] at h
  split at h
  · cases h
    exact List.mem_filterMap.2 ⟨intStr version, List.mem_filter.2 ⟨hversion, isDigit_intStr version⟩,
      intOfDigits_intStr version⟩
  · cases h

theorem versionsOf_perm {names names' : List String}
    (h : (names.filter isDigit).Perm (names'.filter isDigit)) :
    (∃ vs vs', versionsOf names = .ok vs ∧ versionsOf names' = .ok vs' ∧ vs.Perm vs') ∨
      ∃ e, versionsOf names = .error e ∧ versionsOf names' = .error e := by
  have hall : (∀ n ∈ names.filter isDigit, (intOfDigits n).isSome) ↔
      ∀ n ∈ names'.filter isDigit, (intOfDigits n).isSome := by
    simp only [h.mem_iff]
  rw [versionsOf_eq, versionsOf_eq, if_congr hall rfl rfl]
  split
  · exact Or.inl ⟨_, _, rfl, rfl, h.filterMap intOfDigits⟩
  · exact Or.inr ⟨_, rfl, rfl⟩

theorem filter_map_intStr (vs : List Nat) :
    (vs.map fun v : Nat => intStr v).filter isDigit = vs.map fun v : Nat => intStr v := by
  rw [List.filter_eq_self, List.forall_mem_map]
  exact fun v _ => isDigit_intStr v

theorem versionsOf_map_intStr (vs : List Nat) :
    versionsOf (vs.map fun v : Nat => intStr v) = .ok vs := by
  rw [versionsOf_eq, filter_map_intStr, numbersOf, filter_map_intStr, if_pos]
  · simp [List.filterMap_map, intOfDigits_intStr]
  · rw [List.forall_mem_map]
    intro v _
    rw [intOfDigits_intStr]
    rfl

/-- A directory whose versions are named by the numbers `vs` lists these. -/
theorem versionsOf_of_perm {names : List String} {vs : List Nat}
    (h : (names.filter isDigit).Perm (vs.map fun v : Nat => intStr v)) :
    ∃ vs', versionsOf names = .ok vs' ∧ vs'.Perm vs := by
  rw [← filter_map_intStr] at h
  rcases versionsOf_perm h with ⟨vs', vs'', hvs', hvs'', hperm⟩ | ⟨e, -, he⟩
  · rw [versionsOf_map_intStr] at hvs''
    cases hvs''
    exact ⟨vs', hvs', hperm⟩
  · rw [versionsOf_map_intStr] at he
    cases he

theorem max?_perm {vs vs' : List Nat} (h : vs.Perm vs') : vs.max? = vs'.max? := by
  cases hmax : vs.max? with
  | none =>
    rw [List.max?_eq_none_iff] at hmax
    rw [hmax] at h
    rw [← h.nil_eq]
    rfl
  | some m =>
    rw [List.max?_eq_some_iff] at hmax
    symm
    rw [List.max?_eq_some_iff]
    exact ⟨h.mem_iff.1 hmax.1, fun b hb => hmax.2 b (h.mem_iff.2 hb)⟩

theorem nextVersion_not_mem (vs : List Nat) : nextVersion vs ∉ vs := by
  rw [nextVersion]
  cases hmax : vs.max? with
  | none =>
    rw [List.max?_eq_none_iff.1 hmax]
    exact List.not_mem_nil
  | some m =>
    intro hmem
    exact Nat.not_succ_le_self m ((List.max?_eq_some_iff.1 hmax).2 _ hmem)

/-! ## Tame filenames -/

/-- The filename stays below its scope, and none of its components can be taken for a version. -/
structure Tame (filename : String) : Prop where
  relative : isAbsolute filename = false
  down : ∀ c ∈ components filename, c ≠ ".."
  unnumbered : ∀ c ∈ components filename, ¬IsVersion c

/-- A single name with a character that is neither a digit nor a minus sign. -/
theorem tame_name {filename : String} (hname : IsName filename) {c : Char}
    (hc : c ∈ filename.toList) (hdigit : isDigitChar c = false) (hminus : c ≠ '-') :
    Tame filename where
  relative := by
    have hnames : ∀ n ∈ [filename], IsName n := List.forall_mem_singleton.2 hname
    exact not_isAbsolute_join hnames
  down := by
    rw [components_name hname, List.forall_mem_singleton]
    exact hname.ne_dotdot
  unnumbered := by
    rw [components_name hname, List.forall_mem_singleton]
    exact not_isVersion_of_mem hc hdigit hminus

/-- The ids that make the scope of the artifact are single names. -/
structure Scoped (a : Address) : Prop where
  app : IsName a.appName
  user : IsName a.userId
  scope : ∀ scope, scopeName a = some scope → IsName scope

theorem scoped_of_names {a : Address} (happ : IsName a.appName) (huser : IsName a.userId)
    (hsession : ∀ s, a.sessionId = some s → IsName s) : Scoped a where
  app := happ
  user := huser
  scope scope hscope := by
    rw [scopeName] at hscope
    split at hscope
    · cases hscope
      exact isName_user
    · exact hsession scope hscope

theorem isName_app : IsName "app" := ⟨by decide, by decide, by decide, by decide⟩

theorem isName_s : IsName "s" := ⟨by decide, by decide, by decide, by decide⟩

theorem scoped_inSession (filename : String) : Scoped (inSession filename) := by
  refine scoped_of_names isName_app isName_user ?_
  intro s hs
  cases hs
  exact isName_s

/-- The components of the version directory of such an artifact. -/
def artifactPath (root : Root) (a : Address) : List String :=
  scopePath root a.appName a.userId ((scopeName a).getD "") ++ components a.filename

/-- Version directories below the base path, none of which leads through an entry of another that is
named like a version. -/
structure Separate (root : Root) (S : List String → Prop) : Prop where
  below : ∀ directory, S directory → ∃ p, p ≠ [] ∧ directory = root.path ++ p
  down : ∀ directory, S directory → ∀ c ∈ directory, c ≠ ".."
  apart : ∀ directory directory', S directory → S directory' → ∀ name r, IsVersion name →
    directory' ≠ directory ++ name :: r

section Tame

variable [ArtifactUtil] {root : Root} {a : Address} {directory : List String}

theorem directory_of_tame (h : artifactDir root a = .ok directory) (hscoped : Scoped a)
    (htame : Tame a.filename) : directory = artifactPath root a ∧ ∀ c ∈ directory, c ≠ ".." := by
  obtain ⟨scope, hscope, rfl⟩ := artifactDir_ok h
  have hname := hscoped.scope scope hscope
  rw [joinPath_scope hscoped.app hscoped.user hname, artifactPath, joinPath,
    if_neg (by rw [htame.relative]; exact Bool.false_ne_true), hscope]
  refine ⟨rfl, ?_⟩
  intro c hc
  rw [scopePath] at hc
  simp only [List.mem_append, List.mem_cons, List.not_mem_nil, or_false] at hc
  rcases hc with (hc | rfl | rfl | rfl) | hc
  · exact (root.names c hc).ne_dotdot
  · exact hscoped.app.ne_dotdot
  · exact hscoped.user.ne_dotdot
  · exact hname.ne_dotdot
  · exact htame.down c hc

omit [ArtifactUtil] in
/-- What lies below the directory of one artifact on the way to that of another is a component of
the other's filename. -/
theorem mem_components_of_below {b : Address} {name : String} {r : List String}
    (h : artifactPath root b ++ name :: r = artifactPath root a) :
    name ∈ components a.filename := by
  have hdrop : components a.filename = (artifactPath root a).drop (root.path.length + 3) := by
    rw [artifactPath, List.drop_append_of_le_length (by simp [scopePath])]
    simp [scopePath]
  have hlength : root.path.length + 3 ≤ (artifactPath root b).length := by
    simp [artifactPath, scopePath]
  rw [hdrop, ← h, List.drop_append_of_le_length hlength]
  simp

/-- The directory is that of an accepted artifact with a tame filename. -/
def TameDirectory (root : Root) (directory : List String) : Prop :=
  ∃ a, artifactDir root a = .ok directory ∧ Scoped a ∧ Tame a.filename

theorem separate_tame (root : Root) : Separate root (TameDirectory root) where
  below directory := by
    rintro ⟨a, hdir, hscoped, htame⟩
    obtain ⟨rfl, -⟩ := directory_of_tame hdir hscoped htame
    refine ⟨[a.appName, a.userId, (scopeName a).getD ""] ++ components a.filename, by simp, ?_⟩
    rw [artifactPath, scopePath, List.append_assoc]
  down directory := by
    rintro ⟨a, hdir, hscoped, htame⟩
    exact (directory_of_tame hdir hscoped htame).2
  apart directory directory' := by
    rintro ⟨a, hdir, hscoped, htame⟩ ⟨b, hdir', hscoped', htame'⟩ name r hname heq
    obtain ⟨rfl, -⟩ := directory_of_tame hdir hscoped htame
    obtain ⟨rfl, -⟩ := directory_of_tame hdir' hscoped' htame'
    exact htame'.unnumbered name (mem_components_of_below heq.symm) hname

end Tame

section Versions

variable [FileOp.ListingOrder] {T : FileTree} {directory : List String}

/-- The versions found at a path without `..` that is no file are the numbers among the names there,
if there are any. -/
theorem versionsAt_eq (hdown : ∀ c ∈ directory, c ≠ "..")
    (hfile : T.text? (Loc.resolve directory) = none) :
    ∃ names, versionsAt T directory = versionsOf names ∧
      (names.filter isDigit).Perm ((T.children (Loc.resolve directory)).filter isDigit) := by
  have hfind : T.find directory = T.get? (Loc.resolve directory) := by
    rw [FileTree.find_down hdown, Loc.resolve_down hdown]
  rw [versionsAt, hfind]
  cases hnode : T.get? (Loc.resolve directory) with
  | none =>
    have hempty : T.children (Loc.resolve directory) = [] := by
      rw [List.eq_nil_iff_forall_not_mem]
      intro name hname
      rw [FileTree.mem_children] at hname
      rw [FileTree.get?_parent hname] at hnode
      cases hnode
    exact ⟨[], rfl, by rw [hempty]⟩
  | some node =>
    cases node with
    | dir => exact ⟨_, rfl, (FileOp.ListingOrder.perm T _ _).filter isDigit⟩
    | file text =>
      rw [FileTree.text?_eq_some.2 hnode] at hfile
      cases hfile

end Versions

/-! ## What a method changes -/

/-- Two trees differ only where the methods of the artifact in `directory` write: in directories on
the way there and in files of versions. -/
def ChangedAt (directory : List String) (T T' : FileTree) : Prop :=
  ∀ k, T'.get? k = T.get? k ∨
    (k ∈ Loc.visited [] directory ∧ T.get? k = none ∧ T'.get? k = some .dir) ∨
    ∃ version : Nat, k = intStr version :: Loc.resolve directory

theorem ChangedAt.refl (directory : List String) (T : FileTree) : ChangedAt directory T T :=
  fun _ => Or.inl rfl

theorem changedAt_mkdirs (directory : List String) (T : FileTree) :
    ChangedAt directory T (T.mkdirsFrom [] directory).2 := by
  intro k
  rcases FileTree.get?_mkdirsFrom (p := directory) (T := T) FileTree.get?_root k with h | h
  · exact Or.inl h
  · exact Or.inr (Or.inl h)

section Write

variable [FileOp.ListingOrder] [ArtifactUtil] {root : Root} {a : Address} {T T' : FileTree}

/-- Saving changes nothing else. -/
theorem changedAt_save {artifact : Except Error Part} {customMetadata : Option Metadata}
    {now : Binary64} {r : Except Error Nat} {directory : List String}
    (hdir : artifactDir root a = .ok directory)
    (h : (saveArtifact root a artifact customMetadata now).run device T = (r, T')) :
    ChangedAt directory T T' := by
  rcases save_cases h with ⟨e, -, rfl⟩ | ⟨part, found, versions, envelope, -, hfound, -, -, hwrite⟩
  · exact .refl directory _
  · rw [hdir] at hfound
    cases hfound
    rcases hwrite with ⟨e, -, rfl⟩ | ⟨text, -, -, hplace, -, rfl⟩
    · exact changedAt_mkdirs directory T
    · intro k
      rw [FileTree.get?_place hplace]
      split
      · next hk =>
        exact Or.inr (Or.inr ⟨nextVersion versions, hk⟩)
      · exact changedAt_mkdirs directory T k

omit [FileOp.ListingOrder] [ArtifactUtil] in
/-- Removing versions changes only their files. -/
theorem get?_deleteAt {directory : List String} {versions : List Nat} {r : Except Error Unit}
    (h : deleteAt directory versions T = (r, T')) (k : Loc) :
    T'.get? k = T.get? k ∨ T'.get? k = none ∧
      ∃ version ∈ versions, k = intStr version :: Loc.resolve directory := by
  -- by induction on the versions: each one removes its own file and no other place
  induction versions generalizing T with
  | nil =>
    cases h
    exact Or.inl rfl
  | cons version versions ih =>
    have hlater : ∀ {S}, deleteAt directory versions S = (r, T') → T'.get? k = S.get? k ∨
        T'.get? k = none ∧
          ∃ v ∈ version :: versions, k = intStr v :: Loc.resolve directory := by
      intro S hS
      rcases ih hS with heq | ⟨hnone, v, hv, hk⟩
      · exact Or.inl heq
      · exact Or.inr ⟨hnone, v, List.mem_cons_of_mem version hv, hk⟩
    rw [deleteAt] at h
    have hfind := @FileTree.find_append_name T _ (isName_intStr version).ne_dotdot directory
    -- a version that is not there is passed over, one that is a directory stops the deletion
    cases hnode : T.find (directory ++ [intStr version]) with
    | none =>
      rw [hnode] at h
      exact hlater h
    | some node =>
      rw [hnode] at h hfind
      cases node with
      | dir =>
        cases h
        exact Or.inl rfl
      | file text =>
        split at hfind
        · have hremove := FileTree.get?_remove hfind.symm k
          rcases hlater h with heq | hgone
          · by_cases hk : k = intStr version :: Loc.resolve directory
            · rw [if_pos hk] at hremove
              exact Or.inr ⟨heq.trans hremove, version, List.mem_cons_self, hk⟩
            · rw [if_neg hk] at hremove
              exact Or.inl (heq.trans hremove)
          · exact Or.inr hgone
        · cases hfind

omit [FileOp.ListingOrder] [ArtifactUtil] in
/-- Removing versions from a directory succeeds where each is a file or missing. -/
theorem deleteAt_files {directory : List String} {versions : List Nat}
    (hfind : T.find directory = some .dir)
    (hclear : ∀ version : Nat, intStr version :: Loc.resolve directory ∉ Loc.visited [] directory)
    (hfile : ∀ version ∈ versions, T.get? (intStr version :: Loc.resolve directory) ≠ some .dir) :
    ∃ T', deleteAt directory versions T = (.ok (), T') ∧
      ∀ version ∈ versions, T'.get? (intStr version :: Loc.resolve directory) = none := by
  induction versions generalizing T with
  | nil => exact ⟨T, rfl, fun v hv => absurd hv List.not_mem_nil⟩
  | cons version versions ih =>
    have hversion := @FileTree.find_append_name T _ (isName_intStr version).ne_dotdot directory
    rw [if_pos hfind] at hversion
    rw [deleteAt, hversion]
    -- what is gone before the rest is removed stays gone
    have hgone : ∀ {S S'}, deleteAt directory versions S = (.ok (), S') →
        S.get? (intStr version :: Loc.resolve directory) = none →
        (∀ v ∈ versions, S'.get? (intStr v :: Loc.resolve directory) = none) →
        ∀ v ∈ version :: versions, S'.get? (intStr v :: Loc.resolve directory) = none := by
      intro S S' hrun hnone hrest
      rw [List.forall_mem_cons]
      refine ⟨?_, hrest⟩
      rcases get?_deleteAt hrun (intStr version :: Loc.resolve directory) with heq | ⟨h, -⟩
      · exact heq.trans hnone
      · exact h
    have hrest := fun v hv => hfile v (List.mem_cons_of_mem version hv)
    cases hnode : T.get? (intStr version :: Loc.resolve directory) with
    | none =>
      obtain ⟨T', hrun, hnone⟩ := ih hfind hrest
      exact ⟨T', hrun, hgone hrun hnode hnone⟩
    | some node =>
      cases node with
      | dir => exact absurd hnode (hfile version List.mem_cons_self)
      | file text =>
        have hremove := FileTree.get?_remove hnode
        have hfind' : (T.remove (intStr version :: Loc.resolve directory)).find directory =
            some .dir := by
          rw [FileTree.find_eq_dir] at hfind ⊢
          intro k hk
          rw [hremove, if_neg, hfind k hk]
          rintro rfl
          exact hclear version hk
        have hfile' : ∀ v ∈ versions, (T.remove (intStr version :: Loc.resolve directory)).get?
            (intStr v :: Loc.resolve directory) ≠ some .dir := by
          intro v hv
          rw [hremove]
          split
          · simp
          · exact hrest v hv
        obtain ⟨T', hrun, hnone⟩ := ih hfind' hfile'
        exact ⟨T', hrun, hgone hrun (by rw [hremove, if_pos rfl]) hnone⟩

/-- Deleting changes nothing else. -/
theorem changedAt_delete {r : Except Error Unit} {directory : List String}
    (hdir : artifactDir root a = .ok directory)
    (h : (deleteArtifact root a).run device T = (r, T')) : ChangedAt directory T T' := by
  rw [run_deleteArtifact, hdir] at h
  simp only at h
  split at h
  · cases h
    exact .refl directory _
  · intro k
    rcases get?_deleteAt h k with heq | ⟨-, version, -, hk⟩
    · exact Or.inl heq
    · exact Or.inr (Or.inr ⟨version, hk⟩)

end Write

end AgentCluster.Artifacts
