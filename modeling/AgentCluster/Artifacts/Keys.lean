import AgentCluster.Artifacts.Storage
import Mathlib.Data.List.Dedup
import Mathlib.Data.String.Basic

/-!
# Listing and loading agree

`list_artifact_keys` takes a filename back from the path of a stored version, by cutting the scope
off its front and the version off its end. In a storage whose artifacts were saved under normal, tame
filenames, in scopes that are single names, and none of them in a session called `user`, this gives
exactly the filenames for which a version is found (`keys_agree`).

A session called `user` shares its directory with the user's own artifacts, so what is saved there
shows in every session (`userSession_shows`).
-/

set_option autoImplicit false

namespace AgentCluster.Artifacts

open Python Library Adk.Artifact

/-- The filename is its components, joined. -/
structure Normal (filename : String) : Prop where
  nonempty : components filename ≠ []
  joined : join "/" (components filename) = filename
  down : ∀ c ∈ components filename, c ≠ ".."

theorem Normal.names {filename : String} (h : Normal filename) :
    ∀ c ∈ components filename, IsName c :=
  fun c hc => isName_of_component hc (h.down c hc)

theorem Normal.joinPath {filename : String} (h : Normal filename) (path : List String) :
    joinPath path filename = path ++ components filename := by
  have hjoin := joinPath_join h.names path
  rwa [h.joined] at hjoin

theorem normal_name {filename : String} (h : IsName filename) : Normal filename where
  nonempty := by
    rw [components_name h]
    exact List.cons_ne_nil _ _
  joined := by
    rw [components_name h]
    rfl
  down := by
    rw [components_name h, List.forall_mem_singleton]
    exact h.ne_dotdot

/-- A file below the scope directory from which the filename is taken. -/
def ListedUnder (T : FileTree) (scopeDir : List String) (filename : String) : Prop :=
  ∃ p text, 2 ≤ p.length ∧ isDigit (p.getLastD "") = true ∧
    T.get? (scopeDir ++ p).reverse = some (.file text) ∧ filename = join "/" p.dropLast

section List

variable [FileOp.ListingOrder] {T : FileTree}

theorem reads_filenamesUnder (scopeDir : List String) :
    Script.Reads device (filenamesUnder scopeDir) := by
  refine (reads_pathExists _ _).bind fun found => ?_
  cases found with
  | true => exact (reads_files _ _).bind fun leaves => Script.reads_ret _
  | false => exact Script.reads_ret []

omit [FileOp.ListingOrder] in
theorem filenameOf_append {scopeDir p : List String} {filename : String} :
    filenameOf scopeDir.length (scopeDir ++ p) = some filename ↔
      2 ≤ p.length ∧ isDigit (p.getLastD "") = true ∧ filename = join "/" p.dropLast := by
  rw [filenameOf, List.drop_left]
  simp only [Bool.or_eq_true, decide_eq_true_eq, Bool.not_eq_true']
  split
  · next h =>
    refine iff_of_false (by simp) ?_
    rintro ⟨hlength, hdigit, -⟩
    rcases h with hshort | hno
    · omega
    · rw [hno] at hdigit
      cases hdigit
  · next h =>
    rw [not_or, Nat.not_lt, Bool.not_eq_false] at h
    rw [Option.some_inj, eq_comm]
    exact ⟨fun heq => ⟨h.1, h.2, heq⟩, fun ⟨_, _, heq⟩ => heq⟩

omit [FileOp.ListingOrder] in
/-- The path of a version gives the filename back. -/
theorem listedUnder_of_file {scopeDir : List String} {filename text : String} {version : Nat}
    (hnormal : Normal filename)
    (hfile : T.get? (scopeDir ++ components filename ++ [intStr version]).reverse =
      some (.file text)) : ListedUnder T scopeDir filename := by
  refine ⟨components filename ++ [intStr version], text, ?_, ?_, ?_, ?_⟩
  · have hlength := List.length_pos_of_ne_nil hnormal.nonempty
    rw [List.length_append, List.length_singleton]
    omega
  · rw [List.getLastD_concat]
    exact isDigit_intStr version
  · rw [← List.append_assoc]
    exact hfile
  · rw [List.dropLast_concat, hnormal.joined]

/-- The filenames found below a scope directory. -/
theorem answer_filenamesUnder {scopeDir : List String} (hdown : ∀ c ∈ scopeDir, c ≠ "..") :
    ∃ names, (filenamesUnder scopeDir).answer device T = .ok names ∧
      ∀ filename, filename ∈ names ↔ ListedUnder T scopeDir filename := by
  have hfind : T.find scopeDir = T.get? scopeDir.reverse := FileTree.find_down hdown
  rw [filenamesUnder, (reads_pathExists _ _).answer_bind, answer_pathExists]
  -- a file below the scope directory makes it one
  have hbelow : ∀ filename, ListedUnder T scopeDir filename → T.find scopeDir = some .dir := by
    rintro filename ⟨p, text, hlength, -, hfile, -⟩
    rw [hfind]
    rw [List.reverse_append] at hfile
    refine FileTree.get?_above (k := p.reverse) ?_ (by rw [hfile]; rfl)
    rintro hp
    rw [List.reverse_eq_nil_iff] at hp
    rw [hp] at hlength
    cases hlength
  cases hnode : T.find scopeDir with
  | none =>
    refine ⟨[], rfl, fun filename => iff_of_false List.not_mem_nil fun hlisted => ?_⟩
    rw [hbelow filename hlisted] at hnode
    cases hnode
  | some node =>
    have hfiles : (files none scopeDir).answer device T =
        if T.find scopeDir = some .dir then
          .ok ((T.filesBelow (Loc.resolve scopeDir)).map (scopeDir ++ ·))
        else .ok [] := by
      refine (Script.answer_perform _ T).trans ?_
      rw [device, FileOp.perform]
      split <;> rfl
    show ∃ names, (files none scopeDir >>= _).answer device T = .ok names ∧ _
    rw [(reads_files _ _).answer_bind, hfiles]
    cases node with
    | file text =>
      rw [if_neg (by rw [hnode]; simp)]
      refine ⟨[], rfl, fun filename => iff_of_false List.not_mem_nil fun hlisted => ?_⟩
      rw [hbelow filename hlisted] at hnode
      cases hnode
    | dir =>
      rw [if_pos hnode]
      refine ⟨_, rfl, fun filename => ?_⟩
      rw [List.mem_filterMap, Loc.resolve_down hdown]
      constructor
      · rintro ⟨leaf, hleaf, hname⟩
        obtain ⟨p, hp, rfl⟩ := List.mem_map.1 hleaf
        obtain ⟨-, text, hfile⟩ := FileTree.mem_filesBelow.1 hp
        obtain ⟨hlength, hdigit, hjoin⟩ := filenameOf_append.1 hname
        exact ⟨p, text, hlength, hdigit, by rw [List.reverse_append]; exact hfile, hjoin⟩
      · rintro ⟨p, text, hlength, hdigit, hfile, hjoin⟩
        rw [List.reverse_append] at hfile
        refine ⟨scopeDir ++ p, List.mem_map.2 ⟨p, FileTree.mem_filesBelow.2 ⟨?_, text, hfile⟩, rfl⟩,
          filenameOf_append.2 ⟨hlength, hdigit, hjoin⟩⟩
        rintro rfl
        cases hlength

variable [ArtifactUtil] {root : Root} {appName userId : String} {sessionId : Option String}

omit [FileOp.ListingOrder] [ArtifactUtil] in
theorem scopePath_down (root : Root) {scope : String} (happ : IsName appName) (huser : IsName userId)
    (hscope : IsName scope) : ∀ c ∈ scopePath root appName userId scope, c ≠ ".." := by
  intro c hc
  rw [scopePath] at hc
  simp only [List.mem_append, List.mem_cons, List.not_mem_nil, or_false] at hc
  rcases hc with hc | rfl | rfl | rfl
  · exact (root.names c hc).ne_dotdot
  · exact happ.ne_dotdot
  · exact huser.ne_dotdot
  · exact hscope.ne_dotdot

/-- An id that the check accepts and that is a single name. -/
structure AcceptedName (value field : String) : Prop where
  accepted : validatePathSegment value field = .ok ()
  name : IsName value

/-- The list is sorted and without repetitions, and its filenames are those found in the session's
and in the user's own directory. -/
theorem answer_listArtifactKeys (root : Root) (T : FileTree)
    (happ : AcceptedName appName "app_name") (huser : AcceptedName userId "user_id")
    (hsession : ∀ s, sessionId = some s → AcceptedName s "session_id") :
    ∃ keys, (listArtifactKeys root appName userId sessionId).answer device T = .ok keys ∧
      keys.Pairwise (· ≤ ·) ∧ keys.Nodup ∧
      ∀ filename, filename ∈ keys ↔
        (∃ s, sessionId = some s ∧ ListedUnder T (scopePath root appName userId s) filename) ∨
          ListedUnder T (scopePath root appName userId "user") filename := by
  -- the user's names are listed in every call, those of a session only if one is given
  obtain ⟨inUser, huserKeys, hinUser⟩ := answer_filenamesUnder (T := T)
    (scopePath_down root happ.name huser.name isName_user)
  have huserDir : joinPath (joinPath (joinPath root.path appName) userId) "user" =
      scopePath root appName userId "user" :=
    joinPath_scope happ.name huser.name isName_user
  have hrest : ∀ inSession, (do
      let inUser ← filenamesUnder (joinPath (joinPath (joinPath root.path appName) userId) "user")
      return (inSession ++ inUser).dedup.insertionSort (· ≤ ·) : Action (List String)).answer
        device T = .ok ((inSession ++ inUser).dedup.insertionSort (· ≤ ·)) := by
    intro inSession
    rw [huserDir, (reads_filenamesUnder _).answer_bind, huserKeys]
    rfl
  have hsessionKeys : ∃ inSession,
      (listArtifactKeys root appName userId sessionId).answer device T =
        .ok ((inSession ++ inUser).dedup.insertionSort (· ≤ ·)) ∧
      ∀ filename, filename ∈ inSession ↔
        ∃ s, sessionId = some s ∧ ListedUnder T (scopePath root appName userId s) filename := by
    rw [listArtifactKeys, happ.accepted, huser.accepted]
    simp only [Script.ofExcept_ok, Script.ret_bind]
    cases hs : sessionId with
    | none =>
      refine ⟨[], hrest [], fun filename => iff_of_false List.not_mem_nil ?_⟩
      rintro ⟨s, hs, -⟩
      cases hs
    | some s =>
      -- the session's names are looked up first and the user's appended to them
      have hname := (hsession s hs).name
      obtain ⟨inSession, hkeys, hin⟩ := answer_filenamesUnder (T := T)
        (scopePath_down root happ.name huser.name hname)
      refine ⟨inSession, ?_, fun filename => (hin filename).trans ⟨fun h => ⟨s, rfl, h⟩, ?_⟩⟩
      · simp only [(hsession s hs).accepted, Script.ofExcept_ok, Script.ret_bind]
        rw [joinPath_scope happ.name huser.name hname, (reads_filenamesUnder _).answer_bind,
          hkeys]
        exact hrest inSession
      · rintro ⟨s', hs', h⟩
        cases hs'
        exact h
  obtain ⟨inSession, hkeys, hinSession⟩ := hsessionKeys
  refine ⟨_, hkeys, List.pairwise_insertionSort _ _,
    (List.perm_insertionSort _ _).nodup_iff.2 (List.nodup_dedup _), ?_⟩
  intro filename
  rw [List.mem_insertionSort, List.mem_dedup, List.mem_append, hinSession, hinUser]

end List

/-! ## Orderly storage -/

/-- A save whose filename listing takes back. -/
structure ListedSave (a : Address) : Prop where
  ids : Scoped a
  tame : Tame a.filename
  normal : Normal a.filename
  session : a.sessionId = some "user" → fileHasUserNamespace a.filename = true

/-- Such a save is in the scope `user` if its filename has the user prefix, and not otherwise. -/
theorem ListedSave.namespaced {a : Address} (h : ListedSave a) {scope : String}
    (hscope : scopeName a = some scope) :
    fileHasUserNamespace a.filename = true ↔ scope = "user" := by
  rw [scopeName] at hscope
  split at hscope
  · next hns => exact iff_of_true hns (Option.some.inj hscope).symm
  · next hns =>
    refine iff_of_false hns ?_
    rintro rfl
    exact hns (h.session hscope)

section Orderly

variable [FileOp.ListingOrder] [ArtifactUtil] {root : Root} {T : FileTree}
  {Q : Address → Part → Prop}

/-- `load_artifact` finds a stored version. -/
def Found (root : Root) (a : Address) (T : FileTree) : Prop :=
  ∃ envelope, (findEnvelope root a none).answer device T = .ok (some envelope)

omit [FileOp.ListingOrder] in
/-- Such saves have tame directories. -/
theorem within_tame (hQ : ∀ a part, Q a part → ListedSave a) :
    Within (TameDirectory root) root Q :=
  fun a part _ hq hdir => ⟨a, hdir, (hQ a part hq).ids, (hQ a part hq).tame⟩

variable (h : Orderly Q root T) (hQ : ∀ a part, Q a part → ListedSave a)
include h hQ

omit [FileOp.ListingOrder] in
/-- A filename that is listed was saved in the scope in which it is listed. -/
theorem Orderly.listed {appName userId scope filename : String}
    (hlisted : ListedUnder T (scopePath root appName userId scope) filename) :
    ∃ a part, Q a part ∧ a.appName = appName ∧ a.userId = userId ∧ scopeName a = some scope ∧
      a.filename = filename ∧ ∃ (version : Nat) (text : String),
        T.get? (scopePath root appName userId scope ++ components filename ++
          [intStr version]).reverse = some (.file text) := by
  -- the file that lists the name was written by a save, at the path of its address
  obtain ⟨p, text, -, -, hfile, rfl⟩ := hlisted
  rw [scopePath, List.append_assoc] at hfile
  obtain ⟨a, part, version, envelope, directory, hq, hwritten⟩ := h.file _ text (by simp) hfile
  have hsave := hQ a part hq
  obtain ⟨s, hscope, -⟩ := artifactDir_ok hwritten.accepted
  have hpath := hwritten.path_eq
  rw [(directory_of_tame hwritten.accepted hsave.ids hsave.tame).1, artifactPath, hscope,
    Option.getD_some, scopePath, List.append_assoc, List.append_assoc,
    -- both paths go through app, user and scope, which gives the components one by one
    List.append_cancel_left_eq] at hpath
  simp only [List.cons_append, List.nil_append, List.cons.injEq] at hpath
  obtain ⟨rfl, rfl, rfl, rfl⟩ := hpath
  rw [List.dropLast_concat, hsave.normal.joined]
  refine ⟨a, part, hq, rfl, rfl, hscope, rfl, version, text, ?_⟩
  rw [scopePath, List.append_assoc, List.append_assoc]
  exact hfile

/-- Only tame filenames are found: the directory of any other is none that a save has made. -/
theorem Orderly.tame_of_found {b : Address} {directory : List String}
    (hdir : artifactDir root b = .ok directory) (hpath : directory = artifactPath root b)
    (hscoped : Scoped b) (hnormal : Normal b.filename) (hfound : Found root b T) :
    Tame b.filename := by
  obtain ⟨found, hfound⟩ := hfound
  obtain ⟨scope, hscope, -⟩ := artifactDir_ok hdir
  have hdown : ∀ c ∈ directory, c ≠ ".." := by
    rw [hpath, artifactPath, hscope, Option.getD_some, List.forall_mem_append]
    exact ⟨scopePath_down root hscoped.app hscoped.user (hscoped.scope scope hscope), hnormal.down⟩
  -- something was found, so the directory of the address is there
  have hnode : T.get? directory.reverse = some .dir := by
    rw [← FileTree.find_down hdown]
    rw [findEnvelope, (reads_chooseVersion root b none).answer_bind, chooseVersion,
      (reads_listVersions root b).answer_bind, answer_listVersions, hdir] at hfound
    have hbind : (Except.ok directory).bind (Artifacts.versionsAt T) =
      Artifacts.versionsAt T directory := rfl
    rw [hbind, Artifacts.versionsAt] at hfound
    cases hfind : T.find directory with
    | none =>
      rw [hfind] at hfound
      cases hfound
    | some node =>
      cases node with
      | dir => rfl
      | file text =>
        rw [hfind] at hfound
        cases hfound
  have hbelow : directory = root.path ++
      ([b.appName, b.userId, (scopeName b).getD ""] ++ components b.filename) := by
    rw [hpath, artifactPath, scopePath]
    simp
  rw [hbelow] at hnode
  -- that directory lies on the path of some save, whose components are no versions
  obtain ⟨a, part, directory', hq, hdir', hleads⟩ := h.dir _ (by simp) hnode
  have hsave := hQ a part hq
  rw [(directory_of_tame hdir' hsave.ids hsave.tame).1, ← hbelow, hpath, artifactPath, artifactPath,
    scopePath, scopePath, List.append_assoc, List.append_assoc, List.prefix_append_right_inj] at hleads
  simp only [List.cons_append, List.nil_append, List.cons_prefix_cons] at hleads
  have habsolute := not_isAbsolute_join hnormal.names
  rw [hnormal.joined] at habsolute
  exact ⟨habsolute, hnormal.down, fun c hc => hsave.tame.unnumbered c (hleads.2.2.2.subset hc)⟩

/-- A filename is found when a version of it is stored, and it is tame. -/
theorem found_iff {b : Address} {directory : List String} (hdir : artifactDir root b = .ok directory)
    (hpath : directory = artifactPath root b) (hscoped : Scoped b) (hnormal : Normal b.filename) :
    Found root b T ↔ Tame b.filename ∧
      ∃ (version : Nat) (text : String),
        T.get? (directory ++ [intStr version]).reverse = some (.file text) := by
  have hplace : ∀ version : Int, Tame b.filename →
      intStr version :: Loc.resolve directory = (directory ++ [intStr version]).reverse := by
    intro version htame
    rw [Loc.resolve_down (directory_of_tame hdir hscoped htame).2, List.reverse_append]
    rfl
  have hlookup := fun htame : Tame b.filename => h.lookup (separate_tame root) (within_tame hQ) hdir
    ⟨b, hdir, hscoped, htame⟩ none
  constructor
  · rintro ⟨found, hfound⟩
    have htame := h.tame_of_found hQ hdir hpath hscoped hnormal ⟨found, hfound⟩
    refine ⟨htame, ?_⟩
    -- a lookup without a version finds the largest one, and a file with it
    rcases hlookup htame with ⟨hnone, -⟩ |
      ⟨v, text, a, part, n, envelope, hfile, -, -, hwritten, -⟩
    · rw [hnone] at hfound
      cases hfound
    · have hn : intStr v = intStr n :=
        List.singleton_inj.1 (List.append_inj_right' hwritten.path_eq rfl)
      rw [hplace v htame, hn] at hfile
      exact ⟨n, text, hfile⟩
  · rintro ⟨htame, version, text, hfile⟩
    rw [← hplace version htame] at hfile
    rcases hlookup htame with ⟨-, hnone⟩ |
      ⟨v, text, a, part, n, envelope, -, -, -, -, hfound⟩
    · rw [hnone rfl version] at hfile
      cases hfile
    · exact ⟨_, hfound⟩

end Orderly

/-! ## Runs -/

section Runs

variable [FileOp.ListingOrder] [ArtifactUtil] {root : Root} {appName userId : String}
  {sessionId : Option String}

omit [FileOp.ListingOrder] in
/-- The version directory of an artifact whose ids are accepted. -/
theorem artifactDir_of_accepted (root : Root) {a : Address} {scope : String}
    (happ : AcceptedName a.appName "app_name") (huser : AcceptedName a.userId "user_id")
    (hscope : scopeName a = some scope)
    (hsession : ∀ s, a.sessionId = some s → AcceptedName s "session_id") :
    artifactDir root a =
      .ok (joinPath (scopePath root a.appName a.userId scope) a.filename) := by
  rw [artifactDir, happ.accepted, huser.accepted]
  rw [scopeName] at hscope
  split at hscope
  · next hns =>
    obtain rfl := Option.some.inj hscope
    rw [← joinPath_scope happ.name huser.name isName_user]
    exact if_pos hns
  · next hns =>
    have hvalid := hsession scope hscope
    rw [← joinPath_scope happ.name huser.name hvalid.name, hscope]
    refine (if_neg hns).trans ?_
    simp only [hvalid.accepted]
    rfl

/-- The keys listed for a session: sorted and without repetitions, of normal filenames exactly those
for which a version is found, and of the session's own artifacts only those that were saved in it. -/
structure KeysAgree (root : Root) (appName userId : String) (sessionId : Option String)
    (requests : List (Address × Request)) (T : FileTree) (keys : List String) : Prop where
  sorted : keys.Pairwise (· ≤ ·)
  distinct : keys.Nodup
  normal : ∀ filename ∈ keys, Normal filename
  found : ∀ filename, Normal filename →
    (filename ∈ keys ↔ Found root ⟨appName, userId, sessionId, filename⟩ T)
  own : ∀ filename ∈ keys, fileHasUserNamespace filename = false →
    ∃ part customMetadata now,
      (⟨appName, userId, sessionId, filename⟩, Request.saveArtifact (.ok part) customMetadata now) ∈
        requests

/-- Nothing is found for an artifact without a scope. -/
theorem not_found_of_no_scope {T : FileTree} {a : Address} (hscope : scopeName a = none) :
    ¬Found root a T := by
  rintro ⟨envelope, hfound⟩
  cases hdir : artifactDir root a with
  | ok directory =>
    obtain ⟨scope, hsome, -⟩ := artifactDir_ok hdir
    rw [hscope] at hsome
    cases hsome
  | error e =>
    rw [answer_findEnvelope_error root _ T hdir] at hfound
    cases hfound

section Orderly

variable {T : FileTree} {Q : Address → Part → Prop} (h : Orderly Q root T)
  (hQ : ∀ a part, Q a part → ListedSave a)
include h hQ

omit [FileOp.ListingOrder] in
/-- What is listed in the user's own directory is namespaced, and nothing else is. -/
theorem Orderly.namespaced {scope filename : String}
    (hlisted : ListedUnder T (scopePath root appName userId scope) filename) :
    fileHasUserNamespace filename = true ↔ scope = "user" := by
  obtain ⟨a, part, hq, -, -, hscope, rfl, -⟩ := h.listed hQ hlisted
  exact (hQ a part hq).namespaced hscope

/-- An artifact is found in a scope when its filename is listed in that scope. -/
theorem Orderly.found_iff_listed {a : Address} {scope : String}
    (happ : AcceptedName a.appName "app_name") (huser : AcceptedName a.userId "user_id")
    (hsession : ∀ s, a.sessionId = some s → AcceptedName s "session_id")
    (hscope : scopeName a = some scope) (hnormal : Normal a.filename) :
    Found root a T ↔ ListedUnder T (scopePath root a.appName a.userId scope) a.filename := by
  have hdir := artifactDir_of_accepted root happ huser hscope hsession
  have hpath := hnormal.joinPath (scopePath root a.appName a.userId scope)
  have hartifact : artifactPath root a =
      scopePath root a.appName a.userId scope ++ components a.filename := by
    rw [artifactPath, hscope]
    rfl
  have hscoped : Scoped a := scoped_of_names happ.name huser.name fun s hs => (hsession s hs).name
  rw [found_iff h hQ hdir (hpath.trans hartifact.symm) hscoped hnormal, hpath]
  constructor
  · rintro ⟨-, version, text, hfile⟩
    exact listedUnder_of_file hnormal hfile
  · intro hlisted
    obtain ⟨b, part, hq, -, -, -, hb, hfile⟩ := h.listed hQ hlisted
    exact ⟨hb ▸ (hQ b part hq).tame, hfile⟩

omit [FileOp.ListingOrder] in
/-- A filename is listed for the session or the user when it is listed in its own scope. -/
theorem Orderly.listed_iff {filename : String} :
    ((∃ s, sessionId = some s ∧ ListedUnder T (scopePath root appName userId s) filename) ∨
        ListedUnder T (scopePath root appName userId "user") filename) ↔
      ∃ scope, scopeName ⟨appName, userId, sessionId, filename⟩ = some scope ∧
        ListedUnder T (scopePath root appName userId scope) filename := by
  constructor
  · rintro (⟨s, hs, hlisted⟩ | hlisted)
    · refine ⟨s, ?_, hlisted⟩
      rw [scopeName]
      split
      · next hns => rw [(h.namespaced hQ hlisted).1 hns]
      · exact hs
    · exact ⟨"user", if_pos ((h.namespaced hQ hlisted).2 rfl), hlisted⟩
  · rintro ⟨scope, hscope, hlisted⟩
    rw [scopeName] at hscope
    split at hscope
    · cases hscope
      exact Or.inr hlisted
    · exact Or.inl ⟨scope, hscope, hlisted⟩

/-- The keys of an orderly storage. -/
theorem Orderly.keys {requests : List (Address × Request)}
    (hsaved : ∀ a part, Q a part → ∃ customMetadata now,
      (a, Request.saveArtifact (.ok part) customMetadata now) ∈ requests)
    (happ : AcceptedName appName "app_name") (huser : AcceptedName userId "user_id")
    (hsession : ∀ s, sessionId = some s → AcceptedName s "session_id") :
    ∃ keys, (listArtifactKeys root appName userId sessionId).answer device T = .ok keys ∧
      KeysAgree root appName userId sessionId requests T keys := by
  obtain ⟨keys, hanswer, hsorted, hnodup, hmem⟩ :=
    answer_listArtifactKeys root T happ huser hsession
  refine ⟨keys, hanswer, hsorted, hnodup, ?_, ?_, ?_⟩
  · intro filename hf
    obtain ⟨scope, -, hlisted⟩ := (h.listed_iff hQ).1 ((hmem filename).1 hf)
    obtain ⟨a, part, hq, -, -, -, rfl, -⟩ := h.listed hQ hlisted
    exact (hQ a part hq).normal
  · intro filename hnormal
    rw [hmem, h.listed_iff hQ]
    constructor
    · rintro ⟨scope, hscope, hlisted⟩
      exact (h.found_iff_listed hQ happ huser hsession hscope hnormal).2 hlisted
    · intro hfound
      cases hscope : scopeName ⟨appName, userId, sessionId, filename⟩ with
      | none => exact absurd hfound (not_found_of_no_scope hscope)
      | some scope =>
        exact ⟨scope, rfl, (h.found_iff_listed hQ happ huser hsession hscope hnormal).1 hfound⟩
  · intro filename hf hns
    obtain ⟨scope, hscope, hlisted⟩ := (h.listed_iff hQ).1 ((hmem filename).1 hf)
    obtain ⟨a, part, hq, rfl, rfl, ha, rfl, -⟩ := h.listed hQ hlisted
    -- without the user prefix the scope is the session
    have hsame : a.sessionId = sessionId := by
      rw [scopeName, if_neg (by rw [hns]; exact Bool.false_ne_true)] at ha hscope
      exact ha.trans hscope.symm
    obtain ⟨customMetadata, now, hmem⟩ := hsaved a part hq
    exact ⟨part, customMetadata, now, hsame ▸ hmem⟩

end Orderly

/-- After any calls, in a storage unused before, whose saves were under filenames that listing takes
back, listing and loading agree. -/
theorem keys_agree {T : FileTree} {requests : List (Address × Request)} (hunused : Unused root T)
    (hsaves : ∀ ar ∈ requests, ar.2.Saves (fun a _ => ListedSave a) root ar.1) (depth : Nat)
    (happ : AcceptedName appName "app_name") (huser : AcceptedName userId "user_id")
    (hsession : ∀ s, sessionId = some s → AcceptedName s "session_id") :
    ∃ keys, (listArtifactKeys root appName userId sessionId).answer device
        (after root depth T requests) = .ok keys ∧
      KeysAgree root appName userId sessionId requests (after root depth T requests) keys := by
  let Q : Address → Part → Prop := fun a part => ListedSave a ∧ ∃ customMetadata now,
    (a, Request.saveArtifact (.ok part) customMetadata now) ∈ requests
  have hQ : ∀ a part, Q a part → ListedSave a := fun _ _ hq => hq.1
  have hall : ∀ ar ∈ requests, ar.2.Saves Q root ar.1 := by
    rintro ⟨a, request⟩ har
    cases request with
    | saveArtifact artifact customMetadata now =>
      cases artifact with
      | error e => trivial
      | ok part =>
        intro directory hdir
        exact ⟨hsaves _ har directory hdir, customMetadata, now, har⟩
    | _ => trivial
  have horderly : Orderly Q root (after root depth T requests) :=
    orderly_after (orderly_of_unused hunused) (separate_tame root) (within_tame hQ) depth hall
  exact horderly.keys hQ (fun _ _ hq => hq.2) happ huser hsession

end Runs

attribute [local instance] basicUtil FileOp.treeOrder

/-- A name with a dot in it, in a session other than `user`. -/
theorem listedSave_name {session filename : String} (hsession : IsName session)
    (hne : session ≠ "user") (hname : IsName filename) (hdot : '.' ∈ filename.toList) :
    ListedSave ⟨"app", "user", some session, filename⟩ where
  ids := scoped_of_names isName_app isName_user fun s hs => by cases hs; exact hsession
  tame := tame_name hname hdot (by decide +kernel) (by decide)
  normal := normal_name hname
  session hs := absurd (Option.some.inj hs) hne

/-- Two saves in session `s`, one of the user's own, one in another session, and a delete. -/
def savesAndDelete : List (Address × Request) :=
  let save := fun text => Request.saveArtifact (.ok { text := some text }) none
    (Binary64.ofRatio false 1 2)
  [(inSession "a.txt", save "x"), (inSession "a.txt", save "y"), (inSession "user:b.txt", save "z"),
    (⟨"app", "user", some "t", "c.txt"⟩, save "w"), (inSession "a.txt", .deleteArtifact)]

/-- The keys after these calls. -/
theorem keys_agree_text :
    let T := after dataRoot 1 .empty savesAndDelete
    ∃ keys, (listArtifactKeys dataRoot "app" "user" (some "s")).answer device T = .ok keys ∧
      KeysAgree dataRoot "app" "user" (some "s") savesAndDelete T keys := by
  refine keys_agree (unused_empty dataRoot) ?_ 1 ⟨rfl, isName_app⟩ ⟨rfl, isName_user⟩ ?_
  · have ht : IsName "t" := ⟨by decide, by decide, by decide, by decide⟩
    have ha : IsName "a.txt" := ⟨by decide, by decide, by decide, by decide⟩
    have hb : IsName "user:b.txt" := ⟨by decide, by decide, by decide, by decide⟩
    have hc : IsName "c.txt" := ⟨by decide, by decide, by decide, by decide⟩
    simp only [savesAndDelete, List.forall_mem_cons, Request.Saves]
    refine ⟨?_, ?_, ?_, ?_, trivial, by simp⟩
    · exact fun _ _ => listedSave_name isName_s (by decide) ha (by decide)
    · exact fun _ _ => listedSave_name isName_s (by decide) ha (by decide)
    · exact fun _ _ => listedSave_name isName_s (by decide) hb (by decide)
    · exact fun _ _ => listedSave_name ht (by decide) hc (by decide)
  · intro s hs
    cases hs
    exact ⟨rfl, isName_s⟩

/-- `a.txt` in the session called `user`. -/
def inUserSession : Address := ⟨"app", "user", some "user", "a.txt"⟩

/-- The tree with a first version of `a.txt` there. -/
def userFile (text : String) : FileTree :=
  (FileTree.empty.mkdirsFrom [] ["data", "app", "user", "user", "a.txt"]).2.place
    ["0", "a.txt", "user", "user", "app", "data"] (.file text)

theorem save_inUserSession (now : Binary64) :
    ∃ text, ((saveArtifact dataRoot inUserSession (.ok { text := some "x" }) none now).run device
      .empty).2 = userFile text := by
  let envelope := header 0 now none ++ textFields "x"
  have hdumps : dumpsEnvelope envelope = .ok (Json.dumps (.dict envelope)) := rfl
  refine ⟨Json.dumps (.dict envelope), ?_⟩
  generalize Json.dumps (.dict envelope) = text at hdumps
  have hdir : artifactDir dataRoot inUserSession = .ok ["data", "app", "user", "user", "a.txt"] :=
    rfl
  have hbuild : buildEnvelope (nextVersion []) { text := some "x" } none "app" "user" (some "user")
      now = .ok envelope := rfl
  have hsave := run_saveArtifact_ok (T := .empty) hdir rfl hbuild rfl hdumps (by decide +kernel)
  exact congrArg Prod.snd hsave

/-- Saved there, `a.txt` is listed in another session, which has no such artifact. -/
theorem userSession_shows :
    let T := after dataRoot 1 .empty [(inUserSession,
      .saveArtifact (.ok { text := some "x" }) none (Binary64.ofRatio false 1 2))]
    ∃ keys, (listArtifactKeys dataRoot "app" "user" (some "s")).answer device T = .ok keys ∧
      "a.txt" ∈ keys ∧ ¬Found dataRoot (inSession "a.txt") T := by
  intro T
  obtain ⟨text, htext⟩ := save_inUserSession (Binary64.ofRatio false 1 2)
  have hT : T = userFile text := by
    change ((Request.script dataRoot 1 inUserSession _).run device .empty).2 = _
    rw [Request.script, Script.run_map]
    exact htext
  rw [hT]
  have hname : IsName "a.txt" := ⟨by decide, by decide, by decide, by decide⟩
  have hsession : ∀ s, some "s" = some s → AcceptedName s "session_id" := by
    rintro s hs
    cases hs
    exact ⟨rfl, isName_s⟩
  have happ : AcceptedName "app" "app_name" := ⟨rfl, isName_app⟩
  have huser : AcceptedName "user" "user_id" := ⟨rfl, isName_user⟩
  have hfile : (userFile text).get? (scopePath dataRoot "app" "user" "user" ++ ["a.txt"] ++
      [intStr (0 : Nat)]).reverse = some (.file text) := rfl
  -- the listing finds the file under the user's names, although it was saved in a session
  rw [← components_name hname] at hfile
  obtain ⟨keys, hanswer, -, -, hmem⟩ :=
    answer_listArtifactKeys dataRoot (userFile text) happ huser hsession
  refine ⟨keys, hanswer, (hmem "a.txt").2 (Or.inr ?_), ?_⟩
  · exact listedUnder_of_file (normal_name hname) hfile
  · rintro ⟨envelope, hfound⟩
    have hnone : (findEnvelope dataRoot (inSession "a.txt") none).answer device (userFile text) =
        .ok none := by
      rw [findEnvelope, (reads_chooseVersion _ _ _).answer_bind, chooseVersion,
        (reads_listVersions _ _).answer_bind]
      rfl
    rw [hnone] at hfound
    cases hfound

end AgentCluster.Artifacts
