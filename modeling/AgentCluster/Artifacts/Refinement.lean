import AgentCluster.Artifacts.Log

/-!
# The artifact service refines the log

One call in a tree that holds a log answers as the log does and leaves a tree that holds the log's
next state (`Represents.request`); a run in a tree where nothing is stored yet follows from it by
induction (`answers_of_clear`). That is all the runs there are (`refines_log_iff`).

What the log needs is that the artifact's path keeps clear of its own versions. A filename such as
`5/..` does not: its path makes a directory `5` where its versions go, and `list_versions` reports
it (`ownDirectory_not_refined`).
-/

set_option autoImplicit false

namespace AgentCluster.Artifacts

open Python Library Adk.Artifact

/-! ## Envelopes of the log -/

theorem max?_of_perm {vs : List Nat} {n : Nat} (h : vs.Perm (List.range n)) :
    vs.max? = if n = 0 then none else some (n - 1) := by
  rw [max?_perm h]
  cases n with
  | zero => rfl
  | succ n =>
    rw [if_neg (Nat.succ_ne_zero n), List.max?_eq_some_iff]
    refine ⟨List.mem_range.2 (Nat.lt_succ_self n), ?_⟩
    intro i hi
    exact Nat.lt_succ_iff.1 (List.mem_range.1 hi)

theorem nextVersion_of_perm {vs : List Nat} {n : Nat} (h : vs.Perm (List.range n)) :
    nextVersion vs = n := by
  rw [nextVersion, max?_of_perm h]
  cases n <;> rfl

theorem filterMap_range_getElem? {α β : Type} (f : Nat → α → β) (l : List α) :
    (List.range l.length).filterMap (fun i => l[i]?.map (f i)) = l.mapIdx f := by
  induction l using List.reverseRecOn with
  | nil => rfl
  | append_singleton l a ih =>
    rw [List.length_append, List.length_singleton, List.range_succ, List.filterMap_append,
      List.mapIdx_concat, ← ih]
    congr 1
    · apply List.filterMap_congr
      intro i hi
      rw [List.getElem?_append_left (List.mem_range.1 hi)]
    · simp

section Envelope

variable [ArtifactUtil] {a : Address} {directory : List String} {log : VersionLog} {e : LogEntry}
  {i : Nat}

/-- The metadata of a save is what its envelope holds. -/
theorem LogEntry.Built.metaOf (h : e.Built a i) (now : Binary64) :
    metaOf i (directory ++ [intStr i]) now (.dict e.envelope) = .ok (e.toMeta directory i) := by
  obtain ⟨artifact, customMetadata, createTime, envelope⟩ := e
  obtain ⟨fields, hfields, heq⟩ := buildEnvelope_ok h.envelope
  obtain rfl : envelope = header i createTime customMetadata ++ fields := heq
  have hmime : Dict.get (header i createTime customMetadata ++ fields) "mime_type" =
      payloadMimeType artifact := by
    obtain ⟨inlineData, text, fileData⟩ := artifact
    rcases payloadFields_cases hfields with ⟨blob, hinline, rfl⟩ | ⟨text, hinline, htext, rfl⟩ |
      ⟨fileData, fileUri, hinline, htext, hdata, -, -, rfl⟩
    · obtain rfl : inlineData = some blob := hinline
      rfl
    · obtain rfl : inlineData = none := hinline
      obtain rfl := htext
      rfl
    · obtain rfl : inlineData = none := hinline
      obtain rfl := htext
      obtain rfl := hdata
      rfl
  have hcustom : Dict.get (header i createTime customMetadata ++ fields) "custom_metadata" =
      .dict (customMetadata.elim [] Metadata.items) := rfl
  rw [Artifacts.metaOf, hmime, hcustom]
  refine congrArg Except.ok ?_
  rw [LogEntry.toMeta]
  congr 1
  -- `or {}` of the source replaces the empty dict by an empty dict
  cases customMetadata.elim [] Metadata.items <;> rfl

/-- A save that stores no reference stores nothing that decodes to a load. -/
theorem noReference_of_stored {part : Part} {customMetadata readBack : Option Metadata}
    {now : Binary64} {version : Int} {envelope : Dict}
    (hplain : (Request.saveArtifact (.ok part) customMetadata now).StoresNoReference a)
    (hbuild : buildEnvelope version part readBack a.appName a.userId a.sessionId now =
      .ok envelope) (target : ParsedArtifactUri) :
    partFromEnvelope (.dict envelope) a.appName a.userId a.sessionId ≠ .ok (.load target) := by
  obtain ⟨fields, hfields, rfl⟩ := buildEnvelope_ok hbuild
  rcases payloadFields_cases hfields with ⟨blob, -, rfl⟩ | ⟨text, -, -, rfl⟩ |
    ⟨fileData, fileUri, hinline, htext, hdata, huri, -, rfl⟩
  · rw [decode_inline]
    simp
  · rw [decode_text]
    simp
  -- a file with an artifact URI is a reference, and those are refused by the side condition
  · cases huriScheme : startsWith fileUri "artifact://" with
    | false =>
      rw [decode_file version now readBack _ _ _ _ huriScheme]
      simp
    | true =>
      have href : ArtifactUtil.isArtifactRef part = true := by
        rw [ArtifactUtil.isArtifactRef_eq, hdata]
        obtain ⟨uri, mimeType, displayName⟩ := fileData
        obtain rfl : uri = some fileUri := huri
        exact huriScheme
      obtain ⟨e, he⟩ := hplain href hinline htext
      rw [he] at hfields
      cases hfields

end Envelope

/-! ## Saving -/

theorem VersionLog.append_eq [ArtifactUtil] (log : VersionLog) (a : Address) (part : Part)
    (customMetadata : Option Metadata) (now : Binary64) :
    log.append a (.ok part) customMetadata now =
      (buildEnvelope log.length part customMetadata a.appName a.userId a.sessionId now).bind
        fun envelope => (dumpsEnvelope envelope).map fun _ =>
          ⟨part, customMetadata.map Metadata.seen, now, Json.seenDict envelope⟩ := by
  show (buildEnvelope log.length part customMetadata a.appName a.userId a.sessionId now).bind _ = _
  refine congrArg _ (funext fun envelope => ?_)
  show (dumpsEnvelope envelope).bind _ = _
  cases dumpsEnvelope envelope <;> rfl

section Step

variable [FileOp.ListingOrder] [ArtifactUtil] {root : Root} {a : Address} {directory : List String}
  {T : FileTree} {log : VersionLog} (hdir : artifactDir root a = .ok directory)
  (hclear : ∀ name, IsVersion name → name :: Loc.resolve directory ∉ Loc.visited [] directory)
  (h : Represents a directory T log)

omit [FileOp.ListingOrder] in
include hclear h in
/-- Making the artifact's directory leaves the log as it is. -/
theorem Represents.mkdirs : Represents a directory (T.mkdirsFrom [] directory).2 log where
  files name node hname := by
    rcases FileTree.get?_mkdirsFrom (T := T) (p := directory) FileTree.get?_root
        (name :: Loc.resolve directory) with heq | ⟨hvisited, -⟩
    · rw [heq]
      exact h.files name node hname
    · exact absurd hvisited (hclear name hname)
  way k hk := by
    rw [FileTree.text?_mkdirsFrom FileTree.get?_root]
    exact h.way k hk
  made hne k hk := FileTree.dir_mkdirsFrom FileTree.get?_root (h.made hne k hk)
  entries := h.entries

omit [FileOp.ListingOrder] in
include hclear h in
/-- A file can be put where the next version goes. -/
theorem Represents.placeable :
    (T.mkdirsFrom [] directory).1 = true ∧
      (T.mkdirsFrom [] directory).2.Placeable (intStr log.length :: Loc.resolve directory) := by
  have hmade : (T.mkdirsFrom [] directory).1 = true :=
    (FileTree.mkdirsFrom_fst FileTree.get?_root).2 h.way
  refine ⟨hmade, (FileTree.placeable_of_mkdirsFrom hmade).2 ⟨hclear _ (isVersion_intStr _), ?_⟩⟩
  rw [h.get?_version log.length, VersionLog.entry_natCast, List.getElem?_eq_none (Nat.le_refl _)]
  simp

omit [FileOp.ListingOrder] in
include hclear h in
/-- The file of the next version is the next entry. -/
theorem Represents.append {e : LogEntry} (he : e.Built a log.length) :
    Represents a directory ((T.mkdirsFrom [] directory).2.place
      (intStr log.length :: Loc.resolve directory) (.file (Json.dumps (.dict e.envelope))))
      (log ++ [e]) := by
  obtain ⟨hmade, hplace⟩ := h.placeable hclear
  have hold := h.mkdirs hclear
  have hnext := hclear _ (isVersion_intStr log.length)
  have hother : ∀ k ∈ Loc.visited [] directory,
      ((T.mkdirsFrom [] directory).2.place (intStr log.length :: Loc.resolve directory)
        (.file (Json.dumps (.dict e.envelope)))).get? k = (T.mkdirsFrom [] directory).2.get? k := by
    intro k hk
    rw [FileTree.get?_place hplace, if_neg]
    rintro rfl
    exact hnext hk
  -- the entries of the longer log are the old ones and the new one at its end
  have hget : ∀ (i : Nat) (e' : LogEntry), (log ++ [e])[i]? = some e' ↔
      log[i]? = some e' ∨ i = log.length ∧ e' = e := by
    intro i e'
    rcases Nat.lt_trichotomy i log.length with hi | rfl | hi
    · rw [List.getElem?_append_left hi]
      simp [Nat.ne_of_lt hi]
    · simp [eq_comm]
    · rw [List.getElem?_eq_none (by simp; omega), List.getElem?_eq_none (Nat.le_of_lt hi)]
      simp [Nat.ne_of_gt hi]
  constructor
  · intro name node hname
    rw [FileTree.get?_place hplace]
    -- names in the directory: the new version, or one that was there before
    by_cases hn : name = intStr log.length
    · subst hn
      rw [if_pos rfl]
      constructor
      · intro hnode
        cases hnode
        exact ⟨log.length, e, (hget _ _).2 (Or.inr ⟨rfl, rfl⟩), rfl, rfl⟩
      · rintro ⟨i, e', hi, hname, rfl⟩
        obtain rfl := intStr_natCast_inj hname
        rcases (hget _ _).1 hi with hi | ⟨-, rfl⟩
        · rw [List.getElem?_eq_none (Nat.le_refl _)] at hi
          cases hi
        · rfl
    · have hne : name :: Loc.resolve directory ≠ intStr log.length :: Loc.resolve directory :=
        fun heq => hn (List.cons.inj heq).1
      rw [if_neg hne, hold.files name node hname]
      constructor
      · rintro ⟨i, e', hi, hrest⟩
        exact ⟨i, e', (hget _ _).2 (Or.inl hi), hrest⟩
      · rintro ⟨i, e', hi, rfl, hrest⟩
        rcases (hget _ _).1 hi with hi | ⟨rfl, -⟩
        · exact ⟨i, e', hi, rfl, hrest⟩
        · exact absurd rfl hn
  · intro k hk
    rw [FileTree.text?, hother k hk]
    exact hold.way k hk
  · intro _ k hk
    rw [hother k hk]
    exact FileTree.dirs_of_mkdirsFrom FileTree.get?_root hmade k hk
  · intro i e' hi
    rcases (hget _ _).1 hi with hi | ⟨rfl, rfl⟩
    · exact h.entries i e' hi
    · exact he

include hdir hclear h in
/-- A save does what the log does. -/
theorem Represents.save {artifact : Except Error Part} {customMetadata : Option Metadata}
    {now : Binary64} (depth : Nat)
    (hplain : (Request.saveArtifact artifact customMetadata now).StoresNoReference a) :
    SameReply
        (((Request.saveArtifact artifact customMetadata now).script root depth a).run device T).1
        (log.step a directory (.saveArtifact artifact customMetadata now)).1 ∧
      Represents a directory
        (((Request.saveArtifact artifact customMetadata now).script root depth a).run device T).2
        (log.step a directory (.saveArtifact artifact customMetadata now)).2 := by
  obtain ⟨vs, hvs, hperm⟩ := h.versionsAt
  have hnext := nextVersion_of_perm hperm
  rw [Request.script, Script.run_map]
  cases artifact with
  | error e => exact ⟨rfl, h⟩
  | ok part =>
  rw [run_saveArtifact, pendingSave_eq customMetadata now T hdir, hvs]
  simp only [VersionLog.step, VersionLog.append_eq, hnext, Except.bind]
  -- each place at which the save can stop leaves the log as it was, with the directory made or not
  cases hbuild : buildEnvelope log.length part customMetadata a.appName a.userId a.sessionId now with
  | error e => exact ⟨rfl, h⟩
  | ok envelope =>
  obtain ⟨hmade, hplace⟩ := h.placeable hclear
  have hold := h.mkdirs hclear
  obtain ⟨hseen, hjson, hsame⟩ := readBack_envelope hbuild
  have happend := fun he => h.append hclear
    (e := ⟨part, customMetadata.map Metadata.seen, now, Json.seenDict envelope⟩) he
  simp only [run_writeEnvelope]
  generalize T.mkdirsFrom [] directory = made at hmade hplace hold happend
  obtain ⟨made, T₁⟩ := made
  obtain rfl : made = true := hmade
  cases hdumps : dumpsEnvelope envelope with
  | error e => exact ⟨rfl, hold⟩
  | ok text =>
    obtain ⟨-, rfl⟩ := dumpsEnvelope_ok hdumps
    simp only [if_pos hplace, ← hsame]
    exact ⟨rfl, happend ⟨hseen, hjson, noReference_of_stored hplain hseen⟩⟩

/-! ## Deleting -/

include hdir hclear h in
/-- Deleting empties the log. -/
theorem Represents.delete :
    ∃ T', (deleteArtifact root a).run device T = (.ok (), T') ∧ Represents a directory T' [] := by
  obtain ⟨vs, hvs, hperm⟩ := h.versionsAt
  rw [run_deleteArtifact, hdir]
  simp only [hvs]
  -- there is no directory yet, and nothing is deleted
  rcases h.find with ⟨-, rfl⟩ | hfind
  · obtain rfl : vs = [] := List.perm_nil.1 hperm
    exact ⟨T, rfl, h⟩
  have hversion := fun version : Nat => hclear _ (isVersion_intStr version)
  have hfile : ∀ version ∈ vs, T.get? (intStr version :: Loc.resolve directory) ≠ some .dir := by
    intro version _
    rw [h.get?_version version]
    cases log.entry version <;> simp
  obtain ⟨T', hrun, hgone⟩ := deleteAt_files hfind hversion hfile
  -- only the files of the versions change, and none of them is on the way to the directory
  have hsame : ∀ k, (∀ version ∈ vs, k ≠ intStr version :: Loc.resolve directory) →
      T'.get? k = T.get? k := by
    intro k hk
    rcases get?_deleteAt hrun k with heq | ⟨-, version, hmem, heq⟩
    · exact heq
    · exact absurd heq (hk version hmem)
  have hway : ∀ k ∈ Loc.visited [] directory, T'.get? k = T.get? k := by
    intro k hk
    apply hsame
    rintro version - rfl
    exact hversion version hk
  refine ⟨T', hrun, ?_, ?_, fun hne => absurd rfl hne, fun i e hi => by cases hi⟩
  · intro name node hname
    constructor
    · intro hnode
      by_cases hmem : ∃ version ∈ vs, name = intStr version
      · obtain ⟨version, hversion, rfl⟩ := hmem
        rw [hgone version hversion] at hnode
        cases hnode
      · rw [hsame _ fun version hversion heq => hmem ⟨version, hversion, (List.cons.inj heq).1⟩]
          at hnode
        obtain ⟨i, e, hi, hi', -⟩ := (h.files name node hname).1 hnode
        have hlt := (List.getElem?_eq_some_iff.1 hi).1
        exact absurd ⟨i, hperm.mem_iff.2 (List.mem_range.2 hlt), hi'⟩ hmem
    · rintro ⟨i, e, hi, -⟩
      cases hi
  · intro k hk
    rw [FileTree.text?, hway k hk]
    exact h.way k hk

/-! ## Reading -/

include hdir h

/-- The version chosen is the log's. -/
theorem Represents.chooseVersion (version : Option Int) :
    (chooseVersion root a version).answer device T = .ok (log.choose version) := by
  cases version with
  | some version => rfl
  | none =>
    obtain ⟨vs, hvs, hperm⟩ := h.versionsAt
    rw [Artifacts.chooseVersion, (reads_listVersions root a).answer_bind, answer_listVersions, hdir]
    show (Artifacts.versionsAt T directory).bind _ = _
    rw [hvs]
    show Except.ok (vs.max?.map Int.ofNat) = _
    rw [max?_of_perm hperm, VersionLog.choose]
    cases log <;> rfl

theorem Represents.readEnvelope (version : Int) :
    (readEnvelope root a version).answer device T =
      .ok ((log.entry version).map fun e => .dict e.envelope) := by
  rw [answer_readEnvelope, versionPath_ok hdir]
  exact h.envelopeAt version

theorem Represents.findEnvelope (version : Option Int) :
    (findEnvelope root a version).answer device T =
      .ok (((log.choose version).bind log.entry).map fun e => .dict e.envelope) := by
  rw [Artifacts.findEnvelope, (reads_chooseVersion root a version).answer_bind,
    h.chooseVersion hdir]
  cases log.choose version with
  | none => rfl
  | some version => exact h.readEnvelope hdir version

theorem Represents.artifactVersionMeta (version : Int) (now : Binary64) :
    (artifactVersionMeta root a version now).answer device T =
      .ok ((log.entry version).map (LogEntry.toMeta directory version.toNat)) := by
  rw [Artifacts.artifactVersionMeta, (reads_readEnvelope root a version).answer_bind,
    h.readEnvelope hdir]
  cases version with
  | negSucc i => rfl
  | ofNat i =>
    cases hentry : log.entry i with
    | none => rfl
    | some e =>
      have hmeta : metaOf i (directory ++ [intStr i]) now (.dict e.envelope) =
          .ok (e.toMeta directory i) := (h.entries i e hentry).metaOf now
      show (Script.ofExcept (versionPath root a i) >>= fun path =>
        some <$> Script.ofExcept (metaOf i path now (.dict e.envelope))).answer device T = _
      rw [versionPath_ok hdir, (Script.reads_ofExcept _).answer_bind, Script.answer_ofExcept]
      show (some <$> Script.ofExcept (metaOf i (directory ++ [intStr i]) now
        (.dict e.envelope))).answer device T = _
      rw [hmeta]
      rfl

theorem Represents.getArtifactVersion (version : Option Int) (now : Binary64) :
    (getArtifactVersion root a version now).answer device T =
      .ok ((log.choose version).bind fun v =>
        (log.entry v).map (LogEntry.toMeta directory v.toNat)) := by
  rw [Artifacts.getArtifactVersion, (reads_chooseVersion root a version).answer_bind,
    h.chooseVersion hdir]
  cases log.choose version with
  | none => rfl
  | some version => exact h.artifactVersionMeta hdir version now

/-- The metadata of all versions are the log's, in order. -/
theorem Represents.listArtifactVersions (now : Binary64) :
    (listArtifactVersions root a now).answer device T =
      .ok (log.mapIdx (LogEntry.toMeta directory)) := by
  obtain ⟨vs, hvs, hperm⟩ := h.versionsAt
  have hread : ∀ ws : List Nat, Readable root a now T ws :=
    fun ws version _ => ⟨_, h.artifactVersionMeta hdir version now⟩
  have hfound : foundMeta root a now T =
      fun i => log[i]?.map (LogEntry.toMeta directory i) := by
    funext i
    rw [foundMeta, h.artifactVersionMeta hdir i now]
    rfl
  -- the log is in the order of the versions, so that sorting gives it back
  have hsorted : (log.mapIdx (LogEntry.toMeta directory)).Pairwise
      fun m n => m.version ≤ n.version := by
    rw [List.pairwise_iff_getElem]
    intro i j hi hj hij
    rw [List.getElem_mapIdx, List.getElem_mapIdx]
    exact Int.ofNat_le.2 (Nat.le_of_lt hij)
  have hrange := listArtifactVersions_perm root a now T hperm
  rw [versionMetas_of_readable root a now T (hread (List.range log.length)), hfound,
    filterMap_range_getElem?] at hrange
  rw [Artifacts.listArtifactVersions, (reads_listVersions root a).answer_bind, answer_listVersions,
    hdir]
  show (Artifacts.versionsAt T directory).bind _ = _
  rw [hvs]
  show (versionMetas root a now vs >>= _).answer device T = _
  rw [(reads_versionMetas root a now vs).answer_bind]
  rw [versionMetas_of_readable root a now T (hread vs)] at hrange ⊢
  refine congrArg Except.ok ((Option.some.inj hrange).trans ?_)
  exact hsorted.insertionSort_eq

/-- A load answers what the entry decodes to. -/
theorem Represents.loadArtifact (depth : Nat) (version : Option Int) :
    (loadArtifact root (depth + 1) a version).answer device T =
      match (log.choose version).bind log.entry with
      | none => .ok none
      | some e =>
          match partFromEnvelope (.dict e.envelope) a.appName a.userId a.sessionId with
          | .ok (.part part) => .ok (some part)
          | .ok (.load _) => .ok none
          | .error e => .error e := by
  rw [answer_loadArtifact, h.findEnvelope hdir]
  cases hentry : (log.choose version).bind log.entry with
  | none => rfl
  | some e =>
  -- what a lookup finds was built by a save, and none of these stored a reference
  have hbuilt : ∃ i, e.Built a i := by
    obtain ⟨v, -, hv⟩ := Option.bind_eq_some_iff.1 hentry
    cases v with
    | ofNat i => exact ⟨i, h.entries i e hv⟩
    | negSucc i => cases hv
  obtain ⟨i, hbuilt⟩ := hbuilt
  simp only [Option.map_some, Except.bind]
  cases hdecode : partFromEnvelope (.dict e.envelope) a.appName a.userId a.sessionId with
  | error e => rfl
  | ok decoded =>
    cases decoded with
    | part part => rfl
    | load target => exact absurd hdecode (hbuilt.noReference target)

/-! ## Runs -/

include hclear in
/-- One call for an accepted artifact. -/
theorem Represents.request (depth : Nat) (request : Request)
    (hplain : request.StoresNoReference a) :
    SameReply ((request.script root (depth + 1) a).run device T).1
        (log.step a directory request).1 ∧
      Represents a directory ((request.script root (depth + 1) a).run device T).2
        (log.step a directory request).2 := by
  cases request with
  | saveArtifact artifact customMetadata now => exact h.save hdir hclear (depth + 1) hplain
  -- reads leave the tree, and so the log, as they are
  | loadArtifact version =>
    have hanswer := h.loadArtifact hdir depth version
    rw [Script.answer] at hanswer
    rw [Request.script, Script.run_map, reads_loadArtifact root (depth + 1) a version T, hanswer,
      VersionLog.step]
    cases (log.choose version).bind log.entry with
    | none => exact ⟨rfl, h⟩
    | some e =>
      simp only
      cases partFromEnvelope (.dict e.envelope) a.appName a.userId a.sessionId with
      | error e => exact ⟨rfl, h⟩
      | ok decoded => cases decoded <;> exact ⟨rfl, h⟩
  | listVersions =>
    obtain ⟨vs, hvs, hperm⟩ := h.versionsAt
    have hanswer : ((listVersions root a).run device T).1 = .ok vs := by
      rw [← hvs]
      exact (answer_listVersions root a T).trans (by rw [hdir]; rfl)
    rw [Request.script, Script.run_map, reads_listVersions root a T, hanswer]
    exact ⟨hperm, h⟩
  | listArtifactVersions now =>
    have hanswer := h.listArtifactVersions hdir now
    rw [Script.answer] at hanswer
    rw [Request.script, Script.run_map, reads_listArtifactVersions root a now T, hanswer]
    exact ⟨rfl, h⟩
  | getArtifactVersion version now =>
    have hanswer := h.getArtifactVersion hdir version now
    rw [Script.answer] at hanswer
    rw [Request.script, Script.run_map, reads_getArtifactVersion root a version now T, hanswer]
    exact ⟨rfl, h⟩
  | deleteArtifact =>
    obtain ⟨T', hrun, hempty⟩ := h.delete hdir hclear
    rw [Request.script, Script.run_map, hrun]
    exact ⟨rfl, hempty⟩

include hclear in
/-- A run from a tree that holds a log. -/
theorem Represents.answers (depth : Nat) {requests : List Request}
    (hplain : ∀ request ∈ requests, request.StoresNoReference a) :
    List.Forall₂ SameReply (answers root (depth + 1) a T requests)
      (log.answers root a requests) := by
  induction requests generalizing T log with
  | nil => exact .nil
  | cons request requests ih =>
    rw [Artifacts.answers, VersionLog.answers, hdir]
    obtain ⟨hreply, hnext⟩ :=
      h.request hdir hclear depth request (hplain request List.mem_cons_self)
    exact .cons hreply (ih hnext fun r hr => hplain r (List.mem_cons_of_mem request hr))

end Step

section Refused

variable [FileOp.ListingOrder] [ArtifactUtil] {root : Root} {a : Address} {e : Error}
  (hdir : artifactDir root a = .error e)
include hdir

/-- A call for an artifact that is not accepted is refused and changes nothing. -/
theorem run_refused (depth : Nat) (request : Request) (T : FileTree) :
    (request.script root (depth + 1) a).run device T = (.error (VersionLog.refuse e request), T) := by
  have hlist : (listVersions root a).run device T = (.error e, T) := by
    rw [listVersions, (Script.reads_ofExcept _).run_bind, Script.answer_ofExcept, hdir]
  have hread : ∀ version, (readEnvelope root a version).run device T = (.error e, T) := by
    intro version
    rw [readEnvelope, (Script.reads_ofExcept _).run_bind, Script.answer_ofExcept, versionPath_eq,
      hdir]
    rfl
  have hchoose : (chooseVersion root a none).run device T = (.error e, T) := by
    rw [chooseVersion, Script.run_bind_error hlist]
  rw [Request.script.eq_def]
  -- every method asks for the directory before it does anything else
  cases request with
  | saveArtifact artifact customMetadata now =>
    simp only
    rw [Script.run_map, run_saveArtifact]
    cases artifact with
    | error e' => rfl
    | ok part =>
      have hpending : pendingSave root a (.ok part) customMetadata now T = .error e := by
        rw [pendingSave, hdir]
        rfl
      rw [hpending]
      rfl
  | loadArtifact version =>
    have hfind : (findEnvelope root a version).run device T = (.error e, T) := by
      rw [(reads_findEnvelope root a version).run, answer_findEnvelope_error root a T hdir]
    simp only
    rw [Script.run_map, loadArtifact, Script.run_bind_error hfind]
    rfl
  | listVersions =>
    simp only
    rw [Script.run_map, hlist]
    rfl
  | listArtifactVersions now =>
    simp only
    rw [Script.run_map, listArtifactVersions, Script.run_bind_error hlist]
    rfl
  | getArtifactVersion version now =>
    have hmeta : (getArtifactVersion root a version now).run device T = (.error e, T) := by
      cases version with
      | none => rw [getArtifactVersion, Script.run_bind_error hchoose]
      | some version =>
        show (artifactVersionMeta root a version now).run device T = _
        rw [artifactVersionMeta, Script.run_bind_error (hread version)]
    simp only
    rw [Script.run_map, hmeta]
    rfl
  | deleteArtifact =>
    simp only
    rw [Script.run_map, deleteArtifact, Script.run_bind_error hlist]
    rfl

theorem answers_refused (depth : Nat) (T : FileTree) (requests : List Request) :
    List.Forall₂ SameReply (answers root (depth + 1) a T requests)
      (VersionLog.answers root a [] requests) := by
  induction requests generalizing T with
  | nil => exact .nil
  | cons request requests ih =>
    rw [answers, VersionLog.answers, run_refused hdir, hdir]
    exact .cons rfl (ih T)

end Refused

section Refines

variable [FileOp.ListingOrder] [ArtifactUtil]

omit [FileOp.ListingOrder] in
/-- Where nothing is stored the log is empty. -/
theorem represents_nil {root : Root} {a : Address} {directory : List String} {T : FileTree}
    (hdir : artifactDir root a = .ok directory) (h : Vacant root a T) :
    Represents a directory T [] where
  files name node hname := by
    refine iff_of_false ?_ ?_
    · rw [(h directory hdir).1 name hname]
      simp
    · rintro ⟨i, e, hi, -⟩
      cases hi
  way := (h directory hdir).2
  made hne := absurd rfl hne
  entries i e hi := by cases hi

/-- Every run of calls for one artifact is answered as the log answers it. -/
theorem answers_of_clear {root : Root} {a : Address} {T : FileTree} {requests : List Request}
    (hclear : Clear root a) (hvacant : Vacant root a T)
    (hplain : ∀ request ∈ requests, request.StoresNoReference a) (depth : Nat) :
    List.Forall₂ SameReply (answers root (depth + 1) a T requests)
      (VersionLog.answers root a [] requests) := by
  cases hdir : artifactDir root a with
  | error e => exact answers_refused hdir depth T requests
  | ok directory =>
    exact (represents_nil hdir hvacant).answers hdir (hclear directory hdir) depth hplain

end Refines

/-! ## Paths through the artifact's own versions -/

/-- Saving an empty text. -/
def saveText (now : Binary64) : Request := .saveArtifact (.ok { text := some "" }) none now

section Unclear

variable [FileOp.ListingOrder] [ArtifactUtil] {root : Root} {a : Address} {directory : List String}
  {T : FileTree} (hdir : artifactDir root a = .ok directory) (hvacant : Vacant root a T)
  {name : String} (hvisited : name :: Loc.resolve directory ∈ Loc.visited [] directory)
include hdir

omit [FileOp.ListingOrder] hdir in
theorem append_saveText (a : Address) (now : Binary64) :
    ∃ e, VersionLog.append a [] (.ok { text := some "" }) none now = .ok e := by
  rw [VersionLog.append_eq]
  exact ⟨_, rfl⟩

omit [FileOp.ListingOrder] in
/-- How the log answers the first save and the call after it. -/
theorem answers_saveText (now : Binary64) (request : Request) :
    ∃ e, VersionLog.answers root a [] [saveText now, request] =
      [.ok (.saved 0), (VersionLog.step a directory [e] request).1] := by
  obtain ⟨e, he⟩ := append_saveText a now
  refine ⟨e, ?_⟩
  have hsave : VersionLog.step a directory [] (saveText now) = (.ok (.saved 0), [e]) := by
    rw [saveText, VersionLog.step, he]
    rfl
  simp only [VersionLog.answers, hdir, hsave]

include hvacant hvisited in
/-- The first save fails, or leaves a directory where a version can be. -/
theorem run_saveText (depth : Nat) (now : Binary64) :
    (∃ e T', ((saveText now).script root depth a).run device T = (.error e, T')) ∨
      ∃ T', ((saveText now).script root depth a).run device T = (.ok (.saved 0), T') ∧
        T'.find directory = some .dir ∧ T'.get? (name :: Loc.resolve directory) = some .dir ∧
        ∃ text, T'.get? (intStr 0 :: Loc.resolve directory) = some (.file text) := by
  obtain ⟨vs, hvs, hperm⟩ := (represents_nil hdir hvacant).versionsAt
  obtain rfl : vs = [] := List.perm_nil.1 hperm
  rw [saveText, Request.script, Script.run_map]
  cases hsave : (saveArtifact root a (.ok { text := some "" }) none now).run device T with
  | mk r T' =>
  rcases save_cases hsave with ⟨e, rfl, -⟩ | ⟨part, found, versions, envelope, -, hfound, hversions,
    -, hwrite⟩
  · exact Or.inl ⟨e, T', rfl⟩
  rw [hdir] at hfound
  cases hfound
  rw [hvs] at hversions
  cases hversions
  rcases hwrite with ⟨e, rfl, -⟩ | ⟨text, hmade, -, hplace, rfl, rfl⟩
  · exact Or.inl ⟨e, T', rfl⟩
  have hdirs := FileTree.dirs_of_mkdirsFrom FileTree.get?_root hmade
  -- the version becomes a file, which is not on the way to the directory
  have hother : ∀ k ∈ Loc.visited [] directory,
      ((T.mkdirsFrom [] directory).2.place (intStr (nextVersion []) :: Loc.resolve directory)
        (.file text)).get? k = some .dir := by
    intro k hk
    rw [FileTree.get?_place hplace, if_neg, hdirs k hk]
    rintro rfl
    exact hplace.2 (hdirs _ hk)
  refine Or.inr ⟨_, rfl, FileTree.find_eq_dir.2 hother, hother _ hvisited, text, ?_⟩
  exact (FileTree.get?_place hplace _ _).trans (if_pos rfl)

include hvacant hvisited in
/-- A directory whose name is a digit string is listed as a version. -/
theorem not_refined_of_digit (hdigit : isDigit name = true) (depth : Nat) (now : Binary64) :
    ¬List.Forall₂ SameReply (answers root depth a T [saveText now, .listVersions])
      (VersionLog.answers root a [] [saveText now, .listVersions]) := by
  obtain ⟨e, hlog⟩ := answers_saveText hdir now .listVersions
  intro h
  rw [hlog, answers, answers] at h
  rcases run_saveText hdir hvacant hvisited depth now with ⟨e', T', hrun⟩ |
    ⟨T', hrun, hfind, hname, text, htext⟩
  · rw [hrun] at h
    cases h with
    | cons h _ => cases h
  rw [hrun] at h
  cases h with
  | cons _ h =>
  cases h with
  | cons h _ =>
  have hanswer := answer_listVersions root a T'
  rw [hdir] at hanswer
  change (listVersions root a).answer device T' = versionsAt T' directory at hanswer
  rw [versionsAt, hfind, Script.answer] at hanswer
  simp only at hanswer
  rw [Request.script, Script.run_map, hanswer, versionsOf_eq] at h
  split at h
  · next hall =>
    -- the directory and the version make two
    have hlength := h.length_eq
    rw [numbersOf, List.filterMap_length_eq_length.2 hall, List.length_range] at hlength
    obtain ⟨x, hx⟩ := List.length_eq_one_iff.1 hlength
    have hmem : ∀ n, isDigit n = true → (T'.get? (n :: Loc.resolve directory)).isSome → n = x := by
      intro n hn hsome
      rw [← List.mem_singleton, ← hx, List.mem_filter, (FileOp.ListingOrder.perm T' _ _).mem_iff,
        FileTree.mem_children]
      exact ⟨hsome, hn⟩
    have heq := (hmem name hdigit (by rw [hname]; rfl)).trans
      (hmem (intStr 0) (isDigit_intStr 0) (by rw [htext]; rfl)).symm
    rw [heq, htext] at hname
    cases hname
  · cases h

include hvacant in
/-- A directory named by a number is read when that version is loaded. -/
theorem not_refined_of_number {version : Int}
    (hvisited : intStr version :: Loc.resolve directory ∈ Loc.visited [] directory) (depth : Nat)
    (now : Binary64) :
    ¬List.Forall₂ SameReply (answers root (depth + 1) a T [saveText now, .loadArtifact (some version)])
      (VersionLog.answers root a [] [saveText now, .loadArtifact (some version)]) := by
  obtain ⟨e, hlog⟩ := answers_saveText hdir now (.loadArtifact (some version))
  intro h
  rw [hlog, answers, answers] at h
  rcases run_saveText hdir hvacant hvisited (depth + 1) now with ⟨e', T', hrun⟩ |
    ⟨T', hrun, hfind, hname, text, htext⟩
  · rw [hrun] at h
    cases h with
    | cons h _ => cases h
  rw [hrun] at h
  cases h with
  | cons _ h =>
  cases h with
  | cons h _ =>
  -- the log has one entry, version 0, and the version asked for is a directory of the path
  have hentry : VersionLog.entry [e] version = none := by
    cases version with
    | negSucc i => rfl
    | ofNat i =>
      cases i with
      | succ i => rfl
      | zero =>
        rw [Int.ofNat_eq_natCast, Int.natCast_zero, htext] at hname
        cases hname
  have hread : (findEnvelope root a (some version)).answer device T' = .error .os := by
    have hname' : T'.find (directory ++ [intStr version]) = some .dir := by
      rw [FileTree.find_append_name (isName_intStr version).ne_dotdot, if_pos hfind, hname]
    show (readEnvelope root a version).answer device T' = _
    rw [answer_readEnvelope, versionPath_ok hdir]
    show envelopeAt T' (directory ++ [intStr version]) = _
    rw [envelopeAt, hname']
  have hload := answer_loadArtifact root a T' depth (some version)
  rw [hread, Script.answer] at hload
  rw [Request.script, Script.run_map, hload, VersionLog.step, VersionLog.choose, Option.bind_some,
    hentry] at h
  cases h

end Unclear

section Refines

variable [FileOp.ListingOrder] [ArtifactUtil]

/-- All runs of calls for one artifact, in a tree where none of it is stored, are answered as the
log answers them exactly when its path keeps clear of its own versions. -/
theorem refines_log_iff {root : Root} {a : Address} {T : FileTree} (hvacant : Vacant root a T) :
    (∀ requests : List Request, (∀ request ∈ requests, request.StoresNoReference a) → ∀ depth,
        List.Forall₂ SameReply (answers root (depth + 1) a T requests)
          (VersionLog.answers root a [] requests)) ↔
      Clear root a := by
  constructor
  · intro h directory hdir name hname hvisited
    have hplain : ∀ request : Request, request.StoresNoReference a →
        ∀ r ∈ [saveText (Binary64.ofRatio false 1 2), request], r.StoresNoReference a := by
      intro request hrequest
      rw [List.forall_mem_cons, List.forall_mem_singleton]
      exact ⟨fun _ _ htext => (by cases htext), hrequest⟩
    rcases hname with hdigit | ⟨version, rfl⟩
    · exact not_refined_of_digit hdir hvacant hvisited hdigit 1 _
        (h _ (hplain .listVersions trivial) 0)
    · exact not_refined_of_number hdir hvacant hvisited 0 _
        (h _ (hplain (.loadArtifact (some version)) trivial) 0)
  · exact fun hclear requests hplain depth => answers_of_clear hclear hvacant hplain depth

end Refines

theorem vacant_empty [ArtifactUtil] (root : Root) (a : Address) : Vacant root a .empty := by
  intro directory _
  refine ⟨fun name _ => rfl, ?_⟩
  intro k _
  cases k <;> rfl

attribute [local instance] basicUtil FileOp.treeOrder

/-- A size, as a pair. -/
def size : Dict := [("size", .tuple [.int 640, .int 480])]

theorem keyed_size : Json.Keyed (.dict size) := by
  rfl

def sizeMetadata : Metadata where
  items := size
  keyed := keyed_size

/-- Saves with and without metadata, one that is refused, reads of every kind and a delete. -/
def someRequests : List Request :=
  let now := Binary64.ofRatio false 1 2
  [saveText now, .saveArtifact (.ok { inlineData := some { data := some [0, 255] } })
    (some sizeMetadata) now, .saveArtifact (.ok {}) none now, .listVersions,
    .listArtifactVersions now, .loadArtifact none, .loadArtifact (some 0),
    .getArtifactVersion (some 1) now, .deleteArtifact, .listVersions, saveText now]

/-- A path without `..` keeps clear. -/
theorem refines_log_text :
    List.Forall₂ SameReply
      (answers dataRoot 1 (inSession "a.txt") .empty someRequests)
      (VersionLog.answers dataRoot (inSession "a.txt") [] someRequests) := by
  refine (refines_log_iff (vacant_empty _ _)).2 ?_ _ ?_ 0
  · intro directory hdir name _
    have ha : artifactDir dataRoot (inSession "a.txt") = .ok ["data", "app", "user", "s", "a.txt"] :=
      rfl
    rw [ha] at hdir
    cases hdir
    exact Loc.below_not_visited (by decide) name
  · simp [someRequests, Request.StoresNoReference, saveText]

/-- The first save of `5/..` makes the directory `5`, which is then listed. -/
theorem ownDirectory_not_refined :
    ¬List.Forall₂ SameReply
      (answers dataRoot 1 (inSession "5/..") .empty
        [saveText (Binary64.ofRatio false 1 2), .listVersions])
      (VersionLog.answers dataRoot (inSession "5/..") []
        [saveText (Binary64.ofRatio false 1 2), .listVersions]) := by
  have ha : artifactDir dataRoot (inSession "5/..") = .ok ["data", "app", "user", "s", "5", ".."] :=
    rfl
  have hvisited : "5" :: Loc.resolve ["data", "app", "user", "s", "5", ".."] ∈
      Loc.visited [] ["data", "app", "user", "s", "5", ".."] := by decide
  exact not_refined_of_digit ha (vacant_empty _ _) hvisited (by decide +kernel) 1 _

end AgentCluster.Artifacts
