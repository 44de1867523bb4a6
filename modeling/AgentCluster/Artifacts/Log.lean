import AgentCluster.Artifacts.Independence

/-!
# An artifact is a log of versions

The abstract log of one artifact: a save appends an entry and returns the length the log had, a
delete empties it, and everything else reads it (`VersionLog.step`). The service refines it
(`refines_log_iff`) for artifacts whose path does not itself pass through an entry of their version
directory that could be taken for a version (`Clear`).

The log holds what it is given as JSON gives it back: a tuple in the metadata becomes a list.
-/

set_option autoImplicit false

namespace AgentCluster.Artifacts

open Python Library Adk.Artifact

/-! ## The log -/

/-- One successful save, with the metadata and the envelope as they are read back. -/
structure LogEntry where
  artifact : Part
  customMetadata : Option Metadata
  createTime : Binary64
  envelope : Dict

/-- The successful saves since the last delete. -/
abbrev VersionLog := List LogEntry

/-- The mime type stored for an artifact. -/
def payloadMimeType : Part → Value
  | { inlineData := some blob, .. } => ofOption blob.mimeType
  | { text := some _, .. } => .str "text/plain"
  | { fileData := some fileData, .. } => ofOption fileData.mimeType
  | _ => .none

namespace LogEntry

/-- The metadata of a save. -/
def toMeta (directory : List String) (version : Nat) (e : LogEntry) : ArtifactVersion where
  version := version
  canonicalUri := pathStr (directory ++ [intStr version])
  createTime := .float e.createTime
  mimeType := payloadMimeType e.artifact
  customMetadata := .dict (e.customMetadata.elim [] Metadata.items)

end LogEntry

namespace VersionLog

/-- The save with the given number. -/
def entry (log : VersionLog) : Int → Option LogEntry
  | .ofNat i => log[i]?
  | .negSucc _ => none

theorem entry_natCast (log : VersionLog) (i : Nat) : log.entry i = log[i]? := rfl

/-- The version asked for: the last one when none is named. -/
def choose (log : VersionLog) : Option Int → Option Int
  | some version => some version
  | none => if log = [] then none else some (log.length - 1 : Nat)

section Step

variable [ArtifactUtil]

/-- What a save appends, unless it is refused. -/
def append (a : Address) (log : VersionLog) (artifact : Except Error Part)
    (customMetadata : Option Metadata) (now : Binary64) : Except Error LogEntry := do
  let part ← artifact
  let envelope ← buildEnvelope log.length part customMetadata a.appName a.userId a.sessionId now
  let _ ← dumpsEnvelope envelope
  return ⟨part, customMetadata.map Metadata.seen, now, Json.seenDict envelope⟩

/-- A call for an accepted artifact. -/
def step (a : Address) (directory : List String) (log : VersionLog) :
    Request → Except Error Reply × VersionLog
  | .saveArtifact artifact customMetadata now =>
      match log.append a artifact customMetadata now with
      | .ok e => (.ok (.saved log.length), log ++ [e])
      | .error e => (.error e, log)
  | .loadArtifact version =>
      match (log.choose version).bind log.entry with
      | none => (.ok (.loaded none), log)
      | some e =>
          match partFromEnvelope (.dict e.envelope) a.appName a.userId a.sessionId with
          | .ok (.part part) => (.ok (.loaded (some part)), log)
          | .ok (.load _) => (.ok (.loaded none), log)
          | .error e => (.error e, log)
  | .listVersions => (.ok (.versions (List.range log.length)), log)
  | .listArtifactVersions _ => (.ok (.metas (log.mapIdx (LogEntry.toMeta directory))), log)
  | .getArtifactVersion version _ =>
      (.ok (.metadata ((log.choose version).bind fun v =>
        (log.entry v).map (LogEntry.toMeta directory v.toNat))), log)
  | .deleteArtifact => (.ok .deleted, [])

/-- Calls for an artifact that is not accepted are refused, a save that has no part to store for
that reason first. -/
def refuse (e : Error) : Request → Error
  | .saveArtifact (.error e') _ _ => e'
  | _ => e

/-- The answers to a sequence of calls. -/
def answers (root : Root) (a : Address) : VersionLog → List Request → List (Except Error Reply)
  | _, [] => []
  | log, request :: requests =>
      match artifactDir root a with
      | .error e => .error (refuse e request) :: answers root a log requests
      | .ok directory =>
          (log.step a directory request).1 :: answers root a (log.step a directory request).2 requests

end Step

end VersionLog

/-! ## The service -/

section Service

variable [FileOp.ListingOrder] [ArtifactUtil]

/-- The answers of the service to a sequence of calls for one artifact. -/
def answers (root : Root) (depth : Nat) (a : Address) : FileTree → List Request →
    List (Except Error Reply)
  | _, [] => []
  | T, request :: requests =>
      ((request.script root depth a).run device T).1 ::
        answers root depth a ((request.script root depth a).run device T).2 requests

/-- The same answer, except that a directory is listed in any order. -/
def SameReply : Except Error Reply → Except Error Reply → Prop
  | .ok (.versions vs), .ok (.versions vs') => vs.Perm vs'
  | r, r' => r = r'

/-- The artifact's path does not pass through an entry of the version directory that could be taken
for a version. -/
def Clear (root : Root) (a : Address) : Prop :=
  ∀ directory, artifactDir root a = .ok directory →
    ∀ name, IsVersion name → name :: Loc.resolve directory ∉ Loc.visited [] directory

/-- Nothing is stored where the artifact's versions go, and no file is in the way there. -/
def Vacant (root : Root) (a : Address) (T : FileTree) : Prop :=
  ∀ directory, artifactDir root a = .ok directory →
    (∀ name, IsVersion name → T.get? (name :: Loc.resolve directory) = none) ∧
      ∀ k ∈ Loc.visited [] directory, T.text? k = none

/-- The save does not store a reference: it stores no URI of one, or it is refused. -/
def Request.StoresNoReference (a : Address) : Request → Prop
  | .saveArtifact (.ok part) _ _ =>
      ArtifactUtil.isArtifactRef part = true → part.inlineData = none → part.text = none →
        ∃ e, payloadFields part a.appName a.userId a.sessionId = .error e
  | _ => True

/-! ## The refinement relation -/

/-- The entry is the `i`th save's, accepted and not of a reference. -/
structure LogEntry.Built (a : Address) (i : Nat) (e : LogEntry) : Prop where
  envelope : buildEnvelope i e.artifact e.customMetadata a.appName a.userId a.sessionId
    e.createTime = .ok e.envelope
  isJson : (Value.dict e.envelope).isJson = true
  noReference : ∀ target, partFromEnvelope (.dict e.envelope) a.appName a.userId a.sessionId ≠
    .ok (.load target)

/-- The tree holds the log: its entries are the files of versions, nothing is in the way to them, and
the way is there once there is an entry. -/
structure Represents (a : Address) (directory : List String) (T : FileTree)
    (log : VersionLog) : Prop where
  files : ∀ name node, IsVersion name → (T.get? (name :: Loc.resolve directory) = some node ↔
    ∃ (i : Nat) (e : LogEntry), log[i]? = some e ∧ name = intStr i ∧
      node = .file (Json.dumps (.dict e.envelope)))
  way : ∀ k ∈ Loc.visited [] directory, T.text? k = none
  made : log ≠ [] → ∀ k ∈ Loc.visited [] directory, T.get? k = some .dir
  entries : ∀ (i : Nat) (e : LogEntry), log[i]? = some e → e.Built a i

variable {root : Root} {a : Address} {directory : List String} {T : FileTree} {log : VersionLog}

omit [FileOp.ListingOrder] [ArtifactUtil] in
/-- With no file in the way a path leads to a directory or nowhere. -/
theorem find_of_way (h : ∀ k ∈ Loc.visited [] directory, T.text? k = none) :
    T.find directory = none ∨ T.find directory = some .dir := by
  cases hfind : T.find directory with
  | none => exact Or.inl rfl
  | some node =>
    cases node with
    | dir => exact Or.inr rfl
    | file text =>
      obtain ⟨k, hwalk, hk⟩ := Option.bind_eq_some_iff.1 hfind
      rw [FileTree.walk_eq_some hwalk] at hk
      rcases List.mem_cons.1 (Loc.resolveFrom_mem [] directory) with heq | hmem
      · rw [Loc.resolve, heq] at hk
        cases hk
      · have htext : T.text? (Loc.resolve directory) = none := h _ hmem
        rw [FileTree.text?_eq_some.2 hk] at htext
        cases htext

omit [FileOp.ListingOrder] in
theorem Represents.find (h : Represents a directory T log) :
    T.find directory = none ∧ log = [] ∨ T.find directory = some .dir := by
  rcases find_of_way h.way with hfind | hfind
  · refine Or.inl ⟨hfind, ?_⟩
    by_contra hne
    rw [FileTree.find_eq_dir.2 (h.made hne)] at hfind
    cases hfind
  · exact Or.inr hfind

omit [FileOp.ListingOrder] in
theorem Represents.get?_version (h : Represents a directory T log) (version : Int) :
    T.get? (intStr version :: Loc.resolve directory) =
      (log.entry version).map fun e => .file (Json.dumps (.dict e.envelope)) := by
  have hiff := fun node => h.files _ node (isVersion_intStr version)
  cases hentry : log.entry version with
  | none =>
    rw [Option.map_none, Option.eq_none_iff_forall_ne_some]
    intro node hnode
    obtain ⟨i, e, hi, hname, -⟩ := (hiff node).1 hnode
    rw [intStr_injective hname, VersionLog.entry_natCast, hi] at hentry
    cases hentry
  | some e =>
    rw [Option.map_some, hiff]
    cases version with
    | ofNat i => exact ⟨i, e, hentry, rfl, rfl⟩
    | negSucc i => cases hentry

omit [FileOp.ListingOrder] in
/-- Reading a version reads the entry. -/
theorem Represents.envelopeAt (h : Represents a directory T log) (version : Int) :
    envelopeAt T (directory ++ [intStr version]) =
      .ok ((log.entry version).map fun e => .dict e.envelope) := by
  have hname := (isName_intStr version).ne_dotdot
  have hget := h.get?_version version
  rw [Artifacts.envelopeAt, FileTree.find_append_name hname]
  rcases h.find with ⟨hfind, rfl⟩ | hfind
  · rw [hfind, if_neg (by simp)]
    cases version <;> rfl
  · rw [hfind, if_pos rfl, hget]
    cases hentry : log.entry version with
    | none => rfl
    | some e =>
      have hbuilt : ∃ i, e.Built a i := by
        cases version with
        | ofNat i => exact ⟨i, h.entries i e hentry⟩
        | negSucc i => cases hentry
      obtain ⟨i, hbuilt⟩ := hbuilt
      simp only [Option.map_some, loadsEnvelope, Json.loads_dumps hbuilt.isJson]
      rfl

/-- Listing the versions lists the numbers of the entries. -/
theorem Represents.versionsAt (h : Represents a directory T log) :
    ∃ vs, versionsAt T directory = .ok vs ∧ vs.Perm (List.range log.length) := by
  rw [Artifacts.versionsAt]
  rcases h.find with ⟨hfind, rfl⟩ | hfind
  · rw [hfind]
    exact ⟨[], rfl, List.Perm.refl _⟩
  · rw [hfind]
    have hnames : ((T.children (Loc.resolve directory)).filter isDigit).Perm
        ((List.range log.length).map fun i : Nat => intStr i) := by
      rw [List.perm_ext_iff_of_nodup ((T.nodup_children _).filter _)
        (List.nodup_range.map fun i j hij => intStr_natCast_inj hij)]
      intro name
      rw [List.mem_filter, FileTree.mem_children, List.mem_map]
      constructor
      · rintro ⟨hsome, hdigit⟩
        obtain ⟨node, hnode⟩ := Option.isSome_iff_exists.1 hsome
        obtain ⟨i, e, hi, rfl, -⟩ := (h.files name node (Or.inl hdigit)).1 hnode
        exact ⟨i, List.mem_range.2 (List.getElem?_eq_some_iff.1 hi).1, rfl⟩
      · rintro ⟨i, hi, rfl⟩
        refine ⟨?_, isDigit_intStr i⟩
        rw [h.get?_version i, VersionLog.entry_natCast, List.getElem?_eq_getElem (List.mem_range.1 hi)]
        rfl
    exact versionsOf_of_perm
      (((FileOp.ListingOrder.perm T (Loc.resolve directory) _).filter isDigit).trans hnames)

end Service

end AgentCluster.Artifacts
