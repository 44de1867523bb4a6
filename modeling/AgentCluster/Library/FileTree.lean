import AgentCluster.Library.Script
import Mathlib.Data.List.AList

/-!
# A tree of directories and text files

Places in the tree are lists of names, the innermost first, so that the parent is the tail. A path
is a list of components from the root on, in which `..` goes up. Walking a path needs every place it
leaves to be a directory (`FileTree.walk`); where it ends does not depend on the tree
(`Loc.resolve`).

There are no links, no permissions and no limits on names, and an error carries no number.
-/

set_option autoImplicit false

namespace AgentCluster.Library

/-- A place in the tree: the names from the innermost to the outermost. -/
abbrev Loc := List String

namespace Loc

/-- The place one component away. -/
def step (l : Loc) (c : String) : Loc := if c = ".." then l.tail else c :: l

/-- The place a path leads to from `l`. -/
def resolveFrom (l : Loc) (p : List String) : Loc := p.foldl step l

/-- The place an absolute path leads to. -/
def resolve (p : List String) : Loc := resolveFrom [] p

/-- The places a path comes to from `l`, one for each component. -/
def visited : Loc → List String → List Loc
  | _, [] => []
  | l, c :: p => l.step c :: visited (l.step c) p

theorem step_up (l : Loc) : l.step ".." = l.tail := if_pos rfl

theorem step_down {c : String} (h : c ≠ "..") (l : Loc) : l.step c = c :: l := if_neg h

@[simp]
theorem resolveFrom_nil (l : Loc) : resolveFrom l [] = l := rfl

@[simp]
theorem resolveFrom_cons (l : Loc) (c : String) (p : List String) :
    resolveFrom l (c :: p) = resolveFrom (l.step c) p := rfl

theorem resolveFrom_append (l : Loc) (p q : List String) :
    resolveFrom l (p ++ q) = resolveFrom (resolveFrom l p) q := List.foldl_append

/-- Without `..` every component goes one level down. -/
theorem resolveFrom_down {p : List String} (h : ∀ c ∈ p, c ≠ "..") (l : Loc) :
    resolveFrom l p = p.reverse ++ l := by
  induction p generalizing l with
  | nil => rfl
  | cons c p ih =>
    have hc := h c List.mem_cons_self
    rw [resolveFrom_cons, step_down hc, ih fun d hd => h d (List.mem_cons_of_mem c hd)]
    simp

theorem resolve_down {p : List String} (h : ∀ c ∈ p, c ≠ "..") : resolve p = p.reverse := by
  rw [resolve, resolveFrom_down h, List.append_nil]

theorem resolve_append_name {c : String} (h : c ≠ "..") (p : List String) :
    resolve (p ++ [c]) = c :: resolve p := by
  rw [resolve, resolveFrom_append, resolveFrom_cons, resolveFrom_nil, step_down h]
  rfl

/-- The last place a path comes to is where it leads. -/
theorem resolveFrom_mem (l : Loc) (p : List String) : resolveFrom l p ∈ l :: visited l p := by
  induction p generalizing l with
  | nil => exact List.mem_cons_self
  | cons c p ih => exact List.mem_cons_of_mem l (ih (l.step c))

/-- Without `..` a path only comes to places on the way to its end. -/
theorem visited_down {p : List String} (h : ∀ c ∈ p, c ≠ "..") {l k : Loc}
    (hk : k ∈ visited l p) : ∃ q r, p = q ++ r ∧ q ≠ [] ∧ k = q.reverse ++ l := by
  induction p generalizing l with
  | nil => cases hk
  | cons c p ih =>
    have hc := h c List.mem_cons_self
    rw [visited, step_down hc] at hk
    rcases List.mem_cons.1 hk with rfl | hk
    · exact ⟨[c], p, rfl, List.cons_ne_nil c [], rfl⟩
    · obtain ⟨q, r, rfl, -, rfl⟩ := ih (fun d hd => h d (List.mem_cons_of_mem c hd)) hk
      exact ⟨c :: q, r, rfl, List.cons_ne_nil c q, by simp⟩

theorem suffix_of_visited {p : List String} (h : ∀ c ∈ p, c ≠ "..") {k : Loc}
    (hk : k ∈ visited [] p) : k <:+ resolve p := by
  obtain ⟨q, r, rfl, -, rfl⟩ := visited_down h hk
  rw [resolve_down h, List.reverse_append, List.append_nil]
  exact List.suffix_append _ _

/-- What lies below the end of a path without `..` is not on the way to it. -/
theorem below_not_visited {p : List String} (h : ∀ c ∈ p, c ≠ "..") (c : String) :
    c :: resolve p ∉ visited [] p := by
  intro hk
  exact Nat.not_succ_le_self _ (suffix_of_visited h hk).length_le

end Loc

/-- What is at a place. -/
inductive Node where
  | dir
  | file (text : String)
  deriving DecidableEq

/-- The nodes other than the root, which is always a directory; each lies in a directory. -/
structure FileTree where
  entries : AList fun _ : Loc => Node
  parent_dir : ∀ n l, n :: l ∈ entries → l = [] ∨ entries.lookup l = some .dir

namespace FileTree

variable {T : FileTree}

/-- The node at a place. -/
def get? (T : FileTree) : Loc → Option Node
  | [] => some .dir
  | n :: l => T.entries.lookup (n :: l)

/-- The tree with only a root. -/
def empty : FileTree := ⟨∅, fun _ _ h => absurd h (AList.notMem_empty _)⟩

theorem get?_root : T.get? [] = some .dir := rfl

theorem mem_entries {n : String} {l : Loc} : n :: l ∈ T.entries ↔ (T.get? (n :: l)).isSome :=
  AList.lookup_isSome.symm

theorem get?_parent {n : String} {l : Loc} (h : (T.get? (n :: l)).isSome) :
    T.get? l = some .dir := by
  rcases T.parent_dir n l (mem_entries.2 h) with rfl | hl
  · rfl
  · cases l with
    | nil => rfl
    | cons m l => exact hl

/-- Whatever lies below a place makes it a directory. -/
theorem get?_above {k l : Loc} (hk : k ≠ []) (h : (T.get? (k ++ l)).isSome) :
    T.get? l = some .dir := by
  induction k with
  | nil => exact absurd rfl hk
  | cons n k ih =>
    have hparent : T.get? (k ++ l) = some .dir := get?_parent h
    cases k with
    | nil => exact hparent
    | cons m k =>
      apply ih (List.cons_ne_nil m k)
      rw [hparent]
      rfl

/-- A node can be put at the place: its parent is a directory and it is none itself. -/
def Placeable (T : FileTree) : Loc → Prop
  | [] => False
  | n :: l => T.get? l = some .dir ∧ T.get? (n :: l) ≠ some .dir

instance (T : FileTree) (l : Loc) : Decidable (T.Placeable l) := by
  cases l with
  | nil => exact inferInstanceAs (Decidable False)
  | cons n l => exact inferInstanceAs (Decidable (_ ∧ _))

theorem lookup_of_get?_dir {l : Loc} (h : T.get? l = some .dir) :
    l = [] ∨ T.entries.lookup l = some .dir := by
  cases l with
  | nil => exact Or.inl rfl
  | cons n l => exact Or.inr h

/-- The tree with a node at a place. -/
def place (T : FileTree) (l : Loc) (node : Node) : FileTree :=
  if h : T.Placeable l then
    { entries := T.entries.insert l node
      parent_dir := by
        intro m k hm
        obtain _ | ⟨n, l⟩ := l
        · exact absurd h id
        obtain ⟨hparent, hfree⟩ := h
        have hdir : T.get? k = some .dir := by
          rcases (AList.mem_insert T.entries).1 hm with heq | hm
          · obtain ⟨-, rfl⟩ := List.cons.inj heq
            exact hparent
          · exact get?_parent (mem_entries.1 hm)
        rcases lookup_of_get?_dir hdir with rfl | hk
        · exact Or.inl rfl
        · right
          rw [AList.lookup_insert_ne]
          · exact hk
          · rintro rfl
            exact hfree hdir }
  else T

theorem get?_place {l : Loc} (h : T.Placeable l) (node : Node) (k : Loc) :
    (T.place l node).get? k = if k = l then some node else T.get? k := by
  rw [place, dif_pos h]
  cases k with
  | nil =>
    rw [if_neg]
    · rfl
    · rintro rfl
      exact h
  | cons m k =>
    show AList.lookup (m :: k) (AList.insert l node T.entries) = _
    split
    · next heq =>
      rw [heq, AList.lookup_insert]
    · next hne =>
      rw [AList.lookup_insert_ne hne]
      rfl

/-- The text of the file at a place. -/
def text? (T : FileTree) (l : Loc) : Option String :=
  match T.get? l with
  | some (.file t) => some t
  | _ => none

theorem text?_eq_some {l : Loc} {t : String} : T.text? l = some t ↔ T.get? l = some (.file t) := by
  rw [text?]
  cases T.get? l with
  | none => simp
  | some node => cases node <;> simp

theorem text?_eq_none {l : Loc} : T.text? l = none ↔ ∀ t, T.get? l ≠ some (.file t) := by
  rw [Option.eq_none_iff_forall_ne_some]
  exact forall_congr' fun t => not_congr text?_eq_some

/-- The tree without the file at a place. -/
def remove (T : FileTree) (l : Loc) : FileTree :=
  if h : (T.text? l).isSome then
    { entries := T.entries.erase l
      parent_dir := by
        intro m k hm
        have hdir : T.get? k = some .dir := get?_parent (mem_entries.1 (AList.mem_erase.1 hm).2)
        rcases lookup_of_get?_dir hdir with rfl | hk
        · exact Or.inl rfl
        · right
          rw [AList.lookup_erase_ne]
          · exact hk
          · rintro rfl
            obtain ⟨t, ht⟩ := Option.isSome_iff_exists.1 h
            rw [text?_eq_some.1 ht] at hdir
            cases hdir }
  else T

theorem get?_remove {l : Loc} {t : String} (h : T.get? l = some (.file t)) (k : Loc) :
    (T.remove l).get? k = if k = l then none else T.get? k := by
  have hsome : (T.text? l).isSome := by rw [text?_eq_some.2 h]; rfl
  rw [remove, dif_pos hsome]
  cases k with
  | nil =>
    rw [if_neg]
    · rfl
    · rintro rfl
      cases h
  | cons m k =>
    show AList.lookup (m :: k) (AList.erase l T.entries) = _
    split
    · next heq =>
      rw [heq, AList.lookup_erase]
    · next hne =>
      rw [AList.lookup_erase_ne hne]
      rfl

/-! ## Listing -/

/-- The name of a place in the directory `l`, if it lies there. -/
def nameIn (l : Loc) : Loc → Option String
  | [] => none
  | n :: k => if k = l then some n else none

/-- The names in a directory. -/
def children (T : FileTree) (l : Loc) : List String := T.entries.keys.filterMap (nameIn l)

theorem nameIn_eq_some {l k : Loc} {n : String} : nameIn l k = some n ↔ k = n :: l := by
  cases k with
  | nil => simp [nameIn]
  | cons m k => simp [nameIn, and_comm]

theorem mem_children {l : Loc} {n : String} : n ∈ T.children l ↔ (T.get? (n :: l)).isSome := by
  rw [children, List.mem_filterMap, ← mem_entries, AList.mem_keys]
  simp only [nameIn_eq_some, exists_eq_right]

theorem nodup_children (T : FileTree) (l : Loc) : (T.children l).Nodup := by
  refine T.entries.keys_nodup.filterMap ?_
  intro k k' n hk hk'
  rw [Option.mem_def, nameIn_eq_some] at hk hk'
  rw [hk, hk']

/-- The path from `l` down to a place below it. -/
def pathFrom (l k : Loc) : Option (List String) :=
  if l <:+ k ∧ l ≠ k then some (k.take (k.length - l.length)).reverse else none

/-- The paths from `l` down to the files below it. -/
def filesBelow (T : FileTree) (l : Loc) : List (List String) :=
  T.entries.keys.filterMap fun k => if (T.text? k).isSome then pathFrom l k else none

theorem pathFrom_eq_some {l k : Loc} {p : List String} :
    pathFrom l k = some p ↔ p ≠ [] ∧ k = p.reverse ++ l := by
  rw [pathFrom]
  constructor
  · intro h
    split at h
    · next hlk =>
      obtain ⟨⟨r, rfl⟩, hne⟩ := hlk
      have hp : r.reverse = p := by simpa using h
      subst hp
      refine ⟨?_, by rw [List.reverse_reverse]⟩
      intro hr
      rw [List.reverse_eq_nil_iff] at hr
      exact hne (by rw [hr]; rfl)
    · cases h
  · rintro ⟨hp, rfl⟩
    rw [if_pos]
    · simp
    · refine ⟨List.suffix_append _ _, ?_⟩
      intro heq
      exact hp (List.reverse_eq_nil_iff.1 (List.self_eq_append_left.1 heq))

theorem mem_filesBelow {l : Loc} {p : List String} :
    p ∈ T.filesBelow l ↔ p ≠ [] ∧ ∃ t, T.get? (p.reverse ++ l) = some (.file t) := by
  rw [filesBelow, List.mem_filterMap]
  constructor
  · rintro ⟨k, -, hk⟩
    split at hk
    · next hfile =>
      obtain ⟨t, ht⟩ := Option.isSome_iff_exists.1 hfile
      obtain ⟨hp, rfl⟩ := pathFrom_eq_some.1 hk
      exact ⟨hp, t, text?_eq_some.1 ht⟩
    · cases hk
  · rintro ⟨hp, t, ht⟩
    have hsome : (T.text? (p.reverse ++ l)).isSome := by rw [text?_eq_some.2 ht]; rfl
    refine ⟨p.reverse ++ l, ?_, ?_⟩
    · cases hk : p.reverse ++ l with
      | nil =>
        rw [hk] at ht
        cases ht
      | cons n k =>
        rw [← AList.mem_keys, mem_entries, ← hk, ht]
        rfl
    · rw [if_pos hsome]
      exact pathFrom_eq_some.2 ⟨hp, rfl⟩

/-! ## Walking -/

/-- The place a path leads to from `l`; every place it leaves must be a directory. -/
def walkFrom (T : FileTree) : Loc → List String → Option Loc
  | l, [] => some l
  | l, c :: p => if T.get? l = some .dir then walkFrom T (l.step c) p else none

/-- The place an absolute path leads to. -/
def walk (T : FileTree) (p : List String) : Option Loc := T.walkFrom [] p

/-- The node an absolute path leads to. -/
def find (T : FileTree) (p : List String) : Option Node := (T.walk p).bind T.get?

theorem walkFrom_eq_some {l k : Loc} {p : List String} (h : T.walkFrom l p = some k) :
    k = l.resolveFrom p := by
  induction p generalizing l with
  | nil =>
    cases h
    rfl
  | cons c p ih =>
    rw [walkFrom] at h
    split at h
    · exact ih h
    · cases h

theorem walk_eq_some {k : Loc} {p : List String} (h : T.walk p = some k) : k = Loc.resolve p :=
  walkFrom_eq_some h

theorem walkFrom_append (l : Loc) (p q : List String) :
    T.walkFrom l (p ++ q) = (T.walkFrom l p).bind fun k => T.walkFrom k q := by
  induction p generalizing l with
  | nil => rfl
  | cons c p ih =>
    rw [List.cons_append, walkFrom, walkFrom]
    split
    · exact ih _
    · rfl

/-- One name below a path. -/
theorem find_append_name {c : String} (hc : c ≠ "..") (p : List String) :
    T.find (p ++ [c]) = if T.find p = some .dir then T.get? (c :: Loc.resolve p) else none := by
  rw [find, walk, walkFrom_append, find, walk]
  cases h : T.walkFrom [] p with
  | none => rfl
  | some k =>
    obtain rfl := walkFrom_eq_some h
    simp only [Option.bind_some, walkFrom, Loc.step_down hc]
    split
    · rfl
    · rfl

/-- A walk one name further leaves a directory. -/
theorem walk_append_name {c : String} (hc : c ≠ "..") {p : List String} {l : Loc}
    (h : T.walk (p ++ [c]) = some l) : T.find p = some .dir ∧ l = c :: Loc.resolve p := by
  rw [walk, walkFrom_append] at h
  obtain ⟨k, hwalk, hk⟩ := Option.bind_eq_some_iff.1 h
  obtain rfl := walkFrom_eq_some hwalk
  rw [walkFrom] at hk
  split at hk
  · next hdir =>
    refine ⟨?_, ?_⟩
    · rw [find, walk, hwalk]
      exact hdir
    · rw [walkFrom, Loc.step_down hc] at hk
      exact (Option.some.inj hk).symm
  · cases hk

/-- Without `..` a path leads to the node at the place it names. -/
theorem find_down {p : List String} (h : ∀ c ∈ p, c ≠ "..") : T.find p = T.get? p.reverse := by
  suffices hfrom : ∀ l, (T.walkFrom l p).bind T.get? = T.get? (p.reverse ++ l) by
    rw [find, walk, hfrom, List.append_nil]
  induction p with
  | nil => exact fun l => rfl
  | cons c p ih =>
    intro l
    rw [walkFrom, Loc.step_down (h c List.mem_cons_self), List.reverse_cons, List.append_assoc]
    split
    · exact ih (fun d hd => h d (List.mem_cons_of_mem c hd)) _
    · next hl =>
      symm
      by_contra hsome
      refine hl (get?_above (k := p.reverse ++ [c]) (by simp) ?_)
      rw [List.append_assoc]
      exact Option.isSome_iff_ne_none.2 hsome

/-- The entry `c` of a directory. -/
theorem find_down_append {p : List String} {c : String} (h : ∀ d ∈ p, d ≠ "..") (hc : c ≠ "..") :
    T.find (p ++ [c]) = T.get? (c :: Loc.resolve p) := by
  have hpath : ∀ d ∈ p ++ [c], d ≠ ".." := by
    rw [List.forall_mem_append, List.forall_mem_singleton]
    exact ⟨h, hc⟩
  rw [find_down hpath, ← Loc.resolve_down hpath, Loc.resolve_append_name hc]

/-- A walk among directories arrives. -/
theorem walkFrom_of_dirs {l : Loc} {p : List String} (hl : T.get? l = some .dir)
    (h : ∀ k ∈ l.visited p, T.get? k = some .dir) : T.walkFrom l p = some (l.resolveFrom p) := by
  induction p generalizing l with
  | nil => rfl
  | cons c p ih =>
    rw [walkFrom, if_pos hl]
    exact ih (h _ List.mem_cons_self) fun k hk => h k (List.mem_cons_of_mem _ hk)

/-- A path that leads to a directory only comes to directories. -/
theorem dirs_of_walkFrom {l k : Loc} {p : List String} (h : T.walkFrom l p = some k)
    (hk : T.get? k = some .dir) : ∀ m ∈ l.visited p, T.get? m = some .dir := by
  induction p generalizing l with
  | nil => exact fun m hm => absurd hm List.not_mem_nil
  | cons c p ih =>
    rw [walkFrom] at h
    split at h
    · intro m hm
      rcases List.mem_cons.1 hm with rfl | hm
      · cases p with
        | nil =>
          cases h
          exact hk
        | cons d p =>
          rw [walkFrom] at h
          split at h
          · assumption
          · cases h
      · exact ih h m hm
    · cases h

theorem find_eq_dir {p : List String} :
    T.find p = some .dir ↔ ∀ k ∈ Loc.visited [] p, T.get? k = some .dir := by
  constructor
  · intro h
    obtain ⟨k, hwalk, hk⟩ := Option.bind_eq_some_iff.1 h
    exact dirs_of_walkFrom hwalk hk
  · intro h
    rw [find, walk, walkFrom_of_dirs get?_root h, Option.bind_some]
    rcases List.mem_cons.1 (Loc.resolveFrom_mem [] p) with heq | hmem
    · rw [heq, get?_root]
    · exact h _ hmem

/-- A walk depends on the nodes it comes to. -/
theorem walkFrom_congr {T' : FileTree} {l : Loc} {p : List String} (hl : T'.get? l = T.get? l)
    (h : ∀ k ∈ l.visited p, T'.get? k = T.get? k) : T'.walkFrom l p = T.walkFrom l p := by
  induction p generalizing l with
  | nil => rfl
  | cons c p ih =>
    rw [walkFrom, walkFrom, hl, ih (h _ List.mem_cons_self) fun k hk => h k (List.mem_cons_of_mem _ hk)]

theorem find_congr {T' : FileTree} {p : List String}
    (h : ∀ k ∈ Loc.visited [] p, T'.get? k = T.get? k) : T'.find p = T.find p := by
  have hroot : T'.get? [] = T.get? [] := rfl
  rw [find, find, walk, walk, walkFrom_congr hroot h]
  cases hwalk : T.walkFrom [] p with
  | none => rfl
  | some k =>
    obtain rfl := walkFrom_eq_some hwalk
    rcases List.mem_cons.1 (Loc.resolveFrom_mem [] p) with heq | hmem
    · rw [heq]
      rfl
    · exact h _ hmem

/-- What is found when directories are added on the way to the end of a path: the same, or a directory
that was not there. -/
theorem find_of_added {T' : FileTree} {p : List String}
    (h : ∀ k ∈ Loc.visited [] p, T'.get? k = T.get? k ∨
      T.get? k = none ∧ T'.get? k = some .dir ∧ k <:+ Loc.resolve p) :
    T'.find p = T.find p ∨
      T.find p = none ∧ T'.find p = some .dir ∧ T.get? (Loc.resolve p) = none := by
  by_cases hsame : ∀ k ∈ Loc.visited [] p, T'.get? k = T.get? k
  · exact Or.inl (find_congr hsame)
  -- A place on the way was free, so there was nothing at the end.
  simp only [not_forall] at hsame
  obtain ⟨k, hk, hne⟩ := hsame
  obtain ⟨hfree, hdir, m, hm⟩ := (h k hk).resolve_left hne
  have hend : T.get? (Loc.resolve p) = none := by
    by_contra hsome
    rw [← hm] at hsome
    cases m with
    | nil => exact hsome hfree
    | cons n m =>
      rw [get?_above (List.cons_ne_nil n m) (Option.isSome_iff_ne_none.2 hsome)] at hfree
      cases hfree
  have hold : T.find p = none := by
    rw [find]
    cases hwalk : T.walk p with
    | none => rfl
    | some l =>
      obtain rfl := walk_eq_some hwalk
      exact hend
  cases hnew : T'.find p with
  | none => exact Or.inl hold.symm
  | some node =>
    cases node with
    | dir => exact Or.inr ⟨hold, rfl, hend⟩
    | file t =>
      -- A file at the end was there before.
      obtain ⟨l, hwalk, hl⟩ := Option.bind_eq_some_iff.1 hnew
      obtain rfl := walk_eq_some hwalk
      rcases List.mem_cons.1 (Loc.resolveFrom_mem [] p) with heq | hmem
      · rw [Loc.resolve, heq, get?_root] at hl
        cases hl
      · rcases h _ hmem with heq | ⟨-, hdir', -⟩
        · rw [← Loc.resolve, hl, hend] at heq
          cases heq
        · rw [← Loc.resolve, hl] at hdir'
          cases hdir'

/-! ## Making directories -/

/-- The directories on a path from `l` on that do not exist, made from left to right; `false` when
a file is in the way. -/
def mkdirsFrom (T : FileTree) : Loc → List String → Bool × FileTree
  | _, [] => (true, T)
  | l, c :: p =>
      match T.get? (l.step c) with
      | some .dir => mkdirsFrom T (l.step c) p
      | some (.file _) => (false, T)
      | none => mkdirsFrom (T.place (l.step c) .dir) (l.step c) p

/-- One component of a path leads from a directory to a directory, to a file, or to a place where
one can be made. -/
theorem placeable_step {l : Loc} {c : String} (hl : T.get? l = some .dir)
    (h : T.get? (l.step c) = none) : T.Placeable (l.step c) := by
  by_cases hc : c = ".."
  · subst hc
    rw [Loc.step_up] at h
    cases l with
    | nil => cases h
    | cons n l =>
      have hparent : T.get? l = some .dir := get?_parent (by rw [hl]; rfl)
      rw [List.tail_cons, hparent] at h
      cases h
  · rw [Loc.step_down hc] at h ⊢
    refine ⟨hl, ?_⟩
    intro hdir
    rw [h] at hdir
    cases hdir

/-- `mkdirsFrom` only adds directories, at places the path comes to. -/
theorem get?_mkdirsFrom {l : Loc} {p : List String} (hl : T.get? l = some .dir) (k : Loc) :
    (T.mkdirsFrom l p).2.get? k = T.get? k ∨
      k ∈ l.visited p ∧ T.get? k = none ∧ (T.mkdirsFrom l p).2.get? k = some .dir := by
  induction p generalizing T l with
  | nil => exact Or.inl rfl
  | cons c p ih =>
    rw [mkdirsFrom, Loc.visited]
    cases hnode : T.get? (l.step c) with
    -- A component that is there already: a directory is entered, a file stops the walk.
    | some node =>
      cases node with
      | dir =>
        rcases ih hnode with h | ⟨hk, hold, hnew⟩
        · exact Or.inl h
        · exact Or.inr ⟨List.mem_cons_of_mem _ hk, hold, hnew⟩
      | file t => exact Or.inl rfl
    | none =>
      -- A missing component is placed as a directory and the walk goes on inside it.
      have hplace := placeable_step hl hnode
      have hdir : (T.place (l.step c) .dir).get? (l.step c) = some .dir := by
        rw [get?_place hplace, if_pos rfl]
      have hother := get?_place hplace .dir k
      show _ ∨ _ ∧ _ ∧ (mkdirsFrom _ _ p).2.get? k = _
      by_cases heq : k = l.step c
      · subst heq
        right
        refine ⟨List.mem_cons_self, hnode, ?_⟩
        rcases ih hdir with h | ⟨-, -, hnew⟩
        · rw [h, hdir]
        · exact hnew
      · rw [if_neg heq] at hother
        rcases ih hdir with h | ⟨hk, hold, hnew⟩
        · exact Or.inl (h.trans hother)
        · exact Or.inr ⟨List.mem_cons_of_mem _ hk, hother.symm.trans hold, hnew⟩

/-- What is a directory stays one. -/
theorem dir_mkdirsFrom {l k : Loc} {p : List String} (hl : T.get? l = some .dir)
    (hk : T.get? k = some .dir) : (T.mkdirsFrom l p).2.get? k = some .dir := by
  rcases get?_mkdirsFrom hl k with h | ⟨-, -, h⟩
  · exact h.trans hk
  · exact h

/-- Files are neither made nor lost. -/
theorem text?_mkdirsFrom {l : Loc} {p : List String} (hl : T.get? l = some .dir) (k : Loc) :
    (T.mkdirsFrom l p).2.text? k = T.text? k := by
  rcases get?_mkdirsFrom hl k with h | ⟨-, hold, hnew⟩
  · rw [text?, h, text?]
  · rw [text?, hnew, text?, hold]

theorem text?_place_dir {l : Loc} (h : T.Placeable l) (hnone : T.get? l = none) (k : Loc) :
    (T.place l .dir).text? k = T.text? k := by
  by_cases heq : k = l
  · rw [text?, get?_place h, if_pos heq, heq, text?, hnone]
  · rw [text?, get?_place h, if_neg heq, text?]

/-- `mkdirsFrom` succeeds when no file is in the way. -/
theorem mkdirsFrom_fst {l : Loc} {p : List String} (hl : T.get? l = some .dir) :
    (T.mkdirsFrom l p).1 = true ↔ ∀ k ∈ l.visited p, T.text? k = none := by
  induction p generalizing T l with
  | nil => exact iff_of_true rfl fun k hk => absurd hk List.not_mem_nil
  | cons c p ih =>
    rw [mkdirsFrom, Loc.visited, List.forall_mem_cons]
    cases hnode : T.get? (l.step c) with
    | some node =>
      cases node with
      | dir =>
        rw [ih hnode, and_iff_right]
        rw [text?, hnode]
      | file t =>
        refine iff_of_false Bool.false_ne_true ?_
        rintro ⟨hstep, -⟩
        rw [text?_eq_some.2 hnode] at hstep
        cases hstep
    | none =>
      have hplace := placeable_step hl hnode
      have hdir : (T.place (l.step c) .dir).get? (l.step c) = some .dir := by
        rw [get?_place hplace, if_pos rfl]
      rw [ih hdir, and_iff_right]
      · simp only [text?_place_dir hplace hnode]
      · rw [text?, hnode]

/-- After it succeeded every place on the path is a directory. -/
theorem dirs_of_mkdirsFrom {l : Loc} {p : List String} (hl : T.get? l = some .dir)
    (h : (T.mkdirsFrom l p).1 = true) :
    ∀ k ∈ l.visited p, (T.mkdirsFrom l p).2.get? k = some .dir := by
  induction p generalizing T l with
  | nil => exact fun k hk => absurd hk List.not_mem_nil
  | cons c p ih =>
    rw [mkdirsFrom] at h ⊢
    rw [Loc.visited, List.forall_mem_cons]
    cases hnode : T.get? (l.step c) with
    | some node =>
      rw [hnode] at h
      cases node with
      | dir => exact ⟨dir_mkdirsFrom hnode hnode, ih hnode h⟩
      | file t => cases h
    | none =>
      rw [hnode] at h
      have hdir : (T.place (l.step c) .dir).get? (l.step c) = some .dir := by
        rw [get?_place (placeable_step hl hnode), if_pos rfl]
      exact ⟨dir_mkdirsFrom hdir hdir, ih hdir h⟩

/-- Where every place on the path is a directory there is nothing to make. -/
theorem mkdirsFrom_of_dirs {l : Loc} {p : List String}
    (h : ∀ k ∈ l.visited p, T.get? k = some .dir) : T.mkdirsFrom l p = (true, T) := by
  induction p generalizing l with
  | nil => rfl
  | cons c p ih =>
    rw [Loc.visited, List.forall_mem_cons] at h
    rw [mkdirsFrom, h.1]
    exact ih h.2

theorem dir_resolve_of_mkdirsFrom {p : List String} (h : (T.mkdirsFrom [] p).1 = true) :
    (T.mkdirsFrom [] p).2.get? (Loc.resolve p) = some .dir := by
  rcases List.mem_cons.1 (Loc.resolveFrom_mem [] p) with heq | hmem
  · rw [Loc.resolve, heq, get?_root]
  · exact dirs_of_mkdirsFrom get?_root h _ hmem

/-- After it succeeded a file can be put under every name that the path does not come to and no
directory has. -/
theorem placeable_of_mkdirsFrom {p : List String} {c : String} (h : (T.mkdirsFrom [] p).1 = true) :
    (T.mkdirsFrom [] p).2.Placeable (c :: Loc.resolve p) ↔
      c :: Loc.resolve p ∉ Loc.visited [] p ∧ T.get? (c :: Loc.resolve p) ≠ some .dir := by
  rw [Placeable, and_iff_right (dir_resolve_of_mkdirsFrom h)]
  by_cases hc : c :: Loc.resolve p ∈ Loc.visited [] p
  · exact iff_of_false (fun hnot => hnot (dirs_of_mkdirsFrom get?_root h _ hc)) fun hnot => hnot.1 hc
  · rw [and_iff_right hc]
    rcases get?_mkdirsFrom (T := T) (p := p) get?_root (c :: Loc.resolve p) with heq | ⟨hmem, -⟩
    · rw [heq]
    · exact absurd hmem hc

/-- After it succeeded the path can be walked, and one name further. -/
theorem walk_of_mkdirsFrom {p : List String} {c : String} (hc : c ≠ "..")
    (h : (T.mkdirsFrom [] p).1 = true) :
    (T.mkdirsFrom [] p).2.walk (p ++ [c]) = some (c :: Loc.resolve p) := by
  have hend := dir_resolve_of_mkdirsFrom h
  rw [walk, walkFrom_append, walkFrom_of_dirs get?_root (dirs_of_mkdirsFrom get?_root h),
    Option.bind_some]
  change (T.mkdirsFrom [] p).2.walkFrom (Loc.resolve p) [c] = _
  rw [walkFrom, if_pos hend, walkFrom, Loc.step_down hc]

end FileTree

/-! ## Calls -/

/-- The calls a program makes to the tree. -/
inductive FileOp where
  | pathExists (path : List String)
  | iterdir (path : List String)
  | files (path : List String)
  | read (path : List String)
  | mkdirs (path : List String)
  | write (path : List String) (text : String)
  | unlink (path : List String)
  deriving DecidableEq

namespace FileOp

/-- The path a call is about. -/
def path : FileOp → List String
  | pathExists p | iterdir p | files p | read p | mkdirs p | write p _ | unlink p => p

/-- What a call is answered with. -/
def Res : FileOp → Type
  | pathExists _ => Bool
  | iterdir _ => List String
  | files _ => List (List String)
  | read _ => String
  | mkdirs _ | write _ _ | unlink _ => Unit

/-- The order in which a directory is listed is the system's choice. -/
class ListingOrder where
  order : FileTree → Loc → List String → List String
  perm (T : FileTree) (l : Loc) (names : List String) : (order T l names).Perm names

/-- Names in the order in which the tree holds them. -/
@[reducible]
def treeOrder : ListingOrder := ⟨fun _ _ names => names, fun _ _ names => .refl names⟩

variable [ListingOrder] {ε : Type}

/-- One call. `osError` is raised when the path is not what the call needs. -/
def perform (osError : ε) : (op : FileOp) → FileTree → Except ε op.Res × FileTree
  | pathExists p, T => (.ok (T.find p).isSome, T)
  | iterdir p, T =>
      if T.find p = some .dir then
        (.ok (ListingOrder.order T (Loc.resolve p) (T.children (Loc.resolve p))), T)
      else (.error osError, T)
  | files p, T =>
      if T.find p = some .dir then (.ok ((T.filesBelow (Loc.resolve p)).map (p ++ ·)), T)
      else (.ok [], T)
  | read p, T =>
      match T.find p with
      | some (.file text) => (.ok text, T)
      | _ => (.error osError, T)
  | mkdirs p, T =>
      match T.mkdirsFrom [] p with
      | (true, T') => (.ok (), T')
      | (false, T') => (.error osError, T')
  | write p text, T =>
      match T.walk p with
      | some l => if T.Placeable l then (.ok (), T.place l (.file text)) else (.error osError, T)
      | none => (.error osError, T)
  | unlink p, T =>
      match T.find p with
      | some (.file _) => (.ok (), T.remove (Loc.resolve p))
      | _ => (.error osError, T)

end FileOp

end AgentCluster.Library
