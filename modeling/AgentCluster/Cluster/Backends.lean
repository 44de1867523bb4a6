import AgentCluster.Cluster.Columns
import AgentCluster.Cluster.Wire
import Mathlib.Data.List.Forall2

/-!
# The two backends are one store

The same operations, one after another, on the store in memory and on the table. Both are registries,
and the same calls keep them alike (`Registry.call_alike`): every case under an id is the same in both,
its JSON objects up to Python's `==`. So calls answer alike; a listing shows the same cases, oldest
first on both sides, and only the order of cases of one moment is left to the database. The columns of
the table have limits the dict in memory has not, so the values are to be within them
(`Columns.Takes`).
-/

set_option autoImplicit false

namespace AgentCluster.Cluster

open Python Library

/-- A call of a store method, listings included. -/
inductive Operation where
  | call (call : Call)
  | listByStatus (status : String)

/-- The cases are in the order of their creation. -/
def OldestFirst (cases : List ApprovalCase) : Prop :=
  cases.Pairwise fun a b => a.createdAt.micros ≤ b.createdAt.micros

theorem oldestFirst_perm (cases : List ApprovalCase) : (oldestFirst cases).Perm cases :=
  List.perm_insertionSort _ cases

theorem oldestFirst_sorted (cases : List ApprovalCase) : OldestFirst (oldestFirst cases) := by
  have htotal : Std.Total fun a b : ApprovalCase => a.createdAt.micros ≤ b.createdAt.micros :=
    ⟨fun a b => Nat.le_total _ _⟩
  have htrans : IsTrans ApprovalCase fun a b => a.createdAt.micros ≤ b.createdAt.micros :=
    ⟨fun a b c => Nat.le_trans⟩
  exact List.pairwise_insertionSort _ cases

/-- The rows `SELECT .. WHERE status = .. ORDER BY created_at` may return: the database orders the
rows of one moment as it likes. -/
def Table.Lists (t : Table) (status : String) (rows : List CaseRow) : Prop :=
  rows.Perm (t.rows.filter fun row => row.status.toString = status) ∧ OldestFirst rows

/-! ## The same case -/

/-- Equal field by field, the JSON objects by Python's `==`. -/
structure EqualCase (a b : ApprovalCase) : Prop where
  fields : b = { a with proposal := b.proposal, result := b.result }
  proposal : SameDict a.proposal b.proposal
  result : Option.Rel SameDict a.result b.result

/-- The same answer, with the same cases in it. -/
def SameAnswer : Answer → Answer → Prop
  | .opened a, .opened b => a = b
  | .found c, .found c' => Option.Rel EqualCase c c'
  | .decided o c, .decided o' c' => o = o' ∧ Option.Rel EqualCase c c'
  | .updated c, .updated c' => Option.Rel EqualCase c c'
  | _, _ => False

/-- The two lists hold the same cases, both oldest first: they agree up to the order of cases of one
moment. -/
structure SameListing (a b : List ApprovalCase) : Prop where
  cases : ∃ l, a.Perm l ∧ List.Forall₂ EqualCase l b
  left : OldestFirst a
  right : OldestFirst b

namespace EqualCase

variable {a b : ApprovalCase}

theorem status (h : EqualCase a b) : b.status = a.status := by rw [h.fields]

theorem createdAt (h : EqualCase a b) : b.createdAt = a.createdAt := by rw [h.fields]

theorem decided (h : EqualCase a b) (approved : Bool) (decidedBy note : String) (now : DateTime) :
    EqualCase (a.decided approved decidedBy note now) (b.decided approved decidedBy note now) := by
  refine ⟨?_, h.proposal, h.result⟩
  rw [h.fields]
  rfl

theorem closed (h : EqualCase a b) (succeeded : Bool) {result result' : Dict}
    (hresult : SameDict result result') (now : DateTime) :
    EqualCase (a.closed succeeded result now) (b.closed succeeded result' now) := by
  refine ⟨?_, h.proposal, Option.Rel.some hresult⟩
  rw [h.fields]
  rfl

end EqualCase

/-! ## Calls on registries that are alike -/

/-- The registries hold the same case under every id. -/
def Registry.Alike (r r' : Registry) : Prop :=
  ∀ proposalId, Option.Rel EqualCase (r proposalId) (r' proposalId)

/-- The calls differ in equal JSON objects only, and an opened case is fresh. -/
inductive SameCall : Call → Call → Prop
  | openCase {c c' : ApprovalCase} (hid : c'.proposalId = c.proposalId) (h : EqualCase c c') :
      SameCall (.openCase c) (.openCase c')
  | get (proposalId : String) : SameCall (.get proposalId) (.get proposalId)
  | decide (proposalId : String) (approved : Bool) (decidedBy note : String) (clock : Nat) :
      SameCall (.decide proposalId approved decidedBy note clock)
        (.decide proposalId approved decidedBy note clock)
  | recordExecution (proposalId : String) (succeeded : Bool) {result result' : Dict} (clock : Nat)
      (h : SameDict result result') :
      SameCall (.recordExecution proposalId succeeded result clock)
        (.recordExecution proposalId succeeded result' clock)

namespace Registry

variable {r r' : Registry}

/-- Under an id either both hold a case, and the same, or neither does. -/
theorem Alike.cases (h : r.Alike r') (proposalId : String) :
    r proposalId = none ∧ r' proposalId = none ∨
      ∃ c c', r proposalId = some c ∧ r' proposalId = some c' ∧ EqualCase c c' := by
  have hrel := h proposalId
  cases hc : r proposalId with
  | none =>
    rw [hc] at hrel
    cases hc' : r' proposalId with
    | none => exact Or.inl ⟨rfl, rfl⟩
    | some c' =>
      rw [hc'] at hrel
      cases hrel
  | some c =>
    rw [hc] at hrel
    cases hc' : r' proposalId with
    | none =>
      rw [hc'] at hrel
      cases hrel
    | some c' =>
      rw [hc'] at hrel
      cases hrel with
      | some hsame => exact Or.inr ⟨c, c', rfl, rfl, hsame⟩

theorem Alike.set (h : r.Alike r') {c c' : ApprovalCase} (hc : EqualCase c c')
    (proposalId : String) : (r.set proposalId c).Alike (r'.set proposalId c') := by
  intro other
  by_cases ho : other = proposalId
  · subst ho
    rw [set_self, set_self]
    exact Option.Rel.some hc
  · rw [set_of_ne ho, set_of_ne ho]
    exact h other

/-- The same call on registries that are alike: the same answer, and they stay alike. -/
theorem call_alike (h : r.Alike r') {call call' : Call} (hcall : SameCall call call') :
    SameAnswer (r.call call).1 (r'.call call').1 ∧ (r.call call).2.Alike (r'.call call').2 := by
  cases hcall with
  | @openCase c c' hid hsame =>
    rw [Registry.call, Registry.call, hid]
    rcases h.cases c.proposalId with ⟨hr, hr'⟩ | ⟨d, d', hr, hr', -⟩
    · rw [openCase_new hr, openCase_new hr']
      exact ⟨rfl, h.set hsame _⟩
    · rw [openCase_known hr, openCase_known hr']
      exact ⟨rfl, h⟩
  | get proposalId => exact ⟨h proposalId, h⟩
  | decide proposalId approved decidedBy note clock =>
    rw [Registry.call, Registry.call]
    rcases h.cases proposalId with ⟨hr, hr'⟩ | ⟨c, c', hr, hr', hsame⟩
    · rw [decide_missing hr, decide_missing hr']
      exact ⟨⟨rfl, Option.Rel.none⟩, h⟩
    -- The statuses are equal, so both record the decision or neither does.
    · by_cases hc : c.status = .pending
      · have hdecided := hsame.decided approved decidedBy note (DateTime.now clock)
        rw [decide_pending hr hc, decide_pending hr' (hsame.status.trans hc)]
        exact ⟨⟨rfl, Option.Rel.some hdecided⟩, h.set hdecided proposalId⟩
      · rw [decide_decided hr hc, decide_decided hr' (by rwa [hsame.status])]
        exact ⟨⟨rfl, Option.Rel.some hsame⟩, h⟩
  | @recordExecution proposalId succeeded result result' clock hresult =>
    rw [Registry.call, Registry.call]
    rcases h.cases proposalId with ⟨hr, hr'⟩ | ⟨c, c', hr, hr', hsame⟩
    · rw [recordExecution_missing hr, recordExecution_missing hr']
      exact ⟨Option.Rel.none, h⟩
    · have hclosed := hsame.closed succeeded hresult (DateTime.now clock)
      rw [recordExecution_known hr, recordExecution_known hr']
      exact ⟨Option.Rel.some hclosed, h.set hclosed proposalId⟩

end Registry

/-! ## Both stores -/

section Backends

variable (columns : Columns) (dialect : Dialect)

/-- Both stores. -/
abbrev Both := InMemoryCaseStore.State × Table

/-- The operation on both stores. -/
def bothStep (p : Both) : Operation → Option Both
  | .call call =>
      some (inMemoryCaseStore.apply p.1 call, (columnCaseStore columns dialect).apply p.2 call)
  | .listByStatus status =>
      some (((inMemoryCaseStore.listByStatus status).run p.1).2,
        (((columnCaseStore columns dialect).listByStatus status).run p.2).2)

/-- The stores answer the operation alike. -/
def SameAnswers (p : Both) : Operation → Prop
  | .call call =>
      ∃ a b, ((inMemoryCaseStore.program call).run p.1).1 = .ok a ∧
        (((columnCaseStore columns dialect).program call).run p.2).1 = .ok b ∧ SameAnswer a b
  | .listByStatus status =>
      ∃ cases, ((inMemoryCaseStore.listByStatus status).run p.1).1 = .ok cases ∧
        (∃ rows, ((columnCaseStore columns dialect).listByStatus status).run p.2 =
          (.ok (rows.map DatabaseCaseStore.rowToCase), p.2) ∧ p.2.Lists status rows) ∧
        ∀ rows, p.2.Lists status rows → SameListing cases (rows.map DatabaseCaseStore.rowToCase)

/-- A case that is opened is fresh. -/
def Operation.OpensFresh (op : Operation) : Prop := ∀ call, op = .call call → call.OpensFresh

/-- Every value of the operation is within what the columns take. -/
def Columns.TakesOperation : Operation → Prop
  | .call call => columns.Takes call
  | .listByStatus status => columns.TakesText none status

/-- The stores hold the same cases under the same ids. -/
structure SameCases (p : Both) : Prop where
  alike : (inMemoryCaseStore.find p.1).Alike ((databaseCaseStore dialect).find p.2)
  nodup : PyDict.keys p.1 |>.Nodup

variable {columns dialect}

theorem asUtc_micros (t : DateTime) : (DatabaseCaseStore.asUtc t).micros = t.micros := by
  unfold DatabaseCaseStore.asUtc
  split
  · rfl
  · rfl

/-- Every call leaves the dict as it is or sets one key. -/
theorem InMemoryCaseStore.apply_cases (cases : InMemoryCaseStore.State) (call : Call) :
    inMemoryCaseStore.apply cases call = cases ∨
      ∃ proposalId c, inMemoryCaseStore.apply cases call = cases.set proposalId c := by
  -- A call writes one entry or none.
  cases call with
  | openCase c =>
    show (openIn c cases).2 = cases ∨ ∃ _ _, (openIn c cases).2 = _
    cases h : cases.lookup c.proposalId with
    | none =>
      rw [openIn_new h]
      exact Or.inr ⟨_, _, rfl⟩
    | some c' =>
      rw [openIn_known h]
      exact Or.inl rfl
  | get proposalId => exact Or.inl rfl
  | decide proposalId approved decidedBy note clock =>
    show (decideIn proposalId approved decidedBy note clock cases).2 = cases ∨
      ∃ _ _, (decideIn proposalId approved decidedBy note clock cases).2 = _
    cases h : cases.lookup proposalId with
    | none =>
      rw [decideIn_missing h]
      exact Or.inl rfl
    | some c =>
      by_cases hc : c.status = .pending
      · rw [decideIn_pending h hc]
        exact Or.inr ⟨_, _, rfl⟩
      · rw [decideIn_decided h hc]
        exact Or.inl rfl
  | recordExecution proposalId succeeded result clock =>
    show (recordIn proposalId succeeded result clock cases).2 = cases ∨
      ∃ _ _, (recordIn proposalId succeeded result clock cases).2 = _
    cases h : cases.lookup proposalId with
    | none =>
      rw [recordIn_missing h]
      exact Or.inl rfl
    | some c =>
      rw [recordIn_known h]
      exact Or.inr ⟨_, _, rfl⟩

/-- What the columns hold of a call is the same call. -/
theorem sameCall_held {call : Call} (hfresh : call.OpensFresh) (h : columns.Takes call) :
    SameCall call (columns.held call) := by
  cases call with
  | openCase c =>
    refine .openCase rfl ⟨rfl, Columns.sameDict_heldDict h.proposal, ?_⟩
    show Option.Rel SameDict c.result c.result
    rw [(hfresh c rfl).result]
    exact Option.Rel.none
  | get proposalId => exact .get proposalId
  | decide proposalId approved decidedBy note clock =>
    exact .decide proposalId approved decidedBy note clock
  | recordExecution proposalId succeeded result clock =>
    exact .recordExecution proposalId succeeded clock (Columns.sameDict_heldDict h.2)

theorem opensFresh_held {call : Call} (hfresh : call.OpensFresh) :
    (columns.held call).OpensFresh := by
  cases call with
  | openCase c =>
    rintro c' hc'
    cases hc'
    exact ⟨(hfresh c rfl).createdAt, (hfresh c rfl).result, (hfresh c rfl).decidedAt,
      (hfresh c rfl).executedAt⟩
  | get proposalId =>
    intro c hc
    cases hc
  | decide proposalId approved decidedBy note clock =>
    intro c hc
    cases hc
  | recordExecution proposalId succeeded result clock =>
    intro c hc
    cases hc

/-- A call on both stores: each does what its registry does, the table with what its columns hold. -/
theorem call_both {p : Both} {call : Call} (hp : SameCases dialect p) (hfresh : call.OpensFresh)
    (htakes : columns.Takes call) :
    SameAnswers columns dialect p (.call call) ∧
      (inMemoryCaseStore.find (inMemoryCaseStore.apply p.1 call)).Alike
        ((databaseCaseStore dialect).find ((columnCaseStore columns dialect).apply p.2 call)) := by
  obtain ⟨m, hmem, hm⟩ := InMemoryCaseStore.implements.program_run call (fun _ _ => rfl) p.1
  obtain ⟨t, htable, ht⟩ := DatabaseCaseStore.implements.program_run (columns.held call)
    ((@DatabaseCaseStore.preserves_stored dialect).readsBack (opensFresh_held hfresh)) p.2
  rw [← Columns.program_held dialect htakes] at htable
  obtain ⟨hanswer, halike⟩ := Registry.call_alike hp.alike (sameCall_held hfresh htakes)
  constructor
  · exact ⟨_, _, congrArg Prod.fst hmem, congrArg Prod.fst htable, hanswer⟩
  · have hmemory : inMemoryCaseStore.apply p.1 call = m := congrArg Prod.snd hmem
    have hrows : (columnCaseStore columns dialect).apply p.2 call = t := congrArg Prod.snd htable
    rw [hmemory, hrows, hm, ht]
    exact halike

theorem sameCases_step {p q : Both} {op : Operation} (hp : SameCases dialect p)
    (hop : op.OpensFresh ∧ columns.TakesOperation op) (h : bothStep columns dialect p op = some q) :
    SameCases dialect q := by
  obtain ⟨hfresh, htakes⟩ := hop
  cases op with
  | listByStatus status =>
    have htable : (((columnCaseStore columns dialect).listByStatus status).run p.2).2 = p.2 := by
      show ((ColumnCaseStore.listByStatus columns status).run p.2).2 = p.2
      rw [Columns.listByStatus_held htakes]
      rfl
    cases h
    rw [htable]
    exact hp
  | call call =>
    cases h
    constructor
    · exact (call_both hp (hfresh call rfl) htakes).2
    · show (PyDict.keys (inMemoryCaseStore.apply p.1 call)).Nodup
      rcases InMemoryCaseStore.apply_cases p.1 call with hsame | ⟨proposalId, c, hset⟩
      · rw [hsame]
        exact hp.nodup
      · rw [hset]
        exact PyDict.nodup_keys_set hp.nodup proposalId c

/-! ## Listings -/

/-- The case in memory of a row. -/
def caseOfRow (p : Both) (row : CaseRow) : ApprovalCase :=
  (inMemoryCaseStore.find p.1 row.proposalId).getD (DatabaseCaseStore.rowToCase row)

theorem find_caseOfRow {p : Both} (hp : SameCases dialect p) {row : CaseRow}
    (hrow : row ∈ p.2.rows) :
    inMemoryCaseStore.find p.1 row.proposalId = some (caseOfRow p row) ∧
      EqualCase (caseOfRow p row) (DatabaseCaseStore.rowToCase row) := by
  have hfind : (databaseCaseStore dialect).find p.2 row.proposalId =
      some (DatabaseCaseStore.rowToCase row) :=
    DatabaseCaseStore.find_of_row (Table.row_eq_some_iff.2 ⟨hrow, rfl⟩)
  rcases hp.alike.cases row.proposalId with ⟨-, hnone⟩ | ⟨c, c', hc, hc', hsame⟩
  · rw [hfind] at hnone
    cases hnone
  · rw [hfind] at hc'
    cases hc'
    rw [caseOfRow, hc]
    exact ⟨rfl, hsame⟩

/-- The cases in memory are those of the rows, in whatever order each store keeps them. -/
theorem perm_caseOfRow {p : Both} (hp : SameCases dialect p) :
    (p.1.map Prod.snd).Perm (p.2.rows.map (caseOfRow p)) := by
  let entries := p.2.rows.map fun row => (row.proposalId, caseOfRow p row)
  have hkeys : (entries.map Prod.fst).Nodup := by
    rw [List.map_map]
    exact p.2.primaryKey
  have hperm : p.1.Perm entries := by
    -- Neither has two entries under one id, so the same entries are enough.
    rw [List.perm_ext_iff_of_nodup (List.Nodup.of_map _ hp.nodup) (List.Nodup.of_map _ hkeys)]
    rintro ⟨proposalId, c⟩
    constructor
    · intro hmem
      have hlookup : inMemoryCaseStore.find p.1 proposalId = some c :=
        PyDict.lookup_of_mem hp.nodup hmem
      rcases hp.alike.cases proposalId with ⟨hnone, -⟩ | ⟨d, d', -, hd', -⟩
      · rw [hlookup] at hnone
        cases hnone
      · rw [DatabaseCaseStore.find_eq] at hd'
        obtain ⟨row, hrow, -⟩ := Option.map_eq_some_iff.1 hd'
        obtain ⟨hmem', rfl⟩ := Table.row_eq_some_iff.1 hrow
        have hc : some c = some (caseOfRow p row) :=
          hlookup.symm.trans (find_caseOfRow hp hmem').1
        exact List.mem_map.2 ⟨row, hmem', by rw [Option.some.inj hc]⟩
    · intro hmem
      obtain ⟨row, hmem', heq⟩ := List.mem_map.1 hmem
      cases heq
      exact PyDict.mem_of_lookup (find_caseOfRow hp hmem').1
  have hsnd : entries.map Prod.snd = p.2.rows.map (caseOfRow p) := by
    rw [List.map_map]
    rfl
  rw [← hsnd]
  exact hperm.map Prod.snd

/-- What the database may list shows the cases that are listed in memory. -/
theorem sameListing_of_lists {p : Both} (hp : SameCases dialect p) {status : String}
    {rows : List CaseRow} (h : p.2.Lists status rows) :
    SameListing (oldestFirst ((p.1.map Prod.snd).filter fun c => c.status.toString = status))
      (rows.map DatabaseCaseStore.rowToCase) := by
  obtain ⟨hperm, hsorted⟩ := h
  let inStatus : ApprovalCase → Bool := fun c => c.status.toString = status
  have hmem {row : CaseRow} (hrow : row ∈ rows) : row ∈ p.2.rows :=
    List.mem_of_mem_filter (hperm.mem_iff.1 hrow)
  have hsame {row : CaseRow} (hrow : row ∈ p.2.rows) :
      inStatus (caseOfRow p row) = inStatus row := by
    have hstatus : row.status = (caseOfRow p row).status := (find_caseOfRow hp hrow).2.status
    show decide _ = decide _
    rw [hstatus]
  -- Both filter the same cases by their status and differ in the order.
  have hcases : ((p.1.map Prod.snd).filter inStatus).Perm (rows.map (caseOfRow p)) :=
    calc ((p.1.map Prod.snd).filter inStatus).Perm
          ((p.2.rows.map (caseOfRow p)).filter inStatus) := (perm_caseOfRow hp).filter _
      _ = (p.2.rows.filter inStatus).map (caseOfRow p) := by
          rw [List.filter_map]
          congr 1
          exact List.filter_congr fun row hrow => hsame hrow
      _ |>.Perm (rows.map (caseOfRow p)) := hperm.symm.map _
  refine ⟨⟨_, (oldestFirst_perm _).trans hcases, ?_⟩, oldestFirst_sorted _, ?_⟩
  · rw [List.forall₂_map_left_iff, List.forall₂_map_right_iff, List.forall₂_same]
    exact fun row hrow => (find_caseOfRow hp (hmem hrow)).2
  · rw [OldestFirst, List.pairwise_map]
    apply hsorted.imp
    intro a b hab
    show (DatabaseCaseStore.asUtc a.createdAt).micros ≤ (DatabaseCaseStore.asUtc b.createdAt).micros
    rw [asUtc_micros, asUtc_micros]
    exact hab

theorem sameAnswers_of_sameCases {p : Both} {op : Operation} (hp : SameCases dialect p)
    (hop : op.OpensFresh ∧ columns.TakesOperation op) : SameAnswers columns dialect p op := by
  obtain ⟨hfresh, htakes⟩ := hop
  cases op with
  | call call => exact (call_both hp (hfresh call rfl) htakes).1
  | listByStatus status =>
    refine ⟨_, rfl, ⟨_, ?_, oldestFirst_perm _, oldestFirst_sorted _⟩, ?_⟩
    · show (ColumnCaseStore.listByStatus columns status).run p.2 = _
      rw [Columns.listByStatus_held htakes]
      rfl
    · exact fun rows hrows => sameListing_of_lists hp hrows

end Backends

/-- In every sequence of operations whose values the columns take, the two stores answer each operation
alike. -/
theorem backends_answer_alike (columns : Columns) (dialect : Dialect) (ops : List Operation)
    (hfresh : ∀ op ∈ ops, op.OpensFresh) (htakes : ∀ op ∈ ops, columns.TakesOperation op) :
    Machine.Along (bothStep columns dialect) (SameAnswers columns dialect)
      (inMemoryCaseStore.empty, (columnCaseStore columns dialect).empty) ops :=
  Machine.along_of_invariant (fun _ _ _ hp hop h => sameCases_step hp hop h)
    (fun _ _ hp hop => sameAnswers_of_sameCases hp hop)
    ⟨fun _ => Option.Rel.none, List.nodup_nil⟩ fun op hop => ⟨hfresh op hop, htakes op hop⟩

/-- A case that is made of a proposal is fresh. -/
theorem isFresh_caseFromProposal [UnicodeData] (found : Dict)
    (sessionId caseId agent newProposalId : String) (clock : Nat) :
    (caseFromProposal found sessionId caseId agent newProposalId clock).IsFresh :=
  ⟨rfl, rfl, rfl, rfl⟩

section Example

attribute [local instance] asciiData

/-- The case of a proposal to publish. -/
def proposedOnce : ApprovalCase :=
  caseFromProposal
    [("proposal", .dict [("action", .str "publish_result"), ("to", .str "q3")])] "case-1" "case-1" ""
    "p1" 5

/-- The life of one case, with listings in between. -/
def publishedOnce : List Operation :=
  [.call (.openCase proposedOnce), .listByStatus "pending",
   .call (.decide "p1" true "reviewer" "" 6),
   .call (.recordExecution "p1" true [("status", .str "published"), ("by", .str "ops")] 7),
   .listByStatus "executed"]

theorem backends_answer_alike_publishedOnce :
    Machine.Along (bothStep .jsonb .postgresql) (SameAnswers .jsonb .postgresql)
      (inMemoryCaseStore.empty, (columnCaseStore .jsonb .postgresql).empty) publishedOnce := by
  refine backends_answer_alike .jsonb .postgresql publishedOnce ?_ ?_
  · intro op hop call hcall c hc
    subst hcall hc
    have hopened : c = proposedOnce := by simpa [publishedOnce] using hop
    rw [hopened]
    exact isFresh_caseFromProposal _ _ _ _ _ _
  · intro op hop
    simp only [publishedOnce, List.mem_cons, List.not_mem_nil, or_false] at hop
    rcases hop with rfl | rfl | rfl | rfl | rfl
    · exact ⟨rfl, rfl, rfl, rfl, rfl, ⟨_, rfl, rfl⟩, rfl, rfl, rfl⟩
    · exact rfl
    · exact ⟨rfl, rfl, rfl⟩
    · exact ⟨rfl, _, rfl, rfl⟩
    · exact rfl

/-- A decision by a reviewer whose name is one character too long. -/
def decidedByLongName : List Operation :=
  [.call (.openCase proposedOnce),
   .call (.decide "p1" true (String.ofList (List.replicate 257 'x')) "" 6)]

/-- In memory the decision is recorded, and the column refuses the name. -/
theorem decidedByLongName_differs :
    ¬ Machine.Along (bothStep .jsonb .postgresql) (SameAnswers .jsonb .postgresql)
        (inMemoryCaseStore.empty, (columnCaseStore .jsonb .postgresql).empty)
        decidedByLongName := by
  intro halike
  obtain ⟨-, halike⟩ := halike
  obtain ⟨⟨a, b, -, htable, -⟩, -⟩ := halike _ rfl
  have hrefused : ∀ s, Columns.jsonb.text none (String.ofList (List.replicate 257 'x')) = some s →
      Columns.jsonb.text (some 256) s = none := by
    intro s hs
    have hlong : 256 < (String.ofList (List.replicate 257 'x')).length := by
      rw [String.length_ofList, List.length_replicate]
      decide
    rw [← Columns.jsonb_text_none hs]
    exact Columns.jsonb_text_long hlong
  have hid : Columns.jsonb.TakesText none "p1" := rfl
  rw [Columns.decide_refused hid hrefused .postgresql true "" 6 rfl] at htable
  cases htable

end Example

end AgentCluster.Cluster
