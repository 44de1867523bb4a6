import AgentCluster.Cluster.Case
import AgentCluster.Library.Program
import Mathlib.Data.List.Sort

/-!
# Case stores

The interface `CaseStore` and its two implementations. A method is a program: in memory it is one
atomic step, over the table it is one step per SQL statement. `datetime.now(UTC)` is read once by each
method that needs it and is an argument here.
-/

set_option autoImplicit false

namespace AgentCluster.Cluster

open Python Library

/-- Why a decision was or was not recorded. -/
inductive DecisionOutcome where
  | recorded
  | notFound
  | alreadyDecided
  deriving DecidableEq, Repr

/-- What a statement raises: the primary key that is inserted exists, or a column does not take a
value. -/
inductive StoreError where
  | integrityError
  | dataError
  deriving DecidableEq, Repr

/-- What is awaiting a human decision, and what became of it. -/
structure CaseStore where
  State : Type
  empty : State
  openCase : ApprovalCase → Program State StoreError Bool
  get : String → Program State StoreError (Option ApprovalCase)
  listByStatus : String → Program State StoreError (List ApprovalCase)
  decide : String → Bool → String → String → Nat →
    Program State StoreError (DecisionOutcome × Option ApprovalCase)
  recordExecution : String → Bool → Dict → Nat → Program State StoreError (Option ApprovalCase)

/-- Oldest first, cases of one moment in the order they were found in. -/
def oldestFirst (cases : List ApprovalCase) : List ApprovalCase :=
  cases.insertionSort fun a b => a.createdAt.micros ≤ b.createdAt.micros

/-! ## In memory -/

namespace InMemoryCaseStore

/-- The cases by proposal id. -/
abbrev State := PyDict ApprovalCase

/-- Record a case unless its proposal id is already known. -/
def openIn (c : ApprovalCase) (cases : State) : Bool × State :=
  if (cases.lookup c.proposalId).isSome then (false, cases)
  else (true, cases.set c.proposalId c)

/-- Read one case. -/
def getIn (proposalId : String) (cases : State) : Option ApprovalCase × State :=
  (cases.lookup proposalId, cases)

/-- Read every case in a status, oldest first. -/
def listIn (status : String) (cases : State) : List ApprovalCase × State :=
  (oldestFirst ((cases.map Prod.snd).filter fun c => c.status.toString = status), cases)

/-- Record a decision on a pending case. -/
def decideIn (proposalId : String) (approved : Bool) (decidedBy note : String) (clock : Nat)
    (cases : State) : (DecisionOutcome × Option ApprovalCase) × State :=
  match cases.lookup proposalId with
  | none => ((.notFound, none), cases)
  | some c =>
      if c.status ≠ .pending then ((.alreadyDecided, some c), cases)
      else
        let c := c.decided approved decidedBy note (DateTime.now clock)
        ((.recorded, some c), cases.set proposalId c)

/-- Close an approved case. -/
def recordIn (proposalId : String) (succeeded : Bool) (result : Dict) (clock : Nat)
    (cases : State) : Option ApprovalCase × State :=
  match cases.lookup proposalId with
  | none => (none, cases)
  | some c =>
      let c := c.closed succeeded result (DateTime.now clock)
      (some c, cases.set proposalId c)

end InMemoryCaseStore

/-- Per-pod store: each method is one step. -/
def inMemoryCaseStore : CaseStore where
  State := InMemoryCaseStore.State
  empty := []
  openCase c := .exec (InMemoryCaseStore.openIn c) .ret
  get proposalId := .exec (InMemoryCaseStore.getIn proposalId) .ret
  listByStatus status := .exec (InMemoryCaseStore.listIn status) .ret
  decide proposalId approved decidedBy note clock :=
    .exec (InMemoryCaseStore.decideIn proposalId approved decidedBy note clock) .ret
  recordExecution proposalId succeeded result clock :=
    .exec (InMemoryCaseStore.recordIn proposalId succeeded result clock) .ret

/-! ## The table -/

/-- The databases the store runs on. -/
inductive Dialect where
  | postgresql
  | sqlite
  deriving DecidableEq, Repr

/-- What a timestamp column gives back: SQLite drops the offset. -/
def Dialect.column (dialect : Dialect) (t : DateTime) : DateTime :=
  match dialect with
  | .postgresql => { t with utc := true }
  | .sqlite => { t with utc := false }

/-- A row of `approval_cases`. It has the columns of a case. Here a column gives back the value it was
given; `ColumnCaseStore` is the store over columns that may not. -/
abbrev CaseRow := ApprovalCase

/-- The rows, at most one for each primary key. -/
structure Table where
  rows : List CaseRow
  primaryKey : (rows.map ApprovalCase.proposalId).Nodup

namespace Table

/-- The rows of a primary key. -/
def select (t : Table) (proposalId : String) : List CaseRow :=
  t.rows.filter fun row => row.proposalId = proposalId

theorem map_update (rows : List CaseRow) (p : CaseRow → Bool) (f : CaseRow → CaseRow)
    (hf : ∀ row, (f row).proposalId = row.proposalId) :
    (rows.map fun row => if p row then f row else row).map ApprovalCase.proposalId =
      rows.map ApprovalCase.proposalId := by
  rw [List.map_map]
  apply List.map_congr_left
  intro row _
  show (if p row then f row else row).proposalId = row.proposalId
  split
  · exact hf row
  · rfl

/-- `UPDATE .. WHERE .. RETURNING`: the changed rows, and the table after it. The assignments do not
touch the primary key. -/
def update (t : Table) (p : CaseRow → Bool) (f : CaseRow → CaseRow)
    (hf : ∀ row, (f row).proposalId = row.proposalId) : List CaseRow × Table :=
  ((t.rows.filter p).map f,
    { rows := t.rows.map fun row => if p row then f row else row
      primaryKey := by
        rw [map_update t.rows p f hf]
        exact t.primaryKey })

/-- `INSERT`: refused when the primary key exists. -/
def insert (t : Table) (row : CaseRow) : Bool × Table :=
  if h : row.proposalId ∈ t.rows.map ApprovalCase.proposalId then (false, t)
  else
    (true,
      { rows := t.rows ++ [row]
        primaryKey := by
          rw [List.map_append, List.map_singleton, ← List.concat_eq_append]
          exact List.Nodup.concat h t.primaryKey })

end Table

namespace DatabaseCaseStore

/-- Attach UTC to a naive timestamp. -/
def asUtc (t : DateTime) : DateTime := if t.utc then t else { t with utc := true }

/-- The case of a row. -/
def rowToCase (row : CaseRow) : ApprovalCase :=
  { row with
    createdAt := asUtc row.createdAt
    decidedAt := row.decidedAt.map asUtc
    executedAt := row.executedAt.map asUtc }

variable (dialect : Dialect)

/-- The row that is inserted for a case; the columns that are not written are null. -/
def newRow (c : ApprovalCase) : CaseRow :=
  { c with
    createdAt := dialect.column c.createdAt
    result := none
    decidedAt := none
    executedAt := none }

def openCase (c : ApprovalCase) : Program Table StoreError Bool :=
  .exec (fun t => (t.select c.proposalId, t)) fun existing =>
    if existing.head?.isSome then .ret false
    else
      .exec (fun t => t.insert (newRow dialect c)) fun inserted =>
        if inserted then .ret true else .raise .integrityError

def get (proposalId : String) : Program Table StoreError (Option ApprovalCase) :=
  .exec (fun t => (t.select proposalId, t)) fun rows => .ret (rows.head?.map rowToCase)

def listByStatus (status : String) : Program Table StoreError (List ApprovalCase) :=
  .exec (fun t => (oldestFirst (t.rows.filter fun row => row.status.toString = status), t)) fun rows =>
    .ret (rows.map rowToCase)

/-- The columns a decision writes. -/
def decideRow (approved : Bool) (decidedBy note : String) (clock : Nat) (row : CaseRow) : CaseRow :=
  row.decided approved decidedBy note (dialect.column (DateTime.now clock))

/-- The columns an execution writes. -/
def closeRow (succeeded : Bool) (result : Dict) (clock : Nat) (row : CaseRow) : CaseRow :=
  row.closed succeeded result (dialect.column (DateTime.now clock))

/-- The conditional `UPDATE` of `decide`: only a pending row is written. -/
def updatePending (proposalId : String) (approved : Bool) (decidedBy note : String) (clock : Nat)
    (t : Table) : List CaseRow × Table :=
  t.update (fun row => row.proposalId = proposalId ∧ row.status = .pending)
    (decideRow dialect approved decidedBy note clock) fun _ => rfl

/-- The `UPDATE` of `record_execution`. -/
def updateExecution (proposalId : String) (succeeded : Bool) (result : Dict) (clock : Nat)
    (t : Table) : List CaseRow × Table :=
  t.update (fun row => row.proposalId = proposalId)
    (closeRow dialect succeeded result clock) fun _ => rfl

/-- The second statement of `decide`: why nothing was updated. -/
def readDecided (proposalId : String) :
    Program Table StoreError (DecisionOutcome × Option ApprovalCase) :=
  .exec (fun t => (t.select proposalId, t)) fun current =>
    match current.head? with
    | none => .ret (.notFound, none)
    | some existing => .ret (.alreadyDecided, some (rowToCase existing))

def decide (proposalId : String) (approved : Bool) (decidedBy note : String) (clock : Nat) :
    Program Table StoreError (DecisionOutcome × Option ApprovalCase) :=
  .exec (updatePending dialect proposalId approved decidedBy note clock) fun decided =>
    match decided.head? with
    | some row => .ret (.recorded, some (rowToCase row))
    | none => readDecided proposalId

def recordExecution (proposalId : String) (succeeded : Bool) (result : Dict) (clock : Nat) :
    Program Table StoreError (Option ApprovalCase) :=
  .exec (updateExecution dialect proposalId succeeded result clock) fun updated =>
    .ret (updated.head?.map rowToCase)

end DatabaseCaseStore

/-- Durable store over the table, for values its columns take as they are. -/
def databaseCaseStore (dialect : Dialect) : CaseStore where
  State := Table
  empty := ⟨[], List.nodup_nil⟩
  openCase := DatabaseCaseStore.openCase dialect
  get := DatabaseCaseStore.get
  listByStatus := DatabaseCaseStore.listByStatus
  decide := DatabaseCaseStore.decide dialect
  recordExecution := DatabaseCaseStore.recordExecution dialect

/-- The durable store when a database is configured, else the one in memory. -/
def buildCaseStore (database : Option Dialect) : CaseStore :=
  match database with
  | some dialect => databaseCaseStore dialect
  | none => inMemoryCaseStore

end AgentCluster.Cluster
