import AgentCluster.Cluster.Sequential

/-!
# What the columns take

The columns of `approval_cases` have types: a text has a length limit (`String(32)`, `String(128)`,
`String(256)`) or none (`Text`), and a JSON column gives back what it made of a dict, on PostgreSQL
with the members in another order. `columnCaseStore` is the durable store over such columns. Where
every value of a call is taken, the call is that of `databaseCaseStore` on what the columns hold
(`program_held`).
-/

set_option autoImplicit false

namespace AgentCluster.Cluster

open Python Library

/-- What a database makes of the values it is given. Nothing is a value that is refused. -/
structure Columns where
  /-- The text a column of at most so many characters holds. Without a limit it is also the text a
  parameter of a statement carries. -/
  text : Option Nat → String → Option String
  /-- What a JSON column gives back of a dict. -/
  json : Dict → Option Dict
  /-- What a column holds as it is, a parameter carries as it is. -/
  parameter : ∀ {limit : Option Nat} {s : String}, text limit s = some s → text none s = some s

namespace Columns

variable (columns : Columns)

/-- The columns an `INSERT` writes. The names of the states fit their column, `String(16)`. -/
def row (c : ApprovalCase) : Option CaseRow := do
  let proposalId ← columns.text (some 32) c.proposalId
  let caseId ← columns.text (some 128) c.caseId
  let agent ← columns.text (some 128) c.agent
  let action ← columns.text (some 128) c.action
  let summary ← columns.text none c.summary
  let proposal ← columns.json c.proposal
  let sessionId ← columns.text (some 128) c.sessionId
  let decidedBy ← columns.text (some 256) c.decidedBy
  let note ← columns.text none c.note
  return { c with
    proposalId := proposalId, caseId := caseId, agent := agent, action := action
    summary := summary, proposal := proposal, sessionId := sessionId, decidedBy := decidedBy
    note := note }

/-- The parameters of the `UPDATE` of `decide`, the name as its column takes it: nothing if it is too
long there. -/
def decision (proposalId decidedBy note : String) : Option (String × Option String × String) := do
  let proposalId ← columns.text none proposalId
  let decidedBy ← columns.text none decidedBy
  let note ← columns.text none note
  return (proposalId, columns.text (some 256) decidedBy, note)

/-- The parameters of the `UPDATE` of `record_execution`. -/
def execution (proposalId : String) (result : Dict) : Option (String × Dict) := do
  let proposalId ← columns.text none proposalId
  let result ← columns.json result
  return (proposalId, result)

/-- Columns that do as those of PostgreSQL. A text that is too long or holds a NUL is refused; `JSONB`
puts shorter keys first and orders keys of one length, here for objects without others in them. -/
def jsonb : Columns where
  text limit s :=
    if s.toList.contains (Char.ofNat 0) || limit.any fun n => n < s.length then none else some s
  json d := some <| d.insertionSort fun a b =>
    a.1.utf8ByteSize < b.1.utf8ByteSize ∨ a.1.utf8ByteSize = b.1.utf8ByteSize ∧ a.1 ≤ b.1
  parameter {limit s} h := by
    have hnul : Char.ofNat 0 ∉ s.toList := by
      simp at h
      exact h.1
    simpa using hnul

theorem jsonb_text_long {n : Nat} {s : String} (h : n < s.length) : jsonb.text (some n) s = none := by
  simp [jsonb, h]

theorem jsonb_text_none {s t : String} (h : jsonb.text none s = some t) : s = t := by
  simp [jsonb] at h
  exact h.2

end Columns

namespace ColumnCaseStore

/-- A statement the database does not take. The transaction fails with it. -/
def refused {α : Type} : Program Table StoreError α := .exec (fun t => ((), t)) fun _ => .raise .dataError

/-- A statement with its parameters. -/
def statement {ν β α : Type} (parameters : Option ν) (f : ν → Table → β × Table)
    (k : β → Program Table StoreError α) : Program Table StoreError α :=
  match parameters with
  | some v => .exec (f v) k
  | none => refused

variable (columns : Columns) (dialect : Dialect)

def openCase (c : ApprovalCase) : Program Table StoreError Bool :=
  statement (columns.text none c.proposalId) (fun proposalId t => (t.select proposalId, t))
    fun existing =>
      if existing.head?.isSome then .ret false
      else
        statement (columns.row c) (fun row t => t.insert (DatabaseCaseStore.newRow dialect row))
          fun inserted => if inserted then .ret true else .raise .integrityError

def get (proposalId : String) : Program Table StoreError (Option ApprovalCase) :=
  statement (columns.text none proposalId) (fun proposalId t => (t.select proposalId, t))
    fun rows => .ret (rows.head?.map DatabaseCaseStore.rowToCase)

def listByStatus (status : String) : Program Table StoreError (List ApprovalCase) :=
  statement (columns.text none status)
    (fun status t => (oldestFirst (t.rows.filter fun row => row.status.toString = status), t))
    fun rows => .ret (rows.map DatabaseCaseStore.rowToCase)

/-- The second statement of `decide`. -/
def readDecided (proposalId : String) :
    Program Table StoreError (DecisionOutcome × Option ApprovalCase) :=
  statement (columns.text none proposalId) (fun proposalId t => (t.select proposalId, t))
    fun current =>
      match current.head? with
      | none => .ret (.notFound, none)
      | some existing => .ret (.alreadyDecided, some (DatabaseCaseStore.rowToCase existing))

/-- A name that is too long for its column fails the `UPDATE` where there is a row to write; elsewhere
nothing is updated. -/
def decide (proposalId : String) (approved : Bool) (decidedBy note : String) (clock : Nat) :
    Program Table StoreError (DecisionOutcome × Option ApprovalCase) :=
  match columns.decision proposalId decidedBy note with
  | none => refused
  | some (pid, some decidedBy, note) =>
      .exec (DatabaseCaseStore.updatePending dialect pid approved decidedBy note clock) fun decided =>
        match decided.head? with
        | some row => .ret (.recorded, some (DatabaseCaseStore.rowToCase row))
        | none => readDecided columns proposalId
  | some (pid, none, _) =>
      .exec (fun t => ((t.select pid).any fun row => row.status = .pending, t)) fun pending =>
        if pending then refused else readDecided columns proposalId

def recordExecution (proposalId : String) (succeeded : Bool) (result : Dict) (clock : Nat) :
    Program Table StoreError (Option ApprovalCase) :=
  statement (columns.execution proposalId result)
    (fun v => DatabaseCaseStore.updateExecution dialect v.1 succeeded v.2 clock) fun updated =>
      .ret (updated.head?.map DatabaseCaseStore.rowToCase)

end ColumnCaseStore

/-- Durable store over a table with these columns. -/
def columnCaseStore (columns : Columns) (dialect : Dialect) : CaseStore where
  State := Table
  empty := ⟨[], List.nodup_nil⟩
  openCase := ColumnCaseStore.openCase columns dialect
  get := ColumnCaseStore.get columns
  listByStatus := ColumnCaseStore.listByStatus columns
  decide := ColumnCaseStore.decide columns dialect
  recordExecution := ColumnCaseStore.recordExecution columns dialect

/-- The store of a process: over its table, or the one in memory. -/
def buildColumnStore (database : Option (Columns × Dialect)) : CaseStore :=
  match database with
  | some (columns, dialect) => columnCaseStore columns dialect
  | none => inMemoryCaseStore

/-! ## Values that are taken -/

/-- The two JSON objects are equal in Python. -/
def SameDict (d e : Dict) : Prop := (Value.dict d).pyEq (.dict e) = true

namespace Columns

variable (columns : Columns)

/-- The text is held as it is. -/
def TakesText (limit : Option Nat) (s : String) : Prop := columns.text limit s = some s

/-- The dict is given back as an equal one. -/
def TakesDict (d : Dict) : Prop := ∃ e, columns.json d = some e ∧ SameDict d e

/-- Every column takes its value of the case. -/
structure TakesCase (c : ApprovalCase) : Prop where
  proposalId : columns.TakesText (some 32) c.proposalId
  caseId : columns.TakesText (some 128) c.caseId
  agent : columns.TakesText (some 128) c.agent
  action : columns.TakesText (some 128) c.action
  summary : columns.TakesText none c.summary
  proposal : columns.TakesDict c.proposal
  sessionId : columns.TakesText (some 128) c.sessionId
  decidedBy : columns.TakesText (some 256) c.decidedBy
  note : columns.TakesText none c.note

/-- Every value of the call is within what the columns take. -/
def Takes : Call → Prop
  | .openCase c => columns.TakesCase c
  | .get proposalId => columns.TakesText none proposalId
  | .decide proposalId _ decidedBy note _ =>
      columns.TakesText none proposalId ∧ columns.TakesText (some 256) decidedBy ∧
        columns.TakesText none note
  | .recordExecution proposalId _ result _ =>
      columns.TakesText none proposalId ∧ columns.TakesDict result

/-- The dict a JSON column holds. -/
def heldDict (d : Dict) : Dict := (columns.json d).getD d

/-- The call with what the columns hold of its values. -/
def held : Call → Call
  | .openCase c => .openCase { c with proposal := columns.heldDict c.proposal }
  | .get proposalId => .get proposalId
  | .decide proposalId approved decidedBy note clock =>
      .decide proposalId approved decidedBy note clock
  | .recordExecution proposalId succeeded result clock =>
      .recordExecution proposalId succeeded (columns.heldDict result) clock

variable {columns}

theorem json_heldDict {d : Dict} (h : columns.TakesDict d) :
    columns.json d = some (columns.heldDict d) := by
  obtain ⟨e, he, -⟩ := h
  rw [heldDict, he]
  rfl

theorem sameDict_heldDict {d : Dict} (h : columns.TakesDict d) :
    SameDict d (columns.heldDict d) := by
  obtain ⟨e, he, hsame⟩ := h
  rw [heldDict, he]
  exact hsame

theorem row_held {c : ApprovalCase} (h : columns.TakesCase c) :
    columns.row c = some { c with proposal := columns.heldDict c.proposal } := by
  rw [row, h.proposalId, h.caseId, h.agent, h.action, h.summary, json_heldDict h.proposal,
    h.sessionId, h.decidedBy, h.note]
  rfl

theorem decision_held {proposalId decidedBy note : String}
    (hid : columns.TakesText none proposalId) (hby : columns.TakesText (some 256) decidedBy)
    (hnote : columns.TakesText none note) :
    columns.decision proposalId decidedBy note = some (proposalId, some decidedBy, note) := by
  have hcarried : columns.text none decidedBy = some decidedBy := columns.parameter hby
  have hheld : columns.text (some 256) decidedBy = some decidedBy := hby
  rw [decision, hid, hcarried, hnote]
  show some (proposalId, columns.text (some 256) decidedBy, note) = _
  rw [hheld]

theorem execution_held {proposalId : String} {result : Dict}
    (hid : columns.TakesText none proposalId) (hresult : columns.TakesDict result) :
    columns.execution proposalId result = some (proposalId, columns.heldDict result) := by
  rw [execution, hid, json_heldDict hresult]
  rfl

section Methods

variable (dialect : Dialect)

theorem openCase_held {c : ApprovalCase} (h : columns.TakesCase c) :
    ColumnCaseStore.openCase columns dialect c =
      DatabaseCaseStore.openCase dialect { c with proposal := columns.heldDict c.proposal } := by
  have hcarried : columns.text none c.proposalId = some c.proposalId := columns.parameter h.proposalId
  rw [ColumnCaseStore.openCase, hcarried, row_held h]
  rfl

theorem get_held {proposalId : String} (h : columns.TakesText none proposalId) :
    ColumnCaseStore.get columns proposalId = DatabaseCaseStore.get proposalId := by
  rw [ColumnCaseStore.get, h]
  rfl

theorem listByStatus_held {status : String} (h : columns.TakesText none status) :
    ColumnCaseStore.listByStatus columns status = DatabaseCaseStore.listByStatus status := by
  rw [ColumnCaseStore.listByStatus, h]
  rfl

theorem readDecided_held {proposalId : String} (h : columns.TakesText none proposalId) :
    ColumnCaseStore.readDecided columns proposalId = DatabaseCaseStore.readDecided proposalId := by
  rw [ColumnCaseStore.readDecided, h]
  rfl

theorem decide_held {proposalId decidedBy note : String}
    (hid : columns.TakesText none proposalId) (hby : columns.TakesText (some 256) decidedBy)
    (hnote : columns.TakesText none note) (approved : Bool) (clock : Nat) :
    ColumnCaseStore.decide columns dialect proposalId approved decidedBy note clock =
      DatabaseCaseStore.decide dialect proposalId approved decidedBy note clock := by
  rw [ColumnCaseStore.decide, decision_held hid hby hnote, readDecided_held hid]
  rfl

theorem recordExecution_held {proposalId : String} {result : Dict}
    (hid : columns.TakesText none proposalId) (hresult : columns.TakesDict result)
    (succeeded : Bool) (clock : Nat) :
    ColumnCaseStore.recordExecution columns dialect proposalId succeeded result clock =
      DatabaseCaseStore.recordExecution dialect proposalId succeeded (columns.heldDict result)
        clock := by
  rw [ColumnCaseStore.recordExecution, execution_held hid hresult]
  rfl

/-- The call of the store is that of `databaseCaseStore` on what the columns hold. -/
theorem program_held {call : Call} (h : columns.Takes call) :
    (columnCaseStore columns dialect).program call =
      (databaseCaseStore dialect).program (columns.held call) := by
  cases call with
  | openCase c =>
    exact congrArg (Program.map Answer.opened) (openCase_held dialect h)
  | get proposalId => exact congrArg (Program.map Answer.found) (get_held h)
  | decide proposalId approved decidedBy note clock =>
    obtain ⟨hid, hby, hnote⟩ := h
    exact congrArg (Program.map _) (decide_held dialect hid hby hnote approved clock)
  | recordExecution proposalId succeeded result clock =>
    obtain ⟨hid, hresult⟩ := h
    exact congrArg (Program.map _) (recordExecution_held dialect hid hresult succeeded clock)

end Methods

/-- A decision on a pending case by a name that is too long fails. -/
theorem decide_refused {proposalId decidedBy : String} (hid : columns.TakesText none proposalId)
    (h : ∀ s, columns.text none decidedBy = some s → columns.text (some 256) s = none)
    (dialect : Dialect) (approved : Bool) (note : String) (clock : Nat) {t : Table}
    (hpending : (t.select proposalId).any (fun row => row.status = .pending) = true) :
    ((columnCaseStore columns dialect).program
      (.decide proposalId approved decidedBy note clock)).run t = (.error .dataError, t) := by
  have hid : columns.text none proposalId = some proposalId := hid
  have hrun : (ColumnCaseStore.decide columns dialect proposalId approved decidedBy note clock).run t =
      (.error .dataError, t) := by
    rw [ColumnCaseStore.decide, decision, hid]
    cases hby : columns.text none decidedBy with
    | none => rfl
    | some carried =>
      cases hnote : columns.text none note with
      | none => rfl
      | some note' =>
        simp only [Option.bind_eq_bind, Option.bind_some, h carried hby, Option.pure_def]
        rw [Program.run_exec, hpending]
        rfl
  show ((ColumnCaseStore.decide columns dialect proposalId approved decidedBy note clock).map
    _).run t = _
  rw [Program.run_map, hrun]
  rfl

end Columns

end AgentCluster.Cluster
