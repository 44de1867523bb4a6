import AgentCluster.Python.Json

/-!
# Approval cases

The record of one approval and the operations on it that need no store: the view the API exposes,
and the changes a decision and an execution make. Every backend performs these two changes, and
only these two, on a row it holds.
-/

set_option autoImplicit false

namespace AgentCluster.Cluster

open Python

/-- The states of a case. -/
inductive Status where
  | pending
  | approved
  | rejected
  | executed
  | failed
  deriving DecidableEq, Repr

/-- The string stored for a status. -/
def Status.toString : Status → String
  | pending => "pending"
  | approved => "approved"
  | rejected => "rejected"
  | executed => "executed"
  | failed => "failed"

/-- States from which no further transition is allowed. -/
def Status.terminal : Status → Bool
  | rejected => true
  | executed => true
  | failed => true
  | _ => false

/-! ## Timestamps -/

/-- A `datetime`: microseconds since the year 1 began, on a clock that is UTC or unnamed. The program
meets no other time zone. -/
structure DateTime where
  micros : Nat
  utc : Bool
  deriving DecidableEq, Repr

namespace DateTime

/-- `datetime.now(UTC)` at the given clock reading. -/
def now (clock : Nat) : DateTime := ⟨clock, true⟩

/-- Days before each month of a common year, from January. -/
def daysBeforeMonth : List Nat := [0, 31, 59, 90, 120, 151, 181, 212, 243, 273, 304, 334]

/-- The date of a day counted from 1 January of the year 1. -/
def civil (day : Nat) : Nat × Nat × Nat :=
  let (n400, n) := (day / 146097, day % 146097)
  let (n100, n) := (n / 36524, n % 36524)
  let (n4, n) := (n / 1461, n % 1461)
  let (n1, n) := (n / 365, n % 365)
  let year := n400 * 400 + 1 + n100 * 100 + n4 * 4 + n1
  if n1 = 4 ∨ n100 = 4 then (year - 1, 12, 31)
  else
    let leap := n1 = 3 ∧ (n4 ≠ 24 ∨ n100 = 3)
    let before (m : Nat) : Nat := daysBeforeMonth.getD m 0 + if 1 < m ∧ leap then 1 else 0
    let month := ((List.range 12).filter fun m => before m ≤ n).length - 1
    (year, month + 1, n - before month + 1)

/-- A number with leading zeros. -/
def padded (width n : Nat) : String :=
  let ds := Nat.toDigits 10 n
  String.ofList (List.replicate (width - ds.length) '0' ++ ds)

/-- `t.isoformat(timespec="seconds")`. -/
def isoformat (t : DateTime) : String :=
  let seconds := t.micros / 1000000
  let (year, month, day) := civil (seconds / 86400)
  padded 4 year ++ "-" ++ padded 2 month ++ "-" ++ padded 2 day ++ "T" ++
    padded 2 (seconds / 3600 % 24) ++ ":" ++ padded 2 (seconds / 60 % 60) ++ ":" ++
    padded 2 (seconds % 60) ++ if t.utc then "+00:00" else ""

end DateTime

/-! ## Cases -/

/-- A proposed action awaiting, or having received, a human decision. -/
structure ApprovalCase where
  caseId : String
  proposalId : String
  agent : String
  action : String
  summary : String
  proposal : Dict := []
  status : Status := .pending
  sessionId : String := ""
  decidedBy : String := ""
  note : String := ""
  result : Option Dict := none
  createdAt : DateTime
  decidedAt : Option DateTime := none
  executedAt : Option DateTime := none

namespace ApprovalCase

def stamp : Option DateTime → Value
  | none => .none
  | some t => .str t.isoformat

/-- `public()`, the JSON-safe view of a case. -/
def publicView (c : ApprovalCase) : Dict :=
  [("proposal_id", .str c.proposalId), ("case_id", .str c.caseId), ("agent", .str c.agent),
   ("action", .str c.action), ("summary", .str c.summary), ("proposal", .dict c.proposal),
   ("status", .str c.status.toString), ("session_id", .str c.sessionId),
   ("decided_by", .str c.decidedBy), ("note", .str c.note),
   ("result", (c.result.map Value.dict).getD .none), ("created_at", stamp (some c.createdAt)),
   ("decided_at", stamp c.decidedAt), ("executed_at", stamp c.executedAt)]

/-- The four assignments a decision makes. -/
def decided (c : ApprovalCase) (approved : Bool) (decidedBy note : String) (now : DateTime) :
    ApprovalCase :=
  { c with
    status := if approved then .approved else .rejected
    decidedBy := decidedBy
    note := note
    decidedAt := some now }

/-- The three assignments that record an execution. -/
def closed (c : ApprovalCase) (succeeded : Bool) (result : Dict) (now : DateTime) : ApprovalCase :=
  { c with
    status := if succeeded then .executed else .failed
    result := some result
    executedAt := some now }

end ApprovalCase

end AgentCluster.Cluster
