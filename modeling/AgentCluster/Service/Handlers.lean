import AgentCluster.Cluster.CaseStore
import AgentCluster.Cluster.Wire

/-!
# The request handlers

The two endpoints that change cases, `POST /cases/run` and `POST /cases/{proposal_id}`, cut at their
awaits: what a request carries, what a turn collects, and how a handler goes on from what the store
or the turn gave it.
-/

set_option autoImplicit false

namespace AgentCluster.Service

open Python Adk Cluster

/-! ## Requests and responses -/

/-- Start (or continue) a conversation that may raise an approval. -/
structure CaseRun where
  text : String
  sessionId : Option String := none
  userId : String := "case-user"
  deriving DecidableEq

/-- A human's decision on a pending case. -/
structure CaseDecision where
  approved : Bool := true
  note : String := ""
  decidedBy : String := ""
  deriving DecidableEq

/-- A request. The id of a session the service has to name is an input. -/
inductive Request where
  | run (req : CaseRun) (newSessionId : String)
  | decide (proposalId : String) (decision : CaseDecision) (userId : String)
  deriving DecidableEq

/-- A JSON body, or an HTTP error. -/
inductive Response where
  | ok (body : Dict)
  | error (statusCode : Nat) (detail : String)

/-- `req.session_id or f"case-..."`. -/
def sessionOf (req : CaseRun) (newSessionId : String) : String :=
  match req.sessionId with
  | some sessionId => if sessionId ≠ "" then sessionId else newSessionId
  | none => newSessionId

/-! ## Turns -/

/-- What one conversational turn produced. -/
structure TurnResult where
  trace : List String := []
  finalText : Option String := none
  texts : List String := []

section Turns

variable [UnicodeData]

/-- The loop body of `_run_turn`. -/
def TurnResult.add (turn : TurnResult) (event : Event) : TurnResult where
  trace := turn.trace ++ [summarise event]
  texts := turn.texts ++ replyTexts event
  finalText :=
    if event.isFinalResponse = true ∧ event.text ≠ "" then some event.text else turn.finalText

/-- A turn in which a peer answered with one JSON object. -/
def reported (d : Dict) : Event :=
  { author := "root", parts := [{ functionResponse := some ⟨"math", relayed d⟩ }] }

theorem texts_reported (d : Dict) : (TurnResult.add {} (reported d)).texts = unpack (relayed d) := by
  have htext : (reported d).text = "" := by
    show strip (join "" [""]) = ""
    decide +kernel
  show [] ++ ([FunctionResponse.mk "math" (relayed d)].flatMap _ ++ _) = _
  rw [if_neg (by rw [htext]; simp), List.append_nil, List.flatMap_singleton]
  rfl

end Turns

/-! ## Bodies -/

/-- The value of an optional text. -/
def optionalText (text : Option String) : Value := (text.map Value.str).getD .none

def traceValue (turn : TurnResult) : Value := .list (turn.trace.map Value.str)

/-- What `cases_run` answers. -/
def caseRunBody (sessionId userId : String) (turn : TurnResult) (opened : List Dict) : Dict :=
  [("status", .str (if opened ≠ [] then "awaiting_approval" else "completed")),
   ("session_id", .str sessionId), ("user_id", .str userId),
   ("final_text", optionalText turn.finalText), ("pending", .list (opened.map Value.dict)),
   ("trace", traceValue turn)]

/-- What `case_decide` answers without a turn. -/
def caseBody (status : String) (c : ApprovalCase) : Dict :=
  [("status", .str status), ("case", .dict c.publicView)]

/-- What `case_decide` answers after a turn. -/
def caseTurnBody (status : String) (c : ApprovalCase) (turn : TurnResult) : Dict :=
  caseBody status c ++
    [("final_text", optionalText turn.finalText), ("trace", traceValue turn)]

def unknownProposal : Response := .error 404 "unknown proposal_id"

/-! ## Handlers -/

/-- Where a handler is. A turn under way has collected some events. -/
inductive Phase where
  | running (sessionId userId : String) (turn : TurnResult)
  | opening (sessionId userId : String) (turn : TurnResult) (todo : List Dict) (opened : List Dict)
  | deciding (proposalId : String) (decision : CaseDecision)
  | executing (proposalId : String) (c : ApprovalCase) (turn : TurnResult)
  | reporting (proposalId : String) (c : ApprovalCase) (turn : TurnResult)
  | recording (proposalId : String) (c : ApprovalCase) (turn : TurnResult) (performed : Dict)
  | finished (response : Response)

/-- A request that is being handled. An aborted handler stays where it was. -/
structure Handler where
  request : Request
  phase : Phase
  aborted : Bool := false

/-- The first await of a handler. -/
def Request.start : Request → Phase
  | .run req newSessionId => .running (sessionOf req newSessionId) req.userId {}
  | .decide proposalId decision _ => .deciding proposalId decision

/-- The loop of `cases_run` over the proposals still to open. -/
def openNext (sessionId userId : String) (turn : TurnResult) (todo opened : List Dict) : Phase :=
  if todo = [] then .finished (.ok (caseRunBody sessionId userId turn opened))
  else .opening sessionId userId turn todo opened

/-- How `case_decide` goes on. -/
inductive AfterDecide where
  | notFound
  | rejected (c : ApprovalCase)
  | alreadyExecuted (c : ApprovalCase)
  | execute (c : ApprovalCase)

/-- The branches of `case_decide` after the decision: only the status of the case counts. -/
def afterDecide : DecisionOutcome → Option ApprovalCase → AfterDecide
  | .notFound, _ => .notFound
  | _, none => .notFound
  | _, some c =>
      if c.status = .rejected then .rejected c
      else if c.status = .executed ∨ c.status = .failed then .alreadyExecuted c
      else .execute c

/-- The text `case_decide` sends to the agent, if it goes on to a turn. -/
def AfterDecide.instruction : AfterDecide → Option String
  | .execute c => some (executionInstruction c)
  | _ => none

/-- The next await after a decision. -/
def AfterDecide.phase (proposalId : String) : AfterDecide → Phase
  | .notFound => .finished unknownProposal
  | .rejected c => .finished (.ok (caseBody "rejected" c))
  | .alreadyExecuted c => .finished (.ok (caseBody "already_executed" c))
  | .execute c => .executing proposalId c {}

/-- The next await after the execution turn. -/
def afterTurn (proposalId : String) (c : ApprovalCase) (turn : TurnResult) : Phase :=
  match findExecution turn.texts c.proposal with
  | none => .reporting proposalId c turn
  | some performed => .recording proposalId c turn performed

/-- The phases in which a handler holds no case. -/
def Phase.idle : Phase → Bool
  | .running .. => true
  | .opening .. => true
  | .finished .. => true
  | _ => false

theorem openNext_idle (sessionId userId : String) (turn : TurnResult) (todo opened : List Dict) :
    (openNext sessionId userId turn todo opened).idle = true := by
  unfold openNext
  split
  · rfl
  · rfl

theorem afterDecide_eq_execute {outcome : DecisionOutcome} {found : Option ApprovalCase}
    {c : ApprovalCase} (h : afterDecide outcome found = .execute c) :
    found = some c ∧ (c.status = .pending ∨ c.status = .approved) := by
  have hsome : ∀ c', (if c'.status = .rejected then AfterDecide.rejected c'
      else if c'.status = .executed ∨ c'.status = .failed then .alreadyExecuted c'
      else .execute c') = .execute c →
        some c' = some c ∧ (c.status = .pending ∨ c.status = .approved) := by
    intro c' hc'
    split_ifs at hc' with h1 h2
    cases hc'
    refine ⟨rfl, ?_⟩
    cases hs : c.status <;> simp_all
  cases outcome with
  | notFound => cases h
  | recorded =>
    cases found with
    | none => cases h
    | some c' => exact hsome c' h
  | alreadyDecided =>
    cases found with
    | none => cases h
    | some c' => exact hsome c' h

theorem afterDecide_of_approved {outcome : DecisionOutcome} (houtcome : outcome ≠ .notFound)
    {c : ApprovalCase} (h : c.status = .approved) :
    afterDecide outcome (some c) = .execute c := by
  have hbranch : (if c.status = .rejected then AfterDecide.rejected c
      else if c.status = .executed ∨ c.status = .failed then .alreadyExecuted c
      else .execute c) = .execute c := by
    rw [h]
    rfl
  cases outcome with
  | notFound => exact absurd rfl houtcome
  | recorded => exact hbranch
  | alreadyDecided => exact hbranch

/-- A closed case ends the handler. -/
theorem afterDecide_of_terminal (outcome : DecisionOutcome) {c : ApprovalCase}
    (h : c.status.terminal = true) (proposalId : String) :
    (∃ response, (afterDecide outcome (some c)).phase proposalId = .finished response) ∧
      (afterDecide outcome (some c)).instruction = none := by
  cases hafter : afterDecide outcome (some c) with
  | notFound => exact ⟨⟨_, rfl⟩, rfl⟩
  | rejected c' => exact ⟨⟨_, rfl⟩, rfl⟩
  | alreadyExecuted c' => exact ⟨⟨_, rfl⟩, rfl⟩
  | execute c' =>
    obtain ⟨heq, hstatus⟩ := afterDecide_eq_execute hafter
    cases heq
    rcases hstatus with hstatus | hstatus <;> rw [hstatus] at h <;> cases h

end AgentCluster.Service
