import AgentCluster.Agents.MathTools
import AgentCluster.Service.Handlers

/-!
# The approval service

Any number of requests over one case store and one list of publications. A step is the end of one
await of one handler, a call of `publish_result` inside a turn, a new request, or the loss of a
request. Each call of the store is one step, and so is the end of a turn; what a turn brings is up to
the environment, one event at a time. The log keeps what happened, in order.
-/

set_option autoImplicit false

namespace AgentCluster.Service

open Python Library Adk Cluster Agents

/-! ## The store -/

/-- The methods of a store that handlers await, each as one step. -/
structure AtomicStore where
  State : Type
  empty : State
  openCase : ApprovalCase → State → Except StoreError Bool × State
  get : String → State → Except StoreError (Option ApprovalCase) × State
  decide : String → Bool → String → String → Nat → State →
    Except StoreError (DecisionOutcome × Option ApprovalCase) × State
  recordExecution : String → Bool → Dict → Nat → State →
    Except StoreError (Option ApprovalCase) × State

/-- A store whose methods run with nothing in between. -/
@[reducible]
def atomic (S : CaseStore) : AtomicStore where
  State := S.State
  empty := S.empty
  openCase c := (S.openCase c).run
  get proposalId := (S.get proposalId).run
  decide proposalId approved decidedBy note clock :=
    (S.decide proposalId approved decidedBy note clock).run
  recordExecution proposalId succeeded result clock :=
    (S.recordExecution proposalId succeeded result clock).run

/-! ## Steps -/

/-- What happened. The first number is the handler. -/
inductive Entry where
  | opened (h : Nat) (c : ApprovalCase)
  | decided (h : Nat) (proposalId : String) (decision : CaseDecision) (outcome : DecisionOutcome)
      (c : Option ApprovalCase)
  | started (h : Nat) (proposalId instruction : String)
  | emitted (h : Nat) (event : Event)
  | called (h : Nat) (result : Dict) (record : Option Publication)
  | turned (h : Nat) (proposalId : String) (texts : List String) (performed : Option Dict)
  | recorded (h : Nat) (proposalId : String) (result : Dict)

/-- The state of the service. A handler is known by its position. -/
structure System (State : Type) where
  store : State
  handlers : List Handler
  publications : List Publication
  log : List Entry

/-- The service before the first request. -/
def initial (S : AtomicStore) : System S.State := ⟨S.empty, [], [], []⟩

/-- What ends an await: an event of the turn, the end of the turn, or the answer of the store. The
random proposal id and the clock reading of a method are inputs. -/
inductive Resume where
  | event (event : Event)
  | turnEnd
  | openCase (newProposalId : String) (clock : Nat)
  | decide (clock : Nat)
  | get
  | recordExecution (clock : Nat)

inductive Action where
  | request (request : Request)
  | resume (h : Nat) (what : Resume)
  | publish (h : Nat) (value label approvedBy note : String)
  | abort (h : Nat)

def serverError : Response := .error 500 "Internal Server Error"

/-- The handler is in a turn: the agents are at work. -/
def Phase.inTurn : Phase → Bool
  | .running .. => true
  | .executing .. => true
  | _ => false

/-- A handler goes on with the answer of a method of the store. An exception ends it. -/
def answered {State α : Type} (p : Except StoreError α × State) (k : α → Phase × List Entry) :
    Phase × State × List Entry :=
  match p with
  | (.ok a, s) => ((k a).1, s, (k a).2)
  | (.error _, s) => (.finished serverError, s, [])

section Step

variable [UnicodeData] (S : AtomicStore)

/-- A handler goes on to its next await. -/
def resume (h : Nat) (s : S.State) : Phase → Resume → Option (Phase × S.State × List Entry)
  | .running sessionId userId turn, .event event =>
      some (.running sessionId userId (turn.add event), s, [.emitted h event])
  | .running sessionId userId turn, .turnEnd =>
      some (openNext sessionId userId turn (findProposals turn.texts) [], s, [])
  | .opening sessionId userId turn (found :: todo) opened, .openCase newProposalId clock =>
      let c := caseFromProposal found sessionId sessionId "" newProposalId clock
      some <| answered (S.openCase c s) fun recorded =>
        if recorded then
          (openNext sessionId userId turn todo (opened ++ [c.publicView]), [.opened h c])
        else (openNext sessionId userId turn todo opened, [])
  | .deciding proposalId decision, .decide clock =>
      some <| answered
        (S.decide proposalId decision.approved decision.decidedBy decision.note clock s) fun p =>
          let next := afterDecide p.1 p.2
          (next.phase proposalId,
            .decided h proposalId decision p.1 p.2 ::
              (next.instruction.map (.started h proposalId)).toList)
  | .executing proposalId c turn, .event event =>
      some (.executing proposalId c (turn.add event), s, [.emitted h event])
  | .executing proposalId c turn, .turnEnd =>
      some (afterTurn proposalId c turn, s,
        [.turned h proposalId turn.texts (findExecution turn.texts c.proposal)])
  | .reporting proposalId c turn, .get =>
      some <| answered (S.get proposalId s) fun found =>
        (.finished (.ok (caseTurnBody "approved_not_confirmed" (found.getD c) turn)), [])
  | .recording proposalId c turn performed, .recordExecution clock =>
      some <| answered (S.recordExecution proposalId true performed clock s) fun updated =>
        (.finished (.ok (caseTurnBody "executed" (updated.getD c) turn)),
          [.recorded h proposalId performed])
  | _, _ => none

/-- A call of `publish_result` while handler `h` is in its turn. The specialist is another process: it
works on when the request is lost. -/
def publish (σ : System S.State) (h : Nat) (value label approvedBy note : String) :
    System S.State :=
  let p := publishResult σ.publications value label approvedBy note
  { σ with
    publications := p.2
    log := σ.log ++ [.called h p.1 p.2[σ.publications.length]?] }

/-- One step of the service. -/
def step (σ : System S.State) : Action → Option (System S.State)
  | .request request =>
      some { σ with handlers := σ.handlers ++ [{ request := request, phase := request.start }] }
  | .resume h what =>
      σ.handlers[h]?.bind fun handler =>
        if handler.aborted then none
        else
          (resume S h σ.store handler.phase what).map fun p =>
            { σ with
              store := p.2.1
              handlers := σ.handlers.set h { handler with phase := p.1 }
              log := σ.log ++ p.2.2 }
  | .publish h value label approvedBy note =>
      σ.handlers[h]?.bind fun handler =>
        if handler.phase.inTurn then some (publish S σ h value label approvedBy note) else none
  | .abort h =>
      σ.handlers[h]?.map fun handler =>
        { σ with handlers := σ.handlers.set h { handler with aborted := true } }

/-- The service after a list of actions. -/
def run (actions : List Action) : Option (System S.State) :=
  Machine.run (step S) (initial S) actions

section Equations

variable {S} {σ : System S.State} {h : Nat} {s : S.State}

theorem step_resume {handler : Handler} {what : Resume} {next : Phase} {entries : List Entry}
    (hhandler : σ.handlers[h]? = some handler) (hlive : handler.aborted = false)
    (hresume : resume S h σ.store handler.phase what = some (next, s, entries)) :
    step S σ (.resume h what) =
      some
        { σ with
          store := s
          handlers := σ.handlers.set h { handler with phase := next }
          log := σ.log ++ entries } := by
  rw [step, hhandler, Option.bind_some, if_neg (by rw [hlive]; exact Bool.noConfusion), hresume]
  rfl

theorem resume_of_step {τ : System S.State} {what : Resume}
    (hstep : step S σ (.resume h what) = some τ) :
    ∃ handler p, σ.handlers[h]? = some handler ∧ handler.aborted = false ∧
      resume S h σ.store handler.phase what = some p ∧
      τ =
        { σ with
          store := p.2.1
          handlers := σ.handlers.set h { handler with phase := p.1 }
          log := σ.log ++ p.2.2 } := by
  obtain ⟨handler, hhandler, hstep⟩ := Option.bind_eq_some_iff.1 hstep
  by_cases hlive : handler.aborted = true
  · rw [if_pos hlive] at hstep
    cases hstep
  · rw [if_neg hlive] at hstep
    obtain ⟨p, hp, rfl⟩ := Option.map_eq_some_iff.1 hstep
    exact ⟨handler, p, hhandler, Bool.eq_false_iff.2 hlive, hp, rfl⟩

theorem resume_ran {sessionId userId : String} {turn : TurnResult} {found : List Dict}
    (hfound : findProposals turn.texts = found) :
    resume S h s (.running sessionId userId turn) .turnEnd =
      some (openNext sessionId userId turn found [], s, []) := by
  rw [resume, hfound]

theorem resume_confirmed {proposalId : String} {c : ApprovalCase} {turn : TurnResult}
    {performed : Dict} (hperformed : findExecution turn.texts c.proposal = some performed) :
    resume S h s (.executing proposalId c turn) .turnEnd =
      some (.recording proposalId c turn performed, s,
        [.turned h proposalId turn.texts (some performed)]) := by
  rw [resume, afterTurn, hperformed]

end Equations

end Step

end AgentCluster.Service
