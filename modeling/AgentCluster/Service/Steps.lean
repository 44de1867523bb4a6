import AgentCluster.Cluster.Registry
import AgentCluster.Service.System

/-!
# The service over a registry

Whichever backend the service runs on, it takes the steps of the service over the registry the store
stands for (`step_abstract`, `run_abstract`). What a step of that service can do is said once, by
`Move` for one handler and by `Step` for the system; every invariant is proved by cases on these.
-/

set_option autoImplicit false

namespace AgentCluster.Service

open Python Library Adk Cluster Agents

/-- A registry as a store. -/
@[reducible]
def registryStore (stored : ApprovalCase → ApprovalCase) : AtomicStore where
  State := Registry
  empty := fun _ => none
  openCase c r :=
    let p := r.openCase c.proposalId (stored c)
    (.ok p.1, p.2)
  get proposalId r := (.ok (r proposalId), r)
  decide proposalId approved decidedBy note clock r :=
    let p := r.decide proposalId approved decidedBy note clock
    (.ok p.1, p.2)
  recordExecution proposalId succeeded result clock r :=
    let p := r.recordExecution proposalId succeeded result clock
    (.ok p.1, p.2)

/-- The service over the registry its store stands for. -/
def System.abstract (S : CaseStore) (σ : System S.State) : System Registry where
  store := S.find σ.store
  handlers := σ.handlers
  publications := σ.publications
  log := σ.log

section Abstraction

variable [UnicodeData] {S : CaseStore} {stored : ApprovalCase → ApprovalCase}
  (hS : S.Implements stored)

include hS

/-- The handlers do the same over both stores. -/
theorem resume_abstract (h : Nat) (s : S.State) (phase : Phase) (what : Resume) :
    (resume (atomic S) h s phase what).map (fun p => (p.1, S.find p.2.1, p.2.2)) =
      resume (registryStore stored) h (S.find s) phase what := by
  -- Phase by phase: the store is used in four of them, each time for one call.
  cases phase with
  | running sessionId userId turn => cases what <;> rfl
  | opening sessionId userId turn todo opened =>
    cases todo with
    | nil => cases what <;> rfl
    | cons found todo =>
      cases what with
      | openCase newProposalId clock =>
        -- The call over the store shows the registry's call.
        obtain ⟨s', hrun, hfind⟩ :=
          hS.openCase_run (caseFromProposal found sessionId sessionId "" newProposalId clock) s
        simp only [resume, atomic, registryStore, hrun, answered, Option.map_some, hfind]
      | _ => rfl
  | deciding proposalId decision =>
    cases what with
    | decide clock =>
      obtain ⟨s', hrun, hfind⟩ :=
        hS.decide_run proposalId decision.approved decision.decidedBy decision.note clock s
      simp only [resume, atomic, registryStore, hrun, answered, Option.map_some, hfind]
    | _ => rfl
  | executing proposalId c turn => cases what <;> rfl
  | reporting proposalId c turn =>
    cases what with
    | get => simp only [resume, atomic, registryStore, hS.get_run, answered, Option.map_some]
    | _ => rfl
  | recording proposalId c turn performed =>
    cases what with
    | recordExecution clock =>
      obtain ⟨s', hrun, hfind⟩ := hS.recordExecution_run proposalId true performed clock s
      simp only [resume, atomic, registryStore, hrun, answered, Option.map_some, hfind]
    | _ => rfl
  | finished response => cases what <;> rfl

/-- A step of the service is a step of the service over the registry. -/
theorem step_abstract (σ : System S.State) (a : Action) :
    (step (atomic S) σ a).map (System.abstract S) =
      step (registryStore stored) (σ.abstract S) a := by
  obtain ⟨s, handlers, publications, log⟩ := σ
  -- The log, the handlers and the publications are the same on both sides.
  cases a with
  | request request => rfl
  | resume h what =>
    simp only [step, System.abstract]
    cases handlers[h]? with
    | none => rfl
    | some handler =>
      simp only [Option.bind_some]
      cases handler.aborted with
      | true => rfl
      | false =>
        have hresume := resume_abstract hS h s handler.phase what
        simp only [Bool.false_eq_true, if_false, ← hresume, Option.map_map]
        rfl
  | publish h value label approvedBy note =>
    simp only [step, System.abstract]
    cases handlers[h]? with
    | none => rfl
    | some handler =>
      simp only [Option.bind_some]
      cases handler.phase.inTurn <;> rfl
  | abort h =>
    simp only [step, System.abstract, Option.map_map]
    rfl

omit [UnicodeData] in
theorem initial_abstract : (initial (atomic S)).abstract S = initial (registryStore stored) := by
  simp only [System.abstract, initial, registryStore, atomic, System.mk.injEq, and_true]
  funext proposalId
  exact hS.find_empty proposalId

/-- A run of the service is a run of the service over the registry. -/
theorem run_abstract {actions : List Action} {σ : System S.State}
    (hrun : run (atomic S) actions = some σ) :
    run (registryStore stored) actions = some (σ.abstract S) := by
  have hmap := Machine.run_map (step_abstract hS) (initial (atomic S)) actions
  rw [run] at hrun
  rw [hrun, initial_abstract hS] at hmap
  exact hmap.symm

/-- A condition on the steps of a run, said of the registry. -/
theorem along_abstract {C : System Registry → Action → Prop} (actions : List Action) :
    Machine.Along (step (atomic S)) (fun σ a => C (σ.abstract S) a) (initial (atomic S)) actions ↔
      Machine.Along (step (registryStore stored)) C (initial (registryStore stored)) actions := by
  have hC (σ : System S.State) (a : Action) : C (σ.abstract S) a ↔ C (σ.abstract S) a := Iff.rfl
  rw [← initial_abstract hS]
  exact Machine.along_map (step_abstract hS) hC _ _

end Abstraction

/-! ## What a step can do -/

section Moves

variable [UnicodeData] (stored : ApprovalCase → ApprovalCase)

/-- The moves of handler `h` over the registry `r`. -/
inductive Move (h : Nat) (r : Registry) :
    Phase → Resume → Phase → Registry → List Entry → Prop
  | heard (sessionId userId : String) (turn : TurnResult) (event : Event) :
      Move h r (.running sessionId userId turn) (.event event)
        (.running sessionId userId (turn.add event)) r [.emitted h event]
  | ran (sessionId userId : String) (turn : TurnResult) {next : Phase} (hnext : next.idle = true) :
      Move h r (.running sessionId userId turn) .turnEnd next r []
  | opened {sessionId userId : String} {turn : TurnResult} {found : Dict} {todo opened : List Dict}
      {newProposalId : String} {clock : Nat} {c : ApprovalCase} {next : Phase}
      (hc : c = caseFromProposal found sessionId sessionId "" newProposalId clock)
      (hnew : r c.proposalId = none) (hnext : next.idle = true) :
      Move h r (.opening sessionId userId turn (found :: todo) opened)
        (.openCase newProposalId clock) next (r.set c.proposalId (stored c)) [.opened h c]
  | refused {sessionId userId : String} {turn : TurnResult} {found : Dict} {todo opened : List Dict}
      {newProposalId : String} {clock : Nat} {next : Phase} (hnext : next.idle = true) :
      Move h r (.opening sessionId userId turn (found :: todo) opened)
        (.openCase newProposalId clock) next r []
  | missing {proposalId : String} {decision : CaseDecision} {clock : Nat}
      (hrow : r proposalId = none) :
      Move h r (.deciding proposalId decision) (.decide clock) (.finished unknownProposal) r
        [.decided h proposalId decision .notFound none]
  | approved {proposalId : String} {decision : CaseDecision} {clock : Nat} {c c' : ApprovalCase}
      (hrow : r proposalId = some c) (hpending : c.status = .pending)
      (happroved : decision.approved = true)
      (hc' : c' = c.decided true decision.decidedBy decision.note (DateTime.now clock)) :
      Move h r (.deciding proposalId decision) (.decide clock) (.executing proposalId c' {})
        (r.set proposalId c')
        [.decided h proposalId decision .recorded (some c'),
          .started h proposalId (executionInstruction c')]
  | rejected {proposalId : String} {decision : CaseDecision} {clock : Nat} {c c' : ApprovalCase}
      (hrow : r proposalId = some c) (hpending : c.status = .pending)
      (hrejected : decision.approved = false)
      (hc' : c' = c.decided false decision.decidedBy decision.note (DateTime.now clock)) :
      Move h r (.deciding proposalId decision) (.decide clock)
        (.finished (.ok (caseBody "rejected" c'))) (r.set proposalId c')
        [.decided h proposalId decision .recorded (some c')]
  | driven {proposalId : String} {decision : CaseDecision} {clock : Nat} {c : ApprovalCase}
      (hrow : r proposalId = some c) (hopen : c.status = .approved) :
      Move h r (.deciding proposalId decision) (.decide clock) (.executing proposalId c {}) r
        [.decided h proposalId decision .alreadyDecided (some c),
          .started h proposalId (executionInstruction c)]
  | closed {proposalId : String} {decision : CaseDecision} {clock : Nat} {c : ApprovalCase}
      {response : Response} (hrow : r proposalId = some c) (hclosed : c.status.terminal = true) :
      Move h r (.deciding proposalId decision) (.decide clock) (.finished response) r
        [.decided h proposalId decision .alreadyDecided (some c)]
  | worked (proposalId : String) (c : ApprovalCase) (turn : TurnResult) (event : Event) :
      Move h r (.executing proposalId c turn) (.event event)
        (.executing proposalId c (turn.add event)) r [.emitted h event]
  | unconfirmed {proposalId : String} {c : ApprovalCase} {turn : TurnResult}
      (hnone : findExecution turn.texts c.proposal = none) :
      Move h r (.executing proposalId c turn) .turnEnd (.reporting proposalId c turn) r
        [.turned h proposalId turn.texts none]
  | confirmed {proposalId : String} {c : ApprovalCase} {turn : TurnResult} {performed : Dict}
      (hsome : findExecution turn.texts c.proposal = some performed) :
      Move h r (.executing proposalId c turn) .turnEnd (.recording proposalId c turn performed) r
        [.turned h proposalId turn.texts (some performed)]
  | reported (proposalId : String) (c : ApprovalCase) (turn : TurnResult) {response : Response} :
      Move h r (.reporting proposalId c turn) .get (.finished response) r []
  | recorded {proposalId : String} {c c' : ApprovalCase} {turn : TurnResult} {performed : Dict}
      {clock : Nat} {response : Response} (hrow : r proposalId = some c') :
      Move h r (.recording proposalId c turn performed) (.recordExecution clock)
        (.finished response) (r.set proposalId (c'.closed true performed (DateTime.now clock)))
        [.recorded h proposalId performed]
  | lost {proposalId : String} {c : ApprovalCase} {turn : TurnResult} {performed : Dict}
      {clock : Nat} {response : Response} (hrow : r proposalId = none) :
      Move h r (.recording proposalId c turn performed) (.recordExecution clock)
        (.finished response) r [.recorded h proposalId performed]

variable {stored} {h : Nat} {r : Registry}

theorem decide_move {proposalId : String} {decision : CaseDecision} {clock : Nat}
    {p : Phase × Registry × List Entry}
    (hp : resume (registryStore stored) h r (.deciding proposalId decision) (.decide clock) =
      some p) :
    Move stored h r (.deciding proposalId decision) (.decide clock) p.1 p.2.1 p.2.2 := by
  simp only [resume, registryStore, Option.some.injEq] at hp
  subst hp
  cases hrow : r proposalId with
  | none =>
    rw [Registry.decide_missing hrow]
    exact .missing hrow
  | some c =>
    by_cases hpending : c.status = .pending
    · rw [Registry.decide_pending hrow hpending]
      cases happroved : decision.approved with
      | true => exact .approved hrow hpending happroved rfl
      | false => exact .rejected hrow hpending happroved rfl
    · rw [Registry.decide_decided hrow hpending]
      -- Decided before: approved cases are driven again, the others are answered as they stand.
      by_cases happroved : c.status = .approved
      · have hafter := afterDecide_of_approved
          (by decide : DecisionOutcome.alreadyDecided ≠ .notFound) happroved
        simp only [answered, hafter]
        exact .driven hrow happroved
      · have hterminal : c.status.terminal = true := by
          cases hstatus : c.status <;> simp_all [Status.terminal]
        obtain ⟨⟨response, hphase⟩, hinstruction⟩ :=
          afterDecide_of_terminal .alreadyDecided hterminal proposalId
        simp only [answered, hphase, hinstruction]
        exact .closed hrow hterminal

/-- Every move is one of these. -/
theorem resume_move {phase : Phase} {what : Resume} {p : Phase × Registry × List Entry}
    (hp : resume (registryStore stored) h r phase what = some p) :
    Move stored h r phase what p.1 p.2.1 p.2.2 := by
  -- One case for each branch of the handler that can follow; all others do not step.
  cases phase with
  | running sessionId userId turn =>
    cases what with
    | event event =>
      cases hp
      exact .heard sessionId userId turn event
    | turnEnd =>
      cases hp
      exact .ran sessionId userId turn (openNext_idle _ _ _ _ _)
    | _ => cases hp
  | opening sessionId userId turn todo opened =>
    cases todo with
    | nil => cases what <;> cases hp
    | cons found todo =>
      cases what with
      | openCase newProposalId clock =>
        simp only [resume, registryStore, Option.some.injEq] at hp
        subst hp
        generalize hc : caseFromProposal found sessionId sessionId "" newProposalId clock = c
        cases hnew : r c.proposalId with
        | none =>
          rw [Registry.openCase_new hnew]
          exact .opened hc.symm hnew (openNext_idle _ _ _ _ _)
        | some c' =>
          rw [Registry.openCase_known hnew]
          exact .refused (openNext_idle _ _ _ _ _)
      | _ => cases hp
  | deciding proposalId decision =>
    cases what with
    | decide clock => exact decide_move hp
    | _ => cases hp
  | executing proposalId c turn =>
    cases what with
    | event event =>
      cases hp
      exact .worked proposalId c turn event
    | turnEnd =>
      cases hp
      cases hperformed : findExecution turn.texts c.proposal with
      | none =>
        simp only [afterTurn, hperformed]
        exact .unconfirmed hperformed
      | some performed =>
        simp only [afterTurn, hperformed]
        exact .confirmed hperformed
    | _ => cases hp
  | reporting proposalId c turn =>
    cases what with
    | get =>
      cases hp
      exact .reported proposalId c turn
    | _ => cases hp
  | recording proposalId c turn performed =>
    cases what with
    | recordExecution clock =>
      cases hp
      cases hrow : r proposalId with
      | none =>
        simp only [registryStore, Registry.recordExecution_missing hrow]
        exact .lost hrow
      | some c' =>
        simp only [registryStore, Registry.recordExecution_known hrow]
        exact .recorded hrow
    | _ => cases hp
  | finished response => cases what <;> cases hp

variable (stored)

/-- The steps of the service over a registry. -/
inductive Step (σ : System Registry) : Action → System Registry → Prop
  | requested (request : Request) :
      Step σ (.request request)
        { σ with handlers := σ.handlers ++ [{ request := request, phase := request.start }] }
  | moved {h : Nat} {handler : Handler} {what : Resume} {next : Phase} {r : Registry}
      {entries : List Entry} (hhandler : σ.handlers[h]? = some handler)
      (hlive : handler.aborted = false)
      (hmove : Move stored h σ.store handler.phase what next r entries) :
      Step σ (.resume h what)
        { σ with
          store := r
          handlers := σ.handlers.set h { handler with phase := next }
          log := σ.log ++ entries }
  | proposed {h : Nat} {handler : Handler} {value label approvedBy note : String}
      (hhandler : σ.handlers[h]? = some handler) (hturn : handler.phase.inTurn = true)
      (happrover : isApprover approvedBy = false) :
      Step σ (.publish h value label approvedBy note)
        { σ with
          log := σ.log ++ [.called h (proposalResult (canonicalValue value) label) none] }
  | published {h : Nat} {handler : Handler} {value label approvedBy note : String}
      {record : Publication} (hhandler : σ.handlers[h]? = some handler)
      (hturn : handler.phase.inTurn = true) (happrover : isApprover approvedBy = true)
      (hrecord : record = ⟨canonicalValue value, label, approvedBy⟩) :
      Step σ (.publish h value label approvedBy note)
        { σ with
          publications := σ.publications ++ [record]
          log := σ.log ++ [.called h (publishedResult record note) (some record)] }
  | aborted {h : Nat} {handler : Handler} (hhandler : σ.handlers[h]? = some handler) :
      Step σ (.abort h) { σ with handlers := σ.handlers.set h { handler with aborted := true } }

variable {stored}

/-- Every step is one of these. -/
theorem step_cases {σ τ : System Registry} {a : Action}
    (hstep : step (registryStore stored) σ a = some τ) : Step stored σ a τ := by
  cases a with
  | request request =>
    cases hstep
    exact .requested request
  | resume h what =>
    obtain ⟨handler, p, hhandler, hlive, hp, rfl⟩ := resume_of_step hstep
    exact .moved hhandler hlive (resume_move hp)
  | publish h value label approvedBy note =>
    obtain ⟨handler, hhandler, hstep⟩ := Option.bind_eq_some_iff.1 hstep
    cases hturn : handler.phase.inTurn with
    | false =>
      rw [hturn] at hstep
      cases hstep
    | true =>
      rw [hturn] at hstep
      cases hstep
      cases happrover : isApprover approvedBy with
      | false =>
        simp only [publish, publishResult_of_not_isApprover happrover, List.getElem?_length]
        exact .proposed hhandler hturn happrover
      | true =>
        simp only [publish, publishResult_of_isApprover happrover, List.getElem?_concat_length]
        exact .published hhandler hturn happrover rfl
  | abort h =>
    obtain ⟨handler, hhandler, rfl⟩ := Option.map_eq_some_iff.1 hstep
    exact .aborted hhandler

/-- Where a handler of the next state comes from: it is new, it is as before, or it moved. -/
theorem Step.handler_cases {σ τ : System Registry} {a : Action} (hstep : Step stored σ a τ) {i : Nat}
    {x : Handler} (hx : τ.handlers[i]? = some x) :
    (∃ request, a = .request request ∧ i = σ.handlers.length ∧
      x = { request := request, phase := request.start }) ∨
      ∃ y, σ.handlers[i]? = some y ∧ x.request = y.request ∧
        ((x.phase = y.phase ∧ ∀ what, a ≠ .resume i what) ∨ ∃ what entries, a = .resume i what ∧
          Move stored i σ.store y.phase what x.phase τ.store entries ∧
            τ.log = σ.log ++ entries) := by
  -- A handler is new, the one that moved, or as it was.
  cases hstep with
  | requested request =>
    rw [List.getElem?_append] at hx
    split at hx
    · exact Or.inr ⟨x, hx, rfl, Or.inl ⟨rfl, fun _ => Action.noConfusion⟩⟩
    · rw [List.getElem?_singleton] at hx
      split at hx
      · cases hx
        exact Or.inl ⟨request, rfl, by omega, rfl⟩
      · cases hx
  | @moved h handler what next r entries hhandler hlive hmove =>
    rw [List.getElem?_set] at hx
    split at hx
    · next heq =>
      subst heq
      split at hx
      · cases hx
        exact Or.inr ⟨handler, hhandler, rfl, Or.inr ⟨what, entries, rfl, hmove, rfl⟩⟩
      · cases hx
    · next hne =>
      refine Or.inr ⟨x, hx, rfl, Or.inl ⟨rfl, ?_⟩⟩
      intro what' heq
      cases heq
      exact hne rfl
  | proposed => exact Or.inr ⟨x, hx, rfl, Or.inl ⟨rfl, fun _ => Action.noConfusion⟩⟩
  | published => exact Or.inr ⟨x, hx, rfl, Or.inl ⟨rfl, fun _ => Action.noConfusion⟩⟩
  | @aborted h handler hhandler =>
    rw [List.getElem?_set] at hx
    split at hx
    · next heq =>
      subst heq
      split at hx
      · cases hx
        exact Or.inr ⟨handler, hhandler, rfl, Or.inl ⟨rfl, fun _ => Action.noConfusion⟩⟩
      · cases hx
    · exact Or.inr ⟨x, hx, rfl, Or.inl ⟨rfl, fun _ => Action.noConfusion⟩⟩

/-- What becomes of a handler: it keeps its request, and it stays or moves. -/
theorem Step.handler_next {σ τ : System Registry} {a : Action} (hstep : Step stored σ a τ) {i : Nat}
    {x : Handler} (hx : σ.handlers[i]? = some x) :
    ∃ y, τ.handlers[i]? = some y ∧ y.request = x.request ∧
      (y.phase = x.phase ∨ ∃ what entries, a = .resume i what ∧
        Move stored i σ.store x.phase what y.phase τ.store entries ∧
          τ.log = σ.log ++ entries) := by
  have hlt := (List.getElem?_eq_some_iff.1 hx).1
  cases hstep with
  | requested => exact ⟨x, by rw [List.getElem?_append_left hlt, hx], rfl, Or.inl rfl⟩
  | @moved h handler what next r entries hhandler hlive hmove =>
    by_cases heq : h = i
    · subst heq
      rw [hx] at hhandler
      cases hhandler
      exact ⟨{ x with phase := next }, List.getElem?_set_self hlt, rfl,
        Or.inr ⟨what, entries, rfl, hmove, rfl⟩⟩
    · exact ⟨x, by rw [List.getElem?_set_ne heq, hx], rfl, Or.inl rfl⟩
  | proposed => exact ⟨x, hx, rfl, Or.inl rfl⟩
  | published => exact ⟨x, hx, rfl, Or.inl rfl⟩
  | @aborted h handler hhandler =>
    by_cases heq : h = i
    · subst heq
      rw [hx] at hhandler
      cases hhandler
      exact ⟨{ x with aborted := true }, List.getElem?_set_self hlt, rfl, Or.inl rfl⟩
    · exact ⟨x, by rw [List.getElem?_set_ne heq, hx], rfl, Or.inl rfl⟩

/-- The log only grows. -/
theorem Step.log_prefix {σ τ : System Registry} {a : Action} (hstep : Step stored σ a τ) :
    ∃ entries, τ.log = σ.log ++ entries := by
  cases hstep with
  | requested => exact ⟨[], (List.append_nil _).symm⟩
  | moved => exact ⟨_, rfl⟩
  | proposed => exact ⟨_, rfl⟩
  | published => exact ⟨_, rfl⟩
  | aborted => exact ⟨[], (List.append_nil _).symm⟩

end Moves

end AgentCluster.Service
