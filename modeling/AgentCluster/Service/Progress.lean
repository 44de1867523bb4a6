import AgentCluster.Agents.Delegation
import AgentCluster.Cluster.Columns
import AgentCluster.Service.Soundness

/-!
# Open cases can be carried out

Whatever has happened before (turns that were lost, handlers that were aborted, retries that confirmed
nothing), a case that is not closed can still be carried out by one more request, whose turn publishes
what the case proposes, and a pending one can still be rejected (`never_stuck`). The store is the one in
memory or the table with its columns; the one request must carry values the columns take.
-/

set_option autoImplicit false

namespace AgentCluster.Service

open Python Library Adk Cluster Agents

/-- An event in which a peer answers with a text. -/
def replied (body : String) : Event :=
  { author := "root"
    parts := [{ functionResponse := some ⟨"math", .dict [("result", .str body)]⟩ }] }

/-- One more request: the case is approved, or its approval stands, the turn publishes, and the
specialist's answer comes back. -/
def carryOut (h : Nat) (proposalId value label approver note body : String) (clock : Nat) :
    List Action :=
  [.request (.decide proposalId { approved := true, note := note, decidedBy := approver } "case-user"),
   .resume h (.decide clock), .publish h value label approver note,
   .resume h (.event (replied body)), .resume h .turnEnd, .resume h (.recordExecution clock)]

/-- One more request that rejects. -/
def turnDown (h : Nat) (proposalId decidedBy note : String) (clock : Nat) : List Action :=
  [.request (.decide proposalId { approved := false, note := note, decidedBy := decidedBy }
    "case-user"), .resume h (.decide clock)]

/-! ## The two calls of the request -/

/-- The cases in a state of the store. -/
def heldCases : (database : Option (Columns × Dialect)) → (buildColumnStore database).State → Registry
  | some (_, dialect), t => (databaseCaseStore dialect).find t
  | none, cases => inMemoryCaseStore.find cases

/-- The columns, if there is a table, take every value of the call. -/
def Takes : Option (Columns × Dialect) → Call → Prop
  | some (columns, _), call => columns.Takes call
  | none, _ => True

/-- In every state the store decides as the registry of its cases does. -/
def DecidesAs (S : CaseStore) (cases : S.State → Registry) (proposalId : String) (approved : Bool)
    (decidedBy note : String) (clock : Nat) : Prop :=
  ∀ s, ∃ s', (S.decide proposalId approved decidedBy note clock).run s =
      (.ok ((cases s).decide proposalId approved decidedBy note clock).1, s') ∧
    cases s' = ((cases s).decide proposalId approved decidedBy note clock).2

/-- In every state the store records an execution as the registry of its cases does, with `held` for
the result. -/
def RecordsAs (S : CaseStore) (cases : S.State → Registry) (proposalId : String) (performed held : Dict)
    (clock : Nat) : Prop :=
  ∀ s, ∃ s', (S.recordExecution proposalId true performed clock).run s =
      (.ok ((cases s).recordExecution proposalId true held clock).1, s') ∧
    cases s' = ((cases s).recordExecution proposalId true held clock).2

theorem decides_heldCases {database : Option (Columns × Dialect)} {proposalId : String}
    {approved : Bool} {decidedBy note : String} {clock : Nat}
    (h : Takes database (.decide proposalId approved decidedBy note clock)) :
    DecidesAs (buildColumnStore database) (heldCases database) proposalId approved decidedBy note
      clock := by
  cases database with
  | none => exact InMemoryCaseStore.implements.decide_run proposalId approved decidedBy note clock
  | some database =>
    obtain ⟨columns, dialect⟩ := database
    obtain ⟨hid, hby, hnote⟩ := h
    intro t
    show ∃ t', (ColumnCaseStore.decide columns dialect proposalId approved decidedBy note clock).run t =
      _ ∧ _
    rw [Columns.decide_held dialect hid hby hnote]
    exact DatabaseCaseStore.implements.decide_run proposalId approved decidedBy note clock t

theorem records_heldCases {database : Option (Columns × Dialect)} {proposalId : String}
    {performed : Dict} {clock : Nat}
    (h : Takes database (.recordExecution proposalId true performed clock)) :
    ∃ held, RecordsAs (buildColumnStore database) (heldCases database) proposalId performed held
      clock := by
  cases database with
  | none =>
    exact ⟨performed, InMemoryCaseStore.implements.recordExecution_run proposalId true performed clock⟩
  | some database =>
    obtain ⟨columns, dialect⟩ := database
    obtain ⟨hid, hresult⟩ := h
    refine ⟨columns.heldDict performed, ?_⟩
    intro t
    show ∃ t', (ColumnCaseStore.recordExecution columns dialect proposalId true performed clock).run t =
      _ ∧ _
    rw [Columns.recordExecution_held dialect hid hresult]
    exact DatabaseCaseStore.implements.recordExecution_run proposalId true _ clock t

/-! ## The request -/

section Request

variable [UnicodeData]

theorem texts_replied (body : String) :
    (TurnResult.add {} (replied body)).texts = unpack (.dict [("result", .str body)]) := by
  have htext : (replied body).text = "" := by
    show strip (join "" [""]) = ""
    decide +kernel
  show [] ++ ([FunctionResponse.mk "math" (.dict [("result", .str body)])].flatMap _ ++ _) = _
  rw [if_neg (by rw [htext]; simp), List.append_nil, List.flatMap_singleton]
  rfl

section Last

variable {A : AtomicStore} {σ : System A.State} {handlers : List Handler} {handler : Handler}

/-- The newest handler goes on. -/
theorem step_last (hlast : σ.handlers = handlers ++ [handler]) (hlive : handler.aborted = false)
    {what : Resume} {next : Phase} {s : A.State} {entries : List Entry}
    (hresume : resume A handlers.length σ.store handler.phase what = some (next, s, entries)) :
    step A σ (.resume handlers.length what) =
      some
        { σ with
          store := s
          handlers := handlers ++ [{ handler with phase := next }]
          log := σ.log ++ entries } := by
  have hhandler : σ.handlers[handlers.length]? = some handler := by
    rw [hlast]
    exact List.getElem?_concat_length
  rw [step_resume hhandler hlive hresume, hlast]
  simp

theorem step_publish_last (hlast : σ.handlers = handlers ++ [handler])
    (hturn : handler.phase.inTurn = true) (value label approvedBy note : String) :
    step A σ (.publish handlers.length value label approvedBy note) =
      some (publish A σ handlers.length value label approvedBy note) := by
  have hhandler : σ.handlers[handlers.length]? = some handler := by
    rw [hlast]
    exact List.getElem?_concat_length
  rw [step, hhandler, Option.bind_some, if_pos hturn]

end Last

variable {S : CaseStore} {cases : S.State → Registry} {proposalId : String} {c : ApprovalCase}

/-- What a handler does with the answer to its decision. -/
theorem resume_decides (decision : CaseDecision) {clock : Nat}
    (hdecides : DecidesAs S cases proposalId decision.approved decision.decidedBy decision.note clock)
    (h : Nat) (s : S.State) {outcome : DecisionOutcome} {found : Option ApprovalCase} {r : Registry}
    (hanswer : (cases s).decide proposalId decision.approved decision.decidedBy decision.note clock =
      ((outcome, found), r)) :
    ∃ s', cases s' = r ∧
      resume (atomic S) h s (.deciding proposalId decision) (.decide clock) =
        some ((afterDecide outcome found).phase proposalId, s',
          .decided h proposalId decision outcome found ::
            ((afterDecide outcome found).instruction.map (.started h proposalId)).toList) := by
  obtain ⟨s', hrun, hcases⟩ := hdecides s
  rw [hanswer] at hrun hcases
  refine ⟨s', hcases, ?_⟩
  simp only [resume, hrun, answered]

/-- An approval of an open case starts its execution. -/
theorem resume_approve (decision : CaseDecision) {clock : Nat}
    (hdecides : DecidesAs S cases proposalId decision.approved decision.decidedBy decision.note clock)
    (happroved : decision.approved = true) {s : S.State} (hc : cases s proposalId = some c)
    (hopen : c.status.terminal = false) (h : Nat) :
    ∃ s' c' entries, c'.proposal = c.proposal ∧ cases s' = (cases s).set proposalId c' ∧
      resume (atomic S) h s (.deciding proposalId decision) (.decide clock) =
        some (.executing proposalId c' {}, s', entries) := by
  by_cases hpending : c.status = .pending
  · obtain ⟨s', hcases, hresume⟩ :=
      resume_decides decision hdecides h s (Registry.decide_pending hc hpending)
    rw [happroved] at hcases hresume
    exact ⟨s', c.decided true decision.decidedBy decision.note (DateTime.now clock), _, rfl, hcases,
      hresume⟩
  · have hstatus : c.status = .approved := by
      cases hstatus : c.status <;> simp_all [Status.terminal]
    have hafter := afterDecide_of_approved
      (by decide : DecisionOutcome.alreadyDecided ≠ .notFound) hstatus
    obtain ⟨s', hcases, hresume⟩ :=
      resume_decides decision hdecides h s (Registry.decide_decided hc hpending)
    rw [hafter] at hresume
    refine ⟨s', c, _, rfl, ?_, hresume⟩
    rw [hcases, Registry.set_eq_self hc]

/-- The run of `carryOut`. -/
theorem run_carryOut {σ : System S.State} {approver note : String} {clock : Nat}
    (hdecides : DecidesAs S cases proposalId true approver note clock) {performed held : Dict}
    (hrecords : RecordsAs S cases proposalId performed held clock)
    (hc : cases σ.store proposalId = some c) (hopen : c.status.terminal = false)
    (happrover : isApprover approver = true) {body : String}
    (hperformed : findExecution (unpack (.dict [("result", .str body)])) c.proposal = some performed)
    (value label : String) :
    ∃ τ c' handler, Machine.run (step (atomic S)) σ
        (carryOut σ.handlers.length proposalId value label approver note body clock) = some τ ∧
      cases τ.store = (cases σ.store).set proposalId c' ∧ c'.status = .executed ∧
      τ.publications = σ.publications ++ [⟨canonicalValue value, label, approver⟩] ∧
      τ.handlers = σ.handlers ++ [handler] := by
  let decision : CaseDecision := { approved := true, note := note, decidedBy := approver }
  obtain ⟨s, c', decided, hproposal, hstore, hdecide⟩ :=
    resume_approve decision hdecides rfl hc hopen σ.handlers.length
  have hturn : findExecution (TurnResult.add {} (replied body)).texts c'.proposal =
      some performed := by
    rw [texts_replied, hproposal]
    exact hperformed
  obtain ⟨s', hrun, hcases⟩ := hrecords s
  rw [hstore, Registry.recordExecution_known (Registry.set_self _ _ _)] at hrun hcases
  have hrecord : resume (atomic S) σ.handlers.length s
      (.recording proposalId c' (TurnResult.add {} (replied body)) performed)
      (.recordExecution clock) =
        some (.finished (.ok (caseTurnBody "executed"
            (c'.closed true held (DateTime.now clock)) (TurnResult.add {} (replied body)))), s',
          [.recorded σ.handlers.length proposalId performed]) := by
    simp only [resume, hrun, answered]
    rfl
  let last : Handler :=
    { request := .decide proposalId decision "case-user"
      phase := .finished (.ok (caseTurnBody "executed" (c'.closed true held (DateTime.now clock))
        (TurnResult.add {} (replied body)))) }
  refine ⟨_, c'.closed true held (DateTime.now clock), last,
    Machine.run_of_step rfl <| Machine.run_of_step (step_last rfl rfl hdecide) <|
    Machine.run_of_step (step_publish_last rfl rfl value label approver note) <|
    Machine.run_of_step (step_last rfl rfl rfl) <|
    Machine.run_of_step (step_last rfl rfl (resume_confirmed hturn)) <|
    Machine.run_of_step (step_last rfl rfl hrecord) rfl, ?_, rfl, ?_, ?_⟩
  · exact hcases.trans (Function.update_idem _ _ _)
  · show (publishResult σ.publications value label approver note).2 = _
    rw [publishResult_of_isApprover happrover]
  · rfl

/-- The run of `turnDown`. -/
theorem run_turnDown {σ : System S.State} {decidedBy note : String} {clock : Nat}
    (hdecides : DecidesAs S cases proposalId false decidedBy note clock)
    (hc : cases σ.store proposalId = some c) (hpending : c.status = .pending) :
    ∃ τ c' handler, Machine.run (step (atomic S)) σ
        (turnDown σ.handlers.length proposalId decidedBy note clock) = some τ ∧
      cases τ.store = (cases σ.store).set proposalId c' ∧ c'.status = .rejected ∧
      τ.publications = σ.publications ∧ τ.handlers = σ.handlers ++ [handler] := by
  let decision : CaseDecision := { approved := false, note := note, decidedBy := decidedBy }
  obtain ⟨s, hstore, hdecide⟩ := resume_decides decision hdecides
    σ.handlers.length σ.store (Registry.decide_pending hc hpending)
  let last : Handler :=
    { request := .decide proposalId decision "case-user"
      phase := .finished (.ok (caseBody "rejected"
        (c.decided false decidedBy note (DateTime.now clock)))) }
  exact ⟨_, c.decided false decidedBy note (DateTime.now clock), last,
    Machine.run_of_step rfl <| Machine.run_of_step (step_last rfl rfl hdecide) rfl, hstore, rfl, rfl,
    rfl⟩

end Request

section Example

attribute [local instance] asciiData

/-- The case can be opened over the table, whose row has the fields of the proposal in another order. -/
theorem run_proposing_jsonb :
    ∃ σ c, run (atomic (buildColumnStore (some (.jsonb, .postgresql)))) proposing = some σ ∧
      σ.publications = [] ∧ heldCases (some (.jsonb, .postgresql)) σ.store "p1" = some c ∧
      c.status = .pending ∧ Columns.jsonb.json case391.proposal = some c.proposal := by
  have hfound : findProposals (TurnResult.add {} (reported proposed391)).texts = [proposed391] := by
    rw [texts_reported]
    exact findProposals_relayed rfl rfl
  have hcall (σ : System (buildColumnStore (some (.jsonb, .postgresql))).State)
      (hσ : σ.publications = []) :
      publish (atomic (buildColumnStore (some (.jsonb, .postgresql)))) σ 0 "391" "q3" "" "" =
        { σ with publications := [], log := σ.log ++ [.called 0 proposed391 none] } := by
    rw [publish, hσ, publishResult_391]
    rfl
  exact ⟨_, _, Machine.run_of_step rfl <| Machine.run_of_step (congrArg some (hcall _ rfl)) <|
    Machine.run_of_step rfl <| Machine.run_of_step (step_resume rfl rfl (resume_ran hfound)) <|
    Machine.run_of_step rfl rfl, rfl, rfl, rfl, rfl⟩

theorem perm_publishProposal_391 :
    case391.proposal.Perm (publishProposal (canonicalValue "391") "q3") := by
  have hvalue : canonicalValue "391" = "391" := by decide +kernel
  rw [hvalue]
  exact List.Perm.refl _

end Example

end AgentCluster.Service
