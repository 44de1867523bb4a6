import AgentCluster.Service.Soundness

/-!
# Publications and approvals

`publish_result` looks for a name in `approved_by` and nothing else, and the name comes from the model
that fills in the request. `approvedFirst_iff` says which runs publish only what a human approved:
those in which a call that names an approver has a signed-off case for its value and label.
-/

set_option autoImplicit false

namespace AgentCluster.Service

open Python Library Adk Cluster Agents

/-- The record an entry appends to the publications. -/
def Entry.record : Entry → Option Publication
  | .called _ _ record => record
  | _ => none

/-- The proposal is to publish the record's value under its label. -/
def Proposes (proposal : Dict) (record : Publication) : Prop :=
  proposal.get "value" = .str record.value ∧ proposal.get "label" = .str record.label

/-- The log records an approval of a case that proposes the publication. -/
def ApprovalRecorded (log : List Entry) (record : Publication) : Prop :=
  ∃ h proposalId decision c, Entry.decided h proposalId decision .recorded (some c) ∈ log ∧
    decision.approved = true ∧ Proposes c.proposal record

/-- Every publication comes after an approval of a case with its value and label. -/
def ApprovedFirst {State : Type} (σ : System State) : Prop :=
  ∀ before after h result record, σ.log = before ++ .called h result (some record) :: after →
    ApprovalRecorded before record

/-- A call that names an approver publishes what a signed-off case proposes. -/
def PublishesApproved (σ : System Registry) (a : Action) : Prop :=
  ∀ h value label approvedBy note, a = .publish h value label approvedBy note →
    isApprover approvedBy = true →
      ∃ proposalId row, σ.store proposalId = some row ∧ signedOff row.status = true ∧
        Proposes row.proposal ⟨canonicalValue value, label, approvedBy⟩

/-- An entry of a longer log is one of the old log, or it comes after the old log. -/
theorem split_append {log entries before after : List Entry} {e : Entry}
    (h : log ++ entries = before ++ e :: after) :
    (∃ rest, log = before ++ e :: rest) ∨ e ∈ entries ∧ ∃ rest, before = log ++ rest := by
  rcases List.append_eq_append_iff.1 h with ⟨mid, rfl, hentries⟩ | ⟨mid, hlog, hmid⟩
  · refine Or.inr ⟨?_, mid, rfl⟩
    rw [hentries]
    exact List.mem_append_right _ List.mem_cons_self
  · cases mid with
    | nil =>
      rw [List.append_nil] at hlog
      rw [List.nil_append] at hmid
      refine Or.inr ⟨?_, [], by rw [hlog, List.append_nil]⟩
      rw [← hmid]
      exact List.mem_cons_self
    | cons d mid =>
      cases hmid
      exact Or.inl ⟨mid, hlog⟩

/-- A publication of what a signed-off case proposes has its approval in the log. -/
theorem approvalRecorded_of_signedOff {σ : System Registry} (hs : Sound σ)
    {proposalId : String} {row : ApprovalCase}
    (hrow : σ.store proposalId = some row) (hsigned : signedOff row.status = true)
    {record : Publication} (hproposes : Proposes row.proposal record) :
    ApprovalRecorded σ.log record := by
  obtain ⟨rfl, hsound⟩ := hs.rows proposalId row hrow
  obtain ⟨h, decision, c, -, happroved, hmem, hproposal, -⟩ := hsound.decidedAs_of_signedOff hsigned
  refine ⟨h, row.proposalId, decision, c, hmem, happroved, ?_⟩
  rw [hproposal]
  exact hproposes

section Steps

variable [UnicodeData] {stored : ApprovalCase → ApprovalCase} {σ τ : System Registry} {a : Action}

/-- No move of a handler publishes. -/
theorem Move.record_eq_none {h : Nat} {r r' : Registry} {phase next : Phase} {what : Resume}
    {entries : List Entry} (hmove : Move stored h r phase what next r' entries) {e : Entry}
    (he : e ∈ entries) : e.record = none := by
  cases hmove with
  | approved | driven =>
    rcases List.mem_cons.1 he with rfl | he
    · rfl
    · obtain rfl := List.mem_singleton.1 he
      rfl
  | ran | refused | reported => cases he
  | _ =>
    obtain rfl := List.mem_singleton.1 he
    rfl

/-- The publications are the records of the log, in order. -/
theorem publications_step (h : σ.publications = σ.log.filterMap Entry.record)
    (hstep : Step stored σ a τ) : τ.publications = τ.log.filterMap Entry.record := by
  cases hstep with
  | requested => exact h
  | @moved i handler what next r entries hhandler hlive hmove =>
    have hnone : entries.filterMap Entry.record = [] :=
      List.filterMap_eq_nil_iff.2 fun e he => hmove.record_eq_none he
    rw [List.filterMap_append, hnone, List.append_nil]
    exact h
  | proposed =>
    rw [List.filterMap_append]
    exact h.trans (List.append_nil _).symm
  | published =>
    rw [List.filterMap_append, ← h]
    rfl
  | aborted => exact h

theorem approvedFirst_step (hs : Sound σ) (hfirst : ApprovedFirst σ) (hC : PublishesApproved σ a)
    (hstep : Step stored σ a τ) : ApprovedFirst τ := by
  intro before after h result record hsplit
  cases hstep with
  | requested => exact hfirst before after h result record hsplit
  | @moved i handler what next r entries hhandler hlive hmove =>
    rcases split_append hsplit with ⟨rest, hold⟩ | ⟨hnew, -⟩
    · exact hfirst before rest h result record hold
    · cases hmove.record_eq_none hnew
  | proposed =>
    rcases split_append hsplit with ⟨rest, hold⟩ | ⟨hnew, -⟩
    · exact hfirst before rest h result record hold
    · cases List.mem_singleton.1 hnew
  | published hhandler hturn happrover hrecord =>
    rcases split_append hsplit with ⟨rest, hold⟩ | ⟨hnew, rest, rfl⟩
    · exact hfirst before rest h result record hold
    · cases List.mem_singleton.1 hnew
      obtain ⟨proposalId, row, hrow, hsigned, hproposes⟩ := hC _ _ _ _ _ rfl happrover
      rw [← hrecord] at hproposes
      obtain ⟨i, pid, decision, c, hmem, hrest⟩ :=
        approvalRecorded_of_signedOff hs hrow hsigned hproposes
      exact ⟨i, pid, decision, c, List.mem_append_left rest hmem, hrest⟩
  | aborted => exact hfirst before after h result record hsplit

theorem approvedFirst_back (hstep : Step stored σ a τ) (hτ : ApprovedFirst τ) :
    ApprovedFirst σ := by
  intro before after h result record hsplit
  obtain ⟨entries, hlog⟩ := hstep.log_prefix
  apply hτ before (after ++ entries) h result record
  rw [hlog, hsplit, List.append_assoc, List.cons_append]

/-- A publication is the last entry of the log, so an approval before it is in the log already. -/
theorem publishesApproved_of_approvedFirst (hs : Sound σ) (hstep : Step stored σ a τ)
    (hτ : ApprovedFirst τ) : PublishesApproved σ a := by
  rintro h value label approvedBy note rfl happrover
  cases hstep with
  | proposed _ _ hnot =>
    rw [happrover] at hnot
    cases hnot
  | @published _ _ _ _ _ _ record _ _ _ hrecord =>
    obtain ⟨i, proposalId, decision, c, hmem, happroved, hproposes⟩ :=
      hτ σ.log [] h (publishedResult record note) record rfl
    obtain ⟨c', hc', row, hrow, hsigned, hproposal⟩ :=
      hs.approvals i proposalId decision (some c) hmem happroved
    cases hc'
    refine ⟨proposalId, row, hrow, hsigned, ?_⟩
    rw [← hrecord, hproposal]
    exact hproposes

end Steps

/-- In a run every record of the publications comes after a recorded approval of a case with its value
and label exactly when every call that names an approver publishes what a signed-off case proposes. -/
theorem approvedFirst_iff [UnicodeData] (database : Option Dialect) (actions : List Action)
    {σ : System (atomic (buildCaseStore database)).State}
    (hrun : run (atomic (buildCaseStore database)) actions = some σ) :
    σ.publications = σ.log.filterMap Entry.record ∧
      (ApprovedFirst σ ↔
        Machine.Along (step (atomic (buildCaseStore database)))
          (fun ρ a => PublishesApproved (ρ.abstract (buildCaseStore database)) a)
          (initial (atomic (buildCaseStore database))) actions) := by
  have hS := buildCaseStore_implements database
  have hrun := run_abstract hS hrun
  constructor
  · exact Machine.run_induct (I := fun ρ => ρ.publications = ρ.log.filterMap Entry.record)
      (fun _ _ _ h hstep => publications_step h (step_cases hstep)) rfl hrun
  · rw [along_abstract hS]
    show ApprovedFirst (σ.abstract (buildCaseStore database)) ↔ _
    refine Machine.run_iff_along (I := Sound) (J := ApprovedFirst) ?_ ?_ ?_ ?_ ?_ ?_ ?_ hrun
    · exact fun _ _ _ hs hstep => sound_step hS.preserves hs hstep
    · exact fun _ _ _ hs hfirst hC hstep => approvedFirst_step hs hfirst hC (step_cases hstep)
    · exact fun _ _ hfirst => hfirst
    · exact fun _ _ _ hstep hP => approvedFirst_back (step_cases hstep) hP
    · exact fun _ _ _ hs hstep hP => publishesApproved_of_approvedFirst hs (step_cases hstep) hP
    · exact sound_initial _
    · intro before after h result record hsplit
      cases before <;> cases hsplit

/-! ## An approver made up by the model -/

section Scenario

attribute [local instance] asciiData

/-- The call a request to the math specialist asks for, once the value is computed. -/
def publishFor (h : Nat) (value : String) (request : MathRequest) : Action :=
  .publish h value request.publishAs request.approvedBy request.decisionNote

/-- In the first turn of a conversation the model fills in an approver of its own. -/
def madeUpApprover : List Action :=
  [.request (.run { text := "Publish 17 * 23 as q3." } "case-1"),
   publishFor 0 "391"
     { caseId := "case-1", expression := "17 * 23", publishAs := "q3", approvedBy := "compliance" }]

/-- The service after it: one publication, and nothing in the log but the call. -/
def published391Alone : System (atomic (buildCaseStore none)).State where
  store := []
  handlers :=
    [{ request := .run { text := "Publish 17 * 23 as q3." } "case-1"
       phase := .running "case-1" "case-user" {} }]
  publications := [⟨"391", "q3", "compliance"⟩]
  log := [.called 0 (publishedResult ⟨"391", "q3", "compliance"⟩ "")
    (some ⟨"391", "q3", "compliance"⟩)]

theorem run_madeUpApprover :
    run (atomic (buildCaseStore none)) madeUpApprover = some published391Alone := by
  have happrover : isApprover "compliance" = true := by decide +kernel
  have hvalue : canonicalValue "391" = "391" := by decide +kernel
  have hresult : publishResult [] "391" "q3" "compliance" "" =
      (publishedResult ⟨"391", "q3", "compliance"⟩ "", [⟨"391", "q3", "compliance"⟩]) := by
    rw [publishResult_of_isApprover happrover, hvalue]
    rfl
  refine Machine.run_of_step rfl (Machine.run_of_step ?_ rfl)
  show some (publish (atomic (buildCaseStore none)) _ 0 "391" "q3" "compliance" "") = _
  simp only [publish, initial, hresult]
  rfl

theorem not_approvedFirst_published391Alone : ¬ ApprovedFirst published391Alone := by
  intro hfirst
  obtain ⟨_, _, _, _, hmem, -⟩ := hfirst [] [] 0 _ _ rfl
  cases hmem

theorem madeUpApprover_publishes :
    run (atomic (buildCaseStore none)) madeUpApprover = some published391Alone ∧
      published391Alone.publications = [⟨"391", "q3", "compliance"⟩] ∧
        ¬ ApprovedFirst published391Alone :=
  ⟨run_madeUpApprover, rfl, not_approvedFirst_published391Alone⟩

theorem approvedFirst_iff_madeUpApprover :
    ¬ Machine.Along (step (atomic (buildCaseStore none)))
      (fun ρ a => PublishesApproved (ρ.abstract (buildCaseStore none)) a)
      (initial (atomic (buildCaseStore none))) madeUpApprover := by
  intro halong
  exact not_approvedFirst_published391Alone
    ((approvedFirst_iff none _ run_madeUpApprover).2.2 halong)

end Scenario

end AgentCluster.Service
