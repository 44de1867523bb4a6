import AgentCluster.Service.Soundness

/-!
# Rejections that drive the action

`case_decide` goes by the status that `decide` reports, not by the decision it was sent. A rejection
that arrives when the case is approved already is refused, and then the handler carries the approved
action out. `neverDrives_iff` says that this is the only way.
-/

set_option autoImplicit false

namespace AgentCluster.Service

open Python Library Adk Cluster Agents

/-- The request rejects a case. -/
def Request.rejects : Request → Bool
  | .decide _ decision _ => !decision.approved
  | .run .. => false

/-- The handler of the entry carries an action out. -/
def Entry.driver : Entry → Option Nat
  | .started h _ _ => some h
  | .recorded h _ _ => some h
  | _ => none

/-- No handler of a rejection has started an execution turn or recorded an execution. -/
def NeverDrives {State : Type} (σ : System State) : Prop :=
  ∀ (h : Nat) (handler : Handler), σ.handlers[h]? = some handler →
    handler.request.rejects = true → ∀ e ∈ σ.log, e.driver ≠ some h

/-- A rejection is not decided while its case is approved. -/
def MeetsNoApproval (σ : System Registry) (a : Action) : Prop :=
  ∀ h clock, a = .resume h (.decide clock) →
    ∀ (handler : Handler) (proposalId : String) (decision : CaseDecision),
      σ.handlers[h]? = some handler → handler.phase = .deciding proposalId decision →
        decision.approved = false →
          ∀ row, σ.store proposalId = some row → row.status ≠ .approved

/-- A handler that is about to decide has the decision it was sent. -/
def DecidesRequest (σ : System Registry) : Prop :=
  ∀ (h : Nat) (handler : Handler) (proposalId : String) (decision : CaseDecision),
    σ.handlers[h]? = some handler → handler.phase = .deciding proposalId decision →
      handler.request.rejects = !decision.approved

/-- What holds as long as no rejection meets an approval. -/
structure RejectsOnly (σ : System Registry) : Prop where
  phases : ∀ (h : Nat) (handler : Handler), σ.handlers[h]? = some handler →
    handler.request.rejects = true →
    (∃ proposalId decision, handler.phase = .deciding proposalId decision) ∨
      ∃ response, handler.phase = .finished response
  drivers : ∀ e ∈ σ.log, ∀ h, e.driver = some h →
    ∃ handler : Handler, σ.handlers[h]? = some handler ∧ handler.request.rejects = false

theorem neverDrives_of_rejectsOnly {σ : System Registry} (hs : RejectsOnly σ) : NeverDrives σ := by
  intro h handler hhandler hrejects e he hdriver
  obtain ⟨handler', hhandler', hno⟩ := hs.drivers e he h hdriver
  rw [hhandler] at hhandler'
  cases hhandler'
  rw [hrejects] at hno
  cases hno

section Steps

variable [UnicodeData] {stored : ApprovalCase → ApprovalCase} {σ τ : System Registry} {a : Action}

/-- No move leads to a decision: deciding is where a handler begins. -/
theorem Move.next_ne_deciding {h : Nat} {r r' : Registry} {phase next : Phase} {what : Resume}
    {entries : List Entry} (hmove : Move stored h r phase what next r' entries)
    (proposalId : String) (decision : CaseDecision) : next ≠ .deciding proposalId decision := by
  intro heq
  subst heq
  cases hmove with
  | ran _ _ _ hnext => cases hnext
  | opened _ _ hnext => cases hnext
  | refused hnext => cases hnext

theorem decidesRequest_step (hs : DecidesRequest σ) (hstep : Step stored σ a τ) :
    DecidesRequest τ := by
  intro h handler proposalId decision hhandler hphase
  rcases hstep.handler_cases hhandler with ⟨request, -, -, rfl⟩ |
    ⟨y, hy, hrequest, ⟨hsame, -⟩ | hmoved⟩
  · cases request with
    | run => cases hphase
    | decide proposalId' decision' userId =>
      cases hphase
      rfl
  · rw [hrequest]
    exact hs h y proposalId decision hy (hsame.symm.trans hphase)
  · obtain ⟨what, entries, -, hmove, -⟩ := hmoved
    exact absurd hphase (hmove.next_ne_deciding proposalId decision)

/-- While no rejection meets an approval, the one move of a rejecting handler ends it. -/
theorem rejecting_move (hdecides : DecidesRequest σ) (hs : RejectsOnly σ) {h : Nat}
    {handler : Handler} {what : Resume} {next : Phase} {r : Registry} {entries : List Entry}
    (hC : MeetsNoApproval σ (.resume h what)) (hhandler : σ.handlers[h]? = some handler)
    (hrejects : handler.request.rejects = true)
    (hmove : Move stored h σ.store handler.phase what next r entries) :
    (∃ response, next = .finished response) ∧ ∀ e ∈ entries, e.driver = none := by
  rcases hs.phases h handler hhandler hrejects with ⟨proposalId, decision, hphase⟩ | ⟨_, hphase⟩
  · have hno : decision.approved = false := by
      rw [hdecides h handler proposalId decision hhandler hphase] at hrejects
      simpa using hrejects
    have hnot := fun clock hwhat =>
      hC h clock hwhat handler proposalId decision hhandler hphase hno
    rw [hphase] at hmove
    cases hmove with
    | missing => exact ⟨⟨_, rfl⟩, by simp [Entry.driver]⟩
    | approved _ _ happroved =>
      rw [hno] at happroved
      cases happroved
    | rejected => exact ⟨⟨_, rfl⟩, by simp [Entry.driver]⟩
    | @driven _ _ clock row hrow hopen => exact absurd hopen (hnot clock rfl row hrow)
    | closed => exact ⟨⟨_, rfl⟩, by simp [Entry.driver]⟩
  · rw [hphase] at hmove
    cases hmove

/-- The turn of a handler is started, and its result recorded, by that handler only. -/
theorem Move.driver_eq {h i : Nat} {r r' : Registry} {phase next : Phase} {what : Resume}
    {entries : List Entry} (hmove : Move stored h r phase what next r' entries) {e : Entry}
    (he : e ∈ entries) (hdriver : e.driver = some i) : i = h := by
  cases hmove with
  | approved | driven =>
    rcases List.mem_cons.1 he with rfl | he
    · cases hdriver
    · obtain rfl := List.mem_singleton.1 he
      cases hdriver
      rfl
  | recorded | lost =>
    obtain rfl := List.mem_singleton.1 he
    cases hdriver
    rfl
  | ran | refused | reported => cases he
  | _ =>
    obtain rfl := List.mem_singleton.1 he
    cases hdriver

theorem rejectsOnly_step (hdecides : DecidesRequest σ) (hs : RejectsOnly σ)
    (hC : MeetsNoApproval σ a) (hstep : Step stored σ a τ) : RejectsOnly τ where
  phases h handler hhandler hrejects := by
    rcases hstep.handler_cases hhandler with ⟨request, -, -, rfl⟩ |
    ⟨y, hy, hrequest, ⟨hsame, -⟩ | hmoved⟩
    -- A new handler: one that rejects waits at its decision.
    · cases request with
      | run => cases hrejects
      | decide proposalId decision userId => exact Or.inl ⟨proposalId, decision, rfl⟩
    · rw [hsame]
      rw [hrequest] at hrejects
      exact hs.phases h y hy hrejects
    · obtain ⟨what, entries, rfl, hmove, -⟩ := hmoved
      rw [hrequest] at hrejects
      exact Or.inr (rejecting_move hdecides hs hC hy hrejects hmove).1
  drivers e he i hdriver := by
    have hold (he : e ∈ σ.log) :
        ∃ handler : Handler, τ.handlers[i]? = some handler ∧ handler.request.rejects = false := by
      obtain ⟨x, hx, hno⟩ := hs.drivers e he i hdriver
      obtain ⟨y, hy, hrequest, -⟩ := hstep.handler_next hx
      exact ⟨y, hy, by rw [hrequest]; exact hno⟩
    have hstay := hstep
    cases hstep with
    | requested => exact hold he
    | @moved h handler what next r entries hhandler hlive hmove =>
      rcases List.mem_append.1 he with he | hnew
      -- An entry that drives a case is the moved handler's own, so that handler does not reject.
      · exact hold he
      · obtain rfl := hmove.driver_eq hnew hdriver
        obtain ⟨y, hy, hrequest, -⟩ := hstay.handler_next hhandler
        refine ⟨y, hy, ?_⟩
        rw [hrequest]
        cases hrejects : handler.request.rejects with
        | false => rfl
        | true =>
          have hnone := (rejecting_move hdecides hs hC hhandler hrejects hmove).2 e hnew
          rw [hdriver] at hnone
          cases hnone
    | proposed | published =>
      rcases List.mem_append.1 he with he | he
      · exact hold he
      · obtain rfl := List.mem_singleton.1 he
        cases hdriver
    | aborted => exact hold he

theorem neverDrives_back (hstep : Step stored σ a τ) (hτ : NeverDrives τ) : NeverDrives σ := by
  intro h handler hhandler hrejects e he
  obtain ⟨y, hy, hrequest, -⟩ := hstep.handler_next hhandler
  obtain ⟨entries, hlog⟩ := hstep.log_prefix
  apply hτ h y hy
  · rw [hrequest]
    exact hrejects
  · rw [hlog]
    exact List.mem_append_left entries he

/-- A rejection that meets an approval starts a turn. -/
theorem meetsNoApproval_of_neverDrives (hdecides : DecidesRequest σ) (hstep : Step stored σ a τ)
    (hτ : NeverDrives τ) : MeetsNoApproval σ a := by
  rintro h clock rfl handler proposalId decision hhandler hphase hno row hrow happroved
  have hrejects := hdecides h handler proposalId decision hhandler hphase
  rw [hno] at hrejects
  obtain ⟨y, hy, hrequest, -⟩ := hstep.handler_next hhandler
  rw [← hrequest] at hrejects
  have hnever := hτ h y hy hrejects
  cases hstep with
  | @moved _ handler' _ next r entries hhandler' hlive hmove =>
    rw [hhandler] at hhandler'
    cases hhandler'
    rw [hphase] at hmove
    cases hmove with
    -- Of the answers to a decision only the one about an approved case drives it.
    | missing hrow' =>
      rw [hrow] at hrow'
      cases hrow'
    | approved hrow' hpending | rejected hrow' hpending =>
      rw [hrow] at hrow'
      cases hrow'
      rw [happroved] at hpending
      cases hpending
    | @driven _ _ _ row' =>
      exact hnever (.started h proposalId (executionInstruction row')) (by simp) rfl
    | closed hrow' hclosed =>
      rw [hrow] at hrow'
      cases hrow'
      rw [happroved] at hclosed
      cases hclosed

end Steps

/-- In a run no rejection starts an execution turn or records an execution exactly when no rejection
is decided while its case is approved. -/
theorem neverDrives_iff [UnicodeData] (database : Option Dialect) (actions : List Action)
    {σ : System (atomic (buildCaseStore database)).State}
    (hrun : run (atomic (buildCaseStore database)) actions = some σ) :
    NeverDrives σ ↔
      Machine.Along (step (atomic (buildCaseStore database)))
        (fun ρ a => MeetsNoApproval (ρ.abstract (buildCaseStore database)) a)
        (initial (atomic (buildCaseStore database))) actions := by
  have hS := buildCaseStore_implements database
  rw [along_abstract hS]
  show NeverDrives (σ.abstract (buildCaseStore database)) ↔ _
  refine Machine.run_iff_along (I := DecidesRequest) (J := RejectsOnly) ?_ ?_ ?_ ?_ ?_ ?_ ?_
    (run_abstract hS hrun)
  · exact fun _ _ _ hI hstep => decidesRequest_step hI (step_cases hstep)
  · exact fun _ _ _ hI hJ hC hstep => rejectsOnly_step hI hJ hC (step_cases hstep)
  · exact fun _ _ hJ => neverDrives_of_rejectsOnly hJ
  · exact fun _ _ _ hstep hP => neverDrives_back (step_cases hstep) hP
  · exact fun _ _ _ hI hstep hP => meetsNoApproval_of_neverDrives hI (step_cases hstep) hP
  · intro h handler proposalId decision hhandler
    cases hhandler
  · constructor
    · intro h handler hhandler
      cases hhandler
    · intro e he
      cases he

/-! ## A late rejection -/

section Scenario

attribute [local instance] asciiData

/-- A reviewer approves and the request is lost; another reviewer rejects. -/
def lateRejection : List Action :=
  [.request (.decide "p1" { approved := true, decidedBy := "alice" } "case-user"),
   .resume 1 (.decide 1), .abort 1,
   .request (.decide "p1" { approved := false, decidedBy := "bob" } "case-user"),
   .resume 2 (.decide 2)]

theorem run_lateRejection :
    ∃ σ handler e, run (atomic (buildCaseStore none)) (proposing ++ lateRejection) = some σ ∧
      σ.handlers[2]? = some handler ∧ handler.request.rejects = true ∧ e ∈ σ.log ∧
        e.driver = some 2 := by
  have hrun : ∃ σ, run (atomic (buildCaseStore none)) (proposing ++ lateRejection) = some σ ∧
      (σ.handlers[2]?.map fun x => x.request.rejects) = some true ∧
        (σ.log.any fun e => e.driver == some 2) = true :=
    ⟨_, Machine.run_append.2 ⟨opened391, run_proposing, Machine.run_of_step rfl <|
      Machine.run_of_step rfl <| Machine.run_of_step rfl <| Machine.run_of_step rfl <|
      Machine.run_of_step rfl rfl⟩, rfl, rfl⟩
  obtain ⟨σ, hrun, hhandler, hlog⟩ := hrun
  obtain ⟨handler, hhandler, hrejects⟩ := Option.map_eq_some_iff.1 hhandler
  obtain ⟨e, he, hdriver⟩ := List.any_eq_true.1 hlog
  exact ⟨σ, handler, e, hrun, hhandler, hrejects, he, beq_iff_eq.1 hdriver⟩

theorem lateRejection_drives :
    ∃ σ, run (atomic (buildCaseStore none)) (proposing ++ lateRejection) = some σ ∧
      ¬ NeverDrives σ := by
  obtain ⟨σ, handler, e, hrun, hhandler, hrejects, he, hdriver⟩ := run_lateRejection
  exact ⟨σ, hrun, fun hnever => hnever 2 handler hhandler hrejects e he hdriver⟩

theorem neverDrives_iff_lateRejection :
    ¬ Machine.Along (step (atomic (buildCaseStore none)))
      (fun ρ a => MeetsNoApproval (ρ.abstract (buildCaseStore none)) a)
      (initial (atomic (buildCaseStore none))) (proposing ++ lateRejection) := by
  obtain ⟨σ, handler, e, hrun, hhandler, hrejects, he, hdriver⟩ := run_lateRejection
  intro halong
  exact (neverDrives_iff none _ hrun).2 halong 2 handler hhandler hrejects e he hdriver

end Scenario

end AgentCluster.Service
