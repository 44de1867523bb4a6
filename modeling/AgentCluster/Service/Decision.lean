import AgentCluster.Cluster.Registry
import AgentCluster.Python.JsonLines
import AgentCluster.Service.Handlers

/-!
# One decision on a case

Calls of a store by any number of handlers, one SQL statement (or one method, in memory) at a time.
Once a case is open, one decision on it is recorded at most; the case keeps that decision and what was
opened, and every handler that goes on to carry the case out says so (`first_decision_stands`).
-/

set_option autoImplicit false

namespace AgentCluster.Service

open Python Library Cluster

/-! ## What is frozen -/

/-- What a case keeps of what was opened. -/
structure SameCase (c c' : ApprovalCase) : Prop where
  caseId : c'.caseId = c.caseId
  proposalId : c'.proposalId = c.proposalId
  agent : c'.agent = c.agent
  action : c'.action = c.action
  summary : c'.summary = c.summary
  proposal : c'.proposal = c.proposal
  sessionId : c'.sessionId = c.sessionId
  createdAt : c'.createdAt = c.createdAt

/-- No case disappears, none changes what was opened, and a decided one stays decided. -/
def KeepsCases (r r' : Registry) : Prop :=
  ∀ proposalId c, r proposalId = some c →
    ∃ c', r' proposalId = some c' ∧ SameCase c c' ∧ (c.status ≠ .pending → c'.status ≠ .pending)

theorem SameCase.refl (c : ApprovalCase) : SameCase c c := ⟨rfl, rfl, rfl, rfl, rfl, rfl, rfl, rfl⟩

theorem SameCase.trans {c c' c'' : ApprovalCase} (h : SameCase c c') (h' : SameCase c' c'') :
    SameCase c c'' where
  caseId := h'.caseId.trans h.caseId
  proposalId := h'.proposalId.trans h.proposalId
  agent := h'.agent.trans h.agent
  action := h'.action.trans h.action
  summary := h'.summary.trans h.summary
  proposal := h'.proposal.trans h.proposal
  sessionId := h'.sessionId.trans h.sessionId
  createdAt := h'.createdAt.trans h.createdAt

theorem sameCase_decided (c : ApprovalCase) (approved : Bool) (decidedBy note : String)
    (now : DateTime) : SameCase c (c.decided approved decidedBy note now) :=
  ⟨rfl, rfl, rfl, rfl, rfl, rfl, rfl, rfl⟩

theorem sameCase_closed (c : ApprovalCase) (succeeded : Bool) (result : Dict) (now : DateTime) :
    SameCase c (c.closed succeeded result now) := ⟨rfl, rfl, rfl, rfl, rfl, rfl, rfl, rfl⟩

theorem sameCase_stored {stored : ApprovalCase → ApprovalCase} (hstored : Preserves stored)
    {c : ApprovalCase} (hutc : c.createdAt.utc = true) : SameCase c (stored c) := by
  have hcreatedAt := hstored.createdAt c hutc
  obtain ⟨result, createdAt, decidedAt, executedAt, hfields⟩ := hstored.fields c
  rw [hfields] at hcreatedAt ⊢
  exact ⟨rfl, rfl, rfl, rfl, rfl, rfl, rfl, hcreatedAt⟩

theorem decided_status_ne_pending (c : ApprovalCase) (approved : Bool) (decidedBy note : String)
    (now : DateTime) : (c.decided approved decidedBy note now).status ≠ .pending := by
  cases approved with
  | true => exact Status.noConfusion
  | false => exact Status.noConfusion

theorem closed_status (c : ApprovalCase) (succeeded : Bool) (result : Dict) (now : DateTime) :
    (c.closed succeeded result now).status ≠ .pending ∧
      (c.closed succeeded result now).status ≠ .approved := by
  cases succeeded with
  | true => exact ⟨Status.noConfusion, Status.noConfusion⟩
  | false => exact ⟨Status.noConfusion, Status.noConfusion⟩

namespace KeepsCases

theorem refl (r : Registry) : KeepsCases r r := fun _ c hc => ⟨c, hc, SameCase.refl c, id⟩

theorem trans {r r' r'' : Registry} (h : KeepsCases r r') (h' : KeepsCases r' r'') :
    KeepsCases r r'' := by
  intro proposalId c hc
  obtain ⟨c', hc', hsame, hdecided⟩ := h proposalId c hc
  obtain ⟨c'', hc'', hsame', hdecided'⟩ := h' proposalId c' hc'
  exact ⟨c'', hc'', hsame.trans hsame', fun hstatus => hdecided' (hdecided hstatus)⟩

/-- One case changes, or there is a new one. -/
theorem set {r : Registry} {proposalId : String} {c' : ApprovalCase}
    (hrow : ∀ c, r proposalId = some c →
      SameCase c c' ∧ (c.status ≠ .pending → c'.status ≠ .pending)) :
    KeepsCases r (r.set proposalId c') := by
  intro other c hc
  by_cases hother : other = proposalId
  · subst hother
    exact ⟨c', Registry.set_self r other c', hrow c hc⟩
  · rw [Registry.set_of_ne hother]
    exact ⟨c, hc, SameCase.refl c, id⟩

end KeepsCases

/-- A step of a call keeps the cases. -/
theorem keepsCases_of_effect {stored : ApprovalCase → ApprovalCase} {call : Call}
    {r r' : Registry} {o : Option (Except StoreError Answer)} (h : Effect stored call r o r') :
    KeepsCases r r' := by
  cases call with
  | openCase c =>
    -- A case is inserted under a free id.
    rcases h with ⟨hnew, rfl, -⟩ | ⟨rfl, -⟩
    · apply KeepsCases.set
      intro c' hc'
      rw [hnew] at hc'
      cases hc'
    · exact KeepsCases.refl _
  | get proposalId =>
    obtain ⟨rfl, -⟩ := h
    exact KeepsCases.refl _
  | decide proposalId approved decidedBy note clock =>
    -- The update asks for a pending row.
    rcases h with ⟨c, hc, -, rfl, -⟩ | ⟨rfl, -⟩
    · apply KeepsCases.set
      intro c' hc'
      rw [hc] at hc'
      cases hc'
      exact ⟨sameCase_decided .., fun _ => decided_status_ne_pending _ _ _ _ _⟩
    · exact KeepsCases.refl _
  | recordExecution proposalId succeeded result clock =>
    -- The record asks for nothing: it keeps the case but may close one that is closed already.
    rcases h with ⟨c, hc, rfl, -⟩ | ⟨-, rfl, -⟩
    · apply KeepsCases.set
      intro c' hc'
      rw [hc] at hc'
      cases hc'
      exact ⟨sameCase_closed .., fun _ => (closed_status ..).1⟩
    · exact KeepsCases.refl _

/-! ## Decisions and instructions -/

/-- The call decides the case. -/
def Decides (proposalId : String) (call : Call) : Prop :=
  ∃ approved decidedBy note clock, call = .decide proposalId approved decidedBy note clock

/-- The decision on a case that an answer says was recorded, and when. -/
def decisionOn (proposalId : String) : Call × Except StoreError Answer →
    Option (CaseDecision × Nat)
  | (.decide pid approved decidedBy note clock, .ok (.decided .recorded _)) =>
      if pid = proposalId then some (⟨approved, note, decidedBy⟩, clock) else none
  | _ => none

/-- What the handler that decides a case sends to the agent next. -/
def instructionOn (proposalId : String) : Call × Except StoreError Answer → Option String
  | (.decide pid .., .ok (.decided outcome found)) =>
      if pid = proposalId then (afterDecide outcome found).instruction else none
  | _ => none

def decisionsOn (proposalId : String) (answers : List (Call × Except StoreError Answer)) :
    List (CaseDecision × Nat) := answers.filterMap (decisionOn proposalId)

def instructionsOn (proposalId : String) (answers : List (Call × Except StoreError Answer)) :
    List String := answers.filterMap (instructionOn proposalId)

/-- The row is the case that was opened, with the one decision that was recorded on it, and whoever
carries the case out was told so. -/
structure Settled (c row : ApprovalCase) (answers : List (Call × Except StoreError Answer)) :
    Prop where
  same : SameCase c row
  once : (decisionsOn c.proposalId answers).length ≤ 1
  decided : ∀ d ∈ decisionsOn c.proposalId answers,
    row.decidedBy = d.1.decidedBy ∧ row.note = d.1.note ∧ row.decidedAt = some (DateTime.now d.2)
  pending : row.status = .pending → decisionsOn c.proposalId answers = []
  approved : row.status = .approved → decisionsOn c.proposalId answers ≠ []
  instructed : ∀ instruction ∈ instructionsOn c.proposalId answers,
    ∃ d ∈ decisionsOn c.proposalId answers,
      instruction = executionInstruction { c with decidedBy := d.1.decidedBy, note := d.1.note }

/-- The text shows the proposal in a line of its own, as JSON, then who approved it, and the note if
there is one. -/
def Carries (proposal : Dict) (decidedBy note text : String) : Prop :=
  ∃ before line after,
    text = before ++ "\n" ++ line ++ "\n" ++ "Approved by: " ++
      (if decidedBy ≠ "" then decidedBy else "unknown") ++
      (if note ≠ "" then "\nThe approver noted: " ++ note else "") ++ "\n\n" ++ after ∧
    line = Json.dumpsSorted (.dict proposal) ∧ '\n' ∉ line.toList ∧
    ((Value.dict proposal).isJson = true →
      Json.loads line = some (.dict (Json.sortedDict proposal)))

/-- The answers after a step of a call, which answers if it was the last one. -/
def answersWith (answers : List (Call × Except StoreError Answer)) (call : Call)
    (o : Option (Except StoreError Answer)) : List (Call × Except StoreError Answer) :=
  answers ++ (o.map fun result => (call, result)).toList

section Answers

variable {proposalId : String} {answers : List (Call × Except StoreError Answer)} {call : Call}
  {o : Option (Except StoreError Answer)}

theorem decisionsOn_answersWith :
    decisionsOn proposalId (answersWith answers call o) =
      decisionsOn proposalId answers ++
        (o.bind fun result => decisionOn proposalId (call, result)).toList := by
  rw [decisionsOn, answersWith, List.filterMap_append]
  apply congrArg
  cases o with
  | none => rfl
  | some result => cases h : decisionOn proposalId (call, result) <;> simp [h]

theorem instructionsOn_answersWith :
    instructionsOn proposalId (answersWith answers call o) =
      instructionsOn proposalId answers ++
        (o.bind fun result => instructionOn proposalId (call, result)).toList := by
  rw [instructionsOn, answersWith, List.filterMap_append]
  apply congrArg
  cases o with
  | none => rfl
  | some result => cases h : instructionOn proposalId (call, result) <;> simp [h]

/-- Only decisions on a case are answered with one. -/
theorem decisionOn_eq_none (h : ¬ Decides proposalId call) (result : Except StoreError Answer) :
    decisionOn proposalId (call, result) = none := by
  cases call with
  | decide pid approved decidedBy note clock =>
    have hne : pid ≠ proposalId := by
      rintro rfl
      exact h ⟨approved, decidedBy, note, clock, rfl⟩
    cases result with
    | error e => rfl
    | ok answer =>
      cases answer with
      | decided outcome found =>
        cases outcome with
        | recorded => exact if_neg hne
        | _ => rfl
      | _ => rfl
  | _ => rfl

theorem instructionOn_eq_none (h : ¬ Decides proposalId call) (result : Except StoreError Answer) :
    instructionOn proposalId (call, result) = none := by
  cases call with
  | decide pid approved decidedBy note clock =>
    have hne : pid ≠ proposalId := by
      rintro rfl
      exact h ⟨approved, decidedBy, note, clock, rfl⟩
    cases result with
    | error e => rfl
    | ok answer =>
      cases answer with
      | decided outcome found => exact if_neg hne
      | _ => rfl
  | _ => rfl

/-- Answers that are not about the case. -/
theorem noAnswers_of_forall (h : ∀ ca ∈ answers, ¬ Decides proposalId ca.1) :
    decisionsOn proposalId answers = [] ∧ instructionsOn proposalId answers = [] := by
  rw [decisionsOn, instructionsOn, List.filterMap_eq_nil_iff, List.filterMap_eq_nil_iff]
  constructor
  · exact fun ca hca => decisionOn_eq_none (h ca hca) ca.2
  · exact fun ca hca => instructionOn_eq_none (h ca hca) ca.2

end Answers

theorem carries_executionInstruction (c : ApprovalCase) :
    Carries c.proposal c.decidedBy c.note (executionInstruction c) := by
  have hheading : "specialist:\n" = "specialist:" ++ "\n" := rfl
  refine ⟨"A human has APPROVED this proposal from the '" ++ c.agent ++ "' " ++ "specialist:",
    Json.dumpsSorted (.dict c.proposal), ?after, ?text, rfl, ?_, ?_⟩
  case text =>
    unfold executionInstruction
    simp only [hheading, String.append_assoc]
    rfl
  · rw [Json.dumpsSorted, String.toList_ofList]
    exact Json.newline_not_mem_encode _
  · intro hjson
    rw [← Json.sortKeys_dict]
    exact Json.loads_dumps (Json.isJson_sortKeys hjson)

/-- The instruction reads what is frozen once a case is decided. -/
theorem SameCase.instruction {c row : ApprovalCase} (h : SameCase c row) {decidedBy note : String}
    (hdecidedBy : row.decidedBy = decidedBy) (hnote : row.note = note) :
    executionInstruction row =
      executionInstruction { c with decidedBy := decidedBy, note := note } := by
  unfold executionInstruction
  rw [h.proposal, h.agent, hdecidedBy, hnote]

namespace Settled

variable {c row row' : ApprovalCase} {answers answers' : List (Call × Except StoreError Answer)}

/-- Nothing is decided, and an instruction that is sent is about the approved row. -/
theorem keep (h : Settled c row answers) (hsame : SameCase row row')
    (hfrozen : row'.decidedBy = row.decidedBy ∧ row'.note = row.note ∧
      row'.decidedAt = row.decidedAt)
    (hpending : row'.status = .pending → row.status = .pending)
    (happroved : row'.status = .approved → row.status = .approved)
    (hdecisions : decisionsOn c.proposalId answers' = decisionsOn c.proposalId answers)
    (hinstructions : ∀ instruction ∈ instructionsOn c.proposalId answers',
      instruction ∈ instructionsOn c.proposalId answers ∨
        row.status = .approved ∧ instruction = executionInstruction row) :
    Settled c row' answers' where
  same := h.same.trans hsame
  once := by
    rw [hdecisions]
    exact h.once
  decided d hd := by
    rw [hdecisions] at hd
    obtain ⟨hdecidedBy, hnote, hdecidedAt⟩ := h.decided d hd
    obtain ⟨hsameBy, hsameNote, hsameAt⟩ := hfrozen
    exact ⟨hsameBy.trans hdecidedBy, hsameNote.trans hnote, hsameAt.trans hdecidedAt⟩
  pending hstatus := by
    rw [hdecisions]
    exact h.pending (hpending hstatus)
  approved hstatus := by
    rw [hdecisions]
    exact h.approved (happroved hstatus)
  instructed instruction hmem := by
    rw [hdecisions]
    rcases hinstructions instruction hmem with hold | ⟨hstatus, rfl⟩
    · exact h.instructed instruction hold
    -- The case is approved, so the one decision is its approval.
    · obtain ⟨d, hd⟩ := List.exists_mem_of_ne_nil _ (h.approved hstatus)
      obtain ⟨hdecidedBy, hnote, -⟩ := h.decided d hd
      exact ⟨d, hd, h.same.instruction hdecidedBy hnote⟩

/-- A pending row is decided. -/
theorem decide (h : Settled c row answers) (hpending : row.status = .pending)
    (decision : CaseDecision) (clock : Nat)
    (hrow : row' = row.decided decision.approved decision.decidedBy decision.note
      (DateTime.now clock))
    (hdecisions : decisionsOn c.proposalId answers' =
      decisionsOn c.proposalId answers ++ [(decision, clock)])
    (hinstructions : ∀ instruction ∈ instructionsOn c.proposalId answers',
      instruction ∈ instructionsOn c.proposalId answers ∨
        instruction = executionInstruction row') :
    Settled c row' answers' := by
  -- The first decision is the only one.
  have honly : decisionsOn c.proposalId answers' = [(decision, clock)] := by
    rw [hdecisions, h.pending hpending]
    rfl
  have hsame : SameCase c row' := by
    rw [hrow]
    exact h.same.trans (sameCase_decided ..)
  constructor
  · exact hsame
  · rw [honly]
    exact Nat.le_refl 1
  · intro d hd
    rw [honly, List.mem_singleton] at hd
    subst hd hrow
    exact ⟨rfl, rfl, rfl⟩
  · intro hstatus
    rw [hrow] at hstatus
    exact absurd hstatus (decided_status_ne_pending _ _ _ _ _)
  · rw [honly]
    exact fun _ => List.cons_ne_nil _ _
  · intro instruction hmem
    rcases hinstructions instruction hmem with hold | rfl
    · -- Nothing was sent about a pending case.
      obtain ⟨d, hd, -⟩ := h.instructed instruction hold
      rw [h.pending hpending] at hd
      cases hd
    · refine ⟨(decision, clock), by rw [honly]; exact List.mem_singleton.2 rfl, ?_⟩
      apply hsame.instruction
      · rw [hrow]
        rfl
      · rw [hrow]
        rfl

/-- A step that is not a decision on the case. -/
theorem keep_of_not_decides (h : Settled c row answers) {call : Call}
    {o : Option (Except StoreError Answer)} (hcall : ¬ Decides c.proposalId call)
    (hsame : SameCase row row')
    (hfrozen : row'.decidedBy = row.decidedBy ∧ row'.note = row.note ∧
      row'.decidedAt = row.decidedAt)
    (hpending : row'.status = .pending → row.status = .pending)
    (happroved : row'.status = .approved → row.status = .approved) :
    Settled c row' (answersWith answers call o) := by
  have hdecision : (o.bind fun result => decisionOn c.proposalId (call, result)) = none := by
    rw [Option.bind_eq_none_iff]
    exact fun result _ => decisionOn_eq_none hcall result
  have hinstruction : (o.bind fun result => instructionOn c.proposalId (call, result)) = none := by
    rw [Option.bind_eq_none_iff]
    exact fun result _ => instructionOn_eq_none hcall result
  apply h.keep hsame hfrozen hpending happroved
  · rw [decisionsOn_answersWith, hdecision]
    exact List.append_nil _
  · intro instruction hmem
    rw [instructionsOn_answersWith, hinstruction] at hmem
    exact Or.inl (by simpa using hmem)

end Settled

/-- What the handler of a recorded decision sends. -/
theorem instruction_recorded {c : ApprovalCase} {instruction : String}
    (h : (afterDecide .recorded (some c)).instruction = some instruction) :
    instruction = executionInstruction c := by
  cases hafter : afterDecide .recorded (some c) with
  | execute c' =>
    obtain ⟨heq, -⟩ := afterDecide_eq_execute hafter
    rw [hafter] at h
    cases heq
    cases h
    rfl
  | _ =>
    rw [hafter] at h
    cases h

/-- What the handler of a refused decision sends, if the case is decided. -/
theorem instruction_alreadyDecided {c : ApprovalCase} {instruction : String}
    (hdecided : c.status ≠ .pending)
    (h : (afterDecide .alreadyDecided (some c)).instruction = some instruction) :
    c.status = .approved ∧ instruction = executionInstruction c := by
  cases hafter : afterDecide .alreadyDecided (some c) with
  | execute c' =>
    obtain ⟨heq, hstatus⟩ := afterDecide_eq_execute hafter
    rw [hafter] at h
    cases heq
    cases h
    exact ⟨hstatus.resolve_left hdecided, rfl⟩
  | _ =>
    rw [hafter] at h
    cases h

/-- A decision on the case is recorded, or it finds the case decided and answers with the row. -/
theorem settled_decide {stored : ApprovalCase → ApprovalCase} {r r' : Registry}
    {o : Option (Except StoreError Answer)} {c row : ApprovalCase} {approved : Bool}
    {decidedBy note : String} {clock : Nat}
    (heffect : Effect stored (.decide c.proposalId approved decidedBy note clock) r o r')
    {answers : List (Call × Except StoreError Answer)} (hshows : ShowsDecided o)
    (hrow : r c.proposalId = some row) (h : Settled c row answers) :
    ∃ row', r' c.proposalId = some row' ∧
      Settled c row'
        (answersWith answers (.decide c.proposalId approved decidedBy note clock) o) := by
  rcases heffect with ⟨row', hrow', hpending, rfl, rfl⟩ | ⟨rfl, hanswer⟩
  · rw [hrow] at hrow'
    cases hrow'
    refine ⟨_, Registry.set_self _ _ _,
      h.decide hpending ⟨approved, note, decidedBy⟩ clock rfl ?_ ?_⟩
    · rw [decisionsOn_answersWith, Option.bind_some, decisionOn, if_pos rfl]
      rfl
    · intro instruction hmem
      rw [instructionsOn_answersWith, List.mem_append, Option.bind_some, instructionOn,
        if_pos rfl, Option.mem_toList] at hmem
      exact hmem.imp_right instruction_recorded
  · refine ⟨row, hrow, h.keep (SameCase.refl row) ⟨rfl, rfl, rfl⟩ id id ?_ ?_⟩
    · rw [decisionsOn_answersWith]
      rcases hanswer with rfl | ⟨rfl, -⟩ | ⟨row', rfl, -⟩
      · exact List.append_nil _
      · exact List.append_nil _
      · exact List.append_nil _
    · intro instruction hmem
      rw [instructionsOn_answersWith, List.mem_append] at hmem
      apply hmem.imp_right
      intro hnew
      -- Without an update the answer is that of the row which the call has read.
      rcases hanswer with rfl | ⟨rfl, hnone⟩ | ⟨row', rfl, hrow'⟩
      · cases hnew
      · rw [hrow] at hnone
        cases hnone
      · rw [hrow] at hrow'
        cases hrow'
        rw [Option.bind_some, instructionOn, if_pos rfl, Option.mem_toList] at hnew
        exact instruction_alreadyDecided (hshows row rfl) hnew

/-- Every step of a call keeps a case settled. -/
theorem settled_step {stored : ApprovalCase → ApprovalCase} {call : Call} {r r' : Registry}
    {o : Option (Except StoreError Answer)} (heffect : Effect stored call r o r')
    {c row : ApprovalCase} {answers : List (Call × Except StoreError Answer)}
    (hshows : Decides c.proposalId call → ShowsDecided o) (hrow : r c.proposalId = some row)
    (h : Settled c row answers) :
    ∃ row', r' c.proposalId = some row' ∧ Settled c row' (answersWith answers call o) := by
  -- A call that does not decide this case leaves its row, or leaves what is settled about it.
  have hother {row' : ApprovalCase} (hcall : ¬ Decides c.proposalId call)
      (hrow' : r' c.proposalId = some row') (heq : row' = row) :
      ∃ row', r' c.proposalId = some row' ∧ Settled c row' (answersWith answers call o) := by
    subst heq
    exact ⟨row', hrow', h.keep_of_not_decides hcall (SameCase.refl row') ⟨rfl, rfl, rfl⟩ id id⟩
  cases call with
  | openCase d =>
    have hcall : ¬ Decides c.proposalId (.openCase d) := by
      rintro ⟨_, _, _, _, heq⟩
      cases heq
    rcases heffect with ⟨hnew, rfl, -⟩ | ⟨rfl, -⟩
    · refine hother hcall ?_ rfl
      rw [Registry.set_of_ne]
      · exact hrow
      · intro heq
        rw [heq, hnew] at hrow
        cases hrow
    · exact hother hcall hrow rfl
  | get pid =>
    obtain ⟨rfl, -⟩ := heffect
    refine hother ?_ hrow rfl
    rintro ⟨_, _, _, _, heq⟩
    cases heq
  | recordExecution pid succeeded result clock =>
    have hcall : ¬ Decides c.proposalId (.recordExecution pid succeeded result clock) := by
      rintro ⟨_, _, _, _, heq⟩
      cases heq
    rcases heffect with ⟨row', hrow', rfl, -⟩ | ⟨-, rfl, -⟩
    · by_cases hpid : c.proposalId = pid
      -- Closing an approved case takes it out of `approved`, and back to no other state.
      · subst hpid
        rw [hrow] at hrow'
        cases hrow'
        refine ⟨_, Registry.set_self _ _ _, h.keep_of_not_decides hcall (sameCase_closed ..)
          ⟨rfl, rfl, rfl⟩ ?_ ?_⟩
        · exact fun hstatus => absurd hstatus (closed_status _ _ _ _).1
        · exact fun hstatus => absurd hstatus (closed_status _ _ _ _).2
      · refine hother hcall ?_ rfl
        rw [Registry.set_of_ne hpid]
        exact hrow
    · exact hother hcall hrow rfl
  | decide pid approved decidedBy note clock =>
    by_cases hpid : c.proposalId = pid
    · subst hpid
      exact settled_decide heffect (hshows ⟨approved, decidedBy, note, clock, rfl⟩) hrow h
    · have hcall : ¬ Decides c.proposalId (.decide pid approved decidedBy note clock) := by
        rintro ⟨_, _, _, _, heq⟩
        cases heq
        exact hpid rfl
      rcases heffect with ⟨row', -, -, rfl, -⟩ | ⟨rfl, -⟩
      · refine hother hcall ?_ rfl
        rw [Registry.set_of_ne hpid]
        exact hrow
      · exact hother hcall hrow rfl

/-! ## Interleavings -/

section Pool

variable {S : CaseStore} {stored : ApprovalCase → ApprovalCase} {proposalId : String}

/-- What the states of a store may do between two steps of a call. -/
def Rely (S : CaseStore) (s t : S.State) : Prop := KeepsCases (S.find s) (S.find t)

/-- What a step of a call does when the id of the case is known to those who decide it. -/
def StepSpec (S : CaseStore) (stored : ApprovalCase → ApprovalCase) (proposalId : String)
    (call : Call) (s : S.State) (o : Option (Except StoreError Answer)) (t : S.State) : Prop :=
  (Effect stored call (S.find s) o (S.find t) ∧ (Decides proposalId call → ShowsDecided o)) ∧
    (Decides proposalId call → S.find s proposalId ≠ none)

theorem known_rely {s t : S.State} (hknown : S.find s proposalId ≠ none) (h : Rely S s t) :
    S.find t proposalId ≠ none := by
  obtain ⟨c, hc⟩ := Option.ne_none_iff_exists'.1 hknown
  obtain ⟨c', hc', -⟩ := h proposalId c hc
  rw [hc']
  exact Option.some_ne_none c'

/-- A call that begins meets its specification, if the case it decides is known. -/
theorem meets_stepSpec (hS : S.Implements stored) (call : Call) :
    Program.Meets (Rely S) (StepSpec S stored proposalId call)
      (fun s => Decides proposalId call → S.find s proposalId ≠ none) (S.program call) := by
  apply Program.Meets.frame (X := fun s => Decides proposalId call → S.find s proposalId ≠ none)
  · exact fun s t hX hR hcall => known_rely (hX hcall) hR
  · exact fun s o t hQ => keepsCases_of_effect hQ.1
  · exact fun s hs => hs
  · apply hS.meets
    constructor
    · intro _ s t hR pid c hc hstatus
      obtain ⟨c', hc', -, hdecided⟩ := hR pid c hc
      exact ⟨c', hc', hdecided hstatus⟩
    · intro hcall s hs pid approved decidedBy note clock heq
      obtain ⟨_, _, _, _, heq'⟩ := hcall
      rw [heq'] at heq
      cases heq
      exact hs ⟨_, _, _, _, heq'⟩

/-- The id of an open case is all that is needed to decide it, and what an open case shows. -/
structure Audited (S : CaseStore) (stored : ApprovalCase → ApprovalCase) (proposalId : String)
    (P : Pool S.State StoreError Answer Call) : Prop where
  sound : Pool.Sound (Rely S) (StepSpec S stored proposalId) P
  unopened : S.find P.state proposalId = none → ∀ ca ∈ P.answers, ¬ Decides proposalId ca.1
  opened : ∀ c, (.openCase c, .ok (.opened true)) ∈ P.answers → c.proposalId = proposalId →
    c.status = .pending → c.createdAt.utc = true →
      ∃ row, S.find P.state proposalId = some row ∧ Settled c row P.answers

theorem audited_initial (S : CaseStore) (stored : ApprovalCase → ApprovalCase)
    (proposalId : String) :
    Audited S stored proposalId (Pool.initial S.empty) where
  sound := Pool.sound_initial _
  unopened _ ca hca := by cases hca
  opened c hc := by cases hc

/-- The first entry of a case: what was opened, and nothing decided. -/
theorem settled_opened (hstored : Preserves stored) {c : ApprovalCase}
    {answers : List (Call × Except StoreError Answer)}
    (hnone : ∀ ca ∈ answers, ¬ Decides c.proposalId ca.1) (hpending : c.status = .pending)
    (hutc : c.createdAt.utc = true) : Settled c (stored c) answers := by
  have hstatus : (stored c).status = .pending := by
    obtain ⟨result, createdAt, decidedAt, executedAt, hfields⟩ := hstored.fields c
    rw [hfields]
    exact hpending
  obtain ⟨hdecisions, hinstructions⟩ := noAnswers_of_forall hnone
  constructor
  · exact sameCase_stored hstored hutc
  · rw [hdecisions]
    exact Nat.zero_le 1
  · intro d hd
    rw [hdecisions] at hd
    cases hd
  · exact fun _ => hdecisions
  · rw [hstatus]
    exact fun happroved => by cases happroved
  · intro instruction hmem
    rw [hinstructions] at hmem
    cases hmem

/-- Every step of every call keeps the case, if nobody begins to decide it before it is known. -/
theorem audited_step (hS : S.Implements stored) {P P' : Pool S.State StoreError Answer Call}
    {a : PoolAction Call} (h : Audited S stored proposalId P)
    (hbegin : ∀ call, a = .begin call → Decides proposalId call → S.find P.state proposalId ≠ none)
    (hstep : Pool.step S.program P a = some P') : Audited S stored proposalId P' := by
  obtain ⟨hsound, hmoved⟩ := Pool.step_spec (R := Rely S) (Q := StepSpec S stored proposalId)
    (fun s => KeepsCases.refl (S.find s)) (fun _ _ _ hrs hst => KeepsCases.trans hrs hst)
    (fun call s o t hQ => keepsCases_of_effect hQ.1.1) hstep h.sound
    (fun call heq => ⟨fun s => Decides proposalId call → S.find s proposalId ≠ none,
      hbegin call heq, fun s t hs hR hcall => known_rely (hs hcall) hR, meets_stepSpec hS call⟩)
  -- Nothing happens to the store, or the one action of a call does.
  rcases hmoved with ⟨hstate, hanswers⟩ | ⟨⟨call, p⟩, -, o, ⟨⟨heffect, hshows⟩, hknown⟩, hanswers⟩
  · constructor
    · exact hsound
    · rw [hstate, hanswers]
      exact h.unopened
    · rw [hstate, hanswers]
      exact h.opened
  · have hanswers : P'.answers = answersWith P.answers call o := hanswers
    constructor
    · exact hsound
    -- No case is known by this id: no call on it was answered.
    · intro hnone ca hca
      have hbefore : S.find P.state proposalId = none := by
        by_contra hne
        exact known_rely hne (keepsCases_of_effect heffect) hnone
      rw [hanswers] at hca
      rcases List.mem_append.1 hca with hca | hca
      · exact h.unopened hbefore ca hca
      · obtain ⟨result, -, rfl⟩ := Option.map_eq_some_iff.1 (Option.mem_toList.1 hca)
        exact fun hcall => hknown hcall hbefore
    · rintro c hc rfl hpending hutc
      rw [hanswers] at hc ⊢
      rcases List.mem_append.1 hc with hc | hc
      · obtain ⟨row, hrow, hsettled⟩ := h.opened c hc rfl hpending hutc
        exact settled_step heffect hshows hrow hsettled
      · -- This step is the insert of the case.
        obtain ⟨result, ho, heq⟩ := Option.map_eq_some_iff.1 (Option.mem_toList.1 hc)
        cases heq
        rcases heffect with ⟨hnew, hset, -⟩ | ⟨-, hfalse⟩
        · refine ⟨stored c, by rw [hset, Registry.set_self], ?_⟩
          apply settled_opened hS.preserves _ hpending hutc
          intro ca hca
          rcases List.mem_append.1 hca with hca | hca
          · exact h.unopened hnew ca hca
          · obtain ⟨result, -, rfl⟩ := Option.map_eq_some_iff.1 (Option.mem_toList.1 hca)
            rintro ⟨_, _, _, _, heq⟩
            cases heq
        · exact absurd ho hfalse

end Pool

/-- Whatever calls run, in whatever order: once a case is open, one decision on it is recorded at
most, the case keeps that decision and what was opened, and whatever is sent to have it carried out
carries the proposal that was opened, with the approver and the note of that decision. -/
theorem first_decision_stands (database : Option Dialect) {before after : List (PoolAction Call)}
    {P P' : Pool (buildCaseStore database).State StoreError Answer Call} {c : ApprovalCase}
    (hbefore : Machine.run (Pool.step (buildCaseStore database).program)
      (Pool.initial (buildCaseStore database).empty) before = some P)
    (hunknown : ∀ call, Decides c.proposalId call → .begin call ∉ before)
    (hpending : c.status = .pending) (hutc : c.createdAt.utc = true)
    (hopened : (.openCase c, .ok (.opened true)) ∈ P.answers)
    (hafter : Machine.run (Pool.step (buildCaseStore database).program) P after = some P') :
    ∃ row, (buildCaseStore database).find P'.state c.proposalId = some row ∧
      Settled c row P'.answers ∧
        ∀ instruction ∈ instructionsOn c.proposalId P'.answers,
          ∃ d ∈ decisionsOn c.proposalId P'.answers,
            Carries c.proposal d.1.decidedBy d.1.note instruction := by
  have hS := buildCaseStore_implements database
  have haudited : Audited (buildCaseStore database) (storedCase database) c.proposalId P := by
    refine Machine.run_induct_along (C := fun _ a => ∀ call, a = .begin call →
      ¬ Decides c.proposalId call) ?_ (audited_initial _ _ _) ?_ hbefore
    · intro Q a Q' hQ hC hstep
      exact audited_step hS hQ (fun call heq hcall => absurd hcall (hC call heq)) hstep
    · apply Machine.along_of_forall
      rintro a ha Q call rfl hcall
      exact hunknown call hcall ha
  -- From here on the case is in the store.
  have hboth : Audited (buildCaseStore database) (storedCase database) c.proposalId P' ∧
      (.openCase c, .ok (.opened true)) ∈ P'.answers := by
    refine Machine.run_induct (I := fun Q => Audited (buildCaseStore database)
      (storedCase database) c.proposalId Q ∧ (.openCase c, .ok (.opened true)) ∈ Q.answers)
      ?_ ⟨haudited, hopened⟩ hafter
    rintro Q a Q' ⟨hQ, hmem⟩ hstep
    obtain ⟨row, hrow, -⟩ := hQ.opened c hmem rfl hpending hutc
    have hknown : (buildCaseStore database).find Q.state c.proposalId ≠ none := by
      rw [hrow]
      exact Option.some_ne_none row
    exact ⟨audited_step hS hQ (fun _ _ _ => hknown) hstep,
      (Pool.answers_of_step hstep).subset hmem⟩
  obtain ⟨row, hrow, hsettled⟩ := hboth.1.opened c hboth.2 rfl hpending hutc
  refine ⟨row, hrow, hsettled, ?_⟩
  intro instruction hinstruction
  obtain ⟨d, hd, rfl⟩ := hsettled.instructed instruction hinstruction
  exact ⟨d, hd, carries_executionInstruction { c with decidedBy := d.1.decidedBy, note := d.1.note }⟩

/-- A case is opened, with nobody to decide it yet. -/
def raced : ApprovalCase :=
  { caseId := "case-1", proposalId := "p1", agent := "math", action := "publish_result",
    summary := "", proposal := [("value", .str "391"), ("label", .str "q3")],
    createdAt := DateTime.now 0 }

def opening : List (PoolAction Call) := [.begin (.openCase raced), .advance 0, .advance 0]

/-- Two reviewers at once: alice's `UPDATE` comes first, bob is told what she decided. -/
def racing : List (PoolAction Call) :=
  [.begin (.decide "p1" true "alice" "ok" 1), .begin (.decide "p1" false "bob" "no" 2),
   .advance 0, .advance 0, .advance 0]

theorem first_decision_stands_racing :
    ∃ P P' row, Machine.run (Pool.step (buildCaseStore (some .sqlite)).program)
        (Pool.initial (buildCaseStore (some .sqlite)).empty) opening = some P ∧
      Machine.run (Pool.step (buildCaseStore (some .sqlite)).program) P racing = some P' ∧
      (buildCaseStore (some .sqlite)).find P'.state "p1" = some row ∧ Settled raced row P'.answers ∧
      (instructionsOn "p1" P'.answers).length = 2 ∧
      ∀ instruction ∈ instructionsOn "p1" P'.answers,
        Carries [("value", .str "391"), ("label", .str "q3")] "alice" "ok" instruction := by
  have hruns : ∃ P P', Machine.run (Pool.step (buildCaseStore (some .sqlite)).program)
        (Pool.initial (buildCaseStore (some .sqlite)).empty) opening = some P ∧
      Machine.run (Pool.step (buildCaseStore (some .sqlite)).program) P racing = some P' ∧
      (.openCase raced, .ok (.opened true)) ∈ P.answers ∧
      (instructionsOn "p1" P'.answers).length = 2 ∧
      decisionsOn "p1" P'.answers = [(⟨true, "ok", "alice"⟩, 1)] :=
    ⟨_, _, rfl, rfl, List.mem_singleton.2 rfl, rfl, rfl⟩
  obtain ⟨P, P', hopening, hracing, hopened, hsent, hdecisions⟩ := hruns
  have hunknown : ∀ call, Decides raced.proposalId call → .begin call ∉ opening := by
    rintro call ⟨_, _, _, _, rfl⟩
    simp [opening]
  obtain ⟨row, hrow, hsettled, hcarries⟩ :=
    first_decision_stands (some .sqlite) hopening hunknown rfl rfl hopened hracing
  refine ⟨P, P', row, hopening, hracing, hrow, hsettled, hsent, ?_⟩
  intro instruction hinstruction
  obtain ⟨d, hd, hcarried⟩ := hcarries instruction hinstruction
  have hd : d ∈ decisionsOn "p1" P'.answers := hd
  rw [hdecisions, List.mem_singleton] at hd
  rw [hd] at hcarried
  exact hcarried

end AgentCluster.Service
