import AgentCluster.Service.Soundness

/-!
# How often an action is carried out

The check that a case has not run yet and the record that it has are two steps with a whole turn in
between. `carriedOutOnce_iff` says which runs carry every action out at most once: those in which a
turn is confirmed only while no confirmed turn for the case is recorded or waits to be.
-/

set_option autoImplicit false

namespace AgentCluster.Service

open Python Library Adk Cluster Agents

/-- The end of a turn whose texts confirm the action of the case. -/
def Entry.confirmedFor (proposalId : String) : Entry → Bool
  | .turned _ pid _ (some _) => pid == proposalId
  | _ => false

/-- The confirmed turns of a case. -/
def confirmedTurns (proposalId : String) (log : List Entry) : List Entry :=
  log.filter (Entry.confirmedFor proposalId)

/-- No case has two confirmed turns. -/
def CarriedOutOnce {State : Type} (σ : System State) : Prop :=
  ∀ proposalId, (confirmedTurns proposalId σ.log).length ≤ 1

/-- Some handler, lost or not, has a confirmed turn of the case to record. -/
def Unrecorded (σ : System Registry) (proposalId : String) : Prop :=
  ∃ (i : Nat) (x : Handler) (c : ApprovalCase) (turn : TurnResult) (performed : Dict),
    σ.handlers[i]? = some x ∧ x.phase = .recording proposalId c turn performed

/-- The case is recorded as executed. -/
def Recorded (σ : System Registry) (proposalId : String) : Prop :=
  ∃ row, σ.store proposalId = some row ∧ row.status = .executed

/-- A turn that ends confirmed is the first of its case: none is recorded, and none waits to be. -/
def ConfirmsFirst (σ : System Registry) (a : Action) : Prop :=
  ∀ h, a = .resume h .turnEnd →
    ∀ (handler : Handler) (proposalId : String) (c : ApprovalCase) (turn : TurnResult),
      σ.handlers[h]? = some handler → handler.phase = .executing proposalId c turn →
        (findExecution turn.texts c.proposal).isSome = true →
          ¬ Recorded σ proposalId ∧ ¬ Unrecorded σ proposalId

/-- A confirmed turn is recorded or waits to be. -/
def Accounted (σ : System Registry) : Prop :=
  ∀ proposalId, confirmedTurns proposalId σ.log ≠ [] →
    Recorded σ proposalId ∨ Unrecorded σ proposalId

theorem confirmedTurns_append (proposalId : String) (log entries : List Entry) :
    confirmedTurns proposalId (log ++ entries) =
      confirmedTurns proposalId log ++ confirmedTurns proposalId entries :=
  List.filter_append ..

theorem confirmedTurns_ne_nil {proposalId : String} {log : List Entry} {h : Nat}
    {texts : List String} {performed : Dict}
    (hmem : Entry.turned h proposalId texts (some performed) ∈ log) :
    confirmedTurns proposalId log ≠ [] := by
  apply List.ne_nil_of_mem
  exact List.mem_filter.2 ⟨hmem, beq_self_eq_true proposalId⟩

section Steps

variable {σ : System Registry}

/-- What is recorded was confirmed. -/
theorem confirmedTurns_of_recorded (hs : Sound σ) {proposalId : String}
    (h : Recorded σ proposalId) : confirmedTurns proposalId σ.log ≠ [] := by
  obtain ⟨row, hrow, hstatus⟩ := h
  obtain ⟨rfl, hsound⟩ := hs.rows proposalId row hrow
  obtain ⟨-, -, performed, -, i, decision, c', j, instruction, texts, -, hsub, -⟩ :=
    hsound.executed hstatus
  have hmem : Entry.turned j row.proposalId texts (some performed) ∈ σ.log :=
    hsub.subset (by simp)
  exact confirmedTurns_ne_nil hmem

/-- What waits to be recorded was confirmed. -/
theorem confirmedTurns_of_unrecorded (hs : Sound σ) {proposalId : String}
    (h : Unrecorded σ proposalId) : confirmedTurns proposalId σ.log ≠ [] := by
  obtain ⟨i, x, c, turn, performed, hx, hphase⟩ := h
  have hholds := hs.handlers i x hx
  rw [hphase] at hholds
  obtain ⟨-, -, j, decision, c', instruction, -, hsub⟩ := hholds
  have hmem : Entry.turned i proposalId turn.texts (some performed) ∈ σ.log :=
    hsub.subset (by simp)
  exact confirmedTurns_ne_nil hmem

end Steps

section Moves

variable [UnicodeData] {stored : ApprovalCase → ApprovalCase} {σ τ : System Registry} {a : Action}

/-- Only the end of an execution turn confirms, and then the handler waits to record. -/
theorem Move.confirmedTurns_eq {h : Nat} {r r' : Registry} {phase next : Phase} {what : Resume}
    {entries : List Entry} (hmove : Move stored h r phase what next r' entries)
    (proposalId : String) :
    confirmedTurns proposalId entries = [] ∨
      ∃ c turn performed, phase = .executing proposalId c turn ∧ what = .turnEnd ∧
        findExecution turn.texts c.proposal = some performed ∧
          next = .recording proposalId c turn performed ∧
            confirmedTurns proposalId entries =
              [.turned h proposalId turn.texts (some performed)] := by
  cases hmove with
  | @confirmed pid c turn performed hsome =>
    by_cases hpid : pid = proposalId
    · subst hpid
      exact Or.inr ⟨c, turn, performed, rfl, rfl, hsome, rfl,
        by simp [confirmedTurns, Entry.confirmedFor]⟩
    · exact Or.inl (by simp [confirmedTurns, Entry.confirmedFor, hpid])
  | _ => exact Or.inl (by simp [confirmedTurns, Entry.confirmedFor])

/-- An executed case stays executed. -/
theorem recorded_step (hstep : Step stored σ a τ) {proposalId : String}
    (h : Recorded σ proposalId) : Recorded τ proposalId := by
  obtain ⟨row, hrow, hstatus⟩ := h
  -- A row that is written again is still executed.
  have hset {pid : String} {c' : ApprovalCase}
      (hpid : pid = proposalId → c'.status = .executed) :
      ∃ row, (σ.store.set pid c') proposalId = some row ∧ row.status = .executed := by
    by_cases heq : proposalId = pid
    · subst heq
      exact ⟨c', Registry.set_self _ _ _, hpid rfl⟩
    · exact ⟨row, by rw [Registry.set_of_ne heq, hrow], hstatus⟩
  cases hstep with
  | requested => exact ⟨row, hrow, hstatus⟩
  | @moved h handler what next r entries hhandler hlive hmove =>
    show ∃ row, r proposalId = some row ∧ row.status = .executed
    generalize handler.phase = phase at hmove
    cases hmove with
    | opened _ hnew =>
      apply hset
      rintro rfl
      rw [hrow] at hnew
      cases hnew
    -- A decision is recorded on a pending case only.
    | approved hrow' hpending | rejected hrow' hpending =>
      apply hset
      rintro rfl
      rw [hrow] at hrow'
      cases hrow'
      rw [hstatus] at hpending
      cases hpending
    | recorded => exact hset fun _ => rfl
    | _ => exact ⟨row, hrow, hstatus⟩
  | proposed => exact ⟨row, hrow, hstatus⟩
  | published => exact ⟨row, hrow, hstatus⟩
  | aborted => exact ⟨row, hrow, hstatus⟩

/-- What waits to be recorded goes on waiting, or is recorded. -/
theorem unrecorded_step (hs : Sound σ) (hstep : Step stored σ a τ) {proposalId : String}
    (h : Unrecorded σ proposalId) : Recorded τ proposalId ∨ Unrecorded τ proposalId := by
  obtain ⟨i, x, c, turn, performed, hx, hphase⟩ := h
  obtain ⟨y, hy, -, hsame | ⟨what, entries, -, hmove, -⟩⟩ := hstep.handler_next hx
  · exact Or.inr ⟨i, y, c, turn, performed, hy, hsame.trans hphase⟩
  · have hholds := hs.handlers i x hx
    rw [hphase] at hmove hholds
    generalize hstore : τ.store = r at hmove
    generalize y.phase = next at hmove
    cases hmove with
    | @recorded _ _ row _ _ clock =>
      refine Or.inl ⟨row.closed true performed (DateTime.now clock), ?_, rfl⟩
      rw [hstore]
      exact Registry.set_self _ _ _
    | lost hrow =>
      obtain ⟨⟨row, hrow', -⟩, -⟩ := hholds
      rw [hrow] at hrow'
      cases hrow'

theorem accounted_step (hs : Sound σ) (haccounted : Accounted σ) (hstep : Step stored σ a τ) :
    Accounted τ := by
  intro proposalId hne
  have hold (h : confirmedTurns proposalId σ.log ≠ []) :
      Recorded τ proposalId ∨ Unrecorded τ proposalId := by
    rcases haccounted proposalId h with hrecorded | hunrecorded
    · exact Or.inl (recorded_step hstep hrecorded)
    · exact unrecorded_step hs hstep hunrecorded
  have hstay := hstep
  cases hstep with
  | requested => exact hold hne
  | @moved h handler what next r entries hhandler hlive hmove =>
    rcases hmove.confirmedTurns_eq proposalId with hnone | hconfirmed
    · apply hold
      rw [confirmedTurns_append, hnone, List.append_nil] at hne
      exact hne
    · obtain ⟨c, turn, performed, -, -, -, rfl, -⟩ := hconfirmed
      have hlt := (List.getElem?_eq_some_iff.1 hhandler).1
      exact Or.inr ⟨h, _, c, turn, performed, List.getElem?_set_self hlt, rfl⟩
  | proposed | published =>
    apply hold
    rw [confirmedTurns_append] at hne
    simpa [confirmedTurns, Entry.confirmedFor] using hne
  | aborted => exact hold hne

/-- A first confirmation leaves every case with one at most. -/
theorem carriedOutOnce_step (haccounted : Accounted σ) (honce : CarriedOutOnce σ)
    (hC : ConfirmsFirst σ a) (hstep : Step stored σ a τ) : CarriedOutOnce τ := by
  intro proposalId
  cases hstep with
  | requested => exact honce proposalId
  | @moved h handler what next r entries hhandler hlive hmove =>
    show (confirmedTurns proposalId (σ.log ++ entries)).length ≤ 1
    rw [confirmedTurns_append]
    generalize hphase : handler.phase = phase at hmove
    rcases hmove.confirmedTurns_eq proposalId with hnone | hconfirmed
    · rw [hnone, List.append_nil]
      exact honce proposalId
    -- A turn that is confirmed now: no turn of the case was confirmed before.
    · obtain ⟨c, turn, performed, rfl, rfl, hsome, -, hentries⟩ := hconfirmed
      obtain ⟨hrecorded, hunrecorded⟩ :=
        hC h rfl handler proposalId c turn hhandler hphase (by rw [hsome]; rfl)
      have hfirst : confirmedTurns proposalId σ.log = [] := by
        by_contra hne
        rcases haccounted proposalId hne with hyes | hyes
        · exact hrecorded hyes
        · exact hunrecorded hyes
      rw [hfirst, hentries]
      exact Nat.le_refl 1
  | proposed | published =>
    show (confirmedTurns proposalId (σ.log ++ _)).length ≤ 1
    rw [confirmedTurns_append]
    simpa [confirmedTurns, Entry.confirmedFor] using honce proposalId
  | aborted => exact honce proposalId

theorem carriedOutOnce_back (hstep : Step stored σ a τ) (hτ : CarriedOutOnce τ) :
    CarriedOutOnce σ := by
  intro proposalId
  obtain ⟨entries, hlog⟩ := hstep.log_prefix
  have hlength := hτ proposalId
  rw [hlog, confirmedTurns_append, List.length_append] at hlength
  omega

/-- A second confirmation leaves the case with two. -/
theorem confirmsFirst_of_carriedOutOnce (hs : Sound σ) (hstep : Step stored σ a τ)
    (hτ : CarriedOutOnce τ) : ConfirmsFirst σ a := by
  rintro h rfl handler proposalId c turn hhandler hphase hsome
  obtain ⟨performed, hsome⟩ := Option.isSome_iff_exists.1 hsome
  have hlength := hτ proposalId
  have hfirst : confirmedTurns proposalId σ.log = [] := by
    cases hstep with
    | @moved _ handler' _ next r entries hhandler' hlive hmove =>
      rw [hhandler] at hhandler'
      cases hhandler'
      rw [hphase] at hmove
      cases hmove with
      | unconfirmed hnone =>
        rw [hsome] at hnone
        cases hnone
      | confirmed hsome' =>
        rw [confirmedTurns_append, List.length_append] at hlength
        simp only [confirmedTurns, Entry.confirmedFor, List.filter_cons, beq_self_eq_true, if_true,
          List.length_cons] at hlength
        apply List.eq_nil_of_length_eq_zero
        rw [confirmedTurns]
        omega
  constructor
  · exact fun hrecorded => confirmedTurns_of_recorded hs hrecorded hfirst
  · exact fun hunrecorded => confirmedTurns_of_unrecorded hs hunrecorded hfirst

end Moves

/-- In a run every case has one confirmed turn at most exactly when no turn is confirmed for a case
that is executed already, or that another confirmed turn is about to be recorded for. -/
theorem carriedOutOnce_iff [UnicodeData] (database : Option Dialect) (actions : List Action)
    {σ : System (atomic (buildCaseStore database)).State}
    (hrun : run (atomic (buildCaseStore database)) actions = some σ) :
    CarriedOutOnce σ ↔
      Machine.Along (step (atomic (buildCaseStore database)))
        (fun ρ a => ConfirmsFirst (ρ.abstract (buildCaseStore database)) a)
        (initial (atomic (buildCaseStore database))) actions := by
  have hS := buildCaseStore_implements database
  rw [along_abstract hS]
  show CarriedOutOnce (σ.abstract (buildCaseStore database)) ↔ _
  refine Machine.run_iff_along (I := fun ρ => Sound ρ ∧ Accounted ρ) (J := CarriedOutOnce)
    ?_ ?_ ?_ ?_ ?_ ?_ ?_ (run_abstract hS hrun)
  · rintro _ _ _ ⟨hs, haccounted⟩ hstep
    exact ⟨sound_step hS.preserves hs hstep, accounted_step hs haccounted (step_cases hstep)⟩
  · rintro _ _ _ ⟨-, haccounted⟩ honce hC hstep
    exact carriedOutOnce_step haccounted honce hC (step_cases hstep)
  · exact fun _ _ honce => honce
  · exact fun _ _ _ hstep hP => carriedOutOnce_back (step_cases hstep) hP
  · exact fun _ _ _ hI hstep hP => confirmsFirst_of_carriedOutOnce hI.1 (step_cases hstep) hP
  · exact ⟨sound_initial _, fun _ hne => absurd rfl hne⟩
  · exact fun _ => Nat.zero_le 1

/-! ## Two reviewers at once -/

section Scenario

attribute [local instance] asciiData

/-- Two reviewers approve, and both requests go on to a turn that publishes. -/
def twoReviewers : List Action :=
  [.request (.decide "p1" { approved := true, decidedBy := "alice" } "case-user"),
   .request (.decide "p1" { approved := true, decidedBy := "bob" } "case-user"),
   .resume 1 (.decide 1), .resume 2 (.decide 2)] ++ publishing 1 ++ publishing 2

theorem run_twoReviewers :
    ∃ σ, run (atomic (buildCaseStore none)) (proposing ++ twoReviewers) = some σ ∧
      (confirmedTurns "p1" σ.log).length = 2 ∧ σ.publications.length = 2 :=
  ⟨_, Machine.run_append.2 ⟨opened391, run_proposing, Machine.run_of_step rfl <|
    Machine.run_of_step rfl <| Machine.run_of_step rfl <| Machine.run_of_step rfl <|
    Machine.run_of_step rfl <| Machine.run_of_step rfl <|
    Machine.run_of_step (step_resume rfl rfl (resume_confirmed findExecution_published391)) <|
    Machine.run_of_step rfl <| Machine.run_of_step rfl <|
    Machine.run_of_step (step_resume rfl rfl (resume_confirmed findExecution_published391)) rfl⟩,
    rfl, rfl⟩

theorem twoReviewers_publish_twice :
    ∃ σ, run (atomic (buildCaseStore none)) (proposing ++ twoReviewers) = some σ ∧
      ¬ CarriedOutOnce σ ∧ σ.publications.length = 2 := by
  obtain ⟨σ, hrun, htwice, hpublications⟩ := run_twoReviewers
  refine ⟨σ, hrun, ?_, hpublications⟩
  intro honce
  have hlength := honce "p1"
  omega

theorem carriedOutOnce_iff_twoReviewers :
    ¬ Machine.Along (step (atomic (buildCaseStore none)))
      (fun ρ a => ConfirmsFirst (ρ.abstract (buildCaseStore none)) a)
      (initial (atomic (buildCaseStore none))) (proposing ++ twoReviewers) := by
  obtain ⟨σ, hrun, htwice, -⟩ := run_twoReviewers
  intro halong
  have hlength := (carriedOutOnce_iff none _ hrun).2 halong "p1"
  omega

end Scenario

end AgentCluster.Service
