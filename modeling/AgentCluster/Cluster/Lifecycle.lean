import AgentCluster.Cluster.Registry

/-!
# The lifecycle of a case

Calls of a store, one after another, with any arguments. The documented lifecycle is
`pending -> approved -> executed` and `pending -> rejected`, with `failed` as the other end of an
execution. `decide` keeps to it; `record_execution` writes whatever the status is, and
`follows_lifecycle_iff` says for which sequences of calls the lifecycle is kept.
-/

set_option autoImplicit false

namespace AgentCluster.Cluster

open Python Library

/-- The edges of the lifecycle. -/
inductive Status.Edge : Status → Status → Prop
  | approve : Edge .pending .approved
  | reject : Edge .pending .rejected
  | execute : Edge .approved .executed
  | fail : Edge .approved .failed

/-- What must not change once a case is closed. -/
structure SameClosing (c c' : ApprovalCase) : Prop where
  status : c'.status = c.status
  result : c'.result = c.result
  executedAt : c'.executedAt = c.executedAt
  decidedBy : c'.decidedBy = c.decidedBy
  note : c'.note = c.note
  decidedAt : c'.decidedAt = c.decidedAt

/-- A change of the registry that the lifecycle allows: no case disappears, every status stays or
moves along an edge, and closed cases are left alone. -/
def KeepsLifecycle (r r' : Registry) : Prop :=
  ∀ proposalId c, r proposalId = some c →
    ∃ c', r' proposalId = some c' ∧
      (c'.status = c.status ∨ Status.Edge c.status c'.status) ∧
      (c.status.terminal = true → SameClosing c c')

/-- Recording an execution changes nothing unless the case is approved. -/
def RecordsApprovedOnly (call : Call) (r r' : Registry) : Prop :=
  ∀ proposalId succeeded result clock, call = .recordExecution proposalId succeeded result clock →
    ∀ c, r proposalId = some c → c.status ≠ .approved → r' = r

/-- The call is not a record on a case that is not approved, or such a record writes what is there. -/
def ClosesApproved (r : Registry) (call : Call) : Prop :=
  ∀ proposalId succeeded result clock, call = .recordExecution proposalId succeeded result clock →
    ∀ c, r proposalId = some c → c.status ≠ .approved →
      c.closed succeeded result (DateTime.now clock) = c

namespace KeepsLifecycle

theorem refl (r : Registry) : KeepsLifecycle r r := by
  intro proposalId c hc
  exact ⟨c, hc, Or.inl rfl, fun _ => ⟨rfl, rfl, rfl, rfl, rfl, rfl⟩⟩

/-- A change of one case along the lifecycle. -/
theorem set {r : Registry} {proposalId : String} {c c' : ApprovalCase}
    (h : r proposalId = some c) (hstatus : c'.status = c.status ∨ Status.Edge c.status c'.status)
    (hclosed : c.status.terminal = true → SameClosing c c') :
    KeepsLifecycle r (r.set proposalId c') := by
  intro other d hd
  by_cases ho : other = proposalId
  · subst ho
    rw [h] at hd
    cases hd
    exact ⟨c', Registry.set_self r other c', hstatus, hclosed⟩
  · refine ⟨d, ?_, Or.inl rfl, fun _ => ⟨rfl, rfl, rfl, rfl, rfl, rfl⟩⟩
    rw [Registry.set_of_ne ho]
    exact hd

/-- A case under a new id. -/
theorem set_new {r : Registry} {proposalId : String} (h : r proposalId = none) (c : ApprovalCase) :
    KeepsLifecycle r (r.set proposalId c) := by
  intro other d hd
  refine ⟨d, ?_, Or.inl rfl, fun _ => ⟨rfl, rfl, rfl, rfl, rfl, rfl⟩⟩
  rw [Registry.set_of_ne]
  · exact hd
  · rintro rfl
    rw [h] at hd
    cases hd

end KeepsLifecycle

/-! ## One call of the registry -/

theorem keepsLifecycle_openCase (r : Registry) (proposalId : String) (c : ApprovalCase) :
    KeepsLifecycle r (r.openCase proposalId c).2 := by
  cases h : r proposalId with
  | none =>
    rw [Registry.openCase_new h]
    exact KeepsLifecycle.set_new h c
  | some c' =>
    rw [Registry.openCase_known h]
    exact KeepsLifecycle.refl r

theorem keepsLifecycle_decide (r : Registry) (proposalId : String) (approved : Bool)
    (decidedBy note : String) (clock : Nat) :
    KeepsLifecycle r (r.decide proposalId approved decidedBy note clock).2 := by
  cases h : r proposalId with
  | none =>
    rw [Registry.decide_missing h]
    exact KeepsLifecycle.refl r
  | some c =>
    by_cases hc : c.status = .pending
    · rw [Registry.decide_pending h hc]
      apply KeepsLifecycle.set h
      · rw [hc]
        cases approved with
        | true => exact Or.inr .approve
        | false => exact Or.inr .reject
      · rw [hc]
        intro hterminal
        cases hterminal
    · rw [Registry.decide_decided h hc]
      exact KeepsLifecycle.refl r

/-- Recording an execution keeps the lifecycle exactly when it meets the condition. -/
theorem keepsLifecycle_recordExecution_iff (r : Registry) (proposalId : String) (succeeded : Bool)
    (result : Dict) (clock : Nat) :
    let call := Call.recordExecution proposalId succeeded result clock
    let r' := (r.recordExecution proposalId succeeded result clock).2
    (KeepsLifecycle r r' ∧ RecordsApprovedOnly call r r') ↔ ClosesApproved r call := by
  dsimp only
  cases h : r proposalId with
  | none =>
    rw [Registry.recordExecution_missing h]
    constructor
    · intro _ _ _ _ _ heq c hc
      cases heq
      rw [h] at hc
      cases hc
    · exact fun _ => ⟨KeepsLifecycle.refl r, fun _ _ _ _ _ _ _ _ => rfl⟩
  | some c =>
    rw [Registry.recordExecution_known h]
    constructor
    -- The guard on the status is not in the store: a closed case keeps its row only if the record
    -- repeats it.
    · rintro ⟨-, honly⟩ _ _ _ _ heq c' hc' hstatus
      have hsame := honly _ _ _ _ heq c' hc' hstatus
      cases heq
      rw [h] at hc'
      cases hc'
      have hat : r.set proposalId (c.closed succeeded result (DateTime.now clock)) proposalId =
        r proposalId := congrFun hsame proposalId
      rw [Registry.set_self, h] at hat
      exact Option.some.inj hat
    · intro hcond
      by_cases hc : c.status = .approved
      · refine ⟨KeepsLifecycle.set h ?_ ?_, ?_⟩
        · rw [hc]
          cases succeeded with
          | true => exact Or.inr .execute
          | false => exact Or.inr .fail
        · rw [hc]
          intro hterminal
          cases hterminal
        · intro _ _ _ _ heq c' hc' hstatus
          cases heq
          rw [h] at hc'
          cases hc'
          exact absurd hc hstatus
      · -- The record writes what is there already.
        rw [hcond _ _ _ _ rfl c h hc, Registry.set_eq_self h]
        exact ⟨KeepsLifecycle.refl r, fun _ _ _ _ _ _ _ _ => rfl⟩

/-! ## Sequences of calls -/

namespace CaseStore

variable (S : CaseStore)

/-- The state after a call that runs alone. -/
def apply (s : S.State) (call : Call) : S.State := ((S.program call).run s).2

/-- The machine whose actions are calls, one after another. -/
def step (s : S.State) (call : Call) : Option S.State := some (S.apply s call)

/-- The call keeps the lifecycle in this state. -/
def CallKeepsLifecycle (s : S.State) (call : Call) : Prop :=
  KeepsLifecycle (S.find s) (S.find (S.apply s call)) ∧
    RecordsApprovedOnly call (S.find s) (S.find (S.apply s call))

section Apply

variable {S} {stored : ApprovalCase → ApprovalCase} (hS : S.Implements stored) (s : S.State)

include hS

theorem find_apply_openCase (c : ApprovalCase) :
    S.find (S.apply s (.openCase c)) = ((S.find s).openCase c.proposalId (stored c)).2 := by
  obtain ⟨s', hrun, hfind⟩ := hS.openCase_run c s
  rw [apply, program, Program.run_map, hrun]
  exact hfind

theorem find_apply_get (proposalId : String) :
    S.find (S.apply s (.get proposalId)) = S.find s := by
  rw [apply, program, Program.run_map, hS.get_run]

theorem find_apply_decide (proposalId : String) (approved : Bool) (decidedBy note : String)
    (clock : Nat) :
    S.find (S.apply s (.decide proposalId approved decidedBy note clock)) =
      ((S.find s).decide proposalId approved decidedBy note clock).2 := by
  obtain ⟨s', hrun, hfind⟩ := hS.decide_run proposalId approved decidedBy note clock s
  rw [apply, program, Program.run_map, hrun]
  exact hfind

theorem find_apply_recordExecution (proposalId : String) (succeeded : Bool) (result : Dict)
    (clock : Nat) :
    S.find (S.apply s (.recordExecution proposalId succeeded result clock)) =
      ((S.find s).recordExecution proposalId succeeded result clock).2 := by
  obtain ⟨s', hrun, hfind⟩ := hS.recordExecution_run proposalId succeeded result clock s
  rw [apply, program, Program.run_map, hrun]
  exact hfind

/-- Of all calls only a record on a case that is not approved leaves the lifecycle. -/
theorem callKeepsLifecycle_iff (call : Call) :
    S.CallKeepsLifecycle s call ↔ ClosesApproved (S.find s) call := by
  -- Only `record_execution` writes without looking at the status.
  have hother (hkeep : KeepsLifecycle (S.find s) (S.find (S.apply s call)))
      (hcall : ∀ proposalId succeeded result clock,
        call ≠ .recordExecution proposalId succeeded result clock) :
      S.CallKeepsLifecycle s call ↔ ClosesApproved (S.find s) call := by
    constructor
    · exact fun _ proposalId succeeded result clock heq => absurd heq (hcall _ _ _ _)
    · exact fun _ => ⟨hkeep, fun proposalId succeeded result clock heq => absurd heq (hcall _ _ _ _)⟩
  cases call with
  | openCase c =>
    apply hother
    · rw [find_apply_openCase hS]
      exact keepsLifecycle_openCase _ _ _
    · exact fun _ _ _ _ heq => by cases heq
  | get proposalId =>
    apply hother
    · rw [find_apply_get hS]
      exact KeepsLifecycle.refl _
    · exact fun _ _ _ _ heq => by cases heq
  | decide proposalId approved decidedBy note clock =>
    apply hother
    · rw [find_apply_decide hS]
      exact keepsLifecycle_decide _ _ _ _ _ _
    · exact fun _ _ _ _ heq => by cases heq
  | recordExecution proposalId succeeded result clock =>
    rw [CallKeepsLifecycle, find_apply_recordExecution hS]
    exact keepsLifecycle_recordExecution_iff _ _ _ _ _

end Apply

end CaseStore

/-- A sequence of calls keeps the lifecycle at every step exactly when it records executions of
approved cases only, repetitions of the same record apart. -/
theorem follows_lifecycle_iff (database : Option Dialect) (calls : List Call) :
    let S := buildCaseStore database
    Machine.Along S.step S.CallKeepsLifecycle S.empty calls ↔
      Machine.Along S.step (fun s call => ClosesApproved (S.find s) call) S.empty calls := by
  apply Machine.along_congr (I := fun _ => True)
  · exact fun _ _ _ _ _ => trivial
  · intro s call _
    exact CaseStore.callKeepsLifecycle_iff (buildCaseStore_implements database) s call
  · trivial

/-- An execution recorded on a rejected case. -/
def recordAfterRejection : List Call :=
  [.openCase { caseId := "case-1", proposalId := "p1", agent := "math", action := "publish_result",
               summary := "", createdAt := DateTime.now 0 },
   .decide "p1" false "reviewer" "" 1,
   .recordExecution "p1" true [] 2]

theorem not_along_recordAfterRejection (database : Option Dialect) :
    ¬ Machine.Along (buildCaseStore database).step (buildCaseStore database).CallKeepsLifecycle
      (buildCaseStore database).empty recordAfterRejection := by
  intro hkeeps
  obtain ⟨-, hkeeps⟩ := hkeeps
  obtain ⟨-, hkeeps⟩ := hkeeps _ rfl
  obtain ⟨hthird, -⟩ := hkeeps _ rfl
  rw [CaseStore.callKeepsLifecycle_iff (buildCaseStore_implements database)] at hthird
  generalize hs : (buildCaseStore database).apply _ _ = s at hthird
  have hrow : ((buildCaseStore database).find s "p1").map ApprovalCase.status = some .rejected := by
    subst hs
    rcases database with _ | _ | _ <;> decide
  obtain ⟨c, hc, hstatus⟩ := Option.map_eq_some_iff.1 hrow
  have hclosed := hthird _ _ _ _ rfl c hc (by rw [hstatus]; decide)
  have hexecuted : (c.closed true [] (DateTime.now 2)).status = .executed := rfl
  rw [hclosed, hstatus] at hexecuted
  cases hexecuted

theorem recordAfterRejection_leaves_lifecycle :
    ¬ (Machine.Along (buildCaseStore none).step (buildCaseStore none).CallKeepsLifecycle
        (buildCaseStore none).empty recordAfterRejection) ∧
      ¬ (Machine.Along (buildCaseStore (some .postgresql)).step
        (buildCaseStore (some .postgresql)).CallKeepsLifecycle
        (buildCaseStore (some .postgresql)).empty recordAfterRejection) :=
  ⟨not_along_recordAfterRejection none, not_along_recordAfterRejection (some .postgresql)⟩

end AgentCluster.Cluster
