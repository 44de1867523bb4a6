import AgentCluster.Cluster.Lifecycle

/-!
# Calls one after another

What a sequence of calls answers. `Registry.call` is one call on the abstract registry; a backend that
implements the registry gives the same answers (`program_run`), provided that cases read back as they
were recorded. `IsSequential` says of calls and their results that they are those of a sequence.
-/

set_option autoImplicit false

namespace AgentCluster.Cluster

open Python Library

/-- A case nothing has been written to since it was made. -/
structure ApprovalCase.IsFresh (c : ApprovalCase) : Prop where
  createdAt : c.createdAt.utc = true
  result : c.result = none
  decidedAt : c.decidedAt = none
  executedAt : c.executedAt = none

/-- What a call answers, and the registry after it. -/
def Registry.call (r : Registry) : Call → Answer × Registry
  | .openCase c =>
      let p := r.openCase c.proposalId c
      (.opened p.1, p.2)
  | .get proposalId => (.found (r proposalId), r)
  | .decide proposalId approved decidedBy note clock =>
      let p := r.decide proposalId approved decidedBy note clock
      (.decided p.1.1 p.1.2, p.2)
  | .recordExecution proposalId succeeded result clock =>
      let p := r.recordExecution proposalId succeeded result clock
      (.updated p.1, p.2)

/-- The case a call opens reads back as it is. -/
def Call.ReadsBack (stored : ApprovalCase → ApprovalCase) (call : Call) : Prop :=
  ∀ c, call = .openCase c → stored c = c

/-- The case a call opens is fresh. -/
def Call.OpensFresh (call : Call) : Prop := ∀ c, call = .openCase c → c.IsFresh

theorem Preserves.of_isFresh {stored : ApprovalCase → ApprovalCase} (h : Preserves stored)
    {c : ApprovalCase} (hc : c.IsFresh) : stored c = c :=
  h.fresh c hc.createdAt hc.result hc.decidedAt hc.executedAt

theorem Preserves.readsBack {stored : ApprovalCase → ApprovalCase} (h : Preserves stored)
    {call : Call} (hcall : call.OpensFresh) : call.ReadsBack stored :=
  fun c hc => h.of_isFresh (hcall c hc)

/-- Alone, a call does on a backend what it does on the registry. -/
theorem CaseStore.Implements.program_run {S : CaseStore} {stored : ApprovalCase → ApprovalCase}
    (hS : S.Implements stored) (call : Call) (hcall : call.ReadsBack stored) (s : S.State) :
    ∃ s', (S.program call).run s = (.ok ((S.find s).call call).1, s') ∧
      S.find s' = ((S.find s).call call).2 := by
  cases call with
  | openCase c =>
    obtain ⟨s', hrun, hfind⟩ := hS.openCase_run c s
    rw [hcall c rfl] at hrun hfind
    refine ⟨s', ?_, hfind⟩
    rw [program, Program.run_map, hrun]
    rfl
  | get proposalId =>
    refine ⟨s, ?_, rfl⟩
    rw [program, Program.run_map, hS.get_run]
    rfl
  | decide proposalId approved decidedBy note clock =>
    obtain ⟨s', hrun, hfind⟩ := hS.decide_run proposalId approved decidedBy note clock s
    refine ⟨s', ?_, hfind⟩
    rw [program, Program.run_map, hrun]
    rfl
  | recordExecution proposalId succeeded result clock =>
    obtain ⟨s', hrun, hfind⟩ := hS.recordExecution_run proposalId succeeded result clock s
    refine ⟨s', ?_, hfind⟩
    rw [program, Program.run_map, hrun]
    rfl

/-! ## Results of a sequence -/

/-- A call with its result. -/
abbrev Result := Call × Except StoreError Answer

namespace CaseStore

variable (S : CaseStore)

/-- The results are those the store gives when the calls are made one after another from `s`. -/
def IsSequential : S.State → List Result → Prop
  | _, [] => True
  | s, (call, result) :: rest =>
      ((S.program call).run s).1 = result ∧ IsSequential (S.apply s call) rest

/-- The state after a sequence of calls. -/
def after (s : S.State) (calls : List Call) : S.State := calls.foldl S.apply s

variable {S}

theorem isSequential_concat {s : S.State} {results : List Result} {call : Call}
    {result : Except StoreError Answer} (h : S.IsSequential s results)
    (hlast : ((S.program call).run (S.after s (results.map Prod.fst))).1 = result) :
    S.IsSequential s (results ++ [(call, result)]) := by
  induction results generalizing s with
  | nil => exact ⟨hlast, trivial⟩
  | cons first rest ih => exact ⟨h.1, ih h.2 hlast⟩

theorem after_concat (s : S.State) (calls : List Call) (call : Call) :
    S.after s (calls ++ [call]) = S.apply (S.after s calls) call := by
  rw [after, List.foldl_append]
  rfl

/-- One step of a sequence, seen on the registry. -/
theorem Implements.isSequential_cons {stored : ApprovalCase → ApprovalCase}
    (hS : S.Implements stored) {s : S.State} {call : Call} {result : Except StoreError Answer}
    {rest : List Result} (hcall : call.ReadsBack stored)
    (h : S.IsSequential s ((call, result) :: rest)) :
    result = .ok ((S.find s).call call).1 ∧
      S.find (S.apply s call) = ((S.find s).call call).2 ∧ S.IsSequential (S.apply s call) rest := by
  obtain ⟨s', hrun, hfind⟩ := hS.program_run call hcall s
  obtain ⟨hresult, hrest⟩ := h
  rw [hrun] at hresult
  refine ⟨hresult.symm, ?_, hrest⟩
  rw [apply, hrun]
  exact hfind

end CaseStore

/-! ## What holds of every sequence -/

/-- The call opens a case with this proposal id. -/
def Call.opens (proposalId : String) : Call → Bool
  | .openCase c => c.proposalId == proposalId
  | _ => false

/-- The call recorded a case with this proposal id. -/
def recorded (proposalId : String) : Result → Bool
  | (call, .ok (.opened true)) => call.opens proposalId
  | _ => false

/-- How one call bears on a proposal id. -/
theorem Registry.call_spec (r : Registry) (call : Call) (proposalId : String) :
    recorded proposalId (call, .ok (r.call call).1) =
        (call.opens proposalId && (r proposalId).isNone) ∧
      ((r.call call).2 proposalId).isNone =
        ((r proposalId).isNone && !call.opens proposalId) := by
  -- The calls that open nothing write only where there is a case already.
  have hset {pid : String} {c c' : ApprovalCase} (h : r pid = some c) :
      (r.set pid c' proposalId).isNone = ((r proposalId).isNone && !false) := by
    by_cases hpid : proposalId = pid
    · subst hpid
      rw [Registry.set_self, h]
      rfl
    · rw [Registry.set_of_ne hpid, Bool.not_false, Bool.and_true]
  have hsame : (r proposalId).isNone = ((r proposalId).isNone && !false) := (Bool.and_true _).symm
  cases call with
  | openCase c =>
    rw [Registry.call, Call.opens, recorded.eq_def]
    cases h : r c.proposalId with
    | some c' =>
      rw [Registry.openCase_known h]
      by_cases hpid : c.proposalId = proposalId
      · subst hpid
        simp [h]
      · simp [hpid]
    | none =>
      rw [Registry.openCase_new h]
      by_cases hpid : c.proposalId = proposalId
      · subst hpid
        simp [h, Call.opens]
      · simp [hpid, Call.opens, Registry.set_of_ne (Ne.symm hpid)]
  | get pid => exact ⟨rfl, hsame⟩
  | decide pid approved decidedBy note clock =>
    refine ⟨rfl, ?_⟩
    show ((r.decide pid approved decidedBy note clock).2 proposalId).isNone =
      ((r proposalId).isNone && !false)
    cases h : r pid with
    | none =>
      rw [Registry.decide_missing h]
      exact hsame
    | some c =>
      by_cases hc : c.status = .pending
      · rw [Registry.decide_pending h hc]
        exact hset h
      · rw [Registry.decide_decided h hc]
        exact hsame
  | recordExecution pid succeeded result clock =>
    refine ⟨rfl, ?_⟩
    show ((r.recordExecution pid succeeded result clock).2 proposalId).isNone =
      ((r proposalId).isNone && !false)
    cases h : r pid with
    | none =>
      rw [Registry.recordExecution_missing h]
      exact hsame
    | some c =>
      rw [Registry.recordExecution_known h]
      exact hset h

/-- The registry refuses to decide a decided case only. -/
theorem Registry.showsDecided_call (r : Registry) (call : Call) :
    ShowsDecided (some (.ok (r.call call).1)) := by
  intro c hc
  cases call with
  | decide pid approved decidedBy note clock =>
    rw [Registry.call] at hc
    cases h : r pid with
    | none =>
      rw [Registry.decide_missing h] at hc
      cases hc
    | some c' =>
      by_cases hc' : c'.status = .pending
      · rw [Registry.decide_pending h hc'] at hc
        cases hc
      · rw [Registry.decide_decided h hc'] at hc
        cases hc
        exact hc'
  | openCase c => cases hc
  | get pid => cases hc
  | recordExecution pid succeeded result clock => cases hc

section InMemory

variable {cases : InMemoryCaseStore.State} {results : List Result}

/-- No call of a sequence fails, and a refusal to decide shows a decided case. -/
theorem answered_of_isSequential (h : inMemoryCaseStore.IsSequential cases results) :
    ∀ result ∈ results,
      (∃ answer, result.2 = .ok answer) ∧ ShowsDecided (some result.2) := by
  induction results generalizing cases with
  | nil =>
    intro result hresult
    cases hresult
  | cons first rest ih =>
    obtain ⟨call, result⟩ := first
    obtain ⟨hresult, -, hrest⟩ :=
      InMemoryCaseStore.implements.isSequential_cons (fun _ _ => rfl) h
    intro result' hmem
    rcases List.mem_cons.1 hmem with rfl | hmem
    · refine ⟨⟨_, hresult⟩, ?_⟩
      rw [hresult]
      exact Registry.showsDecided_call _ call
    · exact ih hrest result' hmem

/-- A call that opens a case says whether it recorded it. -/
theorem opened_of_isSequential (h : inMemoryCaseStore.IsSequential cases results) :
    ∀ result ∈ results, ∀ proposalId, result.1.opens proposalId = true →
      result.2 = .ok (.opened true) ∨ result.2 = .ok (.opened false) := by
  induction results generalizing cases with
  | nil =>
    intro result hresult
    cases hresult
  | cons first rest ih =>
    obtain ⟨call, result⟩ := first
    obtain ⟨hresult, -, hrest⟩ :=
      InMemoryCaseStore.implements.isSequential_cons (fun _ _ => rfl) h
    intro result' hmem proposalId hopens
    rcases List.mem_cons.1 hmem with rfl | hmem
    · cases call with
      | openCase c =>
        rw [hresult]
        rcases Bool.eq_false_or_eq_true
          ((inMemoryCaseStore.find cases).openCase c.proposalId c).1 with hopened | hopened
        · exact Or.inl (congrArg (fun b => Except.ok (Answer.opened b)) hopened)
        · exact Or.inr (congrArg (fun b => Except.ok (Answer.opened b)) hopened)
      | get pid => cases hopens
      | decide pid approved decidedBy note clock => cases hopens
      | recordExecution pid succeeded result clock => cases hopens
    · exact ih hrest result' hmem proposalId hopens

/-- A new proposal id is recorded by exactly one of the calls that open it, a known one by none. -/
theorem countP_recorded (h : inMemoryCaseStore.IsSequential cases results) (proposalId : String) :
    results.countP (recorded proposalId) =
      if (inMemoryCaseStore.find cases proposalId).isNone = true ∧
        (results.any fun result => result.1.opens proposalId) = true then 1 else 0 := by
  induction results generalizing cases with
  | nil => simp
  | cons first rest ih =>
    obtain ⟨call, result⟩ := first
    obtain ⟨hresult, hfind, hrest⟩ :=
      InMemoryCaseStore.implements.isSequential_cons (fun _ _ => rfl) h
    obtain ⟨hnow, hlater⟩ :=
      Registry.call_spec (inMemoryCaseStore.find cases) call proposalId
    rw [List.countP_cons, ih hrest, hfind, hlater, hresult, hnow, List.any_cons]
    cases (inMemoryCaseStore.find cases proposalId).isNone with
    | false => simp
    | true =>
      cases call.opens proposalId with
      | false => rfl
      | true => simp

end InMemory

end AgentCluster.Cluster
