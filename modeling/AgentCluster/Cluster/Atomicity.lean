import AgentCluster.Cluster.Sequential

/-!
# The table under concurrency

Any number of calls over one table, one step per SQL statement. A call that takes two statements is
carried out by the last of them, so the calls in the order of their answers are a sequential order,
provided that the second statement finds what the first one found. `behavesAtomically_iff` says that
this is exactly when the table behaves like the store in memory.
-/

set_option autoImplicit false

namespace AgentCluster.Cluster

open Python Library

/-- What a caller may rely on: the results are those of the one-step store in some order, the first of
the calls that open a case records it and no other does, and a refusal to decide shows a decided
case. -/
structure BehavesAtomically (results : List Result) : Prop where
  sequential : ∃ order, order.Perm results ∧
    inMemoryCaseStore.IsSequential inMemoryCaseStore.empty order
  opens : ∀ proposalId, (∃ result ∈ results, result.1.opens proposalId = true) →
    results.countP (recorded proposalId) = 1 ∧
      ∀ result ∈ results, result.1.opens proposalId = true →
        result.2 = .ok (.opened true) ∨ result.2 = .ok (.opened false)
  decides : ∀ result ∈ results, ShowsDecided (some result.2)

/-- No call failed, and a refusal to decide showed a decided case. -/
def Answered (results : List Result) : Prop :=
  ∀ result ∈ results, (∃ answer, result.2 = .ok answer) ∧ ShowsDecided (some result.2)

/-- Of a sequence of calls the other guarantees follow. -/
theorem behavesAtomically_of_sequential {results order : List Result} (hperm : order.Perm results)
    (h : inMemoryCaseStore.IsSequential inMemoryCaseStore.empty order) :
    BehavesAtomically results := by
  refine ⟨⟨order, hperm, h⟩, ?_, ?_⟩
  · rintro proposalId ⟨result, hmem, hopens⟩
    constructor
    · have hany : (order.any fun result => result.1.opens proposalId) = true :=
        List.any_eq_true.2 ⟨result, hperm.mem_iff.2 hmem, hopens⟩
      rw [← hperm.countP_eq, countP_recorded h, if_pos ⟨rfl, hany⟩]
    · intro result' hmem' hopens'
      exact opened_of_isSequential h result' (hperm.mem_iff.2 hmem') proposalId hopens'
  · intro result hmem
    exact (answered_of_isSequential h result (hperm.mem_iff.2 hmem)).2

theorem BehavesAtomically.answered {results : List Result} (h : BehavesAtomically results) :
    Answered results := by
  obtain ⟨order, hperm, hseq⟩ := h.sequential
  intro result hmem
  exact answered_of_isSequential hseq result (hperm.mem_iff.2 hmem)

/-! ## Statements -/

namespace DatabaseCaseStore

variable {dialect : Dialect}

/-- The `INSERT` of `open`, after its `SELECT` found no row. -/
def insertCase (dialect : Dialect) (c : ApprovalCase) : Program Table StoreError Answer :=
  .exec (fun t => t.insert (newRow dialect c)) fun inserted =>
    if inserted then .ret (.opened true) else .raise .integrityError

/-- The `SELECT` of `decide`, after its `UPDATE` changed no row. -/
def selectDecided (proposalId : String) : Program Table StoreError Answer :=
  .exec (fun t => (t.select proposalId, t)) fun current =>
    match current.head? with
    | none => .ret (.decided .notFound none)
    | some existing => .ret (.decided .alreadyDecided (some (rowToCase existing)))

/-- A running call is before its first statement or before its second. -/
inductive Running (dialect : Dialect) : Call → Program Table StoreError Answer → Prop
  | first (call : Call) : Running dialect call ((databaseCaseStore dialect).program call)
  | insert (c : ApprovalCase) : Running dialect (.openCase c) (insertCase dialect c)
  | select (proposalId : String) (approved : Bool) (decidedBy note : String) (clock : Nat) :
      Running dialect (.decide proposalId approved decidedBy note clock) (selectDecided proposalId)

/-- The second statement of a call finds what the first one found: still no row to be in the way of an
`INSERT`, and still no pending row to read back. -/
structure Undisturbed (dialect : Dialect) (t : Table) (call : Call)
    (p : Program Table StoreError Answer) : Prop where
  insert : ∀ c, call = .openCase c → p = insertCase dialect c → t.row c.proposalId = none
  select : ∀ proposalId approved decidedBy note clock,
    call = .decide proposalId approved decidedBy note clock → p = selectDecided proposalId →
      ∀ row, t.row proposalId = some row → row.status ≠ .pending

/-- The statement ends its call as if the call had run alone at this moment. -/
structure Finishes (dialect : Dialect) (call : Call) (t : Table)
    (o : Option (Except StoreError Answer)) (t' : Table) : Prop where
  result : o = some (.ok (((databaseCaseStore dialect).find t).call call).1)
  find : (databaseCaseStore dialect).find t' = (((databaseCaseStore dialect).find t).call call).2

/-- The next statement of a call either ends it, or changes nothing and leaves it before another. -/
def StatementSpec (dialect : Dialect) (call : Call) (t : Table) :
    Program Table StoreError Answer → Prop
  | .atomic act next =>
      Finishes dialect call t (next t).outcome (act t) ∨
        (next t).outcome = none ∧ act t = t ∧ Running dialect call (next t)
  | _ => True

theorem statementSpec_exec {β : Type} {call : Call} {t : Table} {f : Table → β × Table}
    {k : β → Program Table StoreError Answer}
    (h : Finishes dialect call t (k (f t).1).outcome (f t).2 ∨
      (k (f t).1).outcome = none ∧ (f t).2 = t ∧ Running dialect call (k (f t).1)) :
    StatementSpec dialect call t (.exec f k) := h

section Statements

variable {t : Table}

theorem finishes_select {proposalId : String} (approved : Bool) (decidedBy note : String)
    (clock : Nat) (h : ∀ row, t.row proposalId = some row → row.status ≠ .pending) :
    StatementSpec dialect (.decide proposalId approved decidedBy note clock) t
      (selectDecided proposalId) := by
  apply statementSpec_exec
  left
  cases hrow : t.row proposalId with
  | none =>
    rw [show (t.select proposalId).head? = none from hrow]
    constructor
    · rw [Registry.call, Registry.decide_missing (find_of_row_none hrow)]
      rfl
    · rw [Registry.call, Registry.decide_missing (find_of_row_none hrow)]
  | some row =>
    have hdecided : (rowToCase row).status ≠ .pending := h row hrow
    rw [show (t.select proposalId).head? = some row from hrow]
    constructor
    · rw [Registry.call, Registry.decide_decided (find_of_row hrow) hdecided]
      rfl
    · rw [Registry.call, Registry.decide_decided (find_of_row hrow) hdecided]

theorem finishes_insert {c : ApprovalCase} (hfresh : c.IsFresh) (h : t.row c.proposalId = none) :
    StatementSpec dialect (.openCase c) t (insertCase dialect c) := by
  apply statementSpec_exec
  left
  obtain ⟨hok, hfind⟩ := @insert_stored dialect t c h
  rw [if_pos hok]
  constructor
  · rw [Registry.call, Registry.openCase_new (find_of_row_none h)]
    rfl
  · rw [Registry.call, Registry.openCase_new (find_of_row_none h), hfind,
      preserves_stored.of_isFresh hfresh]

theorem spec_get (proposalId : String) :
    StatementSpec dialect (.get proposalId) t
      ((databaseCaseStore dialect).program (.get proposalId)) := by
  show StatementSpec dialect _ t
    (.exec (fun t => (t.select proposalId, t)) fun rows => .ret (.found (rows.head?.map rowToCase)))
  exact statementSpec_exec (Or.inl ⟨rfl, rfl⟩)

theorem spec_openCase (c : ApprovalCase) :
    StatementSpec dialect (.openCase c) t ((databaseCaseStore dialect).program (.openCase c)) := by
  rw [program_openCase]
  apply statementSpec_exec
  cases h : t.row c.proposalId with
  | some row =>
    left
    rw [if_pos (by rw [show (t.select c.proposalId).head? = some row from h]; rfl)]
    constructor
    · rw [Registry.call, Registry.openCase_known (find_of_row h)]
      rfl
    · rw [Registry.call, Registry.openCase_known (find_of_row h)]
  | none =>
    right
    rw [if_neg (by rw [show (t.select c.proposalId).head? = none from h]; exact Bool.noConfusion)]
    exact ⟨rfl, rfl, .insert c⟩

theorem spec_decide (proposalId : String) (approved : Bool) (decidedBy note : String)
    (clock : Nat) :
    let call := Call.decide proposalId approved decidedBy note clock
    StatementSpec dialect call t ((databaseCaseStore dialect).program call) := by
  dsimp only
  rw [program_decide]
  apply statementSpec_exec
  by_cases hpending : ∃ row, t.row proposalId = some row ∧ row.status = .pending
  · left
    obtain ⟨row, h, hrow⟩ := hpending
    have hcase : (rowToCase row).status = .pending := hrow
    obtain ⟨hfirst, hfind⟩ :=
      @updatePending_hit dialect t proposalId decidedBy note approved clock row h hrow
    rw [hfirst]
    constructor
    · rw [Registry.call, Registry.decide_pending (find_of_row h) hcase,
        ← @rowToCase_decideRow dialect approved decidedBy note clock row]
      rfl
    · rw [Registry.call, Registry.decide_pending (find_of_row h) hcase]
      exact hfind
  · right
    rw [updatePending_miss fun row h hrow => hpending ⟨row, h, hrow⟩]
    exact ⟨rfl, rfl, .select proposalId approved decidedBy note clock⟩

theorem spec_recordExecution (proposalId : String) (succeeded : Bool) (result : Dict)
    (clock : Nat) :
    let call := Call.recordExecution proposalId succeeded result clock
    StatementSpec dialect call t ((databaseCaseStore dialect).program call) := by
  show StatementSpec dialect _ t
    (.exec (updateExecution dialect proposalId succeeded result clock) fun updated =>
      .ret (.updated (updated.head?.map rowToCase)))
  apply statementSpec_exec
  left
  cases h : t.row proposalId with
  | some row =>
    obtain ⟨hfirst, hfind⟩ := @updateExecution_hit dialect t proposalId succeeded result clock row h
    constructor
    · rw [hfirst, Registry.call, Registry.recordExecution_known (find_of_row h),
        ← @rowToCase_closeRow dialect succeeded result clock row]
      rfl
    · rw [Registry.call, Registry.recordExecution_known (find_of_row h)]
      exact hfind
  | none =>
    constructor
    · rw [updateExecution_miss h, Registry.call, Registry.recordExecution_missing (find_of_row_none h)]
      rfl
    · rw [updateExecution_miss h, Registry.call, Registry.recordExecution_missing (find_of_row_none h)]

/-- Every statement of every call, when it is not disturbed. -/
theorem statement_spec {call : Call} {p : Program Table StoreError Answer}
    (hp : Running dialect call p) (hfresh : call.OpensFresh)
    (hquiet : Undisturbed dialect t call p) : StatementSpec dialect call t p := by
  cases hp with
  | first =>
    cases call with
    | openCase c => exact spec_openCase c
    | get proposalId => exact spec_get proposalId
    | decide proposalId approved decidedBy note clock =>
      exact spec_decide proposalId approved decidedBy note clock
    | recordExecution proposalId succeeded result clock =>
      exact spec_recordExecution proposalId succeeded result clock
  | insert c => exact finishes_insert (hfresh c rfl) (hquiet.insert c rfl rfl)
  | select proposalId approved decidedBy note clock =>
    exact finishes_select approved decidedBy note clock (hquiet.select _ _ _ _ _ rfl rfl)

end Statements

/-! ## Runs -/

/-- Calls that run over one table. -/
abbrev Calls := Pool Table StoreError Answer Call

/-- A call begins, or the next statement of a running call is executed. -/
def step (dialect : Dialect) : Calls → PoolAction Call → Option Calls :=
  Pool.step (databaseCaseStore dialect).program

/-- The empty table and no call yet. -/
def initial (dialect : Dialect) : Calls := Pool.initial (databaseCaseStore dialect).empty

/-- The statement that is executed next is not disturbed. -/
def NextUndisturbed (dialect : Dialect) (P : Calls) (a : PoolAction Call) : Prop :=
  ∀ i call p, a = .advance i → P.running[i]? = some (call, p) →
    Undisturbed dialect P.state call p

/-- A call that begins opens a fresh case, if it opens one. -/
def BeginsFresh (a : PoolAction Call) : Prop := ∀ call, a = .begin call → call.OpensFresh

/-- The answers so far explain the table. -/
structure Explained (dialect : Dialect) (P : Calls) : Prop where
  sequential : inMemoryCaseStore.IsSequential inMemoryCaseStore.empty P.answers
  find : (databaseCaseStore dialect).find P.state =
    inMemoryCaseStore.find
      (inMemoryCaseStore.after inMemoryCaseStore.empty (P.answers.map Prod.fst))
  running : ∀ cp ∈ P.running, Running dialect cp.1 cp.2 ∧ cp.1.OpensFresh

theorem explained_initial : Explained dialect (initial dialect) where
  sequential := trivial
  find := rfl
  running := by
    intro cp hcp
    cases hcp

theorem explained_step {P P' : Calls} {a : PoolAction Call} (hP : Explained dialect P)
    (hquiet : NextUndisturbed dialect P a) (hfresh : BeginsFresh a)
    (h : step dialect P a = some P') : Explained dialect P' := by
  rcases Pool.step_cases h with ⟨call, rfl, rfl⟩ | ⟨i, call, act, next, rfl, hi, rfl⟩
  · refine ⟨hP.sequential, hP.find, ?_⟩
    intro cp hcp
    rcases List.mem_append.1 hcp with hcp | hcp
    · exact hP.running cp hcp
    · obtain rfl := List.mem_singleton.1 hcp
      exact ⟨.first call, hfresh call rfl⟩
  · obtain ⟨hrunning, hcall⟩ := hP.running _ (List.mem_of_getElem? hi)
    rcases statement_spec hrunning hcall (hquiet i _ _ rfl hi) with hdone | ⟨ho, hact, hnext⟩
    · -- The call takes effect now: it comes last in the sequential order.
      obtain ⟨m', hrun, hm'⟩ := InMemoryCaseStore.implements.program_run call
        (fun _ _ => rfl)
        (inMemoryCaseStore.after inMemoryCaseStore.empty (P.answers.map Prod.fst))
      rw [Pool.afterStep_answered hdone.result]
      constructor
      · apply CaseStore.isSequential_concat hP.sequential
        rw [hrun, hP.find]
      · rw [List.map_append, List.map_singleton, CaseStore.after_concat, CaseStore.apply, hrun, hm',
          ← hP.find]
        exact hdone.find
      · intro cp hcp
        exact hP.running cp (List.mem_of_mem_eraseIdx hcp)
    · rw [Pool.afterStep_running ho]
      refine ⟨hP.sequential, ?_, ?_⟩
      · show (databaseCaseStore dialect).find (act P.state) = _
        rw [hact]
        exact hP.find
      · intro cp hcp
        rcases List.mem_or_eq_of_mem_set hcp with hcp | rfl
        · exact hP.running cp hcp
        · exact ⟨hnext, hcall⟩

/-- A statement that is disturbed gives an answer no sequence of calls gives. -/
theorem undisturbed_of_answered {P P' : Calls} {a : PoolAction Call}
    (h : step dialect P a = some P') (hanswered : Answered P'.answers) :
    NextUndisturbed dialect P a := by
  rintro i call p rfl hi
  constructor
  · rintro c rfl rfl
    cases hrow : P.state.row c.proposalId with
    | none => rfl
    | some row =>
      have hlast : P'.answers = P.answers ++ [(.openCase c, .error .integrityError)] :=
        Pool.answers_of_last hi
          (by rw [@Table.insert_known P.state row (newRow dialect c) hrow]; rfl) h
      obtain ⟨⟨answer, herror⟩, -⟩ := hanswered (.openCase c, .error .integrityError)
        (by rw [hlast]; exact List.mem_append_right _ List.mem_cons_self)
      cases herror
  · rintro proposalId approved decidedBy note clock rfl rfl row hrow
    have hlast : P'.answers = P.answers ++ [(.decide proposalId approved decidedBy note clock,
        .ok (.decided .alreadyDecided (some (rowToCase row))))] := Pool.answers_of_last hi
      (by rw [show (P.state.select proposalId).head? = some row from hrow]; rfl) h
    obtain ⟨-, hshows⟩ := hanswered
      (.decide proposalId approved decidedBy note clock,
        .ok (.decided .alreadyDecided (some (rowToCase row))))
      (by rw [hlast]; exact List.mem_append_right _ List.mem_cons_self)
    have hstatus := hshows (rowToCase row) rfl
    exact hstatus

end DatabaseCaseStore

open DatabaseCaseStore in
/-- The table behaves like the one-step store in exactly the runs in which every second statement finds
what the first statement of its call found. -/
theorem behavesAtomically_iff (dialect : Dialect) {actions : List (PoolAction Call)} {P : Calls}
    (hfresh : ∀ a ∈ actions, BeginsFresh a)
    (hrun : Machine.run (step dialect) (initial dialect) actions = some P) :
    BehavesAtomically P.answers ↔
      Machine.Along (step dialect) (NextUndisturbed dialect) (initial dialect) actions := by
  constructor
  · intro hatomic
    refine Machine.along_of_run (I := fun _ => True) (P := fun P => Answered P.answers)
      (fun _ _ _ _ _ => trivial) ?_ ?_ trivial hrun hatomic.answered
    · intro P a P' h hanswered result hmem
      exact hanswered result ((Pool.answers_of_step h).subset hmem)
    · intro P a P' _ h hanswered
      exact undisturbed_of_answered h hanswered
  · intro hquiet
    have hexplained : Explained dialect P :=
      Machine.run_induct_along (fun P a P' hP hC h => explained_step hP hC.1 hC.2 h)
        explained_initial (Machine.along_and hquiet hfresh) hrun
    exact behavesAtomically_of_sequential (List.Perm.refl _) hexplained.sequential

/-- A proposal as it is opened. -/
def publishCase : ApprovalCase :=
  { caseId := "case-1", proposalId := "p1", agent := "math", action := "publish_result",
    summary := "", createdAt := DateTime.now 0 }

theorem publishCase_isFresh : publishCase.IsFresh := ⟨rfl, rfl, rfl, rfl⟩

/-- Two requests open the same case; the second comes when the first is done. -/
def openedTwice : List (PoolAction Call) :=
  [.begin (.openCase publishCase), .begin (.openCase publishCase),
   .advance 0, .advance 0, .advance 0]

theorem beginsFresh_openedTwice : ∀ a ∈ openedTwice, DatabaseCaseStore.BeginsFresh a := by
  intro a ha call hcall c hc
  subst hcall hc
  have hpublish : c = publishCase := by simpa [openedTwice] using ha
  rw [hpublish]
  exact publishCase_isFresh

theorem behavesAtomically_openedTwice :
    ∃ P, Machine.run (DatabaseCaseStore.step .postgresql) (DatabaseCaseStore.initial .postgresql)
        openedTwice = some P ∧
      (BehavesAtomically P.answers ↔
        Machine.Along (DatabaseCaseStore.step .postgresql)
          (DatabaseCaseStore.NextUndisturbed .postgresql) (DatabaseCaseStore.initial .postgresql)
          openedTwice) :=
  ⟨_, rfl, behavesAtomically_iff .postgresql beginsFresh_openedTwice rfl⟩

/-- Two requests open the same case, and both look for it before either inserts it. -/
def openedTogether : List (PoolAction Call) :=
  [.begin (.openCase publishCase), .begin (.openCase publishCase),
   .advance 0, .advance 1, .advance 0, .advance 0]

/-- A case is opened while a decision on it is between its two statements. -/
def openedWhileDecided : List (PoolAction Call) :=
  [.begin (.decide "p1" true "reviewer" "" 1), .begin (.openCase publishCase),
   .advance 0, .advance 1, .advance 1, .advance 0]

theorem openedTogether_fails :
    (∃ P, Machine.run (DatabaseCaseStore.step .postgresql) (DatabaseCaseStore.initial .postgresql)
        openedTogether = some P ∧ ¬ BehavesAtomically P.answers) ∧
      ∃ P, Machine.run (DatabaseCaseStore.step .postgresql) (DatabaseCaseStore.initial .postgresql)
        openedWhileDecided = some P ∧ ¬ BehavesAtomically P.answers := by
  constructor
  · refine ⟨_, rfl, ?_⟩
    intro hatomic
    obtain ⟨⟨answer, herror⟩, -⟩ := hatomic.answered (.openCase publishCase, .error .integrityError)
      (List.mem_cons_of_mem _ List.mem_cons_self)
    cases herror
  · refine ⟨_, rfl, ?_⟩
    intro hatomic
    have hshows := hatomic.decides
      (.decide "p1" true "reviewer" "" 1,
        .ok (.decided .alreadyDecided (some publishCase)))
      (List.mem_cons_of_mem _ List.mem_cons_self)
    exact hshows _ rfl rfl

end AgentCluster.Cluster
