import AgentCluster.Cluster.CaseStore
import Mathlib.Logic.Function.Basic

/-!
# What a case store is for

Abstractly a store is a registry, a map from proposal ids to cases. An atomic step of a call either
leaves the registry alone or makes the one change the call stands for (`Effect`). Both backends are
shown to do just that (`CaseStore.Implements`): for every step of every interleaving, and for calls
that run alone.
-/

set_option autoImplicit false

namespace AgentCluster.Cluster

open Python Library

/-- The cases by proposal id. -/
abbrev Registry := String → Option ApprovalCase

namespace Registry

/-- The registry with the case of one id replaced. -/
def set (r : Registry) (proposalId : String) (c : ApprovalCase) : Registry :=
  Function.update r proposalId (some c)

@[simp]
theorem set_self (r : Registry) (proposalId : String) (c : ApprovalCase) :
    r.set proposalId c proposalId = some c := Function.update_self _ _ _

theorem set_of_ne {r : Registry} {proposalId other : String} (h : other ≠ proposalId)
    (c : ApprovalCase) : r.set proposalId c other = r other := Function.update_of_ne h _ _

theorem set_eq_self {r : Registry} {proposalId : String} {c : ApprovalCase}
    (h : r proposalId = some c) : r.set proposalId c = r := by
  rw [set, ← h]
  exact Function.update_eq_self proposalId r

/-- Add a case under a new id. -/
def openCase (r : Registry) (proposalId : String) (c : ApprovalCase) : Bool × Registry :=
  match r proposalId with
  | some _ => (false, r)
  | none => (true, r.set proposalId c)

/-- Decide a case once. -/
def decide (r : Registry) (proposalId : String) (approved : Bool) (decidedBy note : String)
    (clock : Nat) : (DecisionOutcome × Option ApprovalCase) × Registry :=
  match r proposalId with
  | none => ((.notFound, none), r)
  | some c =>
      if c.status = .pending then
        let c := c.decided approved decidedBy note (DateTime.now clock)
        ((.recorded, some c), r.set proposalId c)
      else ((.alreadyDecided, some c), r)

/-- Write an execution into a case. -/
def recordExecution (r : Registry) (proposalId : String) (succeeded : Bool) (result : Dict)
    (clock : Nat) : Option ApprovalCase × Registry :=
  match r proposalId with
  | none => (none, r)
  | some c =>
      let c := c.closed succeeded result (DateTime.now clock)
      (some c, r.set proposalId c)

section Equations

variable {r : Registry} {proposalId decidedBy note : String} {approved succeeded : Bool}
  {result : Dict} {clock : Nat} {c : ApprovalCase}

theorem openCase_new (h : r proposalId = none) :
    r.openCase proposalId c = (true, r.set proposalId c) := by
  rw [openCase, h]

theorem openCase_known {c' : ApprovalCase} (h : r proposalId = some c') :
    r.openCase proposalId c = (false, r) := by
  rw [openCase, h]

theorem decide_missing (h : r proposalId = none) :
    r.decide proposalId approved decidedBy note clock = ((.notFound, none), r) := by
  rw [decide, h]

theorem decide_pending (h : r proposalId = some c) (hc : c.status = .pending) :
    r.decide proposalId approved decidedBy note clock =
      ((.recorded, some (c.decided approved decidedBy note (DateTime.now clock))),
        r.set proposalId (c.decided approved decidedBy note (DateTime.now clock))) := by
  rw [decide, h]
  exact if_pos hc

theorem decide_decided (h : r proposalId = some c) (hc : c.status ≠ .pending) :
    r.decide proposalId approved decidedBy note clock = ((.alreadyDecided, some c), r) := by
  rw [decide, h]
  exact if_neg hc

theorem recordExecution_missing (h : r proposalId = none) :
    r.recordExecution proposalId succeeded result clock = (none, r) := by
  rw [recordExecution, h]

theorem recordExecution_known (h : r proposalId = some c) :
    r.recordExecution proposalId succeeded result clock =
      (some (c.closed succeeded result (DateTime.now clock)),
        r.set proposalId (c.closed succeeded result (DateTime.now clock))) := by
  rw [recordExecution, h]

end Equations

end Registry

/-! ## Calls -/

/-- A call of a store method with its arguments. -/
inductive Call where
  | openCase (c : ApprovalCase)
  | get (proposalId : String)
  | decide (proposalId : String) (approved : Bool) (decidedBy note : String) (clock : Nat)
  | recordExecution (proposalId : String) (succeeded : Bool) (result : Dict) (clock : Nat)

/-- What a call returns. -/
inductive Answer where
  | opened (recorded : Bool)
  | found (c : Option ApprovalCase)
  | decided (outcome : DecisionOutcome) (c : Option ApprovalCase)
  | updated (c : Option ApprovalCase)

namespace CaseStore

variable (S : CaseStore)

/-- The program of a call. -/
def program : Call → Program S.State StoreError Answer
  | .openCase c => (S.openCase c).map .opened
  | .get proposalId => (S.get proposalId).map .found
  | .decide proposalId approved decidedBy note clock =>
      (S.decide proposalId approved decidedBy note clock).map fun p => .decided p.1 p.2
  | .recordExecution proposalId succeeded result clock =>
      (S.recordExecution proposalId succeeded result clock).map .updated

/-- The registry a state stands for: what `get` answers. -/
def find (s : S.State) : Registry := fun proposalId =>
  match ((S.get proposalId).run s).1 with
  | .ok c => c
  | .error _ => none

end CaseStore

/-- What one atomic step of a call does to the registry, given the result if the step was the last
one. `stored` is what a recorded case reads back as. -/
def Effect (stored : ApprovalCase → ApprovalCase) (call : Call) (r : Registry)
    (o : Option (Except StoreError Answer)) (r' : Registry) : Prop :=
  match call with
  | .openCase c =>
      r c.proposalId = none ∧ r' = r.set c.proposalId (stored c) ∧ o = some (.ok (.opened true)) ∨
        r' = r ∧ o ≠ some (.ok (.opened true))
  | .get proposalId => r' = r ∧ o = some (.ok (.found (r proposalId)))
  | .decide proposalId approved decidedBy note clock =>
      (∃ c, r proposalId = some c ∧ c.status = .pending ∧
        r' = r.set proposalId (c.decided approved decidedBy note (DateTime.now clock)) ∧
        o = some (.ok (.decided .recorded
          (some (c.decided approved decidedBy note (DateTime.now clock)))))) ∨
      r' = r ∧
        (o = none ∨ o = some (.ok (.decided .notFound none)) ∧ r proposalId = none ∨
          ∃ c, o = some (.ok (.decided .alreadyDecided (some c))) ∧ r proposalId = some c)
  | .recordExecution proposalId succeeded result clock =>
      (∃ c, r proposalId = some c ∧
        r' = r.set proposalId (c.closed succeeded result (DateTime.now clock)) ∧
        o = some (.ok (.updated (some (c.closed succeeded result (DateTime.now clock)))))) ∨
      r proposalId = none ∧ r' = r ∧ o = some (.ok (.updated none))

/-- A refusal to decide shows a case that is decided. -/
def ShowsDecided (o : Option (Except StoreError Answer)) : Prop :=
  ∀ c, o = some (.ok (.decided .alreadyDecided (some c))) → c.status ≠ .pending

/-- `stored` keeps everything but the columns an insert does not write and the form of a timestamp. -/
structure Preserves (stored : ApprovalCase → ApprovalCase) : Prop where
  fields : ∀ c, ∃ result createdAt decidedAt executedAt,
    stored c = { c with
      result := result, createdAt := createdAt, decidedAt := decidedAt, executedAt := executedAt }
  createdAt : ∀ c, c.createdAt.utc = true → (stored c).createdAt = c.createdAt
  fresh : ∀ c, c.createdAt.utc = true → c.result = none → c.decidedAt = none →
    c.executedAt = none → stored c = c

/-- `K` says that the call is for a known case, in a store whose decided cases stay decided. -/
structure Known (S : CaseStore) (K : Prop) (R : S.State → S.State → Prop) (pre : S.State → Prop)
    (call : Call) : Prop where
  decided : K → ∀ s t, R s t → ∀ proposalId c, S.find s proposalId = some c →
    c.status ≠ .pending → ∃ c', S.find t proposalId = some c' ∧ c'.status ≠ .pending
  known : K → ∀ s, pre s → ∀ proposalId approved decidedBy note clock,
    call = .decide proposalId approved decidedBy note clock → S.find s proposalId ≠ none

/-- The store is a registry: alone every method is the registry's, and in every interleaving each of
its steps has the effect of its call. -/
structure CaseStore.Implements (S : CaseStore) (stored : ApprovalCase → ApprovalCase) : Prop where
  preserves : Preserves stored
  find_empty : ∀ proposalId, S.find S.empty proposalId = none
  get_run : ∀ proposalId s, (S.get proposalId).run s = (.ok (S.find s proposalId), s)
  openCase_run : ∀ c s, ∃ s',
    let r := (S.find s).openCase c.proposalId (stored c)
    (S.openCase c).run s = (.ok r.1, s') ∧ S.find s' = r.2
  decide_run : ∀ proposalId approved decidedBy note clock s, ∃ s',
    let r := (S.find s).decide proposalId approved decidedBy note clock
    (S.decide proposalId approved decidedBy note clock).run s = (.ok r.1, s') ∧ S.find s' = r.2
  recordExecution_run : ∀ proposalId succeeded result clock s, ∃ s',
    let r := (S.find s).recordExecution proposalId succeeded result clock
    (S.recordExecution proposalId succeeded result clock).run s = (.ok r.1, s') ∧ S.find s' = r.2
  meets : ∀ call K R pre, Known S K R pre call →
    Program.Meets R (fun s o s' =>
      Effect stored call (S.find s) o (S.find s') ∧ (K → ShowsDecided o)) pre (S.program call)

/-! ## In memory -/

namespace InMemoryCaseStore

theorem find_eq (cases : State) : inMemoryCaseStore.find cases = fun pid => cases.lookup pid := rfl

theorem find_set (cases : State) (proposalId : String) (c : ApprovalCase) :
    inMemoryCaseStore.find (cases.set proposalId c) =
      (inMemoryCaseStore.find cases).set proposalId c := by
  funext other
  rw [find_eq, find_eq]
  by_cases h : other = proposalId
  · subst h
    rw [Registry.set_self]
    exact PyDict.lookup_set_self cases other c
  · rw [Registry.set_of_ne h]
    exact PyDict.lookup_set_of_ne cases h c

theorem openIn_known {c c' : ApprovalCase} {cases : State}
    (h : cases.lookup c.proposalId = some c') : openIn c cases = (false, cases) := by
  rw [openIn, h]
  rfl

theorem openIn_new {c : ApprovalCase} {cases : State} (h : cases.lookup c.proposalId = none) :
    openIn c cases = (true, cases.set c.proposalId c) := by
  rw [openIn, h]
  rfl

theorem decideIn_missing {proposalId decidedBy note : String} {approved : Bool} {clock : Nat}
    {cases : State} (h : cases.lookup proposalId = none) :
    decideIn proposalId approved decidedBy note clock cases = ((.notFound, none), cases) := by
  rw [decideIn, h]

theorem decideIn_pending {proposalId decidedBy note : String} {approved : Bool} {clock : Nat}
    {cases : State} {c : ApprovalCase} (h : cases.lookup proposalId = some c)
    (hc : c.status = .pending) :
    decideIn proposalId approved decidedBy note clock cases =
      ((.recorded, some (c.decided approved decidedBy note (DateTime.now clock))),
        cases.set proposalId (c.decided approved decidedBy note (DateTime.now clock))) := by
  rw [decideIn, h]
  exact if_neg (not_not.2 hc)

theorem decideIn_decided {proposalId decidedBy note : String} {approved : Bool} {clock : Nat}
    {cases : State} {c : ApprovalCase} (h : cases.lookup proposalId = some c)
    (hc : c.status ≠ .pending) :
    decideIn proposalId approved decidedBy note clock cases =
      ((.alreadyDecided, some c), cases) := by
  rw [decideIn, h]
  exact if_pos hc

theorem recordIn_missing {proposalId : String} {succeeded : Bool} {result : Dict} {clock : Nat}
    {cases : State} (h : cases.lookup proposalId = none) :
    recordIn proposalId succeeded result clock cases = (none, cases) := by
  rw [recordIn, h]

theorem recordIn_known {proposalId : String} {succeeded : Bool} {result : Dict} {clock : Nat}
    {cases : State} {c : ApprovalCase} (h : cases.lookup proposalId = some c) :
    recordIn proposalId succeeded result clock cases =
      (some (c.closed succeeded result (DateTime.now clock)),
        cases.set proposalId (c.closed succeeded result (DateTime.now clock))) := by
  rw [recordIn, h]

/-- The one step of a method has the effect of its call. -/
theorem meets (call : Call) (R : State → State → Prop) (pre : State → Prop) :
    Program.Meets R (fun s o s' => Effect id call (inMemoryCaseStore.find s) o
      (inMemoryCaseStore.find s') ∧ ShowsDecided o) pre (inMemoryCaseStore.program call) := by
  cases call with
  | openCase c =>
    -- Each call of the in-memory store is one atomic action, so there is nothing to be disturbed
    -- between two.
    intro cases _
    refine ⟨⟨?_, fun c' hc' => by cases hc'⟩, Program.meets_ret _⟩
    show Effect id (.openCase c) _ (some (.ok (.opened (openIn c cases).1)))
      (inMemoryCaseStore.find (openIn c cases).2)
    cases h : cases.lookup c.proposalId with
    | none =>
      rw [openIn_new h]
      exact Or.inl ⟨h, find_set cases c.proposalId c, rfl⟩
    | some c' =>
      rw [openIn_known h]
      exact Or.inr ⟨rfl, by simp⟩
  | get proposalId =>
    intro cases _
    exact ⟨⟨⟨rfl, rfl⟩, fun c hc => by cases hc⟩, Program.meets_ret _⟩
  | decide proposalId approved decidedBy note clock =>
    intro cases _
    refine ⟨?_, Program.meets_ret _⟩
    let f := decideIn proposalId approved decidedBy note clock cases
    show Effect id (.decide proposalId approved decidedBy note clock) _
      (some (.ok (.decided f.1.1 f.1.2))) (inMemoryCaseStore.find f.2) ∧
        ShowsDecided (some (.ok (.decided f.1.1 f.1.2)))
    cases h : cases.lookup proposalId with
    | none =>
      rw [show f = _ from decideIn_missing h]
      exact ⟨Or.inr ⟨rfl, Or.inr (Or.inl ⟨rfl, h⟩)⟩, fun c hc => by cases hc⟩
    | some c =>
      by_cases hc : c.status = .pending
      · rw [show f = _ from decideIn_pending h hc]
        exact ⟨Or.inl ⟨c, h, hc, find_set cases proposalId _, rfl⟩, fun c hc => by cases hc⟩
      · rw [show f = _ from decideIn_decided h hc]
        refine ⟨Or.inr ⟨rfl, Or.inr (Or.inr ⟨c, rfl, h⟩)⟩, ?_⟩
        intro c' hc'
        cases hc'
        exact hc
  | recordExecution proposalId succeeded result clock =>
    intro cases _
    refine ⟨⟨?_, fun c hc => by cases hc⟩, Program.meets_ret _⟩
    show Effect id (.recordExecution proposalId succeeded result clock) _
      (some (.ok (.updated (recordIn proposalId succeeded result clock cases).1)))
      (inMemoryCaseStore.find (recordIn proposalId succeeded result clock cases).2)
    cases h : cases.lookup proposalId with
    | none =>
      rw [recordIn_missing h]
      exact Or.inr ⟨h, rfl, rfl⟩
    | some c =>
      rw [recordIn_known h]
      exact Or.inl ⟨c, h, find_set cases proposalId _, rfl⟩

theorem openIn_find (c : ApprovalCase) (cases : State) :
    let r := (inMemoryCaseStore.find cases).openCase c.proposalId c
    (openIn c cases).1 = r.1 ∧ inMemoryCaseStore.find (openIn c cases).2 = r.2 := by
  cases h : cases.lookup c.proposalId with
  | none =>
    rw [openIn_new h, Registry.openCase_new h]
    exact ⟨rfl, find_set cases c.proposalId c⟩
  | some c' =>
    rw [openIn_known h, Registry.openCase_known h]
    exact ⟨rfl, rfl⟩

theorem decideIn_find (proposalId : String) (approved : Bool) (decidedBy note : String)
    (clock : Nat) (cases : State) :
    let r := (inMemoryCaseStore.find cases).decide proposalId approved decidedBy note clock
    (decideIn proposalId approved decidedBy note clock cases).1 = r.1 ∧
      inMemoryCaseStore.find (decideIn proposalId approved decidedBy note clock cases).2 = r.2 := by
  cases h : cases.lookup proposalId with
  | none =>
    rw [decideIn_missing h, Registry.decide_missing h]
    exact ⟨rfl, rfl⟩
  | some c =>
    by_cases hc : c.status = .pending
    · rw [decideIn_pending h hc, Registry.decide_pending h hc]
      exact ⟨rfl, find_set cases proposalId _⟩
    · rw [decideIn_decided h hc, Registry.decide_decided h hc]
      exact ⟨rfl, rfl⟩

theorem recordIn_find (proposalId : String) (succeeded : Bool) (result : Dict) (clock : Nat)
    (cases : State) :
    let r := (inMemoryCaseStore.find cases).recordExecution proposalId succeeded result clock
    (recordIn proposalId succeeded result clock cases).1 = r.1 ∧
      inMemoryCaseStore.find (recordIn proposalId succeeded result clock cases).2 = r.2 := by
  cases h : cases.lookup proposalId with
  | none =>
    rw [recordIn_missing h, Registry.recordExecution_missing h]
    exact ⟨rfl, rfl⟩
  | some c =>
    rw [recordIn_known h, Registry.recordExecution_known h]
    exact ⟨rfl, find_set cases proposalId _⟩

theorem implements : inMemoryCaseStore.Implements id where
  preserves := ⟨fun c => ⟨c.result, c.createdAt, c.decidedAt, c.executedAt, rfl⟩,
    fun _ _ => rfl, fun _ _ _ _ _ => rfl⟩
  find_empty _ := rfl
  get_run _ _ := rfl
  openCase_run := by
    intro c cases
    obtain ⟨hans, hfind⟩ := openIn_find c cases
    exact ⟨(openIn c cases).2, Prod.ext (congrArg Except.ok hans) rfl, hfind⟩
  decide_run := by
    intro proposalId approved decidedBy note clock cases
    obtain ⟨hans, hfind⟩ := decideIn_find proposalId approved decidedBy note clock cases
    exact ⟨(decideIn proposalId approved decidedBy note clock cases).2,
      Prod.ext (congrArg Except.ok hans) rfl, hfind⟩
  recordExecution_run := by
    intro proposalId succeeded result clock cases
    obtain ⟨hans, hfind⟩ := recordIn_find proposalId succeeded result clock cases
    exact ⟨(recordIn proposalId succeeded result clock cases).2,
      Prod.ext (congrArg Except.ok hans) rfl, hfind⟩
  meets call K R pre _ := (meets call R pre).mono fun s o t h => ⟨h.1, fun _ => h.2⟩

end InMemoryCaseStore

/-! ## The table -/

namespace Table

/-- The row of a primary key. -/
def row (t : Table) (proposalId : String) : Option CaseRow := (t.select proposalId).head?

theorem row_eq_some_iff {t : Table} {proposalId : String} {r : CaseRow} :
    t.row proposalId = some r ↔ r ∈ t.rows ∧ r.proposalId = proposalId := by
  rw [row, select, List.head?_filter]
  exact find?_key_eq_some_iff t.primaryKey

theorem row_eq_none_iff {t : Table} {proposalId : String} :
    t.row proposalId = none ↔ ∀ r ∈ t.rows, r.proposalId ≠ proposalId := by
  rw [row, select, List.head?_filter, List.find?_eq_none]
  simp

section Update

variable {t : Table} {proposalId : String} {p : CaseRow → Bool} {f : CaseRow → CaseRow}
  (hf : ∀ row, (f row).proposalId = row.proposalId)
  (hp : ∀ row, p row = true → row.proposalId = proposalId)

include hp

/-- An update whose condition the row of its key meets returns that row, changed. -/
theorem update_hit {r : CaseRow} (hr : t.row proposalId = some r) (hpr : p r = true) :
    (t.update p f hf).1.head? = some (f r) ∧
      (t.update p f hf).2.row proposalId = some (f r) ∧
      ∀ other, other ≠ proposalId → (t.update p f hf).2.row other = t.row other := by
  obtain ⟨hmem, hid⟩ := row_eq_some_iff.1 hr
  refine ⟨?_, ?_, ?_⟩
  -- Ids are unique in the table, so the first row the statement matches is `r`.
  · have hfind : t.rows.find? p = some r := by
      obtain ⟨r', hr'⟩ : ∃ r', t.rows.find? p = some r' := by
        rw [← Option.isSome_iff_exists, List.find?_isSome]
        exact ⟨r, hmem, hpr⟩
      have hr'id := hp r' (List.find?_some hr')
      have hrow := row_eq_some_iff.2 ⟨List.mem_of_find?_eq_some hr', hr'id⟩
      rw [hr] at hrow
      rw [hr', Option.some.inj hrow]
    show ((t.rows.filter p).map f).head? = some (f r)
    rw [List.head?_map, List.head?_filter, hfind]
    rfl
  · rw [row_eq_some_iff]
    refine ⟨List.mem_map.2 ⟨r, hmem, if_pos hpr⟩, ?_⟩
    rw [hf, hid]
  · intro other hother
    have hkeep : ∀ r', r'.proposalId = other → (if p r' then f r' else r') = r' := by
      intro r' hr'
      apply if_neg
      intro hpr'
      exact hother (hr'.symm.trans (hp r' hpr'))
    cases hold : t.row other with
    | some r' =>
      obtain ⟨hmem', hid'⟩ := row_eq_some_iff.1 hold
      exact row_eq_some_iff.2 ⟨List.mem_map.2 ⟨r', hmem', hkeep r' hid'⟩, hid'⟩
    | none =>
      rw [row_eq_none_iff] at hold ⊢
      -- The update adds no row: a row found afterwards was there before under the same id.
      intro r'' hr'' hid''
      obtain ⟨r', hmem', rfl⟩ := List.mem_map.1 hr''
      have hid' : r'.proposalId = other := by
        split at hid''
        · rwa [hf] at hid''
        · exact hid''
      exact hold r' hmem' hid'

/-- An update whose condition the row of its key does not meet does nothing. -/
theorem update_miss (hr : ∀ r, t.row proposalId = some r → p r = false) :
    t.update p f hf = ([], t) := by
  have hnone : ∀ r ∈ t.rows, p r = false := by
    intro r hmem
    rw [← Bool.not_eq_true]
    intro hpr
    rw [hr r (row_eq_some_iff.2 ⟨hmem, hp r hpr⟩)] at hpr
    cases hpr
  have hfilter : t.rows.filter p = [] := List.filter_eq_nil_iff.2 fun r hr => by simp [hnone r hr]
  have hmap : (t.rows.map fun row => if p row then f row else row) = t.rows := by
    apply (List.map_congr_left ?_).trans (List.map_id _)
    intro r hmem
    rw [hnone r hmem]
    rfl
  unfold update
  simp only [hfilter, List.map_nil, hmap]

end Update

theorem insert_known {t : Table} {r new : CaseRow} (h : t.row new.proposalId = some r) :
    t.insert new = (false, t) := by
  obtain ⟨hmem, hid⟩ := row_eq_some_iff.1 h
  rw [insert, dif_pos (List.mem_map.2 ⟨r, hmem, hid⟩)]

theorem insert_new {t : Table} {new : CaseRow} (h : t.row new.proposalId = none) :
    (t.insert new).1 = true ∧ (t.insert new).2.row new.proposalId = some new ∧
      ∀ other, other ≠ new.proposalId → (t.insert new).2.row other = t.row other := by
  have hnot : new.proposalId ∉ t.rows.map ApprovalCase.proposalId := by
    intro hmem
    obtain ⟨r, hr, hid⟩ := List.mem_map.1 hmem
    exact row_eq_none_iff.1 h r hr hid
  rw [insert, dif_neg hnot]
  refine ⟨rfl, ?_, ?_⟩
  · exact row_eq_some_iff.2 ⟨List.mem_append_right _ List.mem_cons_self, rfl⟩
  · intro other hother
    cases hold : t.row other with
    | some r =>
      obtain ⟨hmem, hid⟩ := row_eq_some_iff.1 hold
      exact row_eq_some_iff.2 ⟨List.mem_append_left _ hmem, hid⟩
    | none =>
      rw [row_eq_none_iff] at hold ⊢
      intro r hr
      rcases List.mem_append.1 hr with hr | hr
      · exact hold r hr
      · rw [List.mem_singleton.1 hr]
        exact Ne.symm hother

end Table

namespace DatabaseCaseStore

variable {dialect : Dialect}

/-- What a case reads back as after it was inserted. -/
def stored (dialect : Dialect) (c : ApprovalCase) : ApprovalCase := rowToCase (newRow dialect c)

theorem asUtc_column (t : DateTime) : asUtc (dialect.column t) = { t with utc := true } := by
  cases dialect <;> rfl

theorem asUtc_column_now (clock : Nat) :
    asUtc (dialect.column (DateTime.now clock)) = DateTime.now clock :=
  asUtc_column (DateTime.now clock)

theorem rowToCase_decideRow (approved : Bool) (decidedBy note : String) (clock : Nat)
    (row : CaseRow) :
    rowToCase (decideRow dialect approved decidedBy note clock row) =
      (rowToCase row).decided approved decidedBy note (DateTime.now clock) := by
  simp only [rowToCase, decideRow, ApprovalCase.decided, Option.map_some, asUtc_column_now]

theorem rowToCase_closeRow (succeeded : Bool) (result : Dict) (clock : Nat) (row : CaseRow) :
    rowToCase (closeRow dialect succeeded result clock row) =
      (rowToCase row).closed succeeded result (DateTime.now clock) := by
  simp only [rowToCase, closeRow, ApprovalCase.closed, Option.map_some, asUtc_column_now]

theorem createdAt_stored (c : ApprovalCase) (hutc : c.createdAt.utc = true) :
    (stored dialect c).createdAt = c.createdAt := by
  show asUtc (dialect.column c.createdAt) = c.createdAt
  rw [asUtc_column, ← hutc]

theorem preserves_stored : Preserves (stored dialect) where
  fields c := ⟨none, asUtc (dialect.column c.createdAt), none, none, rfl⟩
  createdAt := createdAt_stored
  fresh := by
    intro c hutc hresult hdecided hexecuted
    have hcreated : asUtc (dialect.column c.createdAt) = c.createdAt :=
      @createdAt_stored dialect c hutc
    cases c
    simp only at hutc hresult hdecided hexecuted hcreated
    simp only [stored, rowToCase, newRow, hcreated, Option.map_none, hresult, hdecided, hexecuted]

theorem find_eq (t : Table) (proposalId : String) :
    (databaseCaseStore dialect).find t proposalId = (t.row proposalId).map rowToCase := rfl

theorem find_of_row {t : Table} {proposalId : String} {row : CaseRow}
    (h : t.row proposalId = some row) :
    (databaseCaseStore dialect).find t proposalId = some (rowToCase row) := by
  rw [find_eq, h]
  rfl

theorem find_of_row_none {t : Table} {proposalId : String} (h : t.row proposalId = none) :
    (databaseCaseStore dialect).find t proposalId = none := by
  rw [find_eq, h]
  rfl

/-- A table that differs in one row stands for the registry that differs in its case. -/
theorem find_set {t t' : Table} {proposalId : String} {row : CaseRow} {c : ApprovalCase}
    (hself : t'.row proposalId = some row) (hc : rowToCase row = c)
    (hother : ∀ other, other ≠ proposalId → t'.row other = t.row other) :
    (databaseCaseStore dialect).find t' =
      ((databaseCaseStore dialect).find t).set proposalId c := by
  funext other
  by_cases h : other = proposalId
  · rw [h, Registry.set_self, find_of_row hself, hc]
  · rw [Registry.set_of_ne h, find_eq, find_eq, hother other h]

/-! What each statement does, by the row it is about. -/

section Statements

variable {t : Table} {proposalId decidedBy note : String} {approved succeeded : Bool}
  {result : Dict} {clock : Nat} {row : CaseRow}

theorem updatePending_hit (h : t.row proposalId = some row) (hrow : row.status = .pending) :
    let f := updatePending dialect proposalId approved decidedBy note clock t
    f.1.head? = some (decideRow dialect approved decidedBy note clock row) ∧
      (databaseCaseStore dialect).find f.2 = ((databaseCaseStore dialect).find t).set proposalId
        ((rowToCase row).decided approved decidedBy note (DateTime.now clock)) := by
  have hid := (Table.row_eq_some_iff.1 h).2
  obtain ⟨hfirst, hself, hother⟩ := Table.update_hit
    (p := fun row => row.proposalId = proposalId ∧ row.status = .pending)
    (f := decideRow dialect approved decidedBy note clock) (fun _ => rfl)
    (fun row hp => (of_decide_eq_true hp).1) h (decide_eq_true ⟨hid, hrow⟩)
  exact ⟨hfirst, find_set hself (rowToCase_decideRow approved decidedBy note clock row) hother⟩

theorem updatePending_miss (h : ∀ row, t.row proposalId = some row → row.status ≠ .pending) :
    updatePending dialect proposalId approved decidedBy note clock t = ([], t) := by
  apply Table.update_miss
  · exact fun row hp => (of_decide_eq_true hp).1
  · exact fun row hrow => decide_eq_false fun hp => h row hrow hp.2

theorem updateExecution_hit (h : t.row proposalId = some row) :
    let f := updateExecution dialect proposalId succeeded result clock t
    f.1.head? = some (closeRow dialect succeeded result clock row) ∧
      (databaseCaseStore dialect).find f.2 = ((databaseCaseStore dialect).find t).set proposalId
        ((rowToCase row).closed succeeded result (DateTime.now clock)) := by
  have hid := (Table.row_eq_some_iff.1 h).2
  obtain ⟨hfirst, hself, hother⟩ := Table.update_hit
    (p := fun row => row.proposalId = proposalId)
    (f := closeRow dialect succeeded result clock) (fun _ => rfl)
    (fun row hp => of_decide_eq_true hp) h (decide_eq_true hid)
  exact ⟨hfirst, find_set hself (rowToCase_closeRow succeeded result clock row) hother⟩

theorem updateExecution_miss (h : t.row proposalId = none) :
    updateExecution dialect proposalId succeeded result clock t = ([], t) := by
  apply Table.update_miss
  · exact fun row hp => of_decide_eq_true hp
  · intro row hrow
    rw [h] at hrow
    cases hrow

theorem insert_stored {c : ApprovalCase} (h : t.row c.proposalId = none) :
    (t.insert (newRow dialect c)).1 = true ∧
      (databaseCaseStore dialect).find (t.insert (newRow dialect c)).2 =
        ((databaseCaseStore dialect).find t).set c.proposalId (stored dialect c) := by
  obtain ⟨hok, hself, hother⟩ := @Table.insert_new t (newRow dialect c) h
  exact ⟨hok, find_set hself rfl hother⟩

end Statements

/-- Alone, each method has the effect of the registry's. -/
theorem openCase_run (c : ApprovalCase) (t : Table) : ∃ t',
    let r := ((databaseCaseStore dialect).find t).openCase c.proposalId (stored dialect c)
    (openCase dialect c).run t = (.ok r.1, t') ∧ (databaseCaseStore dialect).find t' = r.2 := by
  cases h : t.row c.proposalId with
  | some row =>
    rw [Registry.openCase_known (find_of_row h)]
    refine ⟨t, ?_, rfl⟩
    rw [openCase, Program.run_exec, if_pos]
    · rfl
    · exact Option.isSome_iff_exists.2 ⟨row, h⟩
  | none =>
    rw [Registry.openCase_new (find_of_row_none h)]
    obtain ⟨hok, hfind⟩ := @insert_stored dialect t c h
    refine ⟨(t.insert (newRow dialect c)).2, ?_, hfind⟩
    rw [openCase, Program.run_exec, if_neg, Program.run_exec, if_pos hok]
    · rfl
    · rw [show (t.select c.proposalId).head? = none from h]
      exact Bool.noConfusion

theorem decide_run (proposalId : String) (approved : Bool) (decidedBy note : String) (clock : Nat)
    (t : Table) : ∃ t',
    let r := ((databaseCaseStore dialect).find t).decide proposalId approved decidedBy note clock
    (decide dialect proposalId approved decidedBy note clock).run t = (.ok r.1, t') ∧
      (databaseCaseStore dialect).find t' = r.2 := by
  cases h : t.row proposalId with
  | none =>
    rw [Registry.decide_missing (find_of_row_none h)]
    refine ⟨t, ?_, rfl⟩
    -- `UPDATE … WHERE status = 'pending'` matches no row, and the code reads the case back to say
    -- why.
    rw [decide, Program.run_exec, updatePending_miss (by simp [h])]
    show (readDecided proposalId).run t = _
    rw [readDecided, Program.run_exec, show (t.select proposalId).head? = none from h]
    rfl
  | some row =>
    by_cases hrow : row.status = .pending
    · obtain ⟨hfirst, hfind⟩ :=
        @updatePending_hit dialect t proposalId decidedBy note approved clock row h hrow
      rw [Registry.decide_pending (find_of_row h) hrow]
      refine ⟨(updatePending dialect proposalId approved decidedBy note clock t).2, ?_, hfind⟩
      rw [decide, Program.run_exec, hfirst,
        ← @rowToCase_decideRow dialect approved decidedBy note clock row]
      rfl
    · rw [Registry.decide_decided (find_of_row h) hrow]
      refine ⟨t, ?_, rfl⟩
      rw [decide, Program.run_exec, updatePending_miss (by simp [h, hrow])]
      show (readDecided proposalId).run t = _
      rw [readDecided, Program.run_exec, show (t.select proposalId).head? = some row from h]
      rfl

theorem recordExecution_run (proposalId : String) (succeeded : Bool) (result : Dict) (clock : Nat)
    (t : Table) : ∃ t',
    let r := ((databaseCaseStore dialect).find t).recordExecution proposalId succeeded result clock
    (recordExecution dialect proposalId succeeded result clock).run t = (.ok r.1, t') ∧
      (databaseCaseStore dialect).find t' = r.2 := by
  cases h : t.row proposalId with
  | some row =>
    obtain ⟨hfirst, hfind⟩ := @updateExecution_hit dialect t proposalId succeeded result clock row h
    rw [Registry.recordExecution_known (find_of_row h)]
    refine ⟨(updateExecution dialect proposalId succeeded result clock t).2, ?_, hfind⟩
    rw [recordExecution, Program.run_exec, hfirst,
      ← @rowToCase_closeRow dialect succeeded result clock row]
    rfl
  | none =>
    rw [Registry.recordExecution_missing (find_of_row_none h)]
    refine ⟨t, ?_, rfl⟩
    rw [recordExecution, Program.run_exec, updateExecution_miss h]
    rfl

section Meets

variable {K : Prop} {R : Table → Table → Prop}

/-- The specification of a step over the table. -/
abbrev Spec (K : Prop) (dialect : Dialect) (call : Call) (t : Table)
    (o : Option (Except StoreError Answer)) (t' : Table) : Prop :=
  Effect (stored dialect) call ((databaseCaseStore dialect).find t) o
    ((databaseCaseStore dialect).find t') ∧ (K → ShowsDecided o)

theorem program_openCase (c : ApprovalCase) :
    (databaseCaseStore dialect).program (.openCase c) =
      .exec (fun t => (t.select c.proposalId, t)) fun existing =>
        if existing.head?.isSome then .ret (.opened false)
        else
          .exec (fun t => t.insert (newRow dialect c)) fun inserted =>
            if inserted then .ret (.opened true) else .raise .integrityError := by
  show Program.map Answer.opened (openCase dialect c) = _
  rw [openCase, Program.map_exec]
  congr 1
  funext existing
  rw [apply_ite (Program.map Answer.opened), Program.map_exec]
  congr 2
  funext inserted
  exact apply_ite (Program.map Answer.opened) _ _ _

theorem meets_openCase (c : ApprovalCase) (pre : Table → Prop) :
    Program.Meets R (Spec K dialect (.openCase c)) pre
      ((databaseCaseStore dialect).program (.openCase c)) := by
  rw [program_openCase]
  apply Program.meets_exec
  intro t _
  cases h : t.row c.proposalId with
  | some row =>
    rw [if_pos (by rw [show (t.select c.proposalId).head? = some row from h]; rfl)]
    exact ⟨⟨Or.inr ⟨rfl, by simp [Program.outcome]⟩, fun _ c' hc' => by cases hc'⟩, Program.meets_ret _⟩
  | none =>
    rw [if_neg (by rw [show (t.select c.proposalId).head? = none from h]; exact Bool.noConfusion)]
    refine ⟨⟨Or.inr ⟨rfl, by simp [Program.outcome, Program.exec]⟩, fun _ c' hc' => by cases hc'⟩,
      ?_⟩
    -- Another transaction may have inserted the row since.
    apply Program.meets_exec
    intro t' _
    cases h' : t'.row c.proposalId with
    | none =>
      obtain ⟨hok, hfind⟩ := @insert_stored dialect t' c h'
      rw [if_pos hok]
      exact ⟨⟨Or.inl ⟨find_of_row_none h', hfind, rfl⟩, fun _ c' hc' => by cases hc'⟩,
        Program.meets_ret _⟩
    | some row =>
      rw [@Table.insert_known t' row (newRow dialect c) h']
      exact ⟨⟨Or.inr ⟨rfl, by simp [Program.outcome]⟩, fun _ c' hc' => by cases hc'⟩,
        Program.meets_raise _⟩

theorem meets_get (proposalId : String) (pre : Table → Prop) :
    Program.Meets R (Spec K dialect (.get proposalId)) pre
      ((databaseCaseStore dialect).program (.get proposalId)) := by
  intro t _
  exact ⟨⟨⟨rfl, rfl⟩, fun _ c hc => by cases hc⟩, Program.meets_ret _⟩

theorem program_decide (proposalId : String) (approved : Bool) (decidedBy note : String)
    (clock : Nat) :
    (databaseCaseStore dialect).program (.decide proposalId approved decidedBy note clock) =
      .exec (updatePending dialect proposalId approved decidedBy note clock) fun decided =>
        match decided.head? with
        | some row => .ret (.decided .recorded (some (rowToCase row)))
        | none =>
            .exec (fun t => (t.select proposalId, t)) fun current =>
              match current.head? with
              | none => .ret (.decided .notFound none)
              | some existing => .ret (.decided .alreadyDecided (some (rowToCase existing))) := by
  show Program.map (fun p => Answer.decided p.1 p.2)
    (decide dialect proposalId approved decidedBy note clock) = _
  rw [decide, Program.map_exec]
  congr 1
  funext decided
  cases decided.head? with
  | some row => rfl
  | none =>
    show Program.map _ (readDecided proposalId) = _
    rw [readDecided, Program.map_exec]
    congr 1
    funext current
    cases current.head? <;> rfl

theorem meets_decide (proposalId : String) (approved : Bool) (decidedBy note : String)
    (clock : Nat) {pre : Table → Prop}
    (hknown : Known (databaseCaseStore dialect) K R pre
      (.decide proposalId approved decidedBy note clock)) :
    Program.Meets R (Spec K dialect (.decide proposalId approved decidedBy note clock)) pre
      ((databaseCaseStore dialect).program (.decide proposalId approved decidedBy note clock)) := by
  rw [program_decide]
  apply Program.meets_exec
  intro t ht
  by_cases hpending : ∃ row, t.row proposalId = some row ∧ row.status = .pending
  · obtain ⟨row, h, hrow⟩ := hpending
    obtain ⟨hfirst, hfind⟩ :=
      @updatePending_hit dialect t proposalId decidedBy note approved clock row h hrow
    rw [hfirst]
    refine ⟨⟨Or.inl ⟨rowToCase row, find_of_row h, hrow, hfind, ?_⟩, fun _ c hc => by cases hc⟩,
      Program.meets_ret _⟩
    rw [← @rowToCase_decideRow dialect approved decidedBy note clock row]
    rfl
  · have hmiss : ∀ row, t.row proposalId = some row → row.status ≠ .pending :=
      fun row h hrow => hpending ⟨row, h, hrow⟩
    rw [updatePending_miss hmiss]
    refine ⟨⟨Or.inr ⟨rfl, Or.inl rfl⟩, fun _ c hc => by cases hc⟩, ?_⟩
    -- The row may be another one by now, but a decided row is still decided.
    apply Program.meets_exec
    intro t' ht'
    cases h' : t'.row proposalId with
    | none =>
      rw [show (t'.select proposalId).head? = none from h']
      exact ⟨⟨Or.inr ⟨rfl, Or.inr (Or.inl ⟨rfl, find_of_row_none h'⟩)⟩, fun _ c hc => by cases hc⟩,
        Program.meets_ret _⟩
    | some row' =>
      rw [show (t'.select proposalId).head? = some row' from h']
      refine ⟨⟨Or.inr ⟨rfl, Or.inr (Or.inr ⟨_, rfl, find_of_row h'⟩)⟩, ?_⟩, Program.meets_ret _⟩
      intro hK c hc
      cases hc
      cases h : t.row proposalId with
      | none =>
        exact absurd (find_of_row_none h)
          (hknown.known hK t ht proposalId approved decidedBy note clock rfl)
      | some row =>
        obtain ⟨c', hc', hstatus⟩ :=
          hknown.decided hK t t' ht' proposalId _ (find_of_row h) (hmiss row h)
        rw [find_of_row h'] at hc'
        cases hc'
        exact hstatus

theorem meets_recordExecution (proposalId : String) (succeeded : Bool) (result : Dict)
    (clock : Nat) (pre : Table → Prop) :
    Program.Meets R (Spec K dialect (.recordExecution proposalId succeeded result clock)) pre
      ((databaseCaseStore dialect).program
        (.recordExecution proposalId succeeded result clock)) := by
  intro t _
  refine ⟨⟨?_, fun _ c hc => by cases hc⟩, Program.meets_ret _⟩
  show Effect _ _ _ (some (.ok (.updated
    ((updateExecution dialect proposalId succeeded result clock t).1.head?.map rowToCase))))
    ((databaseCaseStore dialect).find
      (updateExecution dialect proposalId succeeded result clock t).2)
  cases h : t.row proposalId with
  | some row =>
    obtain ⟨hfirst, hfind⟩ := @updateExecution_hit dialect t proposalId succeeded result clock row h
    rw [hfirst]
    refine Or.inl ⟨rowToCase row, find_of_row h, hfind, ?_⟩
    rw [← @rowToCase_closeRow dialect succeeded result clock row]
    rfl
  | none =>
    rw [updateExecution_miss h]
    exact Or.inr ⟨find_of_row_none h, rfl, rfl⟩

end Meets

theorem implements : (databaseCaseStore dialect).Implements (stored dialect) where
  preserves := preserves_stored
  find_empty _ := rfl
  get_run _ _ := rfl
  openCase_run := openCase_run
  decide_run := decide_run
  recordExecution_run := recordExecution_run
  meets call K R pre h := by
    cases call with
    | openCase c => exact meets_openCase c pre
    | get proposalId => exact meets_get proposalId pre
    | decide proposalId approved decidedBy note clock =>
      exact meets_decide proposalId approved decidedBy note clock h
    | recordExecution proposalId succeeded result clock =>
      exact meets_recordExecution proposalId succeeded result clock pre

end DatabaseCaseStore

/-! ## Both backends -/

/-- What a case reads back as after it was opened. -/
def storedCase (database : Option Dialect) : ApprovalCase → ApprovalCase :=
  match database with
  | some dialect => DatabaseCaseStore.stored dialect
  | none => id

theorem buildCaseStore_implements (database : Option Dialect) :
    (buildCaseStore database).Implements (storedCase database) := by
  cases database with
  | none => exact InMemoryCaseStore.implements
  | some dialect => exact DatabaseCaseStore.implements

end AgentCluster.Cluster
