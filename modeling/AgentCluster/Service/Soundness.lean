import AgentCluster.Service.Steps

/-!
# Reachable cases are sound

What the rows of the store say is borne out by the log, over every interleaving of requests and
whatever the turns bring. `record_execution` checks nothing, so the argument is about the handlers: a
handler past the status checks works on a case that is approved or executed, and such a case stays so
(`Sound`, `sound_step`).
-/

set_option autoImplicit false

namespace AgentCluster.Service

open Python Library Adk Cluster Agents

/-! ## What the log says about a case -/

/-- Approved, whether carried out yet or not. -/
def signedOff : Status → Bool
  | .approved => true
  | .executed => true
  | _ => false

/-- The decision an entry records for a case. -/
def Entry.decisionOn (proposalId : String) : Entry → Option CaseDecision
  | .decided _ pid decision .recorded _ => if pid = proposalId then some decision else none
  | _ => none

/-- The decisions recorded for a case, in order. -/
def recordedDecisions (proposalId : String) (log : List Entry) : List CaseDecision :=
  log.filterMap (Entry.decisionOn proposalId)

/-- Exactly one decision on the case was recorded, it was the given one, and the row shows it. -/
def DecidedAs (approved : Bool) (log : List Entry) (c : ApprovalCase) : Prop :=
  ∃ h decision c', recordedDecisions c.proposalId log = [decision] ∧ decision.approved = approved ∧
    Entry.decided h c.proposalId decision .recorded (some c') ∈ log ∧ c'.proposal = c.proposal ∧
    c.decidedBy = decision.decidedBy ∧ c.note = decision.note ∧ c.decidedAt.isSome = true

/-- The action was approved, then sent for, and then the texts of that turn confirmed `performed`. -/
def CarriedOut (log : List Entry) (proposalId : String) (proposal performed : Dict) : Prop :=
  ∃ h' decision c' h instruction texts, decision.approved = true ∧
    [.decided h' proposalId decision .recorded c', .started h proposalId instruction,
      .turned h proposalId texts (some performed)].Sublist log ∧
    findExecution texts proposal = some performed ∧ ∃ text ∈ texts, performed ∈ jsonObjectsIn text

/-- What holds of a case in each status. -/
structure CaseSound (log : List Entry) (c : ApprovalCase) : Prop where
  opened : ∃ h o, Entry.opened h o ∈ log ∧ o.proposalId = c.proposalId ∧ o.proposal = c.proposal
  pending : c.status = .pending →
    recordedDecisions c.proposalId log = [] ∧ c.decidedAt = none ∧ c.result = none ∧
      c.executedAt = none
  approved : c.status = .approved →
    DecidedAs true log c ∧ c.result = none ∧ c.executedAt = none
  rejected : c.status = .rejected →
    DecidedAs false log c ∧ c.result = none ∧ c.executedAt = none ∧
      ∀ h instruction, Entry.started h c.proposalId instruction ∉ log
  executed : c.status = .executed →
    DecidedAs true log c ∧ c.executedAt.isSome = true ∧
      ∃ performed, c.result = some performed ∧ CarriedOut log c.proposalId c.proposal performed
  notFailed : c.status ≠ .failed

/-! ## Longer logs -/

section Append

variable {log entries : List Entry} {c : ApprovalCase}

theorem recordedDecisions_append (proposalId : String) (log entries : List Entry) :
    recordedDecisions proposalId (log ++ entries) =
      recordedDecisions proposalId log ++ recordedDecisions proposalId entries :=
  List.filterMap_append

theorem recordedDecisions_append_of_nil {proposalId : String}
    (h : recordedDecisions proposalId entries = []) :
    recordedDecisions proposalId (log ++ entries) = recordedDecisions proposalId log := by
  rw [recordedDecisions_append, h, List.append_nil]

theorem DecidedAs.append {approved : Bool} (h : DecidedAs approved log c)
    (hentries : recordedDecisions c.proposalId entries = []) :
    DecidedAs approved (log ++ entries) c := by
  obtain ⟨h', decision, c', hone, happroved, hmem, hrest⟩ := h
  refine ⟨h', decision, c', ?_, happroved, List.mem_append_left _ hmem, hrest⟩
  rw [recordedDecisions_append_of_nil hentries]
  exact hone

theorem CarriedOut.append {proposalId : String} {proposal performed : Dict}
    (h : CarriedOut log proposalId proposal performed) (entries : List Entry) :
    CarriedOut (log ++ entries) proposalId proposal performed := by
  obtain ⟨h', decision, c', i, instruction, texts, happroved, hsub, hrest⟩ := h
  exact ⟨h', decision, c', i, instruction, texts, happroved,
    hsub.trans (List.sublist_append_left log entries), hrest⟩

/-- Entries that do not concern a case leave it sound. -/
theorem CaseSound.append (h : CaseSound log c)
    (hdecisions : recordedDecisions c.proposalId entries = [])
    (hstarted : c.status = .rejected →
      ∀ i instruction, Entry.started i c.proposalId instruction ∉ entries) :
    CaseSound (log ++ entries) c where
  opened := by
    obtain ⟨i, o, hmem, hrest⟩ := h.opened
    exact ⟨i, o, List.mem_append_left _ hmem, hrest⟩
  pending hstatus := by
    obtain ⟨hnone, hrest⟩ := h.pending hstatus
    refine ⟨?_, hrest⟩
    rw [recordedDecisions_append_of_nil hdecisions]
    exact hnone
  approved hstatus := by
    obtain ⟨hdecided, hrest⟩ := h.approved hstatus
    exact ⟨hdecided.append hdecisions, hrest⟩
  rejected hstatus := by
    obtain ⟨hdecided, hresult, hexecuted, hnever⟩ := h.rejected hstatus
    refine ⟨hdecided.append hdecisions, hresult, hexecuted, ?_⟩
    intro i instruction hmem
    rcases List.mem_append.1 hmem with hmem | hmem
    · exact hnever i instruction hmem
    · exact hstarted hstatus i instruction hmem
  executed hstatus := by
    obtain ⟨hdecided, hexecuted, performed, hresult, hcarried⟩ := h.executed hstatus
    exact ⟨hdecided.append hdecisions, hexecuted, performed, hresult, hcarried.append entries⟩
  notFailed := h.notFailed

end Append

/-- A signed-off case shows an approval. -/
theorem CaseSound.decidedAs_of_signedOff {log : List Entry} {c : ApprovalCase}
    (h : CaseSound log c) (hstatus : signedOff c.status = true) : DecidedAs true log c := by
  cases hs : c.status with
  | approved => exact (h.approved hs).1
  | executed => exact (h.executed hs).1
  | _ =>
    rw [hs] at hstatus
    cases hstatus

/-! ## The invariant -/

/-- The row of the case a handler works on. -/
def Signed (r : Registry) (proposalId : String) (proposal : Dict) : Prop :=
  ∃ row, r proposalId = some row ∧ signedOff row.status = true ∧ row.proposal = proposal

/-- The handler's turn was started after an approval, and `rest` followed. -/
def Underway (log : List Entry) (h : Nat) (proposalId : String) (rest : List Entry) : Prop :=
  ∃ h' decision c' instruction, decision.approved = true ∧
    (.decided h' proposalId decision .recorded c' :: .started h proposalId instruction ::
      rest).Sublist log

/-- What holds of a handler past the status checks. -/
def Holds (r : Registry) (log : List Entry) (h : Nat) : Phase → Prop
  | .executing proposalId c _ => Signed r proposalId c.proposal ∧ Underway log h proposalId []
  | .reporting proposalId c _ => Signed r proposalId c.proposal
  | .recording proposalId c turn performed =>
      Signed r proposalId c.proposal ∧ findExecution turn.texts c.proposal = some performed ∧
        Underway log h proposalId [.turned h proposalId turn.texts (some performed)]
  | _ => True

/-- The rows, the log and the handlers agree. -/
structure Sound (σ : System Registry) : Prop where
  rows : ∀ proposalId c, σ.store proposalId = some c →
    c.proposalId = proposalId ∧ CaseSound σ.log c
  unknown : ∀ proposalId, σ.store proposalId = none → recordedDecisions proposalId σ.log = []
  opened : ∀ h o, Entry.opened h o ∈ σ.log →
    ∃ row, σ.store o.proposalId = some row ∧ row.proposal = o.proposal
  approvals : ∀ h proposalId decision c, Entry.decided h proposalId decision .recorded c ∈ σ.log →
    decision.approved = true → ∃ c', c = some c' ∧ Signed σ.store proposalId c'.proposal
  started : ∀ h proposalId instruction, Entry.started h proposalId instruction ∈ σ.log →
    ∃ row, σ.store proposalId = some row ∧ signedOff row.status = true
  handlers : ∀ h handler, σ.handlers[h]? = some handler → Holds σ.store σ.log h handler.phase

/-- No case is lost, no proposal changes, and what is signed off stays so. -/
def Advances (r r' : Registry) : Prop :=
  ∀ proposalId c, r proposalId = some c → ∃ c', r' proposalId = some c' ∧
    c'.proposal = c.proposal ∧ (signedOff c.status = true → signedOff c'.status = true)

namespace Advances

theorem refl (r : Registry) : Advances r r := fun _ c hc => ⟨c, hc, rfl, id⟩

/-- One case changes. -/
theorem set {r : Registry} {proposalId : String} {c c' : ApprovalCase}
    (hrow : r proposalId = some c) (hproposal : c'.proposal = c.proposal)
    (hsigned : signedOff c.status = true → signedOff c'.status = true) :
    Advances r (r.set proposalId c') := by
  intro other d hd
  by_cases ho : other = proposalId
  · subst ho
    rw [hrow] at hd
    cases hd
    exact ⟨c', Registry.set_self r other c', hproposal, hsigned⟩
  · refine ⟨d, ?_, rfl, id⟩
    rw [Registry.set_of_ne ho]
    exact hd

/-- A case is added. -/
theorem set_new {r : Registry} {proposalId : String} (hnew : r proposalId = none)
    (c : ApprovalCase) : Advances r (r.set proposalId c) := by
  intro other d hd
  refine ⟨d, ?_, rfl, id⟩
  rw [Registry.set_of_ne]
  · exact hd
  · rintro rfl
    rw [hnew] at hd
    cases hd

end Advances

section Frame

variable {r r' : Registry} {log : List Entry} (entries : List Entry)

theorem Signed.advance {proposalId : String} {proposal : Dict} (h : Signed r proposalId proposal)
    (hadv : Advances r r') : Signed r' proposalId proposal := by
  obtain ⟨row, hrow, hsigned, hproposal⟩ := h
  obtain ⟨row', hrow', hsame, hstays⟩ := hadv proposalId row hrow
  exact ⟨row', hrow', hstays hsigned, hsame.trans hproposal⟩

theorem Underway.append {h : Nat} {proposalId : String} {rest : List Entry}
    (hturn : Underway log h proposalId rest) : Underway (log ++ entries) h proposalId rest := by
  obtain ⟨h', decision, c', instruction, happroved, hsub⟩ := hturn
  exact ⟨h', decision, c', instruction, happroved,
    hsub.trans (List.sublist_append_left log entries)⟩

/-- What comes last comes after. -/
theorem Underway.concat {h : Nat} {proposalId : String} {rest : List Entry}
    (hturn : Underway log h proposalId rest) :
    Underway (log ++ entries) h proposalId (rest ++ entries) := by
  obtain ⟨h', decision, c', instruction, happroved, hsub⟩ := hturn
  exact ⟨h', decision, c', instruction, happroved, hsub.append (List.Sublist.refl entries)⟩

/-- A handler's claim survives what others do. -/
theorem Holds.advance {h : Nat} {phase : Phase} (hholds : Holds r log h phase)
    (hadv : Advances r r') : Holds r' (log ++ entries) h phase := by
  cases phase with
  | executing proposalId c turn =>
    exact ⟨hholds.1.advance hadv, hholds.2.append entries⟩
  | reporting proposalId c turn => exact Signed.advance hholds hadv
  | recording proposalId c turn performed =>
    exact ⟨hholds.1.advance hadv, hholds.2.1, hholds.2.2.append entries⟩
  | _ => trivial

theorem holds_of_idle {h : Nat} {phase : Phase} (hidle : phase.idle = true) :
    Holds r log h phase := by
  cases phase with
  | running => trivial
  | opening => trivial
  | finished => trivial
  | _ => cases hidle

end Frame

/-! ## One step -/

/-- An entry that opens, decides and starts nothing. -/
def Entry.neutral : Entry → Bool
  | .opened .. => false
  | .started .. => false
  | .decided _ _ _ outcome _ => outcome != .recorded
  | _ => true

theorem recordedDecisions_of_neutral {entries : List Entry} (h : ∀ e ∈ entries, e.neutral = true)
    (proposalId : String) : recordedDecisions proposalId entries = [] := by
  rw [recordedDecisions, List.filterMap_eq_nil_iff]
  intro e he
  have hneutral := h e he
  cases e with
  | decided i pid decision outcome c =>
    cases outcome with
    | recorded => cases hneutral
    | _ => rfl
  | _ => rfl

section Step

variable {σ : System Registry} (hs : Sound σ)

include hs

/-- The invariant after a step, from what is new. -/
theorem Sound.extend {r : Registry} {handlers : List Handler} {publications : List Publication}
    {entries : List Entry} (hadv : Advances σ.store r)
    (hrows : ∀ proposalId c, r proposalId = some c →
      (σ.store proposalId = some c ∧ recordedDecisions proposalId entries = [] ∧
        (c.status = .rejected → ∀ i instruction,
          Entry.started i proposalId instruction ∉ entries)) ∨
        c.proposalId = proposalId ∧ CaseSound (σ.log ++ entries) c)
    (hunknown : ∀ proposalId, r proposalId = none → recordedDecisions proposalId entries = [])
    (hopened : ∀ h o, Entry.opened h o ∈ entries →
      ∃ row, r o.proposalId = some row ∧ row.proposal = o.proposal)
    (happrovals : ∀ h proposalId decision c,
      Entry.decided h proposalId decision .recorded c ∈ entries → decision.approved = true →
        ∃ c', c = some c' ∧ Signed r proposalId c'.proposal)
    (hstarted : ∀ h proposalId instruction, Entry.started h proposalId instruction ∈ entries →
      ∃ row, r proposalId = some row ∧ signedOff row.status = true)
    (hhandlers : ∀ h handler, handlers[h]? = some handler →
      Holds r (σ.log ++ entries) h handler.phase) :
    Sound ⟨r, handlers, publications, σ.log ++ entries⟩ where
  rows proposalId c hc := by
    -- A row of the old registry that the entries do not touch, or a changed one with its own proof.
    rcases hrows proposalId c hc with ⟨hold, hdecisions, hnostart⟩ | hnew
    · obtain ⟨rfl, hsound⟩ := hs.rows proposalId c hold
      exact ⟨rfl, hsound.append hdecisions hnostart⟩
    · exact hnew
  unknown proposalId hnone := by
    replace hnone : r proposalId = none := hnone
    -- Rows are never removed, so an id unknown now was unknown before.
    have hbefore : σ.store proposalId = none := by
      cases hrow : σ.store proposalId with
      | none => rfl
      | some c =>
        obtain ⟨c', hc', -⟩ := hadv proposalId c hrow
        rw [hnone] at hc'
        cases hc'
    show recordedDecisions proposalId (σ.log ++ entries) = []
    rw [recordedDecisions_append_of_nil (hunknown proposalId hnone)]
    exact hs.unknown proposalId hbefore
  opened h o hmem := by
    rcases List.mem_append.1 hmem with hmem | hmem
    · obtain ⟨row, hrow, hproposal⟩ := hs.opened h o hmem
      obtain ⟨row', hrow', hsame, -⟩ := hadv _ row hrow
      exact ⟨row', hrow', hsame.trans hproposal⟩
    · exact hopened h o hmem
  approvals h proposalId decision c hmem happroved := by
    rcases List.mem_append.1 hmem with hmem | hmem
    · obtain ⟨c', hc', hsigned⟩ := hs.approvals h proposalId decision c hmem happroved
      exact ⟨c', hc', hsigned.advance hadv⟩
    · exact happrovals h proposalId decision c hmem happroved
  started h proposalId instruction hmem := by
    rcases List.mem_append.1 hmem with hmem | hmem
    · obtain ⟨row, hrow, hsigned⟩ := hs.started h proposalId instruction hmem
      obtain ⟨row', hrow', -, hstays⟩ := hadv _ row hrow
      exact ⟨row', hrow', hstays hsigned⟩
    · exact hstarted h proposalId instruction hmem
  handlers := hhandlers

/-- Nothing is opened, decided or started. -/
theorem Sound.neutral {handlers : List Handler} {publications : List Publication}
    {entries : List Entry} (hentries : ∀ e ∈ entries, e.neutral = true)
    (hhandlers : ∀ h handler, handlers[h]? = some handler →
      Holds σ.store (σ.log ++ entries) h handler.phase) :
    Sound ⟨σ.store, handlers, publications, σ.log ++ entries⟩ := by
  apply hs.extend (Advances.refl σ.store)
  · intro proposalId c hc
    refine Or.inl ⟨hc, recordedDecisions_of_neutral hentries proposalId, ?_⟩
    intro _ i instruction hmem
    cases hentries _ hmem
  · exact fun proposalId _ => recordedDecisions_of_neutral hentries proposalId
  · intro h o hmem
    cases hentries _ hmem
  · intro h proposalId decision c hmem
    cases hentries _ hmem
  · intro h proposalId instruction hmem
    cases hentries _ hmem
  · exact hhandlers

/-- One case changes, and the entries are about it. -/
theorem Sound.change {proposalId : String} {c : ApprovalCase} {handlers : List Handler}
    {publications : List Publication} {entries : List Entry}
    (hadv : Advances σ.store (σ.store.set proposalId c))
    (hcase : c.proposalId = proposalId ∧ CaseSound (σ.log ++ entries) c)
    (hothers : ∀ other, other ≠ proposalId → recordedDecisions other entries = [] ∧
      ∀ i instruction, Entry.started i other instruction ∉ entries)
    (hopened : ∀ h o, Entry.opened h o ∈ entries →
      o.proposalId = proposalId ∧ c.proposal = o.proposal)
    (happrovals : ∀ h pid decision c', Entry.decided h pid decision .recorded c' ∈ entries →
      decision.approved = true →
        pid = proposalId ∧ signedOff c.status = true ∧ c' = some c)
    (hstarted : ∀ h pid instruction, Entry.started h pid instruction ∈ entries →
      pid = proposalId ∧ signedOff c.status = true)
    (hhandlers : ∀ h handler, handlers[h]? = some handler →
      Holds (σ.store.set proposalId c) (σ.log ++ entries) h handler.phase) :
    Sound ⟨σ.store.set proposalId c, handlers, publications, σ.log ++ entries⟩ := by
  apply hs.extend hadv
  -- Every other row is as it was.
  · intro pid d hd
    by_cases hpid : pid = proposalId
    · subst hpid
      rw [Registry.set_self] at hd
      cases hd
      exact Or.inr hcase
    · rw [Registry.set_of_ne hpid] at hd
      obtain ⟨hdecisions, hnostart⟩ := hothers pid hpid
      exact Or.inl ⟨hd, hdecisions, fun _ => hnostart⟩
  · intro pid hnone
    by_cases hpid : pid = proposalId
    · subst hpid
      rw [Registry.set_self] at hnone
      cases hnone
    · exact (hothers pid hpid).1
  · intro h o hmem
    obtain ⟨hpid, hproposal⟩ := hopened h o hmem
    rw [hpid]
    exact ⟨c, Registry.set_self _ _ _, hproposal⟩
  · intro h pid decision c' hmem happroved
    obtain ⟨rfl, hsigned, rfl⟩ := happrovals h pid decision c' hmem happroved
    exact ⟨c, rfl, c, Registry.set_self _ _ _, hsigned, rfl⟩
  · intro h pid instruction hmem
    obtain ⟨rfl, hsigned⟩ := hstarted h pid instruction hmem
    exact ⟨c, Registry.set_self _ _ _, hsigned⟩
  · exact hhandlers

/-- One handler moves; the others keep what they hold. -/
theorem Sound.holds_set {h : Nat} {handler : Handler} {next : Phase} {r : Registry}
    {entries : List Entry} (hadv : Advances σ.store r) (hnext : Holds r (σ.log ++ entries) h next)
    (i : Nat) (x : Handler) (hx : (σ.handlers.set h { handler with phase := next })[i]? = some x) :
    Holds r (σ.log ++ entries) i x.phase := by
  rw [List.getElem?_set] at hx
  split at hx
  · next heq =>
    split at hx
    · cases hx
      rw [← heq]
      exact hnext
    · cases hx
  · exact (hs.handlers i x hx).advance entries hadv

/-- A new case is pending, and nothing was decided about it. -/
theorem Sound.open_move {stored : ApprovalCase → ApprovalCase} (hstored : Preserves stored)
    {h : Nat} {handler : Handler} {next : Phase} {c : ApprovalCase} (hpending : c.status = .pending)
    (hfresh : c.createdAt.utc = true ∧ c.result = none ∧ c.decidedAt = none ∧ c.executedAt = none)
    (hnew : σ.store c.proposalId = none) (hnext : next.idle = true) :
    Sound
      { σ with
        store := σ.store.set c.proposalId (stored c)
        handlers := σ.handlers.set h { handler with phase := next }
        log := σ.log ++ [.opened h c] } := by
  have hsame : stored c = c := hstored.fresh c hfresh.1 hfresh.2.1 hfresh.2.2.1 hfresh.2.2.2
  have hadv := Advances.set_new hnew c
  -- A fresh case is stored as it is.
  rw [hsame]
  have hnone : recordedDecisions c.proposalId (σ.log ++ [.opened h c]) = [] := by
    rw [recordedDecisions_append_of_nil (by rfl)]
    exact hs.unknown _ hnew
  apply hs.change hadv
  · refine ⟨rfl, ?_⟩
    constructor
    · exact ⟨h, c, by simp, rfl, rfl⟩
    · exact fun _ => ⟨hnone, hfresh.2.2.1, hfresh.2.1, hfresh.2.2.2⟩
    -- The case is pending: what is asked of the other states does not arise.
    all_goals
      rw [hpending]
      intro hstatus
      cases hstatus
  · exact fun other _ => ⟨rfl, by simp⟩
  · intro i o hmem
    cases List.mem_singleton.1 hmem
    exact ⟨rfl, rfl⟩
  · simp
  · simp
  · exact hs.holds_set hadv (holds_of_idle hnext)

/-- The row a decision writes. -/
theorem Sound.decided_row {proposalId : String} {c : ApprovalCase} (decision : CaseDecision)
    (clock h : Nat) (rest : List Entry) (hrow : σ.store proposalId = some c)
    (hpending : c.status = .pending)
    (hrest : recordedDecisions proposalId rest = [])
    (hstarted : decision.approved = false → ∀ i instruction,
      Entry.started i proposalId instruction ∉ rest) :
    let c' := c.decided decision.approved decision.decidedBy decision.note (DateTime.now clock)
    c'.proposalId = proposalId ∧
      CaseSound (σ.log ++ .decided h proposalId decision .recorded (some c') :: rest) c' := by
  obtain ⟨rfl, hsound⟩ := hs.rows proposalId c hrow
  obtain ⟨hnone, -, hresult, hexecuted⟩ := hsound.pending hpending
  intro c'
  -- No instruction was sent before the decision, as one is sent for a signed-off case only.
  have hnever : ∀ i instruction, Entry.started i c.proposalId instruction ∉ σ.log := by
    intro i instruction hmem
    obtain ⟨row, hrow', hsigned⟩ := hs.started i _ instruction hmem
    rw [hrow] at hrow'
    cases hrow'
    rw [hpending] at hsigned
    cases hsigned
  -- It is the first decision on the case, so it is the one recorded.
  have hdecided : DecidedAs decision.approved
      (σ.log ++ .decided h c.proposalId decision .recorded (some c') :: rest) c' := by
    refine ⟨h, decision, c', ?_, rfl, by simp [c', ApprovalCase.decided], rfl, rfl, rfl, rfl⟩
    show recordedDecisions c.proposalId _ = _
    rw [recordedDecisions_append, hnone, List.nil_append, recordedDecisions, List.filterMap_cons,
      Entry.decisionOn, if_pos rfl]
    exact congrArg _ hrest
  refine ⟨rfl, ?_⟩
  have hopened : ∃ i o, Entry.opened i o ∈
      σ.log ++ .decided h c.proposalId decision .recorded (some c') :: rest ∧
        o.proposalId = c'.proposalId ∧ o.proposal = c'.proposal := by
    obtain ⟨i, o, hmem, hsame⟩ := hsound.opened
    exact ⟨i, o, List.mem_append_left _ hmem, hsame⟩
  cases happroved : decision.approved with
  | true =>
    rw [happroved] at hdecided
    have hstatus : c'.status = .approved := by simp [c', ApprovalCase.decided, happroved]
    constructor
    · exact hopened
    · simp [hstatus]
    · exact fun _ => ⟨hdecided, hresult, hexecuted⟩
    · simp [hstatus]
    · simp [hstatus]
    · simp [hstatus]
  | false =>
    rw [happroved] at hdecided
    have hstatus : c'.status = .rejected := by simp [c', ApprovalCase.decided, happroved]
    constructor
    · exact hopened
    · simp [hstatus]
    · simp [hstatus]
    · intro _
      refine ⟨hdecided, hresult, hexecuted, ?_⟩
      intro i instruction hmem
      rcases List.mem_append.1 hmem with hmem | hmem
      · exact hnever i instruction hmem
      · rcases List.mem_cons.1 hmem with hmem | hmem
        · cases hmem
        · exact hstarted happroved i instruction hmem
    · simp [hstatus]
    · simp [hstatus]

/-- An approval: the decision and the instruction are logged in one step. -/
theorem Sound.approve_move {h : Nat} {handler : Handler} {proposalId : String} {c : ApprovalCase}
    (decision : CaseDecision) (clock : Nat) (hrow : σ.store proposalId = some c)
    (hpending : c.status = .pending) (happroved : decision.approved = true) :
    let c' := c.decided true decision.decidedBy decision.note (DateTime.now clock)
    Sound
      { σ with
        store := σ.store.set proposalId c'
        handlers := σ.handlers.set h { handler with phase := .executing proposalId c' {} }
        log := σ.log ++
          [.decided h proposalId decision .recorded (some c'),
            .started h proposalId (executionInstruction c')] } := by
  intro c'
  have hadv : Advances σ.store (σ.store.set proposalId c') := Advances.set hrow rfl fun _ => rfl
  have hsigned : signedOff c'.status = true := rfl
  have hcase := hs.decided_row decision clock h
    [.started h proposalId (executionInstruction c')] hrow hpending rfl (by simp [happroved])
  rw [happroved] at hcase
  apply hs.change hadv hcase
  · intro other hother
    exact ⟨by simp [recordedDecisions, Entry.decisionOn, hother.symm], by simp [hother]⟩
  · simp
  · intro i pid first c'' hmem _
    obtain ⟨-, rfl, -, rfl⟩ : i = h ∧ pid = proposalId ∧ first = decision ∧ c'' = some c' := by
      simpa using hmem
    exact ⟨rfl, hsigned, rfl⟩
  · intro i pid instruction hmem
    obtain ⟨-, rfl, -⟩ : i = h ∧ pid = proposalId ∧ instruction = executionInstruction c' := by
      simpa using hmem
    exact ⟨rfl, hsigned⟩
  · apply hs.holds_set hadv
    refine ⟨⟨c', Registry.set_self _ _ _, hsigned, rfl⟩, h, decision, some c',
      executionInstruction c', happroved, ?_⟩
    exact List.sublist_append_right _ _

/-- A rejection starts nothing. -/
theorem Sound.reject_move {h : Nat} {handler : Handler} {proposalId : String} {c : ApprovalCase}
    {response : Response} (decision : CaseDecision) (clock : Nat)
    (hrow : σ.store proposalId = some c) (hpending : c.status = .pending)
    (hrejected : decision.approved = false) :
    let c' := c.decided false decision.decidedBy decision.note (DateTime.now clock)
    Sound
      { σ with
        store := σ.store.set proposalId c'
        handlers := σ.handlers.set h { handler with phase := .finished response }
        log := σ.log ++ [.decided h proposalId decision .recorded (some c')] } := by
  intro c'
  have hadv : Advances σ.store (σ.store.set proposalId c') :=
    Advances.set hrow rfl (by simp [hpending, signedOff])
  have hcase := hs.decided_row decision clock h [] hrow hpending rfl (by simp)
  rw [hrejected] at hcase
  apply hs.change hadv hcase
  · intro other hother
    exact ⟨by simp [recordedDecisions, Entry.decisionOn, hother.symm], by simp⟩
  · simp
  · intro i pid first c'' hmem hyes
    obtain ⟨-, -, rfl, -⟩ : i = h ∧ pid = proposalId ∧ first = decision ∧ c'' = some c' := by
      simpa using hmem
    rw [hrejected] at hyes
    cases hyes
  · simp
  · exact hs.holds_set hadv trivial

/-- A repeated decision on an approved case drives it again, on the first approval. -/
theorem Sound.drive_move {h : Nat} {handler : Handler} {proposalId : String} {c : ApprovalCase}
    (decision : CaseDecision) (hrow : σ.store proposalId = some c) (hopen : c.status = .approved) :
    Sound
      { σ with
        handlers := σ.handlers.set h { handler with phase := .executing proposalId c {} }
        log := σ.log ++
          [.decided h proposalId decision .alreadyDecided (some c),
            .started h proposalId (executionInstruction c)] } := by
  have hstay := Advances.refl σ.store
  have hsigned : signedOff c.status = true := by rw [hopen]; rfl
  obtain ⟨hpid, hsound⟩ := hs.rows proposalId c hrow
  obtain ⟨i, first, c', -, happroved, hmem, -⟩ := hsound.decidedAs_of_signedOff hsigned
  rw [hpid] at hmem
  -- The store stays as it is; the only new entry is the instruction.
  apply hs.extend hstay
  · intro pid d hd
    refine Or.inl ⟨hd, rfl, ?_⟩
    intro hrejected i instruction hmem
    obtain ⟨-, rfl, -⟩ : i = h ∧ pid = proposalId ∧ instruction = executionInstruction c := by
      simpa using hmem
    rw [hrow] at hd
    cases hd
    rw [hopen] at hrejected
    cases hrejected
  · exact fun pid _ => rfl
  · simp
  · simp
  · intro i pid instruction hmem
    obtain ⟨-, rfl, -⟩ : i = h ∧ pid = proposalId ∧ instruction = executionInstruction c := by
      simpa using hmem
    exact ⟨c, hrow, hsigned⟩
  · apply hs.holds_set hstay
    refine ⟨⟨c, hrow, hsigned, rfl⟩, i, first, some c', executionInstruction c, happroved, ?_⟩
    exact (List.singleton_sublist.2 hmem).append (List.sublist_cons_self _ _)

/-- The row an execution writes. -/
theorem Sound.closed_row {proposalId : String} {row c : ApprovalCase} {turn : TurnResult}
    {performed : Dict} {clock h : Nat} (hrow : σ.store proposalId = some row)
    (hholds : Holds σ.store σ.log h (.recording proposalId c turn performed)) :
    let row' := row.closed true performed (DateTime.now clock)
    row'.proposalId = proposalId ∧ CaseSound (σ.log ++ [.recorded h proposalId performed]) row' := by
  obtain ⟨⟨row', hrow', hsigned, hproposal⟩, hperformed, hunderway⟩ := hholds
  rw [hrow] at hrow'
  cases hrow'
  -- The row is signed off, whatever has become of it since the turn began.
  obtain ⟨rfl, hsound⟩ := hs.rows proposalId row hrow
  have hsound' := @CaseSound.append _ [.recorded h row.proposalId performed] _ hsound rfl (by simp)
  refine ⟨rfl, ?_⟩
  constructor
  · exact hsound'.opened
  · intro hstatus
    cases hstatus
  · intro hstatus
    cases hstatus
  · intro hstatus
    cases hstatus
  · intro _
    obtain ⟨i, decision, c', instruction, happroved, hsub⟩ := hunderway
    refine ⟨hsound'.decidedAs_of_signedOff hsigned, rfl, performed, rfl, i, decision, c', h,
      instruction, turn.texts, happroved, hsub.trans (List.sublist_append_left _ _), ?_, ?_⟩
    · show findExecution turn.texts row.proposal = _
      rw [hproposal]
      exact hperformed
    · exact (confirms_of_findExecution hperformed).1
  · intro hstatus
    cases hstatus

end Step

theorem sound_initial (stored : ApprovalCase → ApprovalCase) :
    Sound (initial (registryStore stored)) where
  rows _ _ hrow := by cases hrow
  unknown _ _ := rfl
  opened _ _ hmem := by cases hmem
  approvals _ _ _ _ hmem := by cases hmem
  started _ _ _ hmem := by cases hmem
  handlers _ _ hhandler := by cases hhandler

section Run

variable [UnicodeData] {stored : ApprovalCase → ApprovalCase}

/-- A handler's move keeps the invariant: one case for each move. -/
theorem Sound.move (hstored : Preserves stored) {σ : System Registry} (hs : Sound σ) {h : Nat}
    {handler : Handler} {what : Resume} {next : Phase} {r : Registry} {entries : List Entry}
    (hhandler : σ.handlers[h]? = some handler)
    (hmove : Move stored h σ.store handler.phase what next r entries) :
    Sound
      { σ with
        store := r
        handlers := σ.handlers.set h { handler with phase := next }
        log := σ.log ++ entries } := by
  have hholds := hs.handlers h handler hhandler
  have hstay := Advances.refl σ.store
  generalize hphase : handler.phase = phase at hmove hholds
  cases hmove with
  -- The agent's words are no entry the invariant speaks about.
  | heard => exact hs.neutral (by simp [Entry.neutral]) (hs.holds_set hstay trivial)
  | ran _ _ _ hnext => exact hs.neutral (by simp) (hs.holds_set hstay (holds_of_idle hnext))
  | opened hc hnew hnext =>
    subst hc
    exact hs.open_move hstored rfl ⟨rfl, rfl, rfl, rfl⟩ hnew hnext
  | refused hnext => exact hs.neutral (by simp) (hs.holds_set hstay (holds_of_idle hnext))
  | missing => exact hs.neutral (by simp [Entry.neutral]) (hs.holds_set hstay trivial)
  | approved hrow hpending happroved hc' =>
    subst hc'
    exact hs.approve_move _ _ hrow hpending happroved
  | rejected hrow hpending hrejected hc' =>
    subst hc'
    exact hs.reject_move _ _ hrow hpending hrejected
  | driven hrow hopen => exact hs.drive_move _ hrow hopen
  | closed => exact hs.neutral (by simp [Entry.neutral]) (hs.holds_set hstay trivial)
  | worked proposalId c turn event =>
    exact hs.neutral (by simp [Entry.neutral])
      (hs.holds_set hstay ⟨hholds.1, hholds.2.append _⟩)
  | unconfirmed hnone => exact hs.neutral (by simp [Entry.neutral]) (hs.holds_set hstay hholds.1)
  | confirmed hsome =>
    exact hs.neutral (by simp [Entry.neutral])
      (hs.holds_set hstay ⟨hholds.1, hsome, hholds.2.concat _⟩)
  | reported => exact hs.neutral (by simp) (hs.holds_set hstay trivial)
  -- `record_execution` closes the row under the id, and no other.
  | @recorded proposalId c row turn performed clock response hrow =>
    have hadv : Advances σ.store
        (σ.store.set proposalId (row.closed true performed (DateTime.now clock))) :=
      Advances.set hrow rfl fun _ => rfl
    apply hs.change hadv (hs.closed_row hrow hholds)
    · exact fun other _ => ⟨rfl, by simp⟩
    · simp
    · simp
    · simp
    · exact hs.holds_set hadv trivial
  | lost => exact hs.neutral (by simp [Entry.neutral]) (hs.holds_set hstay trivial)

/-- Every step keeps the invariant. -/
theorem sound_step (hstored : Preserves stored) {σ τ : System Registry} {a : Action} (hs : Sound σ)
    (hstep : step (registryStore stored) σ a = some τ) : Sound τ := by
  have hstep := step_cases hstep
  -- Outside moves a handler is new or as it was.
  have hquiet (entries : List Entry) (hnot : ∀ h what, a ≠ .resume h what) :
      ∀ i x, τ.handlers[i]? = some x → Holds σ.store (σ.log ++ entries) i x.phase := by
    intro i x hx
    rcases hstep.handler_cases hx with ⟨request, -, -, rfl⟩ | ⟨y, hy, -, hphase⟩
    · cases request <;> trivial
    · rcases hphase with ⟨hphase, -⟩ | ⟨what, _, ha, -⟩
      · rw [hphase]
        exact (hs.handlers i y hy).advance entries (Advances.refl _)
      · exact absurd ha (hnot i what)
  cases hstep with
  | requested request =>
    have hsound : Sound ⟨σ.store, _, σ.publications, σ.log ++ []⟩ :=
      hs.neutral (by simp) (hquiet [] fun _ _ => Action.noConfusion)
    rw [List.append_nil] at hsound
    exact hsound
  | moved hhandler hlive hmove => exact hs.move hstored hhandler hmove
  | proposed => exact hs.neutral (by simp [Entry.neutral]) (hquiet _ fun _ _ => Action.noConfusion)
  | published => exact hs.neutral (by simp [Entry.neutral]) (hquiet _ fun _ _ => Action.noConfusion)
  | aborted hhandler =>
    have hsound : Sound ⟨σ.store, _, σ.publications, σ.log ++ []⟩ :=
      hs.neutral (by simp) (hquiet [] fun _ _ => Action.noConfusion)
    rw [List.append_nil] at hsound
    exact hsound

/-- The invariant holds in every reachable state. -/
theorem sound_run (hstored : Preserves stored) {actions : List Action} {σ : System Registry}
    (hrun : run (registryStore stored) actions = some σ) : Sound σ :=
  Machine.run_induct (fun _ _ _ hs => sound_step hstored hs) (sound_initial stored) hrun

/-- No step changes a rejected row. -/
theorem rejected_step {σ τ : System Registry} {a : Action} (hs : Sound σ)
    (hstep : step (registryStore stored) σ a = some τ) {proposalId : String} {c : ApprovalCase}
    (hrow : σ.store proposalId = some c) (hrejected : c.status = .rejected) :
    τ.store proposalId = some c := by
  -- A row that is written is another one: it was unknown, pending or signed off before.
  have hother {pid : String} {c' : ApprovalCase}
      (hpid : ∀ d, σ.store pid = some d → d.status ≠ .rejected) :
      (σ.store.set pid c') proposalId = some c := by
    rw [Registry.set_of_ne]
    · exact hrow
    · rintro rfl
      exact hpid c hrow hrejected
  cases step_cases hstep with
  | requested => exact hrow
  | @moved h handler what next r entries hhandler hlive hmove =>
    have hholds := hs.handlers h handler hhandler
    show r proposalId = some c
    generalize handler.phase = phase at hmove hholds
    cases hmove with
    | opened hc hnew hnext =>
      apply hother
      intro d hd
      rw [hnew] at hd
      cases hd
    | approved hpid hpending =>
      apply hother
      intro d hd
      rw [hpid] at hd
      cases hd
      rw [hpending]
      exact Status.noConfusion
    | rejected hpid hpending =>
      apply hother
      intro d hd
      rw [hpid] at hd
      cases hd
      rw [hpending]
      exact Status.noConfusion
    | recorded hpid =>
      apply hother
      obtain ⟨⟨row, hrow', hsigned, -⟩, -⟩ := hholds
      intro d hd heq
      rw [hrow'] at hd
      cases hd
      rw [heq] at hsigned
      cases hsigned
    | _ => exact hrow
  | proposed => exact hrow
  | published => exact hrow
  | aborted => exact hrow

/-- No run changes a rejected row. -/
theorem rejected_run (hstored : Preserves stored) {σ τ : System Registry} {later : List Action}
    (hs : Sound σ) (hrun : Machine.run (step (registryStore stored)) σ later = some τ)
    {proposalId : String} {c : ApprovalCase} (hrow : σ.store proposalId = some c)
    (hrejected : c.status = .rejected) : τ.store proposalId = some c := by
  have hboth : Sound τ ∧ τ.store proposalId = some c := by
    refine Machine.run_induct (I := fun ρ => Sound ρ ∧ ρ.store proposalId = some c) ?_
      ⟨hs, hrow⟩ hrun
    rintro ρ a ρ' ⟨hsound, hρ⟩ hstep
    exact ⟨sound_step hstored hsound hstep, rejected_step hsound hstep hρ hrejected⟩
  exact hboth.2

end Run

/-! ## Both backends -/

/-- Whatever requests arrive, whatever the turns bring and wherever requests are lost, every case in
the store is sound, and a rejected one never changes again. -/
theorem reachable_cases_sound [UnicodeData] (database : Option Dialect) (actions : List Action)
    {σ : System (atomic (buildCaseStore database)).State}
    (hrun : run (atomic (buildCaseStore database)) actions = some σ) :
    (∀ proposalId c, (buildCaseStore database).find σ.store proposalId = some c →
      c.proposalId = proposalId ∧ CaseSound σ.log c) ∧
      ∀ later τ, Machine.run (step (atomic (buildCaseStore database))) σ later = some τ →
        ∀ proposalId c, (buildCaseStore database).find σ.store proposalId = some c →
          c.status = .rejected → (buildCaseStore database).find τ.store proposalId = some c := by
  have hS := buildCaseStore_implements database
  have hsound : Sound (σ.abstract (buildCaseStore database)) :=
    sound_run hS.preserves (run_abstract hS hrun)
  refine ⟨hsound.rows, ?_⟩
  intro later τ hlater proposalId c hrow hrejected
  have hmap := Machine.run_map (step_abstract hS) σ later
  rw [hlater] at hmap
  exact rejected_run hS.preserves hsound hmap.symm hrow hrejected

/-! ## One case, from its proposal to its execution -/

section Scenario

attribute [local instance] asciiData

/-- What the specialist proposes, what is approved, and what comes back. -/
def proposed391 : Dict := proposalResult "391" "q3"

def published391 : Dict := publishedResult ⟨"391", "q3", "alice"⟩ ""

/-- A conversation raises an approval. -/
def proposing : List Action :=
  [.request (.run { text := "Publish 17 * 23 as q3." } "case-1"),
   .publish 0 "391" "q3" "" "", .resume 0 (.event (reported proposed391)), .resume 0 .turnEnd,
   .resume 0 (.openCase "p1" 0)]

/-- Handler `h` publishes, and says so. -/
def publishing (h : Nat) : List Action :=
  [.publish h "391" "q3" "alice" "", .resume h (.event (reported published391)),
   .resume h .turnEnd]

/-- The case that was opened. -/
def case391 : ApprovalCase := caseFromProposal proposed391 "case-1" "case-1" "" "p1" 0

/-- The service once the case is open. -/
def opened391 : System (atomic (buildCaseStore none)).State where
  store := [("p1", case391)]
  handlers :=
    [{ request := .run { text := "Publish 17 * 23 as q3." } "case-1"
       phase := .finished (.ok (caseRunBody "case-1" "case-user"
         (TurnResult.add {} (reported proposed391)) [case391.publicView])) }]
  publications := []
  log := [.called 0 proposed391 none, .emitted 0 (reported proposed391), .opened 0 case391]

/-- Without an approver the tool proposes. -/
theorem publishResult_391 : publishResult [] "391" "q3" "" "" = (proposed391, []) := by
  have hvalue : canonicalValue "391" = "391" := by decide +kernel
  rw [publishResult_of_not_isApprover (by decide +kernel), hvalue]
  rfl

theorem run_proposing :
    Machine.run (step (atomic (buildCaseStore none))) (initial _) proposing = some opened391 := by
  have hfound : findProposals (TurnResult.add {} (reported proposed391)).texts = [proposed391] := by
    rw [texts_reported]
    exact findProposals_relayed rfl rfl
  apply Machine.run_of_step rfl
  have hcall (σ : System (atomic (buildCaseStore none)).State) (hσ : σ.publications = []) :
      publish (atomic (buildCaseStore none)) σ 0 "391" "q3" "" "" =
        { σ with publications := [], log := σ.log ++ [.called 0 proposed391 none] } := by
    rw [publish, hσ, publishResult_391]
    rfl
  apply Machine.run_of_step (congrArg some (hcall _ rfl))
  apply Machine.run_of_step rfl
  apply Machine.run_of_step (step_resume rfl rfl (resume_ran hfound))
  exact Machine.run_of_step rfl rfl

theorem findExecution_published391 :
    findExecution (TurnResult.add {} (reported published391)).texts case391.proposal =
      some published391 := by
  rw [texts_reported]
  exact findExecution_relayed rfl (by decide +kernel)

/-- The case is approved, carried out and closed. -/
def carryingOut : List Action :=
  [.request (.decide "p1" { approved := true, decidedBy := "alice" } "case-user"),
   .resume 1 (.decide 1)] ++ publishing 1 ++ [.resume 1 (.recordExecution 2)]

theorem reachable_cases_sound_391 :
    ∃ σ row, run (atomic (buildCaseStore none)) (proposing ++ carryingOut) = some σ ∧
      (buildCaseStore none).find σ.store "p1" = some row ∧ row.status = .executed ∧
        CaseSound σ.log row := by
  have hrun : ∃ σ, run (atomic (buildCaseStore none)) (proposing ++ carryingOut) = some σ ∧
      ((buildCaseStore none).find σ.store "p1").map ApprovalCase.status = some .executed :=
    ⟨_, Machine.run_append.2 ⟨opened391, run_proposing,
      Machine.run_of_step rfl <| Machine.run_of_step rfl <| Machine.run_of_step rfl <|
      Machine.run_of_step rfl <|
      Machine.run_of_step (step_resume rfl rfl (resume_confirmed findExecution_published391)) <|
      Machine.run_of_step rfl rfl⟩, rfl⟩
  obtain ⟨σ, hrun, hrow⟩ := hrun
  obtain ⟨row, hrow, hstatus⟩ := Option.map_eq_some_iff.1 hrow
  exact ⟨σ, row, hrun, hrow, hstatus, ((reachable_cases_sound none _ hrun).1 "p1" row hrow).2⟩

end Scenario

end AgentCluster.Service
