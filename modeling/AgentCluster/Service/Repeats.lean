import AgentCluster.Service.Soundness

/-!
# Proposals reported again

A turn reports each proposal once, but every report gets an id of its own, and the store compares ids
only. `onePending_iff` says in which runs no session has two pending cases with one content: those in
which no request reports a proposal while a case with its content, opened by another request of the
session, is pending.
-/

set_option autoImplicit false

namespace AgentCluster.Service

open Python Library Adk Cluster Agents

/-- What two proposals are compared by. -/
def content (c : ApprovalCase) : String := Json.dumpsSorted (.dict c.proposal)

/-- No session has two pending cases with one content. -/
def OnePending (r : Registry) : Prop :=
  ∀ p q c d, r p = some c → r q = some d → c.status = .pending → d.status = .pending →
    c.sessionId = d.sessionId → content c = content d → p = q

/-- A case that is opened now is not a repetition: no case that another request opened in the session
is pending with this content. -/
def OpensNew (σ : System Registry) (a : Action) : Prop :=
  ∀ h newProposalId clock, a = .resume h (.openCase newProposalId clock) →
    ∀ (handler : Handler) (sessionId userId : String) (turn : TurnResult) (found : Dict)
      (todo opened : List Dict), σ.handlers[h]? = some handler → handler.aborted = false →
      handler.phase = .opening sessionId userId turn (found :: todo) opened →
      σ.store newProposalId = none →
        ∀ h' o d, h' ≠ h → Entry.opened h' o ∈ σ.log → σ.store o.proposalId = some d →
          d.status = .pending → d.sessionId = sessionId → content d ≠ proposalKey found

/-! ## What a turn reports -/

theorem nodup_proposalKey (texts : List String) :
    ((findProposals texts).map proposalKey).Nodup := by
  rw [findProposals_eq]
  exact nodup_keepFirst _ _ _

theorem content_caseFromProposal [UnicodeData] {texts : List String} {found : Dict}
    (hfound : found ∈ findProposals texts) (sessionId caseId agent newProposalId : String)
    (clock : Nat) :
    content (caseFromProposal found sessionId caseId agent newProposalId clock) =
      proposalKey found := by
  rw [findProposals_eq] at hfound
  have hproposal := List.of_mem_filter ((keepFirst_sublist proposalKey [] _).subset hfound)
  rw [isProposal, Bool.and_eq_true] at hproposal
  show Json.dumpsSorted (.dict (proposalOf found)) = proposalKey found
  rw [proposalOf, proposalKey]
  cases hget : found.get "proposal" with
  | dict proposal => rfl
  | _ =>
    rw [hget] at hproposal
    cases hproposal.2

/-- The handler has opened cases of the proposals it is past, and of no others. -/
def Past (log : List Entry) (h : Nat) : Phase → Prop
  | .running .. => ∀ c, Entry.opened h c ∉ log
  | .opening _ _ turn todo _ =>
      ∃ past, findProposals turn.texts = past ++ todo ∧
        ∀ c, Entry.opened h c ∈ log → content c ∈ past.map proposalKey
  | _ => True

/-- Every handler is past what it has opened, and no other has opened anything. -/
structure Collected (σ : System Registry) : Prop where
  handlers : ∀ h handler, σ.handlers[h]? = some handler → Past σ.log h handler.phase
  known : ∀ h c, Entry.opened h c ∈ σ.log → h < σ.handlers.length

section Steps

variable [UnicodeData] {stored : ApprovalCase → ApprovalCase}

omit [UnicodeData] in
theorem past_openNext {log : List Entry} {h : Nat} {turn : TurnResult} (past : List Dict)
    {todo : List Dict} (hfound : findProposals turn.texts = past ++ todo)
    (hlog : ∀ c, Entry.opened h c ∈ log → content c ∈ past.map proposalKey)
    (sessionId userId : String) (opened : List Dict) :
    Past log h (openNext sessionId userId turn todo opened) := by
  unfold openNext
  split
  · trivial
  · exact ⟨past, hfound, hlog⟩

/-- The proposal being opened moves from those to do to those done. -/
theorem past_openCase {log : List Entry} {h : Nat} {r : Registry} {sessionId userId : String}
    {turn : TurnResult} {found : Dict} {todo opened : List Dict}
    (hpast : Past log h (.opening sessionId userId turn (found :: todo) opened))
    (newProposalId : String) (clock : Nat) {p : Phase × Registry × List Entry}
    (hp : resume (registryStore stored) h r (.opening sessionId userId turn (found :: todo) opened)
      (.openCase newProposalId clock) = some p) :
    Past (log ++ p.2.2) h p.1 ∧ ∀ i c, Entry.opened i c ∈ p.2.2 → i = h := by
  obtain ⟨past, hfound, hlog⟩ := hpast
  have hnext : findProposals turn.texts = (past ++ [found]) ++ todo := by
    rw [hfound, List.append_assoc]
    rfl
  have hmem : found ∈ findProposals turn.texts := by
    rw [hfound]
    exact List.mem_append_right _ List.mem_cons_self
  have hcontent := content_caseFromProposal hmem sessionId sessionId "" newProposalId clock
  simp only [resume, registryStore, Option.some.injEq] at hp
  subst hp
  generalize hc : caseFromProposal found sessionId sessionId "" newProposalId clock = c at hcontent
  cases hnew : r c.proposalId with
  | none =>
    rw [Registry.openCase_new hnew]
    refine ⟨past_openNext _ hnext ?_ sessionId userId _, ?_⟩
    · intro o ho
      rw [List.map_append]
      rcases List.mem_append.1 ho with ho | ho
      · exact List.mem_append_left _ (hlog o ho)
      · cases List.mem_singleton.1 ho
        rw [hcontent]
        exact List.mem_append_right _ List.mem_cons_self
    · intro i o ho
      cases List.mem_singleton.1 ho
      rfl
  -- The id is taken: nothing is opened, and the proposal counts as done all the same.
  | some c' =>
    rw [Registry.openCase_known hnew]
    refine ⟨past_openNext _ hnext ?_ sessionId userId _, by simp [answered]⟩
    intro o ho
    have ho : Entry.opened h o ∈ log := by simpa [answered] using ho
    rw [List.map_append]
    exact List.mem_append_left _ (hlog o ho)

/-- A move opens at most the proposal that is next, and takes the handler past it. -/
theorem past_resume {log : List Entry} {h : Nat} {r : Registry} {phase : Phase} {what : Resume}
    {p : Phase × Registry × List Entry} (hpast : Past log h phase)
    (hp : resume (registryStore stored) h r phase what = some p) :
    Past (log ++ p.2.2) h p.1 ∧ ∀ i c, Entry.opened i c ∈ p.2.2 → i = h := by
  cases phase with
  | running sessionId userId turn =>
    cases what with
    | event event =>
      cases hp
      refine ⟨?_, by simp⟩
      intro c hc
      rcases List.mem_append.1 hc with hc | hc
      · exact hpast c hc
      · simp at hc
    | turnEnd =>
      cases hp
      refine ⟨past_openNext [] rfl ?_ sessionId userId [], by simp⟩
      intro c hc
      rw [List.append_nil] at hc
      exact absurd hc (hpast c)
    | _ => cases hp
  | opening sessionId userId turn todo opened =>
    cases todo with
    | nil => cases what <;> cases hp
    | cons found todo =>
      cases what with
      | openCase newProposalId clock =>
        exact past_openCase hpast newProposalId clock hp
      | _ => cases hp
  -- The later phases collect nothing.
  | _ =>
    obtain ⟨next, r', entries⟩ := p
    cases resume_move hp <;> exact ⟨trivial, by simp⟩

omit [UnicodeData] in
theorem collected_initial : Collected (initial (registryStore stored)) where
  handlers h handler hhandler := by simp [initial] at hhandler
  known h c hmem := by cases hmem

omit [UnicodeData] in
theorem Past.append {log entries : List Entry} {h : Nat} {phase : Phase}
    (hpast : Past log h phase) (hentries : ∀ c, Entry.opened h c ∉ entries) :
    Past (log ++ entries) h phase := by
  have hmem (c : ApprovalCase) (hc : Entry.opened h c ∈ log ++ entries) :
      Entry.opened h c ∈ log := by
    rcases List.mem_append.1 hc with hc | hc
    · exact hc
    · exact absurd hc (hentries c)
  cases phase with
  | running sessionId userId turn => exact fun c hc => hpast c (hmem c hc)
  | opening sessionId userId turn todo opened =>
    obtain ⟨past, hfound, hlog⟩ := hpast
    exact ⟨past, hfound, fun c hc => hlog c (hmem c hc)⟩
  | _ => trivial

omit [UnicodeData] in
/-- Entries that open nothing. -/
theorem Collected.append {σ : System Registry} (hσ : Collected σ) (publications : List Publication)
    {entries : List Entry} (hentries : ∀ h c, Entry.opened h c ∉ entries) :
    Collected { σ with publications := publications, log := σ.log ++ entries } where
  handlers h handler hhandler := (hσ.handlers h handler hhandler).append (hentries h)
  known h c hc := by
    rcases List.mem_append.1 hc with hc | hc
    · exact hσ.known h c hc
    · exact absurd hc (hentries h c)

/-- Every step keeps the invariant. -/
theorem collected_step {σ τ : System Registry} {a : Action} (hσ : Collected σ)
    (hstep : step (registryStore stored) σ a = some τ) : Collected τ := by
  cases a with
  | request request =>
    cases hstep
    constructor
    · intro i handler hi
      rw [List.getElem?_append] at hi
      split at hi
      · exact hσ.handlers i handler hi
      · rw [List.getElem?_singleton] at hi
        split at hi
        · -- No entry is of a handler that has not been there yet.
          cases hi
          cases request with
          | run req newSessionId =>
            intro c hc
            have hlt := hσ.known i c hc
            omega
          | decide => trivial
        · cases hi
    · intro i c hc
      rw [List.length_append]
      exact Nat.lt_of_lt_of_le (hσ.known i c hc) (Nat.le_add_right _ _)
  | resume h what =>
    obtain ⟨handler, p, hhandler, -, hp, rfl⟩ := resume_of_step hstep
    -- Only the handler that moves writes entries, and they carry its own number.
    have hlt := (List.getElem?_eq_some_iff.1 hhandler).1
    obtain ⟨hpast, hentries⟩ := past_resume (hσ.handlers h handler hhandler) hp
    constructor
    · intro i x hx
      rw [List.getElem?_set] at hx
      split at hx
      · next heq =>
        subst heq
        cases hx
        exact hpast
      · next hne =>
        exact (hσ.handlers i x hx).append fun c hc => hne (hentries i c hc).symm
    · intro i c hc
      rw [List.length_set]
      rcases List.mem_append.1 hc with hc | hc
      · exact hσ.known i c hc
      · rw [hentries i c hc]
        exact hlt
  | publish h value label approvedBy note =>
    cases step_cases hstep with
    | proposed => exact hσ.append σ.publications (by simp)
    | published => exact hσ.append _ (by simp)
  | abort h =>
    obtain ⟨handler, hhandler, rfl⟩ := Option.map_eq_some_iff.1 hstep
    constructor
    · intro i x hx
      rw [List.getElem?_set] at hx
      split at hx
      · next heq =>
        subst heq
        split at hx
        · cases hx
          exact hσ.handlers h handler hhandler
        · cases hx
      · exact hσ.handlers i x hx
    · intro i c hc
      rw [List.length_set]
      exact hσ.known i c hc

/-! ## One step -/

omit [UnicodeData] in
/-- A change that leaves no case pending that was not. -/
theorem OnePending.set_closed {r : Registry} (h : OnePending r) {proposalId : String}
    {c : ApprovalCase} (hc : c.status ≠ .pending) : OnePending (r.set proposalId c) := by
  have hold {p : String} {d : ApprovalCase} (hd : r.set proposalId c p = some d)
      (hpending : d.status = .pending) : r p = some d := by
    by_cases hp : p = proposalId
    · subst hp
      rw [Registry.set_self] at hd
      cases hd
      exact absurd hpending hc
    · rwa [Registry.set_of_ne hp] at hd
  intro p q d e hd he hdp hep
  exact h p q d e (hold hd hdp) (hold he hep) hdp hep

omit [UnicodeData] in
/-- A new case keeps the property when no pending case of its session has its content. -/
theorem OnePending.set_new {r : Registry} (h : OnePending r) {proposalId : String}
    {c : ApprovalCase}
    (hc : ∀ q d, q ≠ proposalId → r q = some d → d.status = .pending →
      d.sessionId = c.sessionId → content d ≠ content c) : OnePending (r.set proposalId c) := by
  intro p q d e hd he hdp hep hsession hcontent
  by_cases hp : p = proposalId
  · by_cases hq : q = proposalId
    · exact hp.trans hq.symm
    · subst hp
      rw [Registry.set_self] at hd
      cases hd
      rw [Registry.set_of_ne hq] at he
      exact absurd hcontent.symm (hc q e hq he hep hsession.symm)
  · rw [Registry.set_of_ne hp] at hd
    by_cases hq : q = proposalId
    · subst hq
      rw [Registry.set_self] at he
      cases he
      exact absurd hcontent (hc p d hp hd hdp hsession)
    · rw [Registry.set_of_ne hq] at he
      exact h p q d e hd he hdp hep hsession hcontent

omit [UnicodeData] in
theorem stored_same (hstored : Preserves stored) (c : ApprovalCase) :
    (stored c).status = c.status ∧ (stored c).sessionId = c.sessionId ∧
      content (stored c) = content c := by
  obtain ⟨_, _, _, _, heq⟩ := hstored.fields c
  rw [heq]
  exact ⟨rfl, rfl, rfl⟩

/-- The step leaves no session with two pending cases of one content. -/
def KeepsOnePending (stored : ApprovalCase → ApprovalCase) (σ : System Registry) (a : Action) : Prop :=
  ∀ τ, step (registryStore stored) σ a = some τ → OnePending τ.store

/-- A step that opens a repetition leaves two pending cases. -/
theorem opensNew_of_onePending (hstored : Preserves stored) {σ : System Registry} {a : Action}
    (hσ : Collected σ) (hkeeps : KeepsOnePending stored σ a) : OpensNew σ a := by
  rintro h newProposalId clock rfl handler sessionId userId turn found todo opened hhandler hlive
    hphase hnew h' o d - - hd hpending hsession hcontent
  have hpast := hσ.handlers h handler hhandler
  rw [hphase] at hpast
  obtain ⟨past, hfound, -⟩ := hpast
  let c := caseFromProposal found sessionId sessionId "" newProposalId clock
  have hfoundmem : found ∈ findProposals turn.texts := by
    rw [hfound]
    exact List.mem_append_right _ List.mem_cons_self
  have hkey : content c = proposalKey found := content_caseFromProposal hfoundmem _ _ _ _ _
  obtain ⟨hstatus', hsession', hcontent'⟩ := stored_same hstored c
  -- Run the step: the case is opened under the new id, beside the pending one.
  have hresume : resume (registryStore stored) h σ.store handler.phase
      (.openCase newProposalId clock) =
        some (openNext sessionId userId turn todo (opened ++ [c.publicView]),
          σ.store.set newProposalId (stored c), [.opened h c]) := by
    have hopen : σ.store.openCase c.proposalId (stored c) =
        (true, σ.store.set newProposalId (stored c)) := Registry.openCase_new hnew
    rw [hphase]
    show some (answered (.ok (σ.store.openCase c.proposalId (stored c)).1,
      (σ.store.openCase c.proposalId (stored c)).2) _) = _
    rw [hopen]
    rfl
  have hone := hkeeps _ (step_resume hhandler hlive hresume)
  have hother : o.proposalId ≠ newProposalId := by
    intro heq
    rw [heq, hnew] at hd
    cases hd
  -- Both are pending, of one session and with the same content, so they are one.
  have hsame : newProposalId = o.proposalId := by
    apply hone newProposalId o.proposalId (stored c) d
    · exact Registry.set_self _ _ _
    · show σ.store.set newProposalId (stored c) o.proposalId = some d
      rw [Registry.set_of_ne hother]
      exact hd
    · exact hstatus'
    · exact hpending
    · exact hsession'.trans hsession.symm
    · rw [hcontent', hkey, hcontent]
  exact hother hsame.symm

/-- A step that opens no repetition leaves one pending case at most. -/
theorem onePending_of_opensNew (hstored : Preserves stored) {σ τ : System Registry} {a : Action}
    (hsound : Sound σ) (hσ : Collected σ) (hone : OnePending σ.store) (hnew : OpensNew σ a)
    (hstep : step (registryStore stored) σ a = some τ) : OnePending τ.store := by
  cases step_cases hstep with
  | requested => exact hone
  | @moved h handler what next r entries hhandler hlive hmove =>
    have hpast := hσ.handlers h handler hhandler
    show OnePending r
    generalize hphase : handler.phase = phase at hmove hpast
    cases hmove with
    | @opened sessionId userId turn found todo opened newProposalId clock c next hc hfree hnext =>
      obtain ⟨hstatus, hsession, hcontent⟩ := stored_same hstored c
      obtain ⟨past, hfound, hlog⟩ := hpast
      have hfoundmem : found ∈ findProposals turn.texts := by
        rw [hfound]
        exact List.mem_append_right _ List.mem_cons_self
      have hkey : content c = proposalKey found := by
        rw [hc]
        exact content_caseFromProposal hfoundmem _ _ _ _ _
      apply hone.set_new
      intro q d hq hd hpending hsame
      rw [hcontent, hkey]
      -- The case at `q` was opened by some handler, and not by this one: it is past that content.
      obtain ⟨rfl, hcase⟩ := hsound.rows q d hd
      obtain ⟨h', o, hmem, hid, hproposal⟩ := hcase.opened
      by_cases hh : h' = h
      · subst hh
        intro heq
        have hnodup := nodup_proposalKey turn.texts
        rw [hfound, List.map_append, List.nodup_append] at hnodup
        have hpastkey : proposalKey found ∈ past.map proposalKey := by
          rw [← heq, content, ← hproposal]
          exact hlog o hmem
        exact hnodup.2.2 _ hpastkey _ (List.mem_map.2 ⟨found, List.mem_cons_self, rfl⟩) rfl
      · apply hnew h newProposalId clock rfl handler sessionId userId turn found todo opened hhandler
          hlive hphase ?_ h' o d hh hmem
        · rw [hid]
          exact hd
        · exact hpending
        · rw [hsame, hsession, hc]
          rfl
        · rw [hc] at hfree
          exact hfree
    | approved hpid hpending happroved hc' =>
      apply hone.set_closed
      rw [hc']
      exact Status.noConfusion
    | rejected hpid hpending hrejected hc' =>
      apply hone.set_closed
      rw [hc']
      exact Status.noConfusion
    | recorded hpid => exact hone.set_closed Status.noConfusion
    | _ => exact hone
  | proposed => exact hone
  | published => exact hone
  | aborted => exact hone

end Steps

/-! ## Every run -/

/-- In every state of a run each session has at most one pending case with one content, exactly when no
request reports a proposal while a case with its content that another request of the session opened
is pending. -/
theorem onePending_iff [UnicodeData] (database : Option Dialect) (actions : List Action) :
    let S := buildCaseStore database
    Machine.Along (step (atomic S)) (fun σ a => ∀ τ, step (atomic S) σ a = some τ →
        OnePending (S.find τ.store)) (initial (atomic S)) actions ↔
      Machine.Along (step (atomic S)) (fun σ a => OpensNew (σ.abstract S) a) (initial (atomic S))
        actions := by
  intro S
  have hS := buildCaseStore_implements database
  -- Over either store the step shows the registry's step, where the condition is stated.
  have hstep (σ : System S.State) (a : Action) :
      (∀ τ, step (atomic S) σ a = some τ → OnePending (S.find τ.store)) ↔
        KeepsOnePending (storedCase database) (σ.abstract S) a := by
    rw [KeepsOnePending, ← step_abstract hS σ a]
    constructor
    · intro hkeeps τ hτ
      obtain ⟨τ', hτ', rfl⟩ := Option.map_eq_some_iff.1 hτ
      exact hkeeps τ' hτ'
    · intro hkeeps τ hτ
      exact hkeeps (τ.abstract S) (Option.map_eq_some_iff.2 ⟨τ, hτ, rfl⟩)
  rw [Machine.along_map (step_abstract hS) hstep, along_abstract hS (C := OpensNew),
    initial_abstract hS]
  -- Along the run: the soundness of the log and what the handlers have collected.
  apply Machine.along_iff (I := fun σ => Sound σ ∧ Collected σ) (P := fun σ => OnePending σ.store)
  · rintro σ a τ ⟨hsound, hσ⟩ hτ
    exact ⟨sound_step hS.preserves hsound hτ, collected_step hσ hτ⟩
  · rintro σ a ⟨hsound, hσ⟩ hone
    constructor
    · exact opensNew_of_onePending hS.preserves hσ
    · intro hnew τ hτ
      exact onePending_of_opensNew hS.preserves hsound hσ hone hnew hτ
  · exact ⟨sound_initial _, collected_initial⟩
  · intro p q c d hc
    cases hc

section Example

attribute [local instance] asciiData

/-- The next turn of the session reports the proposal again. -/
def proposingAgain : List Action :=
  [.request (.run { text := "What is still open?", sessionId := some "case-1" } ""),
   .resume 1 (.event (reported proposed391)), .resume 1 .turnEnd, .resume 1 (.openCase "p2" 1)]

theorem proposingAgain_opens_twice :
    ∃ σ, run (atomic (buildCaseStore none)) (proposing ++ proposingAgain) = some σ ∧
      ¬ OnePending ((buildCaseStore none).find σ.store) := by
  have hfound : findProposals (TurnResult.add {} (reported proposed391)).texts = [proposed391] := by
    rw [texts_reported]
    exact findProposals_relayed rfl rfl
  refine ⟨_, Machine.run_append.2 ⟨opened391, run_proposing, Machine.run_of_step rfl <|
    Machine.run_of_step rfl <| Machine.run_of_step (step_resume rfl rfl (resume_ran hfound)) <|
    Machine.run_of_step rfl rfl⟩, ?_⟩
  intro hone
  have hsame := hone "p1" "p2" _ _ rfl rfl rfl rfl rfl rfl
  simp at hsame

end Example

end AgentCluster.Service
