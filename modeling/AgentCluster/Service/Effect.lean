import AgentCluster.Agents.Provenance
import AgentCluster.Service.Approval

/-!
# Executed cases and their effects

A case is closed as executed when an object anywhere in the texts of its turn confirms the proposal.
`executed_effect` says when that proves a publication: when no text but the JSON of a result of
`publish_result` confirms on its own. The agent's own words are such a text
(`claimedExecution_without_effect`).
-/

set_option autoImplicit false

namespace AgentCluster.Service

open Python Library Adk Cluster Agents

/-! ## One handler's turn in the log -/

/-- The event an entry adds to the turn of a handler. -/
def Entry.eventOf (h : Nat) : Entry → Option Event
  | .emitted i event => if i = h then some event else none
  | _ => none

/-- The result an entry shows `publish_result` to have returned in the turn of a handler. -/
def Entry.resultOf (h : Nat) : Entry → Option Dict
  | .called i result _ => if i = h then some result else none
  | _ => none

def eventsOf (h : Nat) (log : List Entry) : List Event := log.filterMap (Entry.eventOf h)

def resultsOf (h : Nat) (log : List Entry) : List Dict := log.filterMap (Entry.resultOf h)

/-- The handler whose turn an entry belongs to. -/
def Entry.worker : Entry → Option Nat
  | .emitted h _ => some h
  | .called h _ _ => some h
  | _ => none

section Projections

variable {h : Nat} {log entries : List Entry}

theorem eventsOf_append (h : Nat) (log entries : List Entry) :
    eventsOf h (log ++ entries) = eventsOf h log ++ eventsOf h entries := List.filterMap_append

theorem mem_resultsOf {result : Dict} :
    result ∈ resultsOf h log ↔ ∃ record, Entry.called h result record ∈ log := by
  rw [resultsOf, List.mem_filterMap]
  constructor
  · rintro ⟨e, he, hresult⟩
    cases e with
    | called i result' record =>
      rw [Entry.resultOf] at hresult
      split at hresult
      · next heq =>
        cases hresult
        exact ⟨record, heq ▸ he⟩
      · cases hresult
    | _ => cases hresult
  · rintro ⟨record, hmem⟩
    exact ⟨_, hmem, if_pos rfl⟩

/-- Entries outside the turn of a handler add nothing to it. -/
theorem eventsOf_eq_nil (hentries : ∀ e ∈ entries, e.worker ≠ some h) :
    eventsOf h entries = [] := by
  rw [eventsOf, List.filterMap_eq_nil_iff]
  intro e he
  cases e with
  | emitted i event =>
    apply if_neg
    rintro rfl
    exact hentries _ he rfl
  | _ => rfl

end Projections

/-- What `publish_result` returned, and the record it appended. -/
def Returned [UnicodeData] (result : Dict) (record : Option Publication) : Prop :=
  (record = none ∧ ∃ value label, result = proposalResult value label) ∨
    ∃ r note, record = some r ∧ result = publishedResult r note

theorem Returned.reportable [UnicodeData] {result : Dict} {record : Option Publication}
    (h : Returned result record) : Reportable result := by
  rcases h with ⟨-, value, label, rfl⟩ | ⟨r, note, -, rfl⟩
  · exact ⟨rfl, rfl, rfl⟩
  · exact ⟨rfl, rfl, rfl⟩

/-- A result that confirms a proposal with a value and a label published them. -/
theorem Returned.proposes [UnicodeData] {result proposal : Dict} {record : Option Publication}
    (h : Returned result record) (hconfirms : confirms proposal result = true)
    (hvalue : (proposal.get "value").isScalar = true)
    (hlabel : (proposal.get "label").isScalar = true) :
    ∃ r, record = some r ∧ Proposes proposal r := by
  obtain ⟨hstatus, hall⟩ := confirms_iff.1 hconfirms
  have hfield {key : String} (hscalar : (proposal.get key).isScalar = true) :
      (result.get key).pyEq (proposal.get key) = true := by
    have hlookup : proposal.lookup key = some (proposal.get key) := by
      cases hl : proposal.lookup key with
      | none =>
        rw [Dict.get, Dict.getD, hl] at hscalar
        cases hscalar
      | some v => rw [Dict.get, Dict.getD, hl]; rfl
    exact hall _ (mem_wanted.2 ⟨PyDict.mem_of_lookup hlookup, hscalar⟩)
  rcases h with ⟨-, value, label, rfl⟩ | ⟨r, note, rfl, rfl⟩
  · have happroval : Value.str "approval_required" = .str "published" := hstatus
    exact absurd (Value.str.inj happroval) (by decide)
  · refine ⟨r, rfl, (Value.str_pyEq_iff _ _).1 ?_, (Value.str_pyEq_iff _ _).1 ?_⟩
    · exact hfield hvalue
    · exact hfield hlabel

/-! ## Turns -/

/-- What the log says about the turn a handler is in: it has the texts of the logged events, and the
calls of `publish_result` came after its start. -/
def TurnHolds (log : List Entry) (h : Nat) : Phase → Prop
  | .deciding _ _ => ∀ e ∈ log, e.worker ≠ some h
  | .executing proposalId _ turn =>
      turn.texts = (eventsOf h log).flatMap replyTexts ∧
        ∀ result record, Entry.called h result record ∈ log →
          ∃ instruction, [.started h proposalId instruction, .called h result record].Sublist log
  | _ => True

/-- The log has nothing of the turns of handlers to come. -/
structure Turns [UnicodeData] (σ : System Registry) : Prop where
  indexed : ∀ e ∈ σ.log, ∀ h, e.worker = some h → h < σ.handlers.length
  handlers : ∀ (h : Nat) (handler : Handler), σ.handlers[h]? = some handler →
    TurnHolds σ.log h handler.phase
  called : ∀ h result record, Entry.called h result record ∈ σ.log → Returned result record

theorem turnHolds_of_idle {log : List Entry} {h : Nat} {phase : Phase} (hidle : phase.idle = true) :
    TurnHolds log h phase := by
  cases phase with
  | running => trivial
  | opening => trivial
  | finished => trivial
  | _ => cases hidle

/-- Another handler's entries leave a turn as it is. -/
theorem TurnHolds.append {log entries : List Entry} {h : Nat} {phase : Phase}
    (hholds : TurnHolds log h phase) (hentries : ∀ e ∈ entries, e.worker ≠ some h) :
    TurnHolds (log ++ entries) h phase := by
  cases phase with
  | deciding proposalId decision =>
    intro e he
    rcases List.mem_append.1 he with he | he
    · exact hholds e he
    · exact hentries e he
  | executing proposalId c turn =>
    obtain ⟨htexts, hcalled⟩ := hholds
    constructor
    · rw [eventsOf_append, eventsOf_eq_nil hentries, List.append_nil]
      exact htexts
    · intro result record hmem
      rcases List.mem_append.1 hmem with hmem | hmem
      · obtain ⟨instruction, hsub⟩ := hcalled result record hmem
        exact ⟨instruction, hsub.trans (List.sublist_append_left log entries)⟩
      · exact absurd rfl (hentries _ hmem)
  | _ => trivial

/-- A call of `publish_result` in the turn comes after its start. -/
theorem TurnHolds.call {r : Registry} {log : List Entry} {h : Nat} {phase : Phase}
    (hholds : TurnHolds log h phase) (hstarted : Holds r log h phase)
    (hturn : phase.inTurn = true) (result : Dict) (record : Option Publication) :
    TurnHolds (log ++ [.called h result record]) h phase := by
  cases phase with
  | running => trivial
  | executing proposalId c turn =>
    obtain ⟨htexts, hcalled⟩ := hholds
    constructor
    · rw [eventsOf_append]
      show turn.texts = (eventsOf h log ++ []).flatMap replyTexts
      rw [List.append_nil]
      exact htexts
    · intro result' record' hmem
      rcases List.mem_append.1 hmem with hmem | hmem
      · obtain ⟨instruction, hsub⟩ := hcalled result' record' hmem
        exact ⟨instruction, hsub.trans (List.sublist_append_left _ _)⟩
      · cases List.mem_singleton.1 hmem
        obtain ⟨-, i, decision, c', instruction, -, hsub⟩ := hstarted
        exact ⟨instruction, ((List.sublist_cons_self _ _).trans hsub).append (List.Sublist.refl _)⟩
  | _ => cases hturn

section Steps

variable [UnicodeData] {stored : ApprovalCase → ApprovalCase} {σ τ : System Registry} {a : Action}

/-- A move adds entries of its own handler's turn only. -/
theorem Move.worker_eq {h i : Nat} {r r' : Registry} {phase next : Phase} {what : Resume}
    {entries : List Entry} (hmove : Move stored h r phase what next r' entries) {e : Entry}
    (he : e ∈ entries) (hworker : e.worker = some i) : i = h := by
  cases hmove with
  | heard | worked =>
    obtain rfl := List.mem_singleton.1 he
    cases hworker
    rfl
  | approved | driven =>
    rcases List.mem_cons.1 he with rfl | he
    · cases hworker
    · obtain rfl := List.mem_singleton.1 he
      cases hworker
  | ran | refused | reported => cases he
  | _ =>
    obtain rfl := List.mem_singleton.1 he
    cases hworker

/-- The move of a handler keeps its turn and the log together. -/
theorem Move.turnHolds {h : Nat} {r r' : Registry} {phase next : Phase} {what : Resume}
    {log entries : List Entry} (hmove : Move stored h r phase what next r' entries)
    (hholds : TurnHolds log h phase) : TurnHolds (log ++ entries) h next := by
  -- A turn starts empty: there is nothing of it in the log.
  have hstart {proposalId : String} {decision : CaseDecision} {c : ApprovalCase}
      {started : List Entry} (hdeciding : TurnHolds log h (.deciding proposalId decision))
      (hstarted : ∀ e ∈ started, e.worker = none) :
      TurnHolds (log ++ started) h (.executing proposalId c {}) := by
    have hnone : ∀ e ∈ log ++ started, e.worker ≠ some h := by
      intro e he
      rcases List.mem_append.1 he with he | he
      · exact hdeciding e he
      · rw [hstarted e he]
        exact (Option.some_ne_none h).symm
    constructor
    · rw [eventsOf_eq_nil hnone]
      rfl
    · intro result record hmem
      exact absurd rfl (hnone _ hmem)
  cases hmove with
  | ran _ _ _ hnext => exact turnHolds_of_idle hnext
  | opened _ _ hnext => exact turnHolds_of_idle hnext
  | refused hnext => exact turnHolds_of_idle hnext
  | approved => exact hstart hholds (by simp [Entry.worker])
  | driven => exact hstart hholds (by simp [Entry.worker])
  | worked proposalId c turn event =>
    obtain ⟨htexts, hcalled⟩ := hholds
    constructor
    · have hevent : eventsOf h [.emitted h event] = [event] := by simp [eventsOf, Entry.eventOf]
      rw [eventsOf_append, hevent, List.flatMap_append, List.flatMap_singleton, ← htexts]
      rfl
    · intro result record hmem
      rcases List.mem_append.1 hmem with hmem | hmem
      · obtain ⟨instruction, hsub⟩ := hcalled result record hmem
        exact ⟨instruction, hsub.trans (List.sublist_append_left _ _)⟩
      · cases List.mem_singleton.1 hmem
  | _ => trivial

theorem Move.not_called {h i : Nat} {r r' : Registry} {phase next : Phase} {what : Resume}
    {entries : List Entry} (hmove : Move stored h r phase what next r' entries) {result : Dict}
    {record : Option Publication} : Entry.called i result record ∉ entries := by
  intro hmem
  cases hmove <;> simp at hmem

/-- A call of `publish_result` during a turn. -/
theorem Turns.call (hs : Sound σ) (ht : Turns σ) {h : Nat} {handler : Handler}
    (hhandler : σ.handlers[h]? = some handler) (hturn : handler.phase.inTurn = true) {result : Dict}
    {record : Option Publication} (hreturned : Returned result record)
    (publications : List Publication) :
    Turns ⟨σ.store, σ.handlers, publications, σ.log ++ [.called h result record]⟩ where
  indexed e he i hworker := by
    rcases List.mem_append.1 he with he | he
    · exact ht.indexed e he i hworker
    · cases List.mem_singleton.1 he
      cases hworker
      exact (List.getElem?_eq_some_iff.1 hhandler).1
  handlers i x hx := by
    -- The call is the turn's own, or another handler's.
    by_cases heq : i = h
    · subst heq
      replace hx : σ.handlers[i]? = some x := hx
      rw [hhandler] at hx
      cases hx
      exact (ht.handlers i handler hhandler).call (hs.handlers i handler hhandler) hturn result record
    · apply (ht.handlers i x hx).append
      intro e he hworker
      cases List.mem_singleton.1 he
      cases hworker
      exact heq rfl
  called i result' record' hmem := by
    rcases List.mem_append.1 hmem with hmem | hmem
    · exact ht.called i result' record' hmem
    · cases List.mem_singleton.1 hmem
      exact hreturned

theorem turns_step (hs : Sound σ) (ht : Turns σ) (hstep : Step stored σ a τ) : Turns τ := by
  have hstay := hstep
  cases hstep with
  | requested request =>
    constructor
    · intro e he h hworker
      have hlt := ht.indexed e he h hworker
      show h < (σ.handlers ++ _).length
      rw [List.length_append]
      omega
    · intro i x hx
      -- A new handler has written nothing, its number being the length of the list.
      rcases hstay.handler_cases hx with ⟨request, -, rfl, rfl⟩ | ⟨y, hy, -, ⟨hphase, -⟩ | hmoved⟩
      · cases request with
        | run => trivial
        | decide proposalId decision userId =>
          intro e he hworker
          exact absurd (ht.indexed e he _ hworker) (Nat.lt_irrefl _)
      · rw [hphase]
        exact ht.handlers i y hy
      · obtain ⟨what, _, ha, -⟩ := hmoved
        cases ha
    · exact ht.called
  | @moved h handler what next r entries hhandler hlive hmove =>
    constructor
    · intro e he i hworker
      show i < (σ.handlers.set h _).length
      rw [List.length_set]
      rcases List.mem_append.1 he with he | he
      · exact ht.indexed e he i hworker
      · rw [hmove.worker_eq he hworker]
        exact (List.getElem?_eq_some_iff.1 hhandler).1
    · intro i x hx
      rcases hstay.handler_cases hx with ⟨_, ha, -⟩ | ⟨y, hy, -, ⟨hphase, hother⟩ | hmoved⟩
      · cases ha
      -- The entries of a move are the mover's, and this handler is another one.
      · rw [hphase]
        apply (ht.handlers i y hy).append
        intro e he hworker
        rw [hmove.worker_eq he hworker] at hother
        exact hother what rfl
      · obtain ⟨what, entries', ha, hmove', hlog⟩ := hmoved
        rw [hlog]
        exact hmove'.turnHolds (ht.handlers i y hy)
    · intro i result record hmem
      rcases List.mem_append.1 hmem with hmem | hmem
      · exact ht.called i result record hmem
      · exact absurd hmem hmove.not_called
  | proposed hhandler hturn => exact ht.call hs hhandler hturn (Or.inl ⟨rfl, _, _, rfl⟩) _
  | published hhandler hturn => exact ht.call hs hhandler hturn (Or.inr ⟨_, _, rfl, rfl⟩) _
  | @aborted h handler hhandler =>
    constructor
    · intro e he i hworker
      show i < (σ.handlers.set h _).length
      rw [List.length_set]
      exact ht.indexed e he i hworker
    · intro i x hx
      rcases hstay.handler_cases hx with ⟨_, ha, -⟩ | ⟨y, hy, -, ⟨hphase, -⟩ | hmoved⟩
      · cases ha
      · rw [hphase]
        exact ht.handlers i y hy
      · obtain ⟨what, _, ha, -⟩ := hmoved
        cases ha
    · exact ht.called

end Steps

/-! ## Effects -/

/-- The handler's turn was started, published the record, and `rest` followed. -/
def PublishedInTurn (log : List Entry) (h : Nat) (proposalId : String) (record : Publication)
    (rest : List Entry) : Prop :=
  ∃ instruction result,
    (.started h proposalId instruction :: .called h result (some record) :: rest).Sublist log

/-- Every execution that was recorded published the value and label of its case's proposal, in the
turn that was recorded. -/
def EffectsHappened {State : Type} (find : State → Registry) (σ : System State) : Prop :=
  ∀ h proposalId performed, Entry.recorded h proposalId performed ∈ σ.log →
    ∃ row record texts, find σ.store proposalId = some row ∧ Proposes row.proposal record ∧
      record ∈ σ.publications ∧
        PublishedInTurn σ.log h proposalId record
          [.turned h proposalId texts (some performed), .recorded h proposalId performed]

/-- A turn about to end confirmed is vouched for: the value and label of the proposal are compared at
all, and a text that `publish_result` does not vouch for confirms the proposal only if a result that
was returned in the turn does. -/
def TurnVouched (σ : System Registry) (a : Action) : Prop :=
  ∀ h, a = .resume h .turnEnd →
    ∀ (handler : Handler) (proposalId : String) (c : ApprovalCase) (turn : TurnResult),
      σ.handlers[h]? = some handler → handler.phase = .executing proposalId c turn →
        (findExecution turn.texts c.proposal).isSome = true →
          ((c.proposal.get "value").isScalar = true ∧ (c.proposal.get "label").isScalar = true) ∧
            ∀ event ∈ eventsOf h σ.log, ∃ words, EventUnvouched (resultsOf h σ.log) event words ∧
              ∀ word ∈ words, ∀ obj ∈ jsonObjectsIn word, confirms c.proposal obj = true →
                ∃ d ∈ resultsOf h σ.log, confirms c.proposal d = true

/-- What holds as long as every turn that ends confirmed is vouched for. -/
structure Effects (σ : System Registry) : Prop where
  recording : ∀ (h : Nat) (handler : Handler) (proposalId : String) (c : ApprovalCase)
    (turn : TurnResult) (performed : Dict), σ.handlers[h]? = some handler →
      handler.phase = .recording proposalId c turn performed →
        ∃ record, Proposes c.proposal record ∧
          PublishedInTurn σ.log h proposalId record
            [.turned h proposalId turn.texts (some performed)]
  recorded : ∀ h proposalId performed, Entry.recorded h proposalId performed ∈ σ.log →
    ∃ i opened record texts, Entry.opened i opened ∈ σ.log ∧ opened.proposalId = proposalId ∧
      Proposes opened.proposal record ∧
        PublishedInTurn σ.log h proposalId record
          [.turned h proposalId texts (some performed), .recorded h proposalId performed]

section Effects

theorem PublishedInTurn.append {log : List Entry} {h : Nat} {proposalId : String}
    {record : Publication} {rest : List Entry} (hturn : PublishedInTurn log h proposalId record rest)
    (entries : List Entry) : PublishedInTurn (log ++ entries) h proposalId record rest := by
  obtain ⟨instruction, result, hsub⟩ := hturn
  exact ⟨instruction, result, hsub.trans (List.sublist_append_left log entries)⟩

theorem PublishedInTurn.concat {log : List Entry} {h : Nat} {proposalId : String}
    {record : Publication} {rest : List Entry} (hturn : PublishedInTurn log h proposalId record rest)
    (entries : List Entry) :
    PublishedInTurn (log ++ entries) h proposalId record (rest ++ entries) := by
  obtain ⟨instruction, result, hsub⟩ := hturn
  exact ⟨instruction, result, hsub.append (List.Sublist.refl entries)⟩

variable [UnicodeData] {stored : ApprovalCase → ApprovalCase} {σ τ : System Registry} {a : Action}

/-- A turn that is vouched for and ends confirmed has published what its case proposes. -/
theorem published_of_vouched (ht : Turns σ) {h : Nat} {handler : Handler} {proposalId : String}
    {c : ApprovalCase} {turn : TurnResult} {performed : Dict}
    (hhandler : σ.handlers[h]? = some handler)
    (hphase : handler.phase = .executing proposalId c turn)
    (hC : TurnVouched σ (.resume h .turnEnd))
    (hsome : findExecution turn.texts c.proposal = some performed) :
    ∃ record, Proposes c.proposal record ∧ PublishedInTurn σ.log h proposalId record [] := by
  -- The confirmed object comes from the text of an event, and the event is vouched for.
  obtain ⟨⟨hvalue, hlabel⟩, hvouched⟩ :=
    hC h rfl handler proposalId c turn hhandler hphase (by rw [hsome]; rfl)
  obtain ⟨⟨text, htext, hobj⟩, hconfirms⟩ := confirms_of_findExecution hsome
  have hholds := ht.handlers h handler hhandler
  rw [hphase] at hholds
  obtain ⟨htexts, hcalled⟩ := hholds
  have hreturned : ∀ d ∈ resultsOf h σ.log, Reportable d := by
    intro d hd
    obtain ⟨record, hmem⟩ := mem_resultsOf.1 hd
    exact (ht.called h d record hmem).reportable
  have hresult : ∃ d ∈ resultsOf h σ.log, confirms c.proposal d = true := by
    rw [htexts] at htext
    obtain ⟨event, hevent, htext⟩ := List.mem_flatMap.1 htext
    obtain ⟨words, hwords, honly⟩ := hvouched event hevent
    rcases confirmed_of_mem_replyTexts hreturned hconfirms hwords htext hobj with hd | hword
    · exact hd
    · obtain ⟨word, hword, hobj⟩ := hword
      exact honly word hword performed hobj hconfirms
  -- So a tool returned it, and `publish` returns such a dict only when it publishes.
  obtain ⟨d, hd, hdconfirms⟩ := hresult
  obtain ⟨record, hmem⟩ := mem_resultsOf.1 hd
  obtain ⟨r, rfl, hproposes⟩ := (ht.called h d record hmem).proposes hdconfirms hvalue hlabel
  obtain ⟨instruction, hsub⟩ := hcalled d (some r) hmem
  exact ⟨r, hproposes, instruction, d, hsub⟩

/-- A record follows the turn, in the phase the turn led to. -/
theorem recorded_move (hs : Sound σ) (he : Effects σ) {i h : Nat} {handler : Handler}
    {what : Resume} {next : Phase} {r : Registry} {entries : List Entry} {proposalId : String}
    {performed : Dict} (hhandler : σ.handlers[i]? = some handler)
    (hmove : Move stored i σ.store handler.phase what next r entries)
    (hnew : Entry.recorded h proposalId performed ∈ entries) :
    ∃ j opened record texts, Entry.opened j opened ∈ σ.log ++ entries ∧
      opened.proposalId = proposalId ∧ Proposes opened.proposal record ∧
        PublishedInTurn (σ.log ++ entries) h proposalId record
          [.turned h proposalId texts (some performed), .recorded h proposalId performed] := by
  have hholds := hs.handlers i handler hhandler
  generalize hphase : handler.phase = phase at hmove hholds
  cases hmove with
  | @recorded pid c row turn performed' clock response hrow =>
    cases List.mem_singleton.1 hnew
    obtain ⟨⟨row', hrow', -, hproposal⟩, -⟩ := hholds
    obtain ⟨hid, hsound⟩ := hs.rows proposalId row' hrow'
    obtain ⟨j, opened, hopened, hopenedId, hopenedProposal⟩ := hsound.opened
    obtain ⟨record, hproposes, hturn⟩ :=
      he.recording i handler proposalId c turn performed hhandler hphase
    refine ⟨j, opened, record, turn.texts, List.mem_append_left _ hopened,
      hopenedId.trans hid, ?_, hturn.concat _⟩
    rw [hopenedProposal, hproposal]
    exact hproposes
  -- The row of an approved case is never lost.
  | lost hrow =>
    obtain ⟨⟨row', hrow', -⟩, -⟩ := hholds
    rw [hrow] at hrow'
    cases hrow'
  | _ => simp at hnew

theorem effects_step (hs : Sound σ) (ht : Turns σ) (he : Effects σ) (hC : TurnVouched σ a)
    (hstep : Step stored σ a τ) : Effects τ where
  recording h handler proposalId c turn performed hhandler hphase := by
    obtain ⟨entries, hlog⟩ := hstep.log_prefix
    rcases hstep.handler_cases hhandler with ⟨request, -, -, rfl⟩ | ⟨y, hy, -, hmoved⟩
    · cases request <;> cases hphase
    · rcases hmoved with ⟨hsame, -⟩ | ⟨what, entries', rfl, hmove, hlog'⟩
      · obtain ⟨record, hproposes, hturn⟩ :=
          he.recording h y proposalId c turn performed hy (hsame.symm.trans hphase)
        rw [hlog]
        exact ⟨record, hproposes, hturn.append entries⟩
      · rw [hlog']
        rw [hphase] at hmove
        generalize hbefore : y.phase = before at hmove
        generalize τ.store = r at hmove
        -- The recording phase is entered by a confirmed turn only.
        cases hmove with
        | ran _ _ _ hnext => cases hnext
        | opened _ _ hnext => cases hnext
        | refused hnext => cases hnext
        | confirmed hsome =>
          obtain ⟨record, hproposes, hturn⟩ := published_of_vouched ht hy hbefore hC hsome
          exact ⟨record, hproposes, hturn.concat _⟩
  recorded h proposalId performed hmem := by
    -- What is logged already stays, with more behind it.
    have hold (hmem : Entry.recorded h proposalId performed ∈ σ.log) (entries : List Entry) :
        ∃ i opened record texts, Entry.opened i opened ∈ σ.log ++ entries ∧
          opened.proposalId = proposalId ∧ Proposes opened.proposal record ∧
            PublishedInTurn (σ.log ++ entries) h proposalId record
              [.turned h proposalId texts (some performed),
                .recorded h proposalId performed] := by
      obtain ⟨i, opened, record, texts, hopened, hid, hproposes, hturn⟩ :=
        he.recorded h proposalId performed hmem
      exact ⟨i, opened, record, texts, List.mem_append_left _ hopened, hid, hproposes,
        hturn.append entries⟩
    have hsame (hlog : τ.log = σ.log) : ∃ i opened record texts, Entry.opened i opened ∈ τ.log ∧
        opened.proposalId = proposalId ∧ Proposes opened.proposal record ∧
          PublishedInTurn τ.log h proposalId record
            [.turned h proposalId texts (some performed), .recorded h proposalId performed] := by
      rw [hlog] at hmem ⊢
      exact he.recorded h proposalId performed hmem
    cases hstep with
    | requested => exact hsame rfl
    | @moved i handler what next r entries hhandler hlive hmove =>
      rcases List.mem_append.1 hmem with hmem | hnew
      · exact hold hmem entries
      · exact recorded_move hs he hhandler hmove hnew
    | proposed | published =>
      rcases List.mem_append.1 hmem with hmem | hmem
      · exact hold hmem _
      · cases List.mem_singleton.1 hmem
    | aborted => exact hsame rfl

end Effects

/-- In a run whose turns that end confirmed are all vouched for, a case is recorded as executed only
if its turn published the value and label of its proposal. -/
theorem executed_effect [UnicodeData] (database : Option Dialect) (actions : List Action)
    {σ : System (atomic (buildCaseStore database)).State}
    (hrun : run (atomic (buildCaseStore database)) actions = some σ)
    (hvouched : Machine.Along (step (atomic (buildCaseStore database)))
      (fun ρ a => TurnVouched (ρ.abstract (buildCaseStore database)) a)
      (initial (atomic (buildCaseStore database))) actions) :
    EffectsHappened (buildCaseStore database).find σ := by
  have hS := buildCaseStore_implements database
  rw [along_abstract hS] at hvouched
  have hrun := run_abstract hS hrun
  have hpublications := Machine.run_induct
    (I := fun ρ => ρ.publications = ρ.log.filterMap Entry.record)
    (fun _ _ _ h hstep => publications_step h (step_cases hstep)) rfl hrun
  have hall : (Sound (σ.abstract (buildCaseStore database)) ∧
      Turns (σ.abstract (buildCaseStore database))) ∧
        Effects (σ.abstract (buildCaseStore database)) := by
    refine Machine.run_induct_along (I := fun ρ => (Sound ρ ∧ Turns ρ) ∧ Effects ρ) ?_ ?_ hvouched
      hrun
    · rintro ρ a ρ' ⟨⟨hs, ht⟩, he⟩ hC hstep
      exact ⟨⟨sound_step hS.preserves hs hstep, turns_step hs ht (step_cases hstep)⟩,
        effects_step hs ht he hC (step_cases hstep)⟩
    · refine ⟨⟨sound_initial _, ?_⟩, ?_⟩
      · constructor
        · intro e he
          cases he
        · intro h handler hhandler
          cases hhandler
        · intro h result record hmem
          cases hmem
      · constructor
        · intro h handler proposalId c turn performed hhandler
          cases hhandler
        · intro h proposalId performed hmem
          cases hmem
  -- The entries of the log and the rows of the store, put together.
  obtain ⟨⟨hs, -⟩, he⟩ := hall
  intro h proposalId performed hmem
  obtain ⟨i, opened, record, texts, hopened, rfl, hproposes, hturn⟩ :=
    he.recorded h proposalId performed hmem
  obtain ⟨row, hrow, hproposal⟩ := hs.opened i opened hopened
  refine ⟨row, record, texts, hrow, by rw [hproposal]; exact hproposes, ?_, hturn⟩
  obtain ⟨instruction, result, hsub⟩ := hturn
  have hpublished : record ∈ (σ.abstract (buildCaseStore database)).publications := by
    rw [hpublications]
    exact List.mem_filterMap.2 ⟨.called h result (some record), hsub.subset (by simp), rfl⟩
  exact hpublished

/-! ## A turn that says it published, and one that did -/

section Scenario

attribute [local instance] asciiData

/-- Tool results carry what `publish_result` returned in the turn. -/
def ResultsReturned (log : List Entry) : Prop :=
  ∀ h, ∀ event ∈ eventsOf h log, ∀ response ∈ event.getFunctionResponses,
    ∃ d ∈ resultsOf h log, response.response = relayed d

/-- The agent's final answer is the confirmation it was asked for, word for word. -/
def claimed : Event :=
  { author := "root", parts := [{ text := some (Json.dumps (.dict published391)) }]
    isFinalResponse := true }

def claimedExecution : List Action :=
  [.request (.decide "p1" { approved := true, decidedBy := "alice" } "case-user"),
   .resume 1 (.decide 1), .resume 1 (.event claimed), .resume 1 .turnEnd,
   .resume 1 (.recordExecution 2)]

theorem findExecution_claimed :
    findExecution (TurnResult.add {} claimed).texts case391.proposal = some published391 := by
  have htext : claimed.text = Json.dumps (.dict published391) := by decide +kernel
  have htexts : (TurnResult.add {} claimed).texts = [Json.dumps (.dict published391)] := by
    show [] ++ ([] ++ if claimed.text ≠ "" then [claimed.text] else []) = _
    rw [htext, if_pos (by decide +kernel)]
    rfl
  rw [htexts]
  exact findExecution_dumps (by rfl) (by decide +kernel)

/-- The case as alice approved it. -/
def approved391 : ApprovalCase := case391.decided true "alice" "" (DateTime.now 1)

/-- What happened in the end. -/
def claimedLog : List Entry :=
  opened391.log ++
    [.decided 1 "p1" { approved := true, decidedBy := "alice" } .recorded (some approved391),
     .started 1 "p1" (executionInstruction approved391), .emitted 1 claimed,
     .turned 1 "p1" (TurnResult.add {} claimed).texts (some published391),
     .recorded 1 "p1" published391]

theorem run_claimedExecution :
    ∃ σ, run (atomic (buildCaseStore none)) (proposing ++ claimedExecution) = some σ ∧
      σ.log = claimedLog ∧ σ.publications = [] ∧
        ((buildCaseStore none).find σ.store "p1").map ApprovalCase.status = some .executed :=
  ⟨_, Machine.run_append.2 ⟨opened391, run_proposing, Machine.run_of_step rfl <|
    Machine.run_of_step rfl <| Machine.run_of_step rfl <|
    Machine.run_of_step (step_resume rfl rfl (resume_confirmed findExecution_claimed)) <|
    Machine.run_of_step rfl rfl⟩, rfl, rfl, rfl⟩

theorem resultsReturned_claimedLog : ResultsReturned claimedLog := by
  intro h event hevent response hresponse
  obtain ⟨e, he, hemitted⟩ := List.mem_filterMap.1 hevent
  cases e with
  | emitted i event' =>
    rw [Entry.eventOf] at hemitted
    split at hemitted
    · next heq =>
      subst heq
      cases hemitted
      have hcases : i = 0 ∧ event = reported proposed391 ∨ i = 1 ∧ event = claimed := by
        simpa [claimedLog, opened391] using he
      rcases hcases with ⟨rfl, rfl⟩ | ⟨rfl, rfl⟩
      · obtain rfl := List.mem_singleton.1 hresponse
        exact ⟨proposed391, mem_resultsOf.2 ⟨none, by simp [claimedLog, opened391]⟩, rfl⟩
      · cases hresponse
    · cases hemitted
  | _ => cases hemitted

/-- The case is executed, every tool result is one that was returned, and nothing was published. -/
theorem claimedExecution_without_effect :
    ∃ σ, run (atomic (buildCaseStore none)) (proposing ++ claimedExecution) = some σ ∧
      ResultsReturned σ.log ∧ σ.publications = [] ∧
        ((buildCaseStore none).find σ.store "p1").map ApprovalCase.status = some .executed ∧
          ¬ EffectsHappened (buildCaseStore none).find σ := by
  obtain ⟨σ, hrun, hlog, hpublications, hstatus⟩ := run_claimedExecution
  refine ⟨σ, hrun, hlog ▸ resultsReturned_claimedLog, hpublications, hstatus, ?_⟩
  intro heffects
  have hrecorded : Entry.recorded 1 "p1" published391 ∈ σ.log := by simp [hlog, claimedLog]
  obtain ⟨row, record, texts, -, -, hmem, -⟩ := heffects 1 "p1" published391 hrecorded
  rw [hpublications] at hmem
  cases hmem

/-- Only the end of an execution turn has to be vouched for. -/
theorem turnVouched_of_ne [UnicodeData] {σ : System Registry} {a : Action}
    (ha : ∀ h handler proposalId c turn, a = .resume h .turnEnd → σ.handlers[h]? = some handler →
      handler.phase ≠ .executing proposalId c turn) : TurnVouched σ a := by
  intro h heq handler proposalId c turn hhandler hphase
  exact absurd hphase (ha h handler proposalId c turn heq hhandler)

/-- A turn is vouched for if what it returned confirms the proposal. -/
theorem turnVouched_of_result [UnicodeData] {σ : System Registry} {h : Nat} {handler : Handler}
    {proposalId : String} {c : ApprovalCase} {turn : TurnResult}
    (hhandler : σ.handlers[h]? = some handler)
    (hphase : handler.phase = .executing proposalId c turn)
    (hvalue : (c.proposal.get "value").isScalar = true)
    (hlabel : (c.proposal.get "label").isScalar = true) {d : Dict}
    (hd : d ∈ resultsOf h σ.log) (hconfirms : confirms c.proposal d = true) :
    TurnVouched σ (.resume h .turnEnd) := by
  intro i heq handler' proposalId' c' turn' hhandler' hphase' _
  cases heq
  obtain rfl := Option.some.inj (hhandler.symm.trans hhandler')
  rw [hphase] at hphase'
  cases hphase'
  refine ⟨⟨hvalue, hlabel⟩, ?_⟩
  intro event _
  refine ⟨event.text :: event.getFunctionResponses.flatMap fun response => unpack response.response,
    ⟨List.mem_cons_self, ?_⟩, ?_⟩
  · intro response hresponse
    refine ⟨_, Unvouched.other response.response, ?_⟩
    intro word hword
    exact List.mem_cons_of_mem _ (List.mem_flatMap.2 ⟨response, hresponse, hword⟩)
  · intro word hword obj hobj hconf
    exact ⟨d, hd, hconfirms⟩

/-- With an approver the tool publishes. -/
theorem publish_391 (σ : System (atomic (buildCaseStore none)).State) (hσ : σ.publications = []) :
    publish (atomic (buildCaseStore none)) σ 1 "391" "q3" "alice" "" =
      { σ with
        publications := [⟨"391", "q3", "alice"⟩]
        log := σ.log ++ [.called 1 published391 (some ⟨"391", "q3", "alice"⟩)] } := by
  have hvalue : canonicalValue "391" = "391" := by decide +kernel
  rw [publish, hσ, publishResult_of_isApprover (by decide +kernel), hvalue]
  rfl

theorem turnVouched_carryingOut :
    Machine.Along (step (atomic (buildCaseStore none)))
      (fun ρ a => TurnVouched (ρ.abstract (buildCaseStore none)) a)
      (initial (atomic (buildCaseStore none))) (proposing ++ carryingOut) := by
  refine Machine.along_append ?_ run_proposing ?_
  · refine Machine.along_of_step (turnVouched_of_ne (by simp)) rfl ?_
    refine Machine.along_of_step (turnVouched_of_ne (by simp)) rfl ?_
    refine Machine.along_of_step (turnVouched_of_ne (by simp)) rfl ?_
    constructor
    · apply turnVouched_of_ne
      intro h handler proposalId c turn heq hhandler hphase
      cases heq
      cases hhandler
      cases hphase
    · intro t _
      exact ⟨turnVouched_of_ne (by simp), fun _ _ => trivial⟩
  · refine Machine.along_of_step (turnVouched_of_ne (by simp)) rfl ?_
    refine Machine.along_of_step (turnVouched_of_ne (by simp)) rfl ?_
    refine Machine.along_of_step (turnVouched_of_ne (by simp)) (congrArg some (publish_391 _ rfl)) ?_
    refine Machine.along_of_step (turnVouched_of_ne (by simp)) rfl ?_
    constructor
    · apply turnVouched_of_result (d := published391) rfl rfl (by rfl) (by rfl)
      · apply mem_resultsOf.2
        exact ⟨some ⟨"391", "q3", "alice"⟩,
          List.mem_append_left _ (List.mem_append_right _ (List.mem_singleton.2 rfl))⟩
      · decide +kernel
    · intro t _
      exact ⟨turnVouched_of_ne (by simp), fun _ _ => trivial⟩

/-- Approved, published and recorded: the turn's result is the one that was returned. -/
theorem executed_effect_391 :
    ∃ σ, run (atomic (buildCaseStore none)) (proposing ++ carryingOut) = some σ ∧
      EffectsHappened (buildCaseStore none).find σ ∧
        ∃ performed, Entry.recorded 1 "p1" performed ∈ σ.log := by
  have hrun : ∃ σ, run (atomic (buildCaseStore none)) (proposing ++ carryingOut) = some σ ∧
      ∃ before, σ.log = before ++ [.recorded 1 "p1" published391] :=
    ⟨_, Machine.run_append.2 ⟨opened391, run_proposing,
      Machine.run_of_step rfl <| Machine.run_of_step rfl <| Machine.run_of_step rfl <|
      Machine.run_of_step rfl <|
      Machine.run_of_step (step_resume rfl rfl (resume_confirmed findExecution_published391)) <|
      Machine.run_of_step rfl rfl⟩, _, rfl⟩
  obtain ⟨σ, hrun, before, hlog⟩ := hrun
  exact ⟨σ, hrun, executed_effect none _ hrun turnVouched_carryingOut, published391,
    by rw [hlog]; simp⟩

end Scenario

end AgentCluster.Service
