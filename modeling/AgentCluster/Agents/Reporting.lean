import AgentCluster.Cluster.Wire
import AgentCluster.Library.Except

/-!
# Structured results across the text boundary

`restateStructuredResults` runs after the agent and appends its audited tool results to the agent's
own words, as JSON. One equivalence says when it returns and what (`restateWithin_iff`). The main
result is that a reader who scans the text gets exactly these results after whatever objects the words
contain, and that there is no text only when there is no audited result
(`restateStructuredResults_survives`).
-/

set_option autoImplicit false

namespace AgentCluster.Agents

open Python Library Adk Cluster

/-! ## The callback -/

/-- Tool-result statuses that must reach the caller intact. -/
def auditedStatuses : List String := [approvalRequired, "published"]

/-- Marks the JSON block the callback appends. -/
def resultHeader : String := "Structured result(s):"

/-- The tool-result dicts an event carries, unwrapped. -/
def payloads (event : Event) : List Dict :=
  event.getFunctionResponses.filterMap fun response =>
    match response.response with
    | .dict payload =>
        match Dict.get payload "result" with
        | .dict inner => some inner
        | _ => some payload
    | _ => none

/-- What the callback reads of its context. -/
structure InvocationContext where
  invocationId : String
  agentName : String
  events : List Event

/-- Why the callback raises: a status cannot be looked up, or `json.dumps` raises. -/
inductive ReportError where
  | unhashableStatus
  | notWritable
  deriving DecidableEq

/-- How deep each of the two calls of `json.dumps` can go before the recursion limit of the interpreter
stops it; with `none` no value is too deep. -/
structure Room where
  first : Option Nat := none
  second : Option Nat := none

/-- `json.dumps(payload, sort_keys=True)` in this much room, with `default=str` unless `strict`. -/
def dumpsWithin (strict : Bool) (room : Option Nat) (payload : Dict) : Except ReportError String :=
  if Json.writable strict (.dict payload) ∧ room.all fun n => Json.depth (.dict payload) ≤ n then
    .ok (Json.dumpsSorted (.dict payload))
  else .error .notWritable

/-- The variables of the callback's loop. -/
structure Report where
  seen : List String := []
  results : List Dict := []
  spoken : String := ""

/-- One payload: kept if its status is audited and it was not seen before. -/
def addPayload (room : Room) (acc : Report) (payload : Dict) : Except ReportError Report :=
  let status := payload.get "status"
  if status.lookable = false then .error .unhashableStatus
  else if auditedStatuses.any fun s => status.pyEq (.str s) then do
    let key ← dumpsWithin false room.first payload
    return if key ∈ acc.seen then acc
      else { acc with seen := key :: acc.seen, results := acc.results ++ [payload] }
  else .ok acc

/-- One event of the session. -/
def addEvent (room : Room) (ctx : InvocationContext) (acc : Report) (event : Event) :
    Except ReportError Report :=
  if event.invocationId ≠ ctx.invocationId then .ok acc
  else do
    let acc ← (payloads event).foldlM (addPayload room) acc
    return if event.author = ctx.agentName ∧ event.text ≠ "" then
      { acc with spoken := event.text } else acc

/-- The text of the final event: the agent's own words and the audited results, or `none` when there
is no audited result. -/
def restateWithin (room : Room) (ctx : InvocationContext) : Except ReportError (Option String) := do
  let report ← ctx.events.foldlM (addEvent room ctx) {}
  if report.results = [] then return none
  else
    let lines ← report.results.mapM (dumpsWithin true room.second)
    let blocks := join "\n" lines
    return some <|
      if report.spoken ≠ "" then report.spoken ++ "\n\n" ++ resultHeader ++ "\n" ++ blocks
      else blocks

/-- The callback on results that are nested below the recursion limit. -/
def restateStructuredResults (ctx : InvocationContext) : Except ReportError (Option String) :=
  restateWithin {} ctx

/-! ## What the loop collects -/

/-- The events of the current invocation. -/
def InvocationContext.current (ctx : InvocationContext) : List Event :=
  ctx.events.filter fun event => event.invocationId = ctx.invocationId

/-- The payload's status is one of those that must reach the caller. -/
def isAudited (payload : Dict) : Bool :=
  auditedStatuses.any fun s => (payload.get "status").pyEq (.str s)

/-- The audited payloads of the current invocation, in order, repetitions included. -/
def InvocationContext.audited (ctx : InvocationContext) : List Dict :=
  (ctx.current.flatMap payloads).filter isAudited

/-- The last words of the agent in the current invocation. -/
def InvocationContext.spoken (ctx : InvocationContext) : String :=
  (((ctx.current.filter fun event => event.author = ctx.agentName).map Event.text).filter
    (· ≠ "")).getLast?.getD ""

/-- The status is a string, where present. -/
def hasTextStatus (payload : Dict) : Bool :=
  match payload.lookup "status" with
  | none => true
  | some (.str _) => true
  | some _ => false

/-- A JSON object with finite numbers whose status, if it has one, is a string. -/
structure Reportable (payload : Dict) : Prop where
  isJson : (Value.dict payload).isJson = true
  isFinite : (Value.dict payload).isFinite = true
  status : hasTextStatus payload = true

instance (payload : Dict) : Decidable (Reportable payload) :=
  decidable_of_iff ((Value.dict payload).isJson = true ∧ (Value.dict payload).isFinite = true ∧
      hasTextStatus payload = true)
    ⟨fun h => ⟨h.1, h.2.1, h.2.2⟩, fun h => ⟨h.isJson, h.isFinite, h.status⟩⟩

/-- Every tool result of the current invocation is reportable. -/
def InvocationContext.Reports (ctx : InvocationContext) : Prop :=
  ∀ event ∈ ctx.current, ∀ payload ∈ payloads event, Reportable payload

instance (ctx : InvocationContext) : Decidable ctx.Reports :=
  inferInstanceAs (Decidable (∀ event ∈ ctx.current, ∀ payload ∈ payloads event, Reportable payload))

theorem Reportable.lookable {payload : Dict} (h : Reportable payload) :
    (payload.get "status").lookable = true := by
  rw [Dict.get, Dict.getD]
  have hstatus := h.status
  unfold hasTextStatus at hstatus
  cases hl : payload.lookup "status" with
  | none => rfl
  | some v =>
    rw [hl] at hstatus
    cases v with
    | str s => rfl
    | _ => cases hstatus

/-- What payloads are compared by. -/
def payloadKey (payload : Dict) : String := Json.dumpsSorted (.dict payload)

/-- The report after more payloads, none of which makes the callback raise. -/
def Report.absorb (acc : Report) (payloads : List Dict) : Report :=
  let kept := (payloads.filter isAudited).foldl (keepStep payloadKey) (acc.seen, acc.results)
  { acc with seen := kept.1, results := kept.2 }

/-- A dict can be written in this much room. -/
def WritableWithin (strict : Bool) (room : Option Nat) (payload : Dict) : Prop :=
  Json.writable strict (.dict payload) = true ∧
    (room.all fun n => Json.depth (.dict payload) ≤ n) = true

/-- The status can be looked up in the set and, if it is audited, the dict can be written. -/
structure Accepted (room : Room) (payload : Dict) : Prop where
  lookable : (payload.get "status").lookable = true
  writable : isAudited payload = true → WritableWithin false room.first payload

theorem dumpsWithin_iff {strict : Bool} {room : Option Nat} (payload : Dict) (text : String) :
    dumpsWithin strict room payload = .ok text ↔
      WritableWithin strict room payload ∧ text = payloadKey payload := by
  rw [dumpsWithin]
  split
  next h => exact ⟨fun hok => ⟨h, (Except.ok.inj hok).symm⟩, fun hok => hok.2 ▸ rfl⟩
  next h => exact iff_of_false (fun hok => by cases hok) fun hok => h hok.1

theorem absorb_of_not_audited {payload : Dict} (h : isAudited payload = false) (acc : Report) :
    acc.absorb [payload] = acc := by
  simp [Report.absorb, h]

theorem absorb_of_audited {payload : Dict} (h : isAudited payload = true) (acc : Report) :
    acc.absorb [payload] =
      if payloadKey payload ∈ acc.seen then acc
      else { acc with
        seen := payloadKey payload :: acc.seen, results := acc.results ++ [payload] } := by
  simp only [Report.absorb, List.filter_cons, h, if_true, List.filter_nil, List.foldl_cons,
    List.foldl_nil, keepStep]
  split <;> rfl

theorem addPayload_iff {room : Room} (acc : Report) (payload : Dict) (acc' : Report) :
    addPayload room acc payload = .ok acc' ↔
      Accepted room payload ∧ acc' = acc.absorb [payload] := by
  unfold addPayload
  show (if _ then _ else if isAudited payload = true then _ else _) = _ ↔ _
  cases hlookable : (Dict.get payload "status").lookable with
  | false =>
    refine iff_of_false (fun hok => by cases hok) fun hok => ?_
    rw [hok.1.lookable] at hlookable
    cases hlookable
  | true =>
    rw [if_neg Bool.noConfusion]
    cases haudited : isAudited payload with
    | false =>
      rw [if_neg Bool.false_ne_true, absorb_of_not_audited haudited]
      constructor
      · intro hok
        exact ⟨⟨hlookable, fun h => by rw [haudited] at h; cases h⟩, (Except.ok.inj hok).symm⟩
      · rintro ⟨-, rfl⟩
        rfl
    | true =>
      rw [if_pos rfl, bind_eq_ok_iff, absorb_of_audited haudited]
      constructor
      · rintro ⟨key, hkey, hok⟩
        obtain ⟨hwritable, rfl⟩ := (dumpsWithin_iff _ _).1 hkey
        exact ⟨⟨hlookable, fun _ => hwritable⟩, (Except.ok.inj hok).symm⟩
      · rintro ⟨haccepted, rfl⟩
        exact ⟨_, (dumpsWithin_iff _ _).2 ⟨haccepted.writable haudited, rfl⟩, rfl⟩

theorem Report.absorb_append (acc : Report) (ps qs : List Dict) :
    acc.absorb (ps ++ qs) = (acc.absorb ps).absorb qs := by
  simp [absorb, List.filter_append, List.foldl_append]

theorem Report.foldl_absorb (acc : Report) (ps : List Dict) :
    ps.foldl (fun acc payload => acc.absorb [payload]) acc = acc.absorb ps := by
  induction ps generalizing acc with
  | nil => rfl
  | cons p ps ih =>
    rw [List.foldl_cons, ih, ← absorb_append]
    rfl

/-- The agent's words on these events, if there are any, replace the earlier ones. -/
def lastWords (agentName : String) (events : List Event) : Option String :=
  (((events.filter fun event => event.author = agentName).map Event.text).filter
    (· ≠ "")).getLast?

theorem lastWords_cons (agentName : String) (event : Event) (events : List Event)
    (spoken : String) :
    (lastWords agentName (event :: events)).getD spoken =
      (lastWords agentName events).getD
        (if event.author = agentName ∧ event.text ≠ "" then event.text else spoken) := by
  unfold lastWords
  by_cases ha : event.author = agentName
  · by_cases ht : event.text = ""
    · simp [ha, ht]
    · simp only [List.filter_cons, ha, decide_true, if_true, List.map_cons, ht, ne_eq,
        not_false_eq_true, decide_not, decide_false, Bool.not_false, and_self]
      rw [List.getLast?_cons]
      rfl
  · simp [ha]

/-- The report after one event of the invocation. -/
def Report.hear (acc : Report) (agentName : String) (event : Event) : Report :=
  if event.author = agentName ∧ event.text ≠ "" then
    { acc.absorb (payloads event) with spoken := event.text }
  else acc.absorb (payloads event)

/-- The report after these events of the invocation. -/
def Report.after (acc : Report) (agentName : String) (current : List Event) : Report :=
  { acc.absorb (current.flatMap payloads) with
    spoken := (lastWords agentName current).getD acc.spoken }

theorem Report.after_cons (acc : Report) (agentName : String) (event : Event)
    (events : List Event) :
    acc.after agentName (event :: events) = (acc.hear agentName event).after agentName events := by
  unfold after hear
  rw [lastWords_cons, List.flatMap_cons, absorb_append]
  split <;> rfl

/-- Events of the invocation carry only accepted payloads. -/
def EventAccepted (room : Room) (ctx : InvocationContext) (event : Event) : Prop :=
  event.invocationId = ctx.invocationId → ∀ payload ∈ payloads event, Accepted room payload

theorem addEvent_iff {room : Room} {ctx : InvocationContext} (acc : Report) (event : Event)
    (acc' : Report) :
    addEvent room ctx acc event = .ok acc' ↔
      EventAccepted room ctx event ∧
        acc' = if event.invocationId = ctx.invocationId then acc.hear ctx.agentName event
          else acc := by
  rw [addEvent]
  by_cases hid : event.invocationId = ctx.invocationId
  · rw [if_neg (not_not.2 hid), if_pos hid, bind_eq_ok_iff]
    simp only [foldlM_eq_ok_iff addPayload_iff, Report.foldl_absorb]
    constructor
    · rintro ⟨mid, ⟨hps, rfl⟩, hok⟩
      exact ⟨fun _ => hps, (Except.ok.inj hok).symm⟩
    · rintro ⟨hps, rfl⟩
      exact ⟨_, ⟨hps hid, rfl⟩, rfl⟩
  · rw [if_pos hid, if_neg hid]
    exact ⟨fun hok => ⟨fun h => absurd h hid, (Except.ok.inj hok).symm⟩, fun hok => hok.2 ▸ rfl⟩

/-- Events of other invocations leave no trace. -/
theorem Report.foldl_hear (acc : Report) (ctx : InvocationContext) (events : List Event) :
    events.foldl (fun acc event => if event.invocationId = ctx.invocationId then
        acc.hear ctx.agentName event else acc) acc =
      acc.after ctx.agentName
        (events.filter fun event => event.invocationId = ctx.invocationId) := by
  induction events generalizing acc with
  | nil => rfl
  | cons event events ih =>
    rw [List.foldl_cons, ih]
    by_cases hid : event.invocationId = ctx.invocationId
    · rw [if_pos hid, List.filter_cons_of_pos (by simpa using hid), after_cons]
    · rw [if_neg hid, List.filter_cons_of_neg (by simpa using hid)]

/-! ## The text -/

/-- The text made of the agent's words and the results. -/
def bodyText (spoken : String) (results : List Dict) : String :=
  let blocks := join "\n" (results.map payloadKey)
  if spoken ≠ "" then spoken ++ "\n\n" ++ resultHeader ++ "\n" ++ blocks else blocks

/-- The distinct audited payloads. -/
def InvocationContext.results (ctx : InvocationContext) : List Dict :=
  keepFirst payloadKey [] ctx.audited

/-- Every status the callback looks up can be looked up, and every audited payload can be written with
`default=str`. -/
def InvocationContext.PayloadsAccepted (ctx : InvocationContext) (room : Room) : Prop :=
  ∀ event ∈ ctx.current, ∀ payload ∈ payloads event, Accepted room payload

/-- The first of the audited payloads with each text can be written without a `default`. -/
def InvocationContext.ResultsWritable (ctx : InvocationContext) (room : Room) : Prop :=
  ∀ result ∈ ctx.results, WritableWithin true room.second result

theorem payloadsAccepted_iff (ctx : InvocationContext) (room : Room) :
    ctx.PayloadsAccepted room ↔ ∀ event ∈ ctx.events, EventAccepted room ctx event := by
  simp only [InvocationContext.PayloadsAccepted, InvocationContext.current, List.mem_filter,
    decide_eq_true_eq, and_imp]
  exact Iff.rfl

/-- When the callback returns, and what. -/
theorem restateWithin_iff {room : Room} {ctx : InvocationContext} {text : Option String} :
    restateWithin room ctx = .ok text ↔
      (ctx.PayloadsAccepted room ∧ ctx.ResultsWritable room) ∧
        text = if ctx.results = [] then none else some (bodyText ctx.spoken ctx.results) := by
  let report := ({} : Report).after ctx.agentName ctx.current
  -- The second component of the accumulator is the list of keys met so far.
  have hresults : report.results = ctx.results :=
    (foldl_keepStep payloadKey ([], []) _).trans (List.nil_append _)
  have hspoken : report.spoken = ctx.spoken := rfl
  have hloop : ∀ r, ctx.events.foldlM (addEvent room ctx) {} = .ok r ↔
      ctx.PayloadsAccepted room ∧ r = report := by
    intro r
    rw [foldlM_eq_ok_iff addEvent_iff, Report.foldl_hear, payloadsAccepted_iff]
    exact Iff.rfl
  simp only [restateWithin, bind_eq_ok_iff, hloop, and_assoc, exists_and_left, exists_eq_left,
    hresults, hspoken]
  refine and_congr_right fun _ => ?_
  by_cases hnil : ctx.results = []
  · rw [if_pos hnil, if_pos hnil]
    have hwritable : ctx.ResultsWritable room := by
      intro r hr
      rw [hnil] at hr
      cases hr
    exact ⟨fun hok => ⟨hwritable, (Except.ok.inj hok).symm⟩, fun h => h.2 ▸ rfl⟩
  · rw [if_neg hnil, if_neg hnil, bind_eq_ok_iff]
    simp only [mapM_eq_ok_iff dumpsWithin_iff]
    constructor
    · rintro ⟨lines, ⟨hwritable, rfl⟩, hok⟩
      exact ⟨hwritable, (Except.ok.inj hok).symm⟩
    · rintro ⟨hwritable, rfl⟩
      exact ⟨_, ⟨hwritable, rfl⟩, rfl⟩

section Restate

variable {ctx : InvocationContext} (h : ctx.Reports)

include h

theorem InvocationContext.Reports.of_mem_audited {payload : Dict} (hp : payload ∈ ctx.audited) :
    Reportable payload := by
  obtain ⟨event, hevent, hpayload⟩ := List.mem_flatMap.1 (List.mem_filter.1 hp).1
  exact h event hevent payload hpayload

theorem InvocationContext.Reports.of_mem_results {payload : Dict} (hp : payload ∈ ctx.results) :
    Reportable payload := h.of_mem_audited ((keepFirst_sublist payloadKey [] ctx.audited).subset hp)

/-- The callback on reportable results whose numbers `str` can write: its text is the body over the
distinct audited payloads. -/
theorem restateStructuredResults_eq
    (hwritable : ∀ payload ∈ ctx.audited, Json.writable false (.dict payload) = true) :
    restateStructuredResults ctx =
      .ok (if ctx.results = [] then none else some (bodyText ctx.spoken ctx.results)) := by
  refine restateWithin_iff.2 ⟨⟨?_, ?_⟩, rfl⟩
  · intro event hevent payload hp
    refine ⟨(h event hevent payload hp).lookable, fun haudited => ⟨?_, rfl⟩⟩
    exact hwritable payload (List.mem_filter.2 ⟨List.mem_flatMap.2 ⟨event, hevent, hp⟩, haudited⟩)
  · intro r hr
    have haudited : r ∈ ctx.audited := (keepFirst_sublist payloadKey [] ctx.audited).subset hr
    exact ⟨Json.serializable_of_isJson (h.of_mem_audited haudited).isJson
      (hwritable r haudited), rfl⟩

end Restate

/-! ## Reading the text back -/

theorem payloadKey_toList (payload : Dict) :
    (payloadKey payload).toList = Json.encode (.dict (Json.sortedDict payload)) := by
  rw [payloadKey, Json.dumpsSorted, Json.sortKeys_dict, String.toList_ofList]

theorem Reportable.isJson_sortedDict {payload : Dict} (h : Reportable payload) :
    (Value.dict (Json.sortedDict payload)).isJson = true := by
  rw [← Json.sortKeys_dict]
  exact Json.isJson_sortKeys h.isJson

/-- A line of the block is found as its object, and the scan goes on after it. -/
theorem scan_payloadKey_append {payload : Dict} (h : Reportable payload) (s : List Char) :
    Scan.scan opensObject decodeObject ((payloadKey payload).toList ++ s) =
      Json.sortedDict payload :: Scan.scan opensObject decodeObject s := by
  rw [payloadKey_toList]
  exact scan_encode_append h.isJson_sortedDict s

/-- The block holds the results, one per line. -/
theorem scan_blocks {results : List Dict} (h : ∀ r ∈ results, Reportable r) :
    Scan.scan opensObject decodeObject (join "\n" (results.map payloadKey)).toList =
      results.map Json.sortedDict := by
  induction results with
  | nil => rfl
  | cons r rs ih =>
    have hr := h r List.mem_cons_self
    have hrs := ih fun q hq => h q (List.mem_cons_of_mem r hq)
    cases rs with
    | nil =>
      have hline := scan_payloadKey_append hr []
      rw [List.append_nil] at hline
      exact hline
    | cons q qs =>
      have hnewline : ∀ s, Scan.scan opensObject decodeObject ("\n".toList ++ s) =
          Scan.scan opensObject decodeObject s :=
        fun s => Scan.scan_cons_of_not_opens decodeObject_shrinks rfl s
      rw [List.map_cons, join_cons _ _ (by simp), String.toList_append, String.toList_append,
        List.append_assoc, scan_payloadKey_append hr, hnewline, hrs]
      rfl

/-- What stands between the agent's words and the block. -/
def headerText : List Char := "\n\n".toList ++ (resultHeader.toList ++ "\n".toList)

theorem headerText_eq :
    headerText = ['\n', '\n', 'S', 't', 'r', 'u', 'c', 't', 'u', 'r', 'e', 'd', ' ',
      'r', 'e', 's', 'u', 'l', 't', '(', 's', ')', ':', '\n'] := by
  simp [headerText, resultHeader]

theorem headerText_closed : ∀ c ∈ headerText, opensObject c = false := by
  have hall : headerText.all (fun c => opensObject c == false) = true := by
    rw [headerText_eq]
    rfl
  simpa using hall

/-- An object that begins in the agent's words ends there. -/
theorem barrier_header (blocks : List Char) : Json.Barrier (headerText ++ blocks) := by
  rw [headerText_eq]
  constructor
  · exact ⟨_, rfl⟩
  · exact ⟨'S', _, rfl, rfl⟩

/-- A reader of the body finds the objects in the agent's words, then the results. -/
theorem jsonObjectsIn_bodyText (spoken : String) {results : List Dict}
    (h : ∀ r ∈ results, Reportable r) :
    jsonObjectsIn (bodyText spoken results) =
      jsonObjectsIn spoken ++ results.map Json.sortedDict := by
  rw [jsonObjectsIn_eq_scan, jsonObjectsIn_eq_scan, bodyText]
  by_cases hs : spoken = ""
  · subst hs
    exact scan_blocks h
  · simp only [ne_eq, hs, not_false_eq_true, if_true]
    have htext : (spoken ++ "\n\n" ++ resultHeader ++ "\n" ++
        join "\n" (results.map payloadKey)).toList =
          spoken.toList ++ (headerText ++ (join "\n" (results.map payloadKey)).toList) := by
      simp only [String.toList_append, headerText, List.append_assoc]
    rw [htext, Scan.scan_append decodeObject_shrinks (decodeObject_blocks (barrier_header _)),
      Scan.scan_append_of_not_opens decodeObject_shrinks headerText_closed, scan_blocks h]

/-- The audited payloads survive the text boundary: the text is missing exactly when there are none,
and otherwise a reader finds the objects in the agent's words and then every audited payload once, in
order of first occurrence and equal to the original. There is such a text where the numbers are not too
long for `str`. -/
theorem restateStructuredResults_survives {ctx : InvocationContext} (h : ctx.Reports) :
    (restateStructuredResults ctx = .ok none ↔ ctx.audited = []) ∧
      (∀ body, restateStructuredResults ctx = .ok (some body) →
        ∃ results,
          IsFirsts (fun payload => Json.sortKeys (.dict payload)) ctx.audited results ∧
          jsonObjectsIn body = jsonObjectsIn ctx.spoken ++ results.map Json.sortedDict ∧
          ∀ r ∈ results, (Value.dict (Json.sortedDict r)).jsonEq (.dict r) = true) ∧
      ((∀ payload ∈ ctx.audited, Json.writable false (.dict payload) = true) →
        ctx.audited ≠ [] → ∃ body, restateStructuredResults ctx = .ok (some body)) := by
  have hnil : ctx.results = [] ↔ ctx.audited = [] := keepFirst_eq_nil_iff payloadKey ctx.audited
  refine ⟨⟨?_, ?_⟩, ?_, ?_⟩
  · intro hnone
    by_contra haudited
    have htext := (restateWithin_iff.1 hnone).2
    rw [if_neg fun h => haudited (hnil.1 h)] at htext
    cases htext
  · intro haudited
    rw [restateStructuredResults_eq h (by simp [haudited]), if_pos (hnil.2 haudited)]
  · intro body hbody
    have htext := (restateWithin_iff.1 hbody).2
    split at htext
    · cases htext
    cases htext
    have hresults : ∀ r ∈ ctx.results, Reportable r := fun r hr => h.of_mem_results hr
    refine ⟨ctx.results, ?_, jsonObjectsIn_bodyText ctx.spoken hresults, ?_⟩
    -- Results are kept apart by their printed text; over JSON that is equality up to the order of
    -- keys.
    · refine (isFirsts_keepFirst payloadKey ctx.audited).of_key_iff ?_
      intro p hp q hq
      exact Json.dumpsSorted_eq_iff (h.of_mem_audited hp).isJson (h.of_mem_audited hq).isJson
    · intro r hr
      rw [← Json.sortKeys_dict]
      exact Json.jsonEq_sortKeys (hresults r hr).isJson (hresults r hr).isFinite
  · intro hwritable haudited
    rw [restateStructuredResults_eq h hwritable, if_neg fun h => haudited (hnil.1 h)]
    exact ⟨_, rfl⟩

/-- A turn that proposed one publication, and said so with an unfinished object. -/
def proposalContext : InvocationContext where
  invocationId := "inv-1"
  agentName := "math"
  events :=
    [{ author := "math", invocationId := "inv-1"
       parts := [{ functionResponse := some ⟨"publish_result", .dict
         [("status", .str "approval_required"), ("proposal", .dict [("value", .str "391")])]⟩ }] },
     { author := "math", invocationId := "inv-1"
       parts := [{ text := some "I propose \x7b\"value\": " }] }]

theorem proposalContext_restated : restateStructuredResults proposalContext ≠ .ok none := by
  have haudited : proposalContext.audited ≠ [] := by
    rw [← List.isEmpty_eq_false_iff]
    decide +kernel
  exact fun hnone => haudited ((restateStructuredResults_survives (by decide +kernel)).1.1 hnone)

end AgentCluster.Agents
