import AgentCluster.Adk.Event
import AgentCluster.Agents.Contracts
import AgentCluster.Cluster.Case
import AgentCluster.Cluster.Scanner
import AgentCluster.Library.KeepFirst
import AgentCluster.Library.Scan

/-!
# Reading proposals back off the wire

A specialist's reply is text. The scanner `jsonObjectsIn` finds the JSON objects embedded in it, and
the functions over it find proposals and confirmations. `jsonObjectsIn_eq_scan` says that the index
loop is a leftmost greedy scan.
-/

set_option autoImplicit false

namespace AgentCluster.Cluster

open Python Library Agents Adk

/-! ## The scanner -/

/-- Every JSON object embedded in a text, in order. The loop has more rounds than it needs, and catches
what the decoder raises. -/
def jsonObjectsIn (text : String) : List Dict :=
  match jsonDecoder.jsonObjectsLoop text.toList (text.toList.length + 1) (find text.toList '{' 0) [] with
  | some (.ok found) => found
  | _ => []

/-- `{`. -/
def opensObject (c : Char) : Bool := c == '{'

/-- The object at the start of the text, and the text after it. -/
def decodeObject (s : List Char) : Option (Dict × List Char) :=
  (Json.decode s).bind fun p => p.1.asDict?.map fun d => (d, p.2)

theorem decodeObject_eq_some {s rest : List Char} {d : Dict} :
    decodeObject s = some (d, rest) ↔ Json.decode s = some (.dict d, rest) := by
  constructor
  · intro h
    obtain ⟨⟨v, r⟩, hdec, h⟩ := Option.bind_eq_some_iff.1 h
    obtain ⟨e, he, h⟩ := Option.map_eq_some_iff.1 h
    cases v with
    | dict e' =>
      cases he
      cases h
      exact hdec
    | _ => cases he
  · intro h
    simp [decodeObject, h, Value.asDict?]

theorem decodeObject_isJson {s rest : List Char} {d : Dict} (h : decodeObject s = some (d, rest)) :
    (Value.dict d).isJson = true :=
  Json.isJson_decode (decodeObject_eq_some.1 h)

theorem decodeObject_shrinks : Scan.Shrinks decodeObject := by
  intro s d rest h
  exact (Json.decode_consumes (decodeObject_eq_some.1 h)).length_lt

/-- Nothing is decoded across a barrier. -/
theorem decodeObject_blocks {B : List Char} (hB : Json.Barrier B) : Scan.Blocks decodeObject B := by
  intro s
  unfold decodeObject
  rw [Json.decode_barrier hB]
  cases Json.decode s with
  | none => rfl
  | some p => cases hp : p.1.asDict? <;> simp [Json.leave, hp]

/-- The loop from an index is the scan of the text from there. -/
theorem jsonObjectsLoop_eq_scan (text : List Char) (n start : Nat) (found : List Dict)
    (hn : (text.drop start).length < n) :
    jsonDecoder.jsonObjectsLoop text n (find text '{' start) found =
      some (.ok (found ++ Scan.scan opensObject decodeObject (text.drop start))) := by
  induction n generalizing start found with
  | zero => omega
  | succ n ih =>
    have hclosed : ∀ pre : List Char, '{' ∉ pre → ∀ c ∈ pre, opensObject c = false := by
      intro pre hpre c hc
      rw [opensObject, beq_eq_false_iff_ne]
      exact fun heq => hpre (heq ▸ hc)
    cases hfind : find text '{' start with
    | none =>
      have hnil := Scan.scan_append_of_not_opens decodeObject_shrinks
        (hclosed _ (find_eq_none hfind)) []
      rw [List.append_nil] at hnil
      rw [Decoder.jsonObjectsLoop_none, hnil]
      exact congrArg (fun found => some (Except.ok found)) (List.append_nil found).symm
    | some index =>
      obtain ⟨pre, hpre, hsplit, hcons⟩ := find_eq_some hfind
      have hnext : (text.drop (index + 1)).length < n := by
        rw [hsplit, hcons, List.length_append, List.length_cons] at hn
        omega
      have hscan : Scan.scan opensObject decodeObject (text.drop start) =
          Scan.scan opensObject decodeObject ('{' :: text.drop (index + 1)) := by
        rw [hsplit, hcons]
        exact Scan.scan_append_of_not_opens decodeObject_shrinks (hclosed pre hpre) _
      have hskip (h : decodeObject ('{' :: text.drop (index + 1)) = none) :
          jsonDecoder.jsonObjectsLoop text n (find text '{' (index + 1)) found =
            some (.ok (found ++ Scan.scan opensObject decodeObject (text.drop start))) := by
        rw [hscan, Scan.scan_cons_of_none decodeObject_shrinks rfl h]
        exact ih (index + 1) found hnext
      rw [Decoder.jsonObjectsLoop]
      cases hdec : Json.decode ('{' :: text.drop (index + 1)) with
      | none =>
        rw [jsonDecoder_of_none (by rw [Json.rawDecode, hcons, hdec]; rfl)]
        exact hskip (by rw [decodeObject, hdec]; rfl)
      | some p =>
        obtain ⟨v, rest⟩ := p
        have hraw : Json.rawDecode text index = some (v, text.length - rest.length) := by
          rw [Json.rawDecode, hcons, hdec]
          rfl
        rw [jsonDecoder_of_some hraw]
        cases v with
        | dict d =>
          -- The index the decoder reports is where the undecoded text begins.
          have hconsumes := Json.decode_consumes hdec
          have hrest : text.drop (text.length - rest.length) = rest := by
            have hsuffix : rest <:+ text := by
              rw [← hcons] at hconsumes
              exact hconsumes.suffix.trans (List.drop_suffix index text)
            exact (List.suffix_iff_eq_drop.1 hsuffix).symm
          have hlt := hconsumes.length_lt
          rw [List.length_cons] at hlt
          have hstep := ih (text.length - rest.length) (found ++ [d]) (by rw [hrest]; omega)
          rw [hrest] at hstep
          rw [hscan, Scan.scan_cons_of_some decodeObject_shrinks rfl
            (decodeObject_eq_some.2 hdec)]
          simpa using hstep
        | _ => exact hskip (by rw [decodeObject, hdec]; rfl)

theorem jsonObjectsIn_eq_scan (text : String) :
    jsonObjectsIn text = Scan.scan opensObject decodeObject text.toList := by
  unfold jsonObjectsIn
  rw [jsonObjectsLoop_eq_scan _ _ _ _ (by simp)]
  rfl

/-- Every object found is a JSON object. -/
theorem isJson_of_mem_jsonObjectsIn {text : String} {d : Dict} (h : d ∈ jsonObjectsIn text) :
    (Value.dict d).isJson = true := by
  rw [jsonObjectsIn_eq_scan] at h
  obtain ⟨s, rest, hdec⟩ := Scan.exists_of_mem_scan h
  exact decodeObject_isJson hdec

/-- An object written out at the start of a text is found first. -/
theorem scan_encode_append {d : Dict} (h : (Value.dict d).isJson = true) (s : List Char) :
    Scan.scan opensObject decodeObject (Json.encode (.dict d) ++ s) =
      d :: Scan.scan opensObject decodeObject s := by
  have hdec : Json.decode (Json.encode (.dict d) ++ s) = some (.dict d, s) :=
    Json.decode_encode h trivial
  obtain ⟨t, ht⟩ : ∃ t, Json.encode (.dict d) ++ s = '{' :: t := by
    rw [Json.encode]
    exact ⟨_, rfl⟩
  rw [ht] at hdec ⊢
  exact Scan.scan_cons_of_some decodeObject_shrinks rfl (decodeObject_eq_some.2 hdec)

/-- A text that is one JSON object holds that object and no other. -/
theorem jsonObjectsIn_dumps {d : Dict} (h : (Value.dict d).isJson = true) :
    jsonObjectsIn (Json.dumps (.dict d)) = [d] := by
  have hscan := scan_encode_append h []
  rw [List.append_nil] at hscan
  rw [jsonObjectsIn_eq_scan, Json.dumps, String.toList_ofList, hscan]
  rfl

/-! ## Proposals -/

/-- One object of a reply: an `approval_required` object with a dict for a proposal is kept, unless
its proposal was seen before. -/
def addProposal (acc : List String × List Dict) (obj : Dict) : List String × List Dict :=
  if (obj.get "status").pyEq (.str approvalRequired) then
    match obj.get "proposal" with
    | .dict proposal =>
        let key := Json.dumpsSorted (.dict proposal)
        if key ∈ acc.1 then acc else (key :: acc.1, acc.2 ++ [obj])
    | _ => acc
  else acc

/-- Every approval-required proposal reported in these replies, each once. -/
def findProposals (texts : List String) : List Dict :=
  (texts.foldl (fun acc text => (jsonObjectsIn text).foldl addProposal acc) ([], [])).2

/-- The object reports a proposal. -/
def isProposal (obj : Dict) : Bool :=
  (obj.get "status").pyEq (.str approvalRequired) && (obj.get "proposal").asDict?.isSome

/-- What proposals are compared by. -/
def proposalKey (obj : Dict) : String := Json.dumpsSorted (obj.get "proposal")

theorem addProposal_eq (acc : List String × List Dict) (obj : Dict) :
    addProposal acc obj = if isProposal obj then keepStep proposalKey acc obj else acc := by
  unfold addProposal isProposal keepStep proposalKey
  cases (obj.get "status").pyEq (.str approvalRequired) with
  | false => rfl
  | true => cases obj.get "proposal" <;> rfl

theorem findProposals_eq (texts : List String) :
    findProposals texts =
      keepFirst proposalKey [] ((texts.flatMap jsonObjectsIn).filter isProposal) := by
  have hstep : addProposal = fun acc obj =>
      if isProposal obj then keepStep proposalKey acc obj else acc := by
    funext acc obj
    exact addProposal_eq acc obj
  unfold findProposals
  rw [← List.foldl_flatMap, hstep, ← List.foldl_filter, foldl_keepStep]
  rfl

/-- The dict a reported object proposes; `findProposals` hands out objects that have one. -/
def proposalOf (found : Dict) : Dict := ((found.get "proposal").asDict?).getD []

section CaseFromProposal

variable [UnicodeData]

/-- The case recorded for a reported proposal. The new id and the clock reading are inputs. -/
def caseFromProposal (found : Dict) (sessionId caseId : String) (agent : String)
    (newProposalId : String) (clock : Nat) : ApprovalCase :=
  let proposal := proposalOf found
  { caseId := caseId
    proposalId := newProposalId
    agent := if agent ≠ "" then agent else (found.getD "agent" (.str "")).toStr
    action :=
      if (found.get "action").truthy then (found.get "action").toStr
      else (proposal.getD "action" (.str "")).toStr
    summary := (found.getD "summary" (.str "")).toStr
    proposal := proposal
    sessionId := sessionId
    createdAt := DateTime.now clock }

end CaseFromProposal

/-! ## Confirmations -/

/-- The fields of a proposal that a confirmation is compared on. -/
def wanted (proposal : Dict) : Dict := proposal.filter fun kv => kv.2.isScalar

/-- The object reports `published` and has every wanted value. -/
def confirms (proposal obj : Dict) : Bool :=
  (obj.get "status").pyEq (.str "published") &&
    (wanted proposal).all fun kv => (obj.get kv.1).pyEq kv.2

theorem mem_wanted {proposal : Dict} {kv : String × Value} :
    kv ∈ wanted proposal ↔ kv ∈ proposal ∧ kv.2.isScalar = true := by
  simp [wanted]

theorem confirms_iff {proposal obj : Dict} :
    confirms proposal obj = true ↔
      obj.get "status" = .str "published" ∧ ∀ kv ∈ wanted proposal, (obj.get kv.1).pyEq kv.2 = true := by
  rw [confirms, Bool.and_eq_true, List.all_eq_true, Value.pyEq_str_iff]

/-- The first object in the replies that confirms the proposal. -/
def findExecution (texts : List String) (proposal : Dict) : Option Dict :=
  texts.findSome? fun text => (jsonObjectsIn text).find? (confirms proposal)

theorem confirms_of_findExecution {texts : List String} {proposal result : Dict}
    (h : findExecution texts proposal = some result) :
    (∃ text ∈ texts, result ∈ jsonObjectsIn text) ∧ confirms proposal result = true := by
  obtain ⟨text, htext, hfind⟩ := List.exists_of_findSome?_eq_some h
  exact ⟨⟨text, htext, List.mem_of_find?_eq_some hfind⟩, List.find?_some hfind⟩

/-- A confirming object anywhere in the replies is enough. -/
theorem findExecution_isSome {texts : List String} {proposal obj : Dict} {text : String}
    (htext : text ∈ texts) (hobj : obj ∈ jsonObjectsIn text) (h : confirms proposal obj = true) :
    ∃ result, findExecution texts proposal = some result := by
  rw [← Option.isSome_iff_exists, findExecution, List.findSome?_isSome_iff]
  exact ⟨text, htext, List.find?_isSome.2 ⟨obj, hobj, h⟩⟩

/-- Sorting the keys of a result does not matter to what it confirms. -/
theorem confirms_sortedDict {d : Dict} (h : (Value.dict d).isJson = true) (proposal : Dict) :
    confirms proposal (Json.sortedDict d) = confirms proposal d := by
  have hnodup := ((Value.isJson_dict_iff d).1 h).1
  rw [confirms, confirms, Json.get_sortedDict hnodup, Json.pyEq_sortKeys rfl]
  congr 1
  rw [Bool.eq_iff_iff, List.all_eq_true, List.all_eq_true]
  apply forall_congr'
  intro kv
  apply imp_congr_right
  intro hkv
  rw [Json.get_sortedDict hnodup, Json.pyEq_sortKeys (List.mem_filter.1 hkv).2]

/-- The message that asks the agent to carry out an approved action. -/
def executionInstruction (c : ApprovalCase) : String :=
  let proposal := Json.dumpsSorted (.dict c.proposal)
  let note := if c.note ≠ "" then "\nThe approver noted: " ++ c.note else ""
  "A human has APPROVED this proposal from the '" ++ c.agent ++ "' " ++
    "specialist:\n" ++ proposal ++ "\n" ++
    "Approved by: " ++ (if c.decidedBy ≠ "" then c.decidedBy else "unknown") ++ note ++ "\n\n" ++
    "Send the specialist the SAME request that produced this proposal, " ++
    "with `approved_by` set to the approver above and `decision_note` set " ++
    "to their note. Do not change any other field. Then report what the " ++
    "specialist returned."

/-! ## The texts of an event -/

mutual

/-- Every string in a tool result, and every dict in it as JSON. -/
def unpack : Value → List String
  | .str s => [s]
  | .dict d => Json.dumps (.dict d) :: unpackDict d
  | .list xs => unpackList xs
  | _ => []

def unpackList : List Value → List String
  | [] => []
  | x :: xs => unpack x ++ unpackList xs

def unpackDict : List (String × Value) → List String
  | [] => []
  | (_, v) :: d => unpack v ++ unpackDict d

end

/-- A reply wrapped by the framework is scanned as the wrapper's JSON and as itself. -/
theorem unpack_wrapped (body : String) :
    unpack (.dict [("result", .str body)]) =
      [Json.dumps (.dict [("result", .str body)]), body] := by
  simp [unpack, unpackDict]

theorem mem_unpack_wrapped (body : String) : body ∈ unpack (.dict [("result", .str body)]) := by
  rw [unpack_wrapped]
  exact List.mem_cons_of_mem _ List.mem_cons_self

/-- A peer's reply that is one JSON object. -/
def relayed (d : Dict) : Value := .dict [("result", .str (Json.dumps (.dict d)))]

section Relayed

variable {d : Dict} (h : (Value.dict d).isJson = true)

include h

theorem flatMap_jsonObjectsIn_relayed :
    (unpack (relayed d)).flatMap jsonObjectsIn =
      [[("result", .str (Json.dumps (.dict d)))], d] := by
  have hwrapper : (Value.dict [("result", .str (Json.dumps (.dict d)))]).isJson = true := rfl
  rw [relayed, unpack_wrapped, List.flatMap_cons, List.flatMap_singleton,
    jsonObjectsIn_dumps hwrapper, jsonObjectsIn_dumps h]
  rfl

theorem findProposals_relayed (hd : isProposal d = true) :
    findProposals (unpack (relayed d)) = [d] := by
  have hwrapper : isProposal [("result", .str (Json.dumps (.dict d)))] = false := rfl
  rw [findProposals_eq, flatMap_jsonObjectsIn_relayed h, List.filter_cons,
    if_neg (by simp [hwrapper]), List.filter_cons, if_pos hd]
  rfl

theorem findExecution_dumps {proposal : Dict} (hd : confirms proposal d = true) :
    findExecution [Json.dumps (.dict d)] proposal = some d := by
  simp [findExecution, jsonObjectsIn_dumps h, hd]

theorem findExecution_relayed {proposal : Dict} (hd : confirms proposal d = true) :
    findExecution (unpack (relayed d)) proposal = some d := by
  have hwrapper : confirms proposal [("result", .str (Json.dumps (.dict d)))] = false := rfl
  have hjson : (Value.dict [("result", .str (Json.dumps (.dict d)))]).isJson = true := rfl
  rw [findExecution, relayed, unpack_wrapped, List.findSome?_cons, jsonObjectsIn_dumps hjson,
    List.findSome?_cons, jsonObjectsIn_dumps h]
  simp [hwrapper, hd]

end Relayed

/-- Every text an event carries that could hold a proposal. -/
def replyTexts (event : Event) : List String :=
  event.getFunctionResponses.flatMap (fun response => unpack response.response) ++
    if event.text ≠ "" then [event.text] else []

section Summarise

variable [UnicodeData]

/-- A one-line, log-friendly description of an event. -/
def summarise (event : Event) : String :=
  let calls := event.getFunctionCalls
  let responses := event.getFunctionResponses.map FunctionResponse.name
  let names (ns : List String) : String := (Value.list (ns.map Value.str)).repr
  let message := event.errorMessage.getD ""
  join " | " <|
    [event.author] ++
      (if calls ≠ [] then ["calls=" ++ names calls] else []) ++
      (if responses ≠ [] then ["resp=" ++ names responses] else []) ++
      (if event.text ≠ "" then
        ["text=" ++ strRepr (String.ofList (event.text.toList.take 160))] else []) ++
      if message ≠ "" then ["error=" ++ strRepr message] else []

end Summarise

end AgentCluster.Cluster
