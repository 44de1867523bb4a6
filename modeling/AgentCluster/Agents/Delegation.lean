import AgentCluster.Agents.MathTools
import AgentCluster.Agents.Reporting

/-!
# A publication across both text boundaries

The specialist's results reach the caller as text inside a wrapped tool result. This module follows
one publication there and back: what the caller reads out of a reply to the proposing call builds the
case, and what it reads out of a reply to the approved call confirms that case.
-/

set_option autoImplicit false

namespace AgentCluster.Agents

open Python Library Adk Cluster

/-! ## Results as payloads -/

theorem reportable_proposalResult [UnicodeData] (value label : String) :
    Reportable (proposalResult value label) where
  isJson := rfl
  isFinite := rfl
  status := rfl

theorem reportable_publishedResult (record : Publication) (note : String) :
    Reportable (publishedResult record note) where
  isJson := rfl
  isFinite := rfl
  status := rfl

theorem isAudited_proposalResult [UnicodeData] (value label : String) :
    isAudited (proposalResult value label) = true := rfl

theorem isAudited_publishedResult (record : Publication) (note : String) :
    isAudited (publishedResult record note) = true := rfl

/-! ## A turn with one tool result -/

/-- A turn whose only tool result is a reportable, audited one answers with it after whatever the
agent says. -/
theorem reply_of_single_result {ctx : InvocationContext} {result : Dict}
    (hturn : ctx.current.flatMap payloads = [result]) (hresult : Reportable result)
    (hwritable : Json.writable false (.dict result) = true) (haudited : isAudited result = true) :
    ∃ body, restateStructuredResults ctx = .ok (some body) ∧
      jsonObjectsIn body = jsonObjectsIn ctx.spoken ++ [Json.sortedDict result] := by
  have hreports : ctx.Reports := by
    intro event hevent payload hpayload
    have hmem : payload ∈ ctx.current.flatMap payloads :=
      List.mem_flatMap.2 ⟨event, hevent, hpayload⟩
    rw [hturn, List.mem_singleton] at hmem
    rw [hmem]
    exact hresult
  have hresults : ctx.results = [result] := by
    rw [InvocationContext.results, InvocationContext.audited, hturn]
    simp [haudited, keepFirst_cons]
  refine ⟨bodyText ctx.spoken [result], ?_, ?_⟩
  · have haccepted : ∀ payload ∈ ctx.audited, Json.writable false (.dict payload) = true := by
      intro payload hpayload
      have hmem := (List.mem_filter.1 hpayload).1
      rw [hturn, List.mem_singleton] at hmem
      rw [hmem]
      exact hwritable
    rw [restateStructuredResults_eq hreports haccepted, hresults]
    rfl
  · apply jsonObjectsIn_bodyText
    intro r hr
    rw [List.mem_singleton.1 hr]
    exact hresult

/-! ## The way there -/

/-- The proposal of a call that was not approved. -/
def publishProposal (value label : String) : Dict :=
  [("action", .str publishAction), ("value", .str value), ("label", .str label)]

/-- A proposal embedded anywhere in the texts yields an entry with that proposal, up to the order of
its members; an earlier entry may have taken its place. -/
theorem exists_found_of_mem {texts : List String} {t : String} {obj proposal : Dict}
    (htext : t ∈ texts) (hobj : obj ∈ jsonObjectsIn t)
    (hstatus : obj.get "status" = .str approvalRequired)
    (hproposal : obj.get "proposal" = .dict proposal)
    (hjson : (Value.dict proposal).isJson = true) :
    ∃ found ∈ findProposals texts,
      Json.sortedDict (proposalOf found) = Json.sortedDict proposal := by
  have hkind : isProposal obj = true := by
    rw [isProposal, hstatus, hproposal, (Value.pyEq_str_iff _ _).2 rfl]
    rfl
  have hmem : obj ∈ (texts.flatMap jsonObjectsIn).filter isProposal :=
    List.mem_filter.2 ⟨List.mem_flatMap.2 ⟨t, htext, hobj⟩, hkind⟩
  -- What is kept may be another object with the same key: it is compared after the keys are sorted.
  have hfirsts := isFirsts_keepFirst proposalKey ((texts.flatMap jsonObjectsIn).filter isProposal)
  obtain ⟨found, hfound, hkey⟩ := List.mem_map.1 (hfirsts.complete obj hmem)
  obtain ⟨hfoundmem, hfoundkind⟩ := List.mem_filter.1 (hfirsts.sublist.subset hfound)
  obtain ⟨text', -, hfoundobj⟩ := List.mem_flatMap.1 hfoundmem
  refine ⟨found, by rw [findProposals_eq]; exact hfound, ?_⟩
  rw [isProposal, Bool.and_eq_true, Option.isSome_iff_exists] at hfoundkind
  obtain ⟨-, p, hp⟩ := hfoundkind
  have hget : found.get "proposal" = .dict p := by
    cases hv : found.get "proposal" <;> rw [hv] at hp <;> cases hp
    rfl
  -- Both come from JSON, where equal printed keys mean equal sorted values.
  have hpjson : (Value.dict p).isJson = true := by
    rw [← hget]
    exact Value.isJson_get (isJson_of_mem_jsonObjectsIn hfoundobj) "proposal"
  rw [proposalKey, proposalKey, hget, hproposal, Json.dumpsSorted_eq_iff hpjson hjson,
    Json.sortKeys_dict, Json.sortKeys_dict] at hkey
  rw [proposalOf, hget]
  exact Value.dict.inj hkey

theorem publishProposal_strings (value label : String) :
    ∀ kv ∈ publishProposal value label, ∃ s, kv.2 = .str s := by
  simp [publishProposal]

/-- The reply to a proposing call yields an entry that proposes just this publication. -/
theorem exists_found_publish [UnicodeData] {ctx : InvocationContext} {value label : String}
    (hturn : ctx.current.flatMap payloads = [proposalResult value label]) :
    ∃ body found, restateStructuredResults ctx = .ok (some body) ∧
      found ∈ findProposals (unpack (.dict [("result", .str body)])) ∧
      (proposalOf found).Perm (publishProposal value label) := by
  obtain ⟨body, hbody, hobjects⟩ := reply_of_single_result hturn
    (reportable_proposalResult value label) rfl (isAudited_proposalResult value label)
  have hnodup : (PyDict.keys (proposalResult value label)).Nodup :=
    ((Value.isJson_dict_iff _).1 (reportable_proposalResult value label).isJson).1
  -- what the reader finds is the result with its keys sorted
  have hstatus : (Json.sortedDict (proposalResult value label)).get "status" =
      .str approvalRequired := Json.get_sortedDict hnodup "status"
  have hproposal : (Json.sortedDict (proposalResult value label)).get "proposal" =
      .dict (Json.sortedDict (publishProposal value label)) := by
    rw [Json.get_sortedDict hnodup, ← Json.sortKeys_dict]
    rfl
  have hjson : (Value.dict (Json.sortedDict (publishProposal value label))).isJson = true := by
    rw [← Json.sortKeys_dict]
    exact Json.isJson_sortKeys rfl
  have hsorted := Json.perm_sortedDict_of_strings (publishProposal_strings value label)
  have hlast : Json.sortedDict (proposalResult value label) ∈ jsonObjectsIn body := by
    rw [hobjects]
    exact List.mem_append_right _ List.mem_cons_self
  obtain ⟨found, hfound, heq⟩ :=
    exists_found_of_mem (mem_unpack_wrapped body) hlast hstatus hproposal hjson
  refine ⟨body, found, hbody, hfound, ?_⟩
  apply (Json.perm_of_sortedDict_eq ?_ heq).trans hsorted
  intro kv hkv
  exact publishProposal_strings value label kv (hsorted.subset hkv)

/-! ## The way back -/

/-- The reply to an approved call confirms every case that proposes this publication. -/
theorem findExecution_of_published {ctx : InvocationContext} {record : Publication}
    {note : String} {proposal : Dict}
    (hturn : ctx.current.flatMap payloads = [publishedResult record note])
    (hproposal : proposal.Perm (publishProposal record.value record.label)) :
    ∃ body result, restateStructuredResults ctx = .ok (some body) ∧
      findExecution (unpack (.dict [("result", .str body)])) proposal = some result := by
  obtain ⟨body, hbody, hobjects⟩ := reply_of_single_result hturn
    (reportable_publishedResult record note) rfl (isAudited_publishedResult record note)
  have hconfirms : confirms proposal (Json.sortedDict (publishedResult record note)) = true := by
    rw [confirms_sortedDict (reportable_publishedResult record note).isJson, confirms_iff]
    refine ⟨rfl, ?_⟩
    intro kv hkv
    have hmem := hproposal.subset (mem_wanted.1 hkv).1
    simp only [publishProposal, List.mem_cons, List.not_mem_nil, or_false] at hmem
    -- the three fields of the proposal, each found in the published record
    rcases hmem with rfl | rfl | rfl
    · exact (Value.pyEq_str_iff _ _).2 rfl
    · exact (Value.pyEq_str_iff _ _).2 rfl
    · exact (Value.pyEq_str_iff _ _).2 rfl
  have hlast : Json.sortedDict (publishedResult record note) ∈ jsonObjectsIn body := by
    rw [hobjects]
    exact List.mem_append_right _ List.mem_cons_self
  obtain ⟨result, hresult⟩ := findExecution_isSome (mem_unpack_wrapped body) hlast hconfirms
  exact ⟨body, result, hbody, hresult⟩

/-! ## There and back -/

/-- A publication that is proposed in one turn and carried out in another is confirmed. The turns may
say anything; the values of the two calls need only have one canonical spelling. -/
theorem publication_confirmed [UnicodeData] {value value2 label approver note : String}
    (hvalue : canonicalValue value = canonicalValue value2) (happrover : isApprover approver = true)
    (publications publications2 : List Publication) {proposing executing : InvocationContext}
    (hproposing : proposing.current.flatMap payloads =
      [(publishResult publications value label "" "").1])
    (hexecuting : executing.current.flatMap payloads =
      [(publishResult publications2 value2 label approver note).1]) :
    ∃ body found, restateStructuredResults proposing = .ok (some body) ∧
      found ∈ findProposals (unpack (.dict [("result", .str body)])) ∧
      ∀ sessionId caseId agent newProposalId clock,
        let c := caseFromProposal found sessionId caseId agent newProposalId clock
        c.proposal.Perm (publishProposal (canonicalValue value) label) ∧
          ∃ body2 result, restateStructuredResults executing = .ok (some body2) ∧
            findExecution (unpack (.dict [("result", .str body2)])) c.proposal = some result := by
  rw [publishResult_of_not_isApprover (by decide)] at hproposing
  rw [publishResult_of_isApprover happrover, ← hvalue] at hexecuting
  obtain ⟨body, found, hbody, hfound, hperm⟩ := exists_found_publish hproposing
  refine ⟨body, found, hbody, hfound, ?_⟩
  intro sessionId caseId agent newProposalId clock
  exact ⟨hperm, findExecution_of_published hexecuting hperm⟩

/-- A turn of the math agent with one tool result and some words. -/
def mathTurn (result : Dict) (spoken : String) : InvocationContext where
  invocationId := "inv-1"
  agentName := "math"
  events :=
    [{ author := "math", invocationId := "inv-1"
       parts := [{ functionResponse := some ⟨publishAction, .dict result⟩ }] },
     { author := "math", invocationId := "inv-1", parts := [{ text := some spoken }] }]

theorem publication_confirmed_391 :
    ∃ body found, restateStructuredResults
        (mathTurn (@publishResult asciiData [] "391.0" "q3" "" "").1 "Nothing published yet.") =
          .ok (some body) ∧
      found ∈ findProposals (unpack (.dict [("result", .str body)])) := by
  obtain ⟨body, found, hbody, hfound, -⟩ := @publication_confirmed asciiData "391.0" "391" "q3"
    "compliance" "" (by decide +kernel) (by decide +kernel) [] []
    (mathTurn (@publishResult asciiData [] "391.0" "q3" "" "").1 "Nothing published yet.")
    (mathTurn (@publishResult asciiData [] "391" "q3" "compliance" "").1 "Done.") rfl rfl
  exact ⟨body, found, hbody, hfound⟩

end AgentCluster.Agents
