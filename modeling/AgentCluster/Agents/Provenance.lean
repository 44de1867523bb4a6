import AgentCluster.Agents.MathTools
import AgentCluster.Agents.Reporting

/-!
# Which texts vouch for an effect

A confirmation is looked for in every text of a turn, whoever wrote it. Here the texts of a tool result
are told apart: the JSON of what a gated action returned, and everything else. An object that confirms
a proposal and is not in the latter is, up to the order of its members, a result of the action
(`confirmed_of_mem_replyTexts`).
-/

set_option autoImplicit false

namespace AgentCluster.Agents

open Python Library Adk Cluster

/-- `words` are the texts of a tool result that are not the JSON of a result in `returned`: the
strings inside such a result, what a peer said beside the results it restates, and all there is in a
result of another kind. -/
inductive Unvouched (returned : List Dict) : Value → List String → Prop
  | result {d : Dict} (hd : d ∈ returned) : Unvouched returned (.dict d) (unpackDict d)
  | wrapped {d : Dict} (hd : d ∈ returned) :
      Unvouched returned (.dict [("result", .dict d)]) (unpackDict d)
  | relayed {ctx : InvocationContext} {body : String} (hreports : ctx.Reports)
      (haudited : ∀ payload ∈ ctx.audited, payload ∈ returned)
      (hbody : restateStructuredResults ctx = .ok (some body)) :
      Unvouched returned (.dict [("result", .str body)]) [ctx.spoken]
  | other (v : Value) : Unvouched returned v (unpack v)

/-- `words` holds the agent's own text and the unvouched texts of the tool results. -/
def EventUnvouched (returned : List Dict) (event : Event) (words : List String) : Prop :=
  event.text ∈ words ∧ ∀ response ∈ event.getFunctionResponses,
    ∃ ws, Unvouched returned response.response ws ∧ ws ⊆ words

/-- The framework's wrapper confirms nothing. -/
theorem confirms_wrapper (proposal : Dict) (v : Value) : confirms proposal [("result", v)] = false :=
  rfl

section Confirmed

variable {returned : List Dict} (hreturned : ∀ d ∈ returned, Reportable d) {proposal obj : Dict}
  (hconfirms : confirms proposal obj = true)

include hreturned hconfirms

theorem Unvouched.confirmed {v : Value} {words : List String} (h : Unvouched returned v words)
    {text : String} (htext : text ∈ unpack v) (hobj : obj ∈ jsonObjectsIn text) :
    (∃ d ∈ returned, confirms proposal d = true) ∨ ∃ word ∈ words, obj ∈ jsonObjectsIn word := by
  -- A returned dict is unpacked into its own text and those inside it.
  have hresult {d : Dict} (hd : d ∈ returned) (htext : text ∈ unpack (.dict d)) :
      (∃ d ∈ returned, confirms proposal d = true) ∨
        ∃ word ∈ unpackDict d, obj ∈ jsonObjectsIn word := by
    rw [unpack] at htext
    -- The whole dict printed: the object read back is the returned one itself.
    rcases List.mem_cons.1 htext with rfl | htext
    · rw [jsonObjectsIn_dumps (hreturned d hd).isJson, List.mem_singleton] at hobj
      rw [hobj] at hconfirms
      exact Or.inl ⟨d, hd, hconfirms⟩
    · exact Or.inr ⟨text, htext, hobj⟩
  cases h with
  | result hd => exact hresult hd htext
  | @wrapped d hd =>
    have hjson : (Value.dict [("result", .dict d)]).isJson = true := by
      rw [Value.isJson_dict_iff]
      exact ⟨List.nodup_singleton "result", by simpa using (hreturned d hd).isJson⟩
    rw [unpack] at htext
    rcases List.mem_cons.1 htext with rfl | htext
    -- The wrapper has no `status` of its own, so it confirms nothing.
    · rw [jsonObjectsIn_dumps hjson, List.mem_singleton] at hobj
      rw [hobj, confirms_wrapper] at hconfirms
      cases hconfirms
    · apply hresult hd
      simpa [unpackDict] using htext
  | @relayed ctx body hreports haudited hbody =>
    rw [unpack_wrapped] at htext
    rcases List.mem_cons.1 htext with rfl | htext
    · have hjson : (Value.dict [("result", .str body)]).isJson = true := rfl
      rw [jsonObjectsIn_dumps hjson, List.mem_singleton] at hobj
      rw [hobj, confirms_wrapper] at hconfirms
      cases hconfirms
    · obtain rfl := List.mem_singleton.1 htext
      have htext := (restateWithin_iff.1 hbody).2
      split at htext
      · cases htext
      · cases htext
        have hresults : ∀ r ∈ ctx.results, Reportable r := fun r hr => hreports.of_mem_results hr
        -- A relayed report reads as what was spoken followed by the restated results.
        rw [jsonObjectsIn_bodyText _ hresults] at hobj
        rcases List.mem_append.1 hobj with hobj | hobj
        · exact Or.inr ⟨ctx.spoken, List.mem_singleton.2 rfl, hobj⟩
        · obtain ⟨r, hr, rfl⟩ := List.mem_map.1 hobj
          have haudit := (keepFirst_sublist payloadKey [] ctx.audited).subset hr
          rw [confirms_sortedDict (hresults r hr).isJson] at hconfirms
          exact Or.inl ⟨r, haudited r haudit, hconfirms⟩
  | other => exact Or.inr ⟨text, htext, hobj⟩

/-- An object in the texts of an event that confirms a proposal is in an unvouched text, or some
result of the action confirms the proposal. -/
theorem confirmed_of_mem_replyTexts {event : Event} {words : List String}
    (h : EventUnvouched returned event words) {text : String} (htext : text ∈ replyTexts event)
    (hobj : obj ∈ jsonObjectsIn text) :
    (∃ d ∈ returned, confirms proposal d = true) ∨ ∃ word ∈ words, obj ∈ jsonObjectsIn word := by
  obtain ⟨hown, htools⟩ := h
  rw [replyTexts] at htext
  rcases List.mem_append.1 htext with htext | htext
  · obtain ⟨response, hresponse, htext⟩ := List.mem_flatMap.1 htext
    obtain ⟨ws, hws, hsub⟩ := htools response hresponse
    rcases hws.confirmed hreturned hconfirms htext hobj with hresult | ⟨word, hword, hobj⟩
    · exact Or.inl hresult
    · exact Or.inr ⟨word, hsub hword, hobj⟩
  · split at htext
    · obtain rfl := List.mem_singleton.1 htext
      exact Or.inr ⟨event.text, hown, hobj⟩
    · cases htext

end Confirmed

end AgentCluster.Agents
