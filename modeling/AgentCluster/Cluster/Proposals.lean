import AgentCluster.Cluster.Wire

/-!
# Which proposals are found

The scanner sees the top-level objects of a text only, and `unpack` writes out every object of a tool
result as a text of its own. Together they find the objects at any depth, in the result itself and in
the strings in it, and nothing else (`mem_objectsIn_unpack`), so each proposal is found once
(`findProposals_unpack`).

Repeated proposals are dropped by their contents, but the action of a case may stand beside the
proposal. Two actions reported with one and the same proposal become one case
(`losesNoAction_iff`).
-/

set_option autoImplicit false

namespace AgentCluster.Cluster

open Python Library Agents

/-! ## Occurrences -/

/-- The value is in the other one, at any depth. -/
inductive Occurs (v : Value) : Value → Prop
  | here : Occurs v v
  | item {xs : List Value} {x : Value} (hx : x ∈ xs) (h : Occurs v x) : Occurs v (.list xs)
  | member {d : Dict} {kv : String × Value} (hkv : kv ∈ d) (h : Occurs v kv.2) : Occurs v (.dict d)

theorem occurs_list {v : Value} {xs : List Value} :
    Occurs v (.list xs) ↔ v = .list xs ∨ ∃ x ∈ xs, Occurs v x := by
  constructor
  · intro h
    cases h with
    | here => exact Or.inl rfl
    | item hx h => exact Or.inr ⟨_, hx, h⟩
  · rintro (rfl | ⟨x, hx, h⟩)
    · exact .here
    · exact .item hx h

theorem occurs_dict {v : Value} {d : Dict} :
    Occurs v (.dict d) ↔ v = .dict d ∨ ∃ kv ∈ d, Occurs v kv.2 := by
  constructor
  · intro h
    cases h with
    | here => exact Or.inl rfl
    | member hkv h => exact Or.inr ⟨_, hkv, h⟩
  · rintro (rfl | ⟨kv, hkv, h⟩)
    · exact .here
    · exact .member hkv h

/-- What occurs in a JSON value is one. -/
theorem Occurs.isJson {v w : Value} (h : Occurs v w) (hw : w.isJson = true) : v.isJson = true := by
  induction h with
  | here => exact hw
  | item hx _ ih => exact ih ((Value.isJson_list_iff _).1 hw _ hx)
  | member hkv _ ih => exact ih (((Value.isJson_dict_iff _).1 hw).2 _ hkv)

/-- The object is part of the value, or written out in a string of it. -/
def Holds (payload : Value) (obj : Dict) : Prop :=
  Occurs (.dict obj) payload ∨ ∃ s, Occurs (.str s) payload ∧ obj ∈ jsonObjectsIn s

theorem holds_list {xs : List Value} {obj : Dict} :
    Holds (.list xs) obj ↔ ∃ x ∈ xs, Holds x obj := by
  constructor
  · rintro (h | ⟨s, h, hobj⟩)
    · rcases occurs_list.1 h with heq | ⟨x, hx, h⟩
      · cases heq
      · exact ⟨x, hx, Or.inl h⟩
    · rcases occurs_list.1 h with heq | ⟨x, hx, h⟩
      · cases heq
      · exact ⟨x, hx, Or.inr ⟨s, h, hobj⟩⟩
  · rintro ⟨x, hx, h | ⟨s, h, hobj⟩⟩
    · exact Or.inl (.item hx h)
    · exact Or.inr ⟨s, .item hx h, hobj⟩

theorem holds_dict {d obj : Dict} :
    Holds (.dict d) obj ↔ obj = d ∨ ∃ kv ∈ d, Holds kv.2 obj := by
  constructor
  · rintro (h | ⟨s, h, hobj⟩)
    · rcases occurs_dict.1 h with heq | ⟨kv, hkv, h⟩
      · exact Or.inl (Value.dict.inj heq)
      · exact Or.inr ⟨kv, hkv, Or.inl h⟩
    · rcases occurs_dict.1 h with heq | ⟨kv, hkv, h⟩
      · cases heq
      · exact Or.inr ⟨kv, hkv, Or.inr ⟨s, h, hobj⟩⟩
  · rintro (rfl | ⟨kv, hkv, h | ⟨s, h, hobj⟩⟩)
    · exact Or.inl .here
    · exact Or.inl (.member hkv h)
    · exact Or.inr ⟨s, .member hkv h, hobj⟩

/-- A value that is neither a container nor a string holds no object. -/
theorem not_holds_atom {payload : Value} (hlist : ∀ xs, payload ≠ .list xs)
    (hdict : ∀ d, payload ≠ .dict d) (hstr : ∀ s, payload ≠ .str s) (obj : Dict) :
    ¬Holds payload obj := by
  have hself : ∀ v, Occurs v payload → v = payload := by
    intro v h
    cases h with
    | here => rfl
    | item => exact absurd rfl (hlist _)
    | member => exact absurd rfl (hdict _)
  rintro (h | ⟨s, h, -⟩)
  · exact hdict obj (hself _ h).symm
  · exact hstr s (hself _ h).symm

/-! ## The scanned texts -/

/-- The objects a scan of all the texts finds. -/
def objectsIn (texts : List String) : List Dict := texts.flatMap jsonObjectsIn

theorem objectsIn_append (texts texts' : List String) :
    objectsIn (texts ++ texts') = objectsIn texts ++ objectsIn texts' := List.flatMap_append

theorem mem_objectsIn_unpackList {xs : List Value} {obj : Dict}
    (h : ∀ x ∈ xs, obj ∈ objectsIn (unpack x) ↔ Holds x obj) :
    obj ∈ objectsIn (unpackList xs) ↔ ∃ x ∈ xs, Holds x obj := by
  induction xs with
  | nil => simp [unpackList, objectsIn]
  | cons x xs ih =>
    have hrest := ih fun y hy => h y (List.mem_cons_of_mem x hy)
    rw [unpackList, objectsIn_append, List.mem_append, h x List.mem_cons_self, hrest,
      List.exists_mem_cons_iff]

theorem mem_objectsIn_unpackDict {d : Dict} {obj : Dict}
    (h : ∀ kv ∈ d, obj ∈ objectsIn (unpack kv.2) ↔ Holds kv.2 obj) :
    obj ∈ objectsIn (unpackDict d) ↔ ∃ kv ∈ d, Holds kv.2 obj := by
  induction d with
  | nil => simp [unpackDict, objectsIn]
  | cons kv d ih =>
    obtain ⟨k, v⟩ := kv
    have hrest := ih fun kv hkv => h kv (List.mem_cons_of_mem _ hkv)
    rw [unpackDict, objectsIn_append, List.mem_append, h (k, v) List.mem_cons_self, hrest,
      List.exists_mem_cons_iff]

/-- The texts of a tool result hold the objects of the result, and no others. -/
theorem mem_objectsIn_unpack {payload : Value} (h : payload.isJson = true) (obj : Dict) :
    obj ∈ objectsIn (unpack payload) ↔ Holds payload obj := by
  -- on the payload; a nested object is found in the text that `unpack` makes of it alone
  induction payload using Value.induct with
  | none => exact iff_of_false List.not_mem_nil (not_holds_atom (by simp) (by simp) (by simp) obj)
  | bool b => exact iff_of_false List.not_mem_nil (not_holds_atom (by simp) (by simp) (by simp) obj)
  | int n => exact iff_of_false List.not_mem_nil (not_holds_atom (by simp) (by simp) (by simp) obj)
  | float x => exact iff_of_false List.not_mem_nil (not_holds_atom (by simp) (by simp) (by simp) obj)
  | object s r hash => cases h
  | tuple xs => cases h
  | str s =>
    rw [unpack, objectsIn, List.flatMap_singleton]
    constructor
    · exact fun hobj => Or.inr ⟨s, .here, hobj⟩
    · rintro (hocc | ⟨t, hocc, hobj⟩)
      · cases hocc
      · cases hocc
        exact hobj
  | list xs ih =>
    have hxs := (Value.isJson_list_iff xs).1 h
    rw [unpack, holds_list]
    exact mem_objectsIn_unpackList fun x hx => ih x hx (hxs x hx)
  | dict d ih =>
    have hd := ((Value.isJson_dict_iff d).1 h).2
    rw [unpack, objectsIn, List.flatMap_cons, jsonObjectsIn_dumps h, List.mem_append,
      List.mem_singleton, holds_dict]
    exact or_congr_right (mem_objectsIn_unpackDict fun kv hkv => ih kv hkv (hd kv hkv))

/-! ## Proposals -/

/-- The objects propose the same, up to the order of keys. -/
def SameProposal (a b : Dict) : Prop :=
  Json.sortKeys (a.get "proposal") = Json.sortKeys (b.get "proposal")

theorem proposalKey_eq_iff {a b : Dict} (ha : (Value.dict a).isJson = true)
    (hb : (Value.dict b).isJson = true) : proposalKey a = proposalKey b ↔ SameProposal a b :=
  Json.dumpsSorted_eq_iff (Value.isJson_get ha "proposal") (Value.isJson_get hb "proposal")

theorem isJson_of_mem_objectsIn {texts : List String} {obj : Dict} (h : obj ∈ objectsIn texts) :
    (Value.dict obj).isJson = true := by
  obtain ⟨text, -, hobj⟩ := List.mem_flatMap.1 h
  exact isJson_of_mem_jsonObjectsIn hobj

/-- The objects found are the first ones with their proposals. -/
theorem isFirsts_findProposals (texts : List String) :
    IsFirsts (fun obj => Json.sortKeys (Dict.get obj "proposal"))
      ((objectsIn texts).filter isProposal) (findProposals texts) := by
  rw [findProposals_eq]
  refine (isFirsts_keepFirst proposalKey _).of_key_iff ?_
  intro a ha b hb
  exact proposalKey_eq_iff (isJson_of_mem_objectsIn (List.mem_filter.1 ha).1)
    (isJson_of_mem_objectsIn (List.mem_filter.1 hb).1)

/-- Every proposal in a tool result is found, once, and nothing else is. -/
theorem findProposals_unpack {payload : Value} (h : payload.isJson = true) :
    (∀ obj ∈ findProposals (unpack payload), isProposal obj = true ∧ Holds payload obj) ∧
      (∀ obj, isProposal obj = true → Holds payload obj →
        ∃ found ∈ findProposals (unpack payload), SameProposal found obj) ∧
      (findProposals (unpack payload)).Pairwise fun a b => ¬SameProposal a b := by
  have hfirsts := isFirsts_findProposals (unpack payload)
  refine ⟨?_, ?_, List.pairwise_map.1 hfirsts.nodup⟩
  · intro obj hobj
    obtain ⟨hmem, hproposal⟩ := List.mem_filter.1 (hfirsts.sublist.subset hobj)
    exact ⟨hproposal, (mem_objectsIn_unpack h obj).1 hmem⟩
  · intro obj hproposal hholds
    have hmem := (mem_objectsIn_unpack h obj).2 hholds
    exact List.mem_map.1 (hfirsts.complete obj (List.mem_filter.2 ⟨hmem, hproposal⟩))

/-- A tool result with a proposal two levels down. -/
def nestedPayload : Value :=
  .dict [("result", .list [.dict
    [("status", .str approvalRequired), ("proposal", .dict [("value", .str "391")])]])]

/-- It is found. -/
theorem findProposals_nestedPayload :
    ∃ found ∈ findProposals (unpack nestedPayload),
      SameProposal found [("proposal", .dict [("value", .str "391")])] := by
  refine (findProposals_unpack rfl).2.1
    [("status", .str approvalRequired), ("proposal", .dict [("value", .str "391")])] rfl ?_
  exact Or.inl (.member List.mem_cons_self (.item List.mem_cons_self .here))

/-! ## Actions -/

/-- Every object in the texts that reports a proposal, repetitions included. -/
def reported (texts : List String) : List Dict := (objectsIn texts).filter isProposal

section Actions

variable [UnicodeData]

/-- The action an object names: its own, or else the one in its proposal. -/
def namedAction (obj : Dict) : String :=
  if (obj.get "action").truthy then (obj.get "action").toStr
  else ((proposalOf obj).getD "action" (.str "")).toStr

/-- What a case is about: its action, and its proposal up to the order of keys. -/
def gatedAction (c : ApprovalCase) : String × Value := (c.action, Json.sortKeys (.dict c.proposal))

/-- What the cases recorded for these objects are about. -/
def gatedActions (objs : List Dict) (sessionId caseId agent newProposalId : String) (clock : Nat) :
    List (String × Value) :=
  objs.map fun obj =>
    gatedAction (caseFromProposal obj sessionId caseId agent newProposalId clock)

/-- The cases for the proposals found are about all the actions reported. -/
def LosesNoAction (texts : List String) : Prop :=
  ∀ sessionId caseId agent newProposalId clock p,
    p ∈ gatedActions (findProposals texts) sessionId caseId agent newProposalId clock ↔
      p ∈ gatedActions (reported texts) sessionId caseId agent newProposalId clock

theorem gatedAction_caseFromProposal {obj : Dict} (h : isProposal obj = true)
    (sessionId caseId agent newProposalId : String) (clock : Nat) :
    gatedAction (caseFromProposal obj sessionId caseId agent newProposalId clock) =
      (namedAction obj, Json.sortKeys (obj.get "proposal")) := by
  obtain ⟨-, hdict⟩ := Bool.and_eq_true_iff.1 h
  cases hproposal : obj.get "proposal" with
  | dict proposal =>
    have hof : proposalOf obj = proposal := by
      rw [proposalOf, hproposal]
      rfl
    show (namedAction obj, Json.sortKeys (.dict (proposalOf obj))) = _
    rw [hof]
  | _ =>
    rw [hproposal] at hdict
    cases hdict

theorem mem_gatedActions {objs : List Dict} (h : ∀ obj ∈ objs, isProposal obj = true)
    (sessionId caseId agent newProposalId : String) (clock : Nat) (p : String × Value) :
    p ∈ gatedActions objs sessionId caseId agent newProposalId clock ↔
      ∃ obj ∈ objs, (namedAction obj, Json.sortKeys (obj.get "proposal")) = p := by
  rw [gatedActions, List.mem_map]
  constructor
  · rintro ⟨obj, hobj, rfl⟩
    exact ⟨obj, hobj, (gatedAction_caseFromProposal (h obj hobj) _ _ _ _ _).symm⟩
  · rintro ⟨obj, hobj, rfl⟩
    exact ⟨obj, hobj, gatedAction_caseFromProposal (h obj hobj) _ _ _ _ _⟩

/-- No action is lost exactly when objects that report the same proposal name the same action. -/
theorem losesNoAction_iff (texts : List String) :
    LosesNoAction texts ↔ ∀ a ∈ reported texts, ∀ b ∈ reported texts, SameProposal a b →
      namedAction a = namedAction b := by
  have hfirsts := isFirsts_findProposals texts
  have hall : ∀ obj ∈ reported texts, isProposal obj = true := fun obj hobj =>
    (List.mem_filter.1 hobj).2
  have hfound : ∀ obj ∈ findProposals texts, isProposal obj = true := fun obj hobj =>
    hall obj (hfirsts.sublist.subset hobj)
  constructor
  · intro hkeeps a ha b hb hsame
    -- both actions survive in an object found, and there is one object found for the proposal
    have hsurvives : ∀ obj ∈ reported texts, ∃ found ∈ findProposals texts,
        namedAction found = namedAction obj ∧ SameProposal found obj := by
      intro obj hobj
      have hmem := (mem_gatedActions hall "" "" "" "" 0 _).2 ⟨obj, hobj, rfl⟩
      obtain ⟨found, hmem, heq⟩ :=
        (mem_gatedActions hfound "" "" "" "" 0 _).1 ((hkeeps "" "" "" "" 0 _).2 hmem)
      exact ⟨found, hmem, (Prod.mk.inj heq).1, (Prod.mk.inj heq).2⟩
    obtain ⟨a', ha', hactiona, hsamea⟩ := hsurvives a ha
    obtain ⟨b', hb', hactionb, hsameb⟩ := hsurvives b hb
    have hone : a' = b' := by
      apply List.inj_on_of_nodup_map hfirsts.nodup ha' hb'
      exact hsamea.trans (hsame.trans hsameb.symm)
    rw [← hactiona, hone, hactionb]
  · intro hsame sessionId caseId agent newProposalId clock p
    rw [mem_gatedActions hfound, mem_gatedActions hall]
    constructor
    · rintro ⟨obj, hobj, heq⟩
      exact ⟨obj, hfirsts.sublist.subset hobj, heq⟩
    · rintro ⟨obj, hobj, rfl⟩
      obtain ⟨found, hmem, hkey⟩ := List.mem_map.1 (hfirsts.complete obj hobj)
      have haction := hsame found (hfirsts.sublist.subset hmem) obj hobj hkey
      exact ⟨found, hmem, Prod.ext haction hkey⟩

end Actions

/-- A reply that asks for an action on a record. -/
def asksFor (action : String) : Dict :=
  [("status", .str approvalRequired), ("action", .str action),
   ("proposal", .dict [("record", .str "q3")])]

attribute [local instance] asciiData

/-- Of two actions on the same record only the first is found. -/
theorem secondAction_lost :
    ¬LosesNoAction
      [Json.dumps (.dict (asksFor "publish")), Json.dumps (.dict (asksFor "delete"))] := by
  intro hkeeps
  have hobjects : reported
      [Json.dumps (.dict (asksFor "publish")), Json.dumps (.dict (asksFor "delete"))] =
        [asksFor "publish", asksFor "delete"] := by
    rw [reported, objectsIn, List.flatMap_cons, List.flatMap_singleton, jsonObjectsIn_dumps rfl,
      jsonObjectsIn_dumps rfl]
    rfl
  have hfound : findProposals
      [Json.dumps (.dict (asksFor "publish")), Json.dumps (.dict (asksFor "delete"))] =
        [asksFor "publish"] := by
    have hkey : proposalKey (asksFor "delete") ∈ [proposalKey (asksFor "publish")] :=
      List.mem_singleton.2 rfl
    rw [findProposals_eq]
    change keepFirst proposalKey [] (reported _) = _
    rw [hobjects, keepFirst_cons, if_neg List.not_mem_nil, keepFirst_cons, if_pos hkey, keepFirst_nil]
  have hlost := hkeeps "s" "c" "" "p" 0 ("delete", .dict [("record", .str "q3")])
  rw [hobjects, hfound] at hlost
  have hmem := hlost.2 (List.mem_cons_of_mem _ List.mem_cons_self)
  have hactions := congrArg Prod.fst (List.mem_singleton.1 hmem)
  exact absurd hactions (by decide)

end AgentCluster.Cluster
