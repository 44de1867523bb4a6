import AgentCluster.Cluster.Wire

/-!
# What a confirmation says about the proposal

`findExecution` compares the scalar fields of a proposal with Python's `==`. This module determines
for which proposals that is agreement on every field: `findExecution_reportsContent_iff`. Fields
that hold `null`, an array or an object are not compared, and `true` confirms `1`; `nearMiss` builds
the object that exploits either.
-/

set_option autoImplicit false

namespace AgentCluster.Cluster

open Python

/-! ## Fields that are compared exactly -/

/-- The result says `published` and has every field of the proposal, with an equal JSON value. -/
def ReportsContent (proposal result : Dict) : Prop :=
  result.get "status" = .str "published" ∧
    ∀ kv ∈ proposal, ∃ w, result.lookup kv.1 = some w ∧ w.jsonEq kv.2 = true

/-- A string, or a number other than 0 and 1: what is compared, and equals no boolean. -/
def isExact : Value → Bool
  | .str _ => true
  | .bool _ => false
  | v =>
      match v.magnitude? with
      | some m => !m.eq (.ofInt 0) && !m.eq (.ofInt 1)
      | none => false

/-- Some compared field equals no value, or is a `status` other than `published`. -/
def Unconfirmable (proposal : Dict) : Prop :=
  ∃ kv ∈ wanted proposal,
    kv.2.pyEq kv.2 = false ∨ kv.1 = "status" ∧ (Value.str "published").pyEq kv.2 = false

theorem pyEq_self_of_pyEq {v w : Value} (hv : v.isScalar = true) (h : w.pyEq v = true) :
    v.pyEq v = true := by
  rcases Value.isScalar_cases hv with ⟨s, rfl⟩ | ⟨n, hn⟩
  · exact (Value.pyEq_str_iff _ s).2 rfl
  · obtain ⟨m, -, hmn⟩ := Value.magnitude_of_pyEq hn h
    rw [Value.pyEq_of_magnitude hn hn]
    obtain ⟨rfl, -⟩ := (Magnitude.eq_iff m n).1 hmn
    exact hmn

theorem isScalar_of_isExact {v : Value} (h : isExact v = true) : v.isScalar = true := by
  cases v <;> first | rfl | cases h

theorem ne_bool_of_isExact {v : Value} {n : Magnitude} (hv : isExact v = true)
    (hn : v.magnitude? = some n) (b : Bool) : n.eq (.ofInt (if b then 1 else 0)) = false := by
  have hnum : (!n.eq (.ofInt 0) && !n.eq (.ofInt 1)) = true := by
    cases v with
    | bool c => cases hv
    | int i => cases hn; exact hv
    | float x => cases hn; exact hv
    | _ => cases hn
  rw [Bool.and_eq_true, Bool.not_eq_true', Bool.not_eq_true'] at hnum
  cases b with
  | false => exact hnum.1
  | true => exact hnum.2

/-- Equality with an exact value is equality as JSON values. -/
theorem jsonEq_of_isExact {v w : Value} (hv : isExact v = true) (h : w.pyEq v = true) :
    w.jsonEq v = true := by
  rcases Value.isScalar_cases (isScalar_of_isExact hv) with ⟨s, rfl⟩ | ⟨n, hn⟩
  · obtain rfl := (Value.pyEq_str_iff w s).1 h
    simp [Value.jsonEq, Value.eqWith, Value.jsonEqAtom, Value.pyEqAtom, Value.magnitude?]
  · obtain ⟨m, hm, hmn⟩ := Value.magnitude_of_pyEq hn h
    have hw : ∀ b : Bool, w ≠ .bool b := by
      rintro b rfl
      cases hm
      rw [Magnitude.eq_comm, ne_bool_of_isExact hv hn b] at hmn
      cases hmn
    have hv' : ∀ b : Bool, v ≠ .bool b := by
      rintro b rfl
      cases hv
    cases v with
    | bool b => exact absurd rfl (hv' b)
    | int i => cases w <;> first | exact absurd rfl (hw _) | exact h
    | float x => cases w <;> first | exact absurd rfl (hw _) | exact h
    | _ => cases hn

/-! ## The near miss -/

/-- The value Python takes for equal although JSON does not: `1` for `true`, `true` for `1`. -/
def twin : Value → Value
  | .bool b => .int (if b then 1 else 0)
  | .int n => .bool (n == 1)
  | .float x => .bool (x.magnitude.eq (.ofInt 1))
  | v => v

/-- A published object with the compared fields of a proposal, the one under `key` replaced by its
twin. -/
def nearMiss (proposal : Dict) (key : String) : Dict :=
  ("status", .str "published") ::
    ((wanted proposal).filter fun kv => kv.1 != "status").map fun kv =>
      (kv.1, if kv.1 = key then twin kv.2 else kv.2)

section NearMiss

variable {proposal : Dict} (hnodup : (PyDict.keys proposal).Nodup)

theorem nearMiss_lookup_status (proposal : Dict) (key : String) :
    (nearMiss proposal key).lookup "status" = some (.str "published") := by
  simp [nearMiss]

theorem keys_nearMiss (proposal : Dict) (key : String) :
    (nearMiss proposal key).keys =
      "status" :: (PyDict.keys (wanted proposal)).filter (· != "status") := by
  simp only [nearMiss, PyDict.keys, List.map_cons, List.map_map, List.filter_map]
  rfl

include hnodup in
theorem nodup_nearMiss (key : String) : (nearMiss proposal key).keys.Nodup := by
  have hwanted : (PyDict.keys (wanted proposal)).Nodup :=
    (List.filter_sublist.map Prod.fst).nodup hnodup
  rw [keys_nearMiss, List.nodup_cons]
  refine ⟨?_, hwanted.filter _⟩
  simp

include hnodup in
theorem nearMiss_lookup (key : String) {kv : String × Value} (hkv : kv ∈ wanted proposal)
    (hstatus : kv.1 ≠ "status") :
    (nearMiss proposal key).lookup kv.1 = some (if kv.1 = key then twin kv.2 else kv.2) := by
  have hmem : (kv.1, if kv.1 = key then twin kv.2 else kv.2) ∈ nearMiss proposal key := by
    refine List.mem_cons_of_mem _ (List.mem_map.2 ⟨kv, List.mem_filter.2 ⟨hkv, ?_⟩, rfl⟩)
    simpa using hstatus
  exact PyDict.lookup_of_mem (nodup_nearMiss hnodup key) hmem

include hnodup in
theorem isJson_nearMiss (key : String) : (Value.dict (nearMiss proposal key)).isJson = true := by
  rw [Value.isJson_dict_iff]
  refine ⟨nodup_nearMiss hnodup key, ?_⟩
  have hscalar : ∀ v : Value, v.isScalar = true → v.isJson = true ∧ (twin v).isJson = true := by
    intro v hv
    cases v <;> first | exact ⟨rfl, rfl⟩ | cases hv
  intro kv hkv
  rcases List.mem_cons.1 hkv with rfl | hkv
  · rfl
  · obtain ⟨kv', hkv', rfl⟩ := List.mem_map.1 hkv
    have hv := hscalar kv'.2 (mem_wanted.1 (List.mem_filter.1 hkv').1).2
    show Value.isJson (if kv'.1 = key then twin kv'.2 else kv'.2) = true
    split
    · exact hv.2
    · exact hv.1

end NearMiss

/-- A number that counts as 0 or 1 is the boolean that says which. -/
theorem eq_ofInt_decide {n : Magnitude} (h : (!n.eq (.ofInt 0) && !n.eq (.ofInt 1)) = false) :
    (Magnitude.ofInt (if n.eq (.ofInt 1) then 1 else 0)).eq n = true := by
  rw [Magnitude.eq_comm]
  cases h1 : n.eq (.ofInt 1) with
  | true => exact h1
  | false => simpa [h1] using h

/-- The twin of a compared value that is not exact passes for it and differs from it. -/
theorem twin_spec {v : Value} (hv : v.isScalar = true) (h : isExact v = false) :
    (twin v).pyEq v = true ∧ (twin v).jsonEq v = false := by
  cases v with
  | bool b => exact ⟨by rw [Value.pyEq_of_magnitude rfl rfl, Magnitude.ofInt_eq_ofInt]; simp, rfl⟩
  | int n =>
    refine ⟨?_, rfl⟩
    have hn := eq_ofInt_decide (n := .ofInt n) h
    rw [Magnitude.ofInt_eq_ofInt n 1] at hn
    exact (Value.pyEq_of_magnitude rfl rfl).trans hn
  | float x =>
    refine ⟨?_, rfl⟩
    exact (Value.pyEq_of_magnitude rfl rfl).trans (eq_ofInt_decide (n := x.magnitude) h)
  | str s => cases h
  | _ => cases hv

/-- A value under the key of a compared field is one that confirms it. -/
theorem confirms_nearMiss {proposal : Dict} (hnodup : (PyDict.keys proposal).Nodup)
    (hconf : ¬ Unconfirmable proposal) {key : String}
    (hkey : ∀ kv ∈ wanted proposal, kv.1 = key → isExact kv.2 = false) :
    confirms proposal (nearMiss proposal key) = true := by
  have hself : ∀ kv ∈ wanted proposal, kv.2.pyEq kv.2 = true := by
    intro kv hkv
    by_contra hne
    exact hconf ⟨kv, hkv, Or.inl (Bool.not_eq_true _ ▸ hne)⟩
  have hstatus : ∀ kv ∈ wanted proposal, kv.1 = "status" →
      (Value.str "published").pyEq kv.2 = true := by
    intro kv hkv hk
    by_contra hne
    exact hconf ⟨kv, hkv, Or.inr ⟨hk, Bool.not_eq_true _ ▸ hne⟩⟩
  rw [confirms_iff, Dict.get, Dict.getD, nearMiss_lookup_status]
  refine ⟨rfl, ?_⟩
  intro kv hkv
  by_cases hk : kv.1 = "status"
  · rw [Dict.get, Dict.getD, hk, nearMiss_lookup_status]
    exact hstatus kv hkv hk
  · rw [Dict.get, Dict.getD, nearMiss_lookup hnodup key hkv hk]
    show Value.pyEq (if kv.1 = key then twin kv.2 else kv.2) kv.2 = true
    split
    · rename_i heq
      exact (twin_spec (mem_wanted.1 hkv).2 (hkey kv hkv heq)).1
    · exact hself kv hkv

/-- The near miss on a field that is not exact differs from the proposal there. -/
theorem not_reportsContent_nearMiss {proposal : Dict} (hnodup : (PyDict.keys proposal).Nodup)
    (hconf : ¬ Unconfirmable proposal) {kv : String × Value} (hkv : kv ∈ proposal)
    (hexact : isExact kv.2 = false) : ¬ ReportsContent proposal (nearMiss proposal kv.1) := by
  rintro ⟨-, hall⟩
  obtain ⟨w, hw, heq⟩ := hall kv hkv
  cases hscalar : kv.2.isScalar with
  | true =>
    have hwanted : kv ∈ wanted proposal := mem_wanted.2 ⟨hkv, hscalar⟩
    have hk : kv.1 ≠ "status" := by
      intro hk
      refine hconf ⟨kv, hwanted, Or.inr ⟨hk, ?_⟩⟩
      cases hv : kv.2 <;> rw [hv] at hexact <;> first | rfl | cases hexact
    rw [nearMiss_lookup hnodup kv.1 hwanted hk, if_pos rfl] at hw
    cases hw
    rw [(twin_spec hscalar hexact).2] at heq
    cases heq
  | false =>
    -- A field that is not compared is missing from the near miss, or it is its `status`.
    by_cases hk : kv.1 = "status"
    · rw [hk, nearMiss_lookup_status] at hw
      cases hw
      cases hv : kv.2 <;> rw [hv] at heq hscalar <;> first | cases heq | cases hscalar
    · have hnot : kv.1 ∉ (nearMiss proposal kv.1).keys := by
        rw [keys_nearMiss, List.mem_cons, List.mem_filter]
        rintro (h | ⟨h, -⟩)
        · exact hk h
        · obtain ⟨kv', hkv', hfst⟩ := List.mem_map.1 h
          obtain ⟨hmem, hs⟩ := mem_wanted.1 hkv'
          have hsame : kv'.2 = kv.2 := by
            have h1 := PyDict.lookup_of_mem hnodup hmem
            rw [hfst, PyDict.lookup_of_mem hnodup hkv] at h1
            exact (Option.some.inj h1).symm
          rw [hsame, hscalar] at hs
          cases hs
      rw [PyDict.lookup_eq_none hnot] at hw
      cases hw

/-! ## The characterisation -/

/-- Nothing confirms an unconfirmable proposal. -/
theorem not_confirms_of_unconfirmable {proposal obj : Dict} (h : Unconfirmable proposal) :
    confirms proposal obj = false := by
  rw [← Bool.not_eq_true]
  intro hconf
  obtain ⟨kv, hkv, hbad⟩ := h
  have heq := (confirms_iff.1 hconf).2 kv hkv
  rcases hbad with hself | ⟨hk, hne⟩
  · rw [pyEq_self_of_pyEq (mem_wanted.1 hkv).2 heq] at hself
    cases hself
  · rw [hk, (confirms_iff.1 hconf).1, hne] at heq
    cases heq

/-- What equals a scalar is there, for a missing key reads as `None`. -/
theorem exists_lookup_of_pyEq_get {d : Dict} {key : String} {v : Value}
    (hv : v.isScalar = true) (h : (d.get key).pyEq v = true) :
    ∃ w, d.lookup key = some w ∧ w.pyEq v = true := by
  rw [Dict.get, Dict.getD] at h
  cases hl : d.lookup key with
  | some w =>
    rw [hl] at h
    exact ⟨w, rfl, h⟩
  | none =>
    rw [hl] at h
    rcases Value.isScalar_cases hv with ⟨s, rfl⟩ | ⟨n, hn⟩
    · cases (Value.pyEq_str_iff _ s).1 h
    · obtain ⟨m, hm, -⟩ := Value.magnitude_of_pyEq hn h
      cases hm

theorem reportsContent_of_confirms {proposal obj : Dict}
    (hexact : ∀ kv ∈ proposal, isExact kv.2 = true) (h : confirms proposal obj = true) :
    ReportsContent proposal obj := by
  obtain ⟨hstatus, hall⟩ := confirms_iff.1 h
  refine ⟨hstatus, ?_⟩
  intro kv hkv
  have hscalar := isScalar_of_isExact (hexact kv hkv)
  have heq := hall kv (mem_wanted.2 ⟨hkv, hscalar⟩)
  obtain ⟨w, hw, hpy⟩ := exists_lookup_of_pyEq_get hscalar heq
  exact ⟨w, hw, jsonEq_of_isExact (hexact kv hkv) hpy⟩

/-- For which proposals a confirmation agrees with the proposal on every field. -/
theorem findExecution_reportsContent_iff {proposal : Dict}
    (h : (Value.dict proposal).isJson = true) :
    (∀ texts result, findExecution texts proposal = some result →
        ReportsContent proposal result) ↔
      Unconfirmable proposal ∨ ∀ kv ∈ proposal, isExact kv.2 = true := by
  have hnodup := ((Value.isJson_dict_iff proposal).1 h).1
  constructor
  · intro hall
    by_contra hnot
    rw [not_or] at hnot
    obtain ⟨hconf, hexact⟩ := hnot
    push Not at hexact
    obtain ⟨kv, hkv, hne⟩ := hexact
    rw [ne_eq, Bool.not_eq_true] at hne
    -- A proposal's keys are distinct, so the value under `kv.1` is the inexact one.
    have hkey : ∀ kv' ∈ wanted proposal, kv'.1 = kv.1 → isExact kv'.2 = false := by
      intro kv' hkv' heq
      have h1 := PyDict.lookup_of_mem hnodup (mem_wanted.1 hkv').1
      rw [heq, PyDict.lookup_of_mem hnodup hkv] at h1
      rw [← Option.some.inj h1]
      exact hne
    -- The near miss changes that value to another that compares equal, and is still accepted.
    have hfound := findExecution_dumps (isJson_nearMiss hnodup kv.1)
      (confirms_nearMiss hnodup hconf hkey)
    exact not_reportsContent_nearMiss hnodup hconf hkv hne (hall _ _ hfound)
  · rintro (hun | hexact) texts result hfound
    · have hconf := (confirms_of_findExecution hfound).2
      rw [not_confirms_of_unconfirmable hun] at hconf
      cases hconf
    · exact reportsContent_of_confirms hexact (confirms_of_findExecution hfound).2

theorem findExecution_reportsContent_iff_publish :
    (Value.dict [("value", .str "391"), ("label", .str "q3")]).isJson = true ∧
      ∀ texts result,
        findExecution texts [("value", .str "391"), ("label", .str "q3")] = some result →
          ReportsContent [("value", .str "391"), ("label", .str "q3")] result :=
  ⟨by decide, (findExecution_reportsContent_iff (by decide)).2 (Or.inr (by decide))⟩

/-- A proposal whose amount is one level down, and a reply that performed it with another amount. -/
def transferProposal : Dict :=
  [("action", .str "transfer"), ("payment", .dict [("amount", .str "100")])]

def transferReply : Dict :=
  [("status", .str "published"), ("action", .str "transfer"),
   ("payment", .dict [("amount", .str "999")])]

theorem findExecution_ignores_nested_amount :
    findExecution [Json.dumps (.dict transferReply)] transferProposal = some transferReply ∧
      ¬ ReportsContent transferProposal transferReply := by
  refine ⟨findExecution_dumps (by decide) (by decide), ?_⟩
  rintro ⟨-, hall⟩
  obtain ⟨w, hw, heq⟩ := hall ("payment", .dict [("amount", .str "100")]) (by simp [transferProposal])
  cases hw
  exact absurd heq (by decide)

end AgentCluster.Cluster
