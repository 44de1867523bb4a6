import AgentCluster.Library.KeepFirst
import Mathlib.Data.List.Induction
import Mathlib.Data.List.Nodup

/-!
# Python dicts

A `dict` with string keys as the list of its items in insertion order. Assigning to a known key
keeps its place, assigning to a new key appends.
-/

set_option autoImplicit false

namespace AgentCluster.Python

/-- A `dict` with string keys, in insertion order. -/
abbrev PyDict (α : Type) := List (String × α)

namespace PyDict

variable {α : Type}

/-- `d[key] = value`: a known key keeps its place. -/
def set (d : PyDict α) (key : String) (value : α) : PyDict α :=
  if d.any (·.1 == key) then d.map fun kv => if kv.1 == key then (key, value) else kv
  else d ++ [(key, value)]

/-- `dict(pairs)`: of several pairs with one key, the last one counts. -/
def ofPairs (pairs : List (String × α)) : PyDict α :=
  pairs.foldl (fun d kv => d.set kv.1 kv.2) []

/-- The keys, in order. -/
def keys (d : PyDict α) : List String := d.map Prod.fst

theorem any_key (d : PyDict α) (k : String) : (d.any (·.1 == k)) = true ↔ k ∈ d.keys := by
  simp [keys]

/-- Setting a key adds it at the end, unless it is known. -/
theorem keys_set (d : PyDict α) (k : String) (v : α) :
    (d.set k v).keys = if k ∈ d.keys then d.keys else d.keys ++ [k] := by
  unfold set
  by_cases h : d.any (·.1 == k) = true
  · rw [if_pos h, if_pos ((any_key d k).1 h)]
    simp only [keys, List.map_map]
    refine List.map_congr_left ?_
    intro kv _
    simp only [Function.comp_apply]
    split
    · rename_i hk
      exact (eq_of_beq hk).symm
    · rfl
  · rw [if_neg h, if_neg fun hk => h ((any_key d k).2 hk)]
    simp [keys]

theorem nodup_keys_set {d : PyDict α} (h : d.keys.Nodup) (k : String) (v : α) :
    (d.set k v).keys.Nodup := by
  rw [keys_set]
  split
  · exact h
  · rename_i hk
    rw [← List.concat_eq_append]
    exact List.Nodup.concat hk h

/-- After a set, the old items are those of the other keys. -/
theorem mem_set {d : PyDict α} {k : String} {v : α} {kv : String × α}
    (h : kv ∈ d.set k v) : kv = (k, v) ∨ kv ∈ d ∧ kv.1 ≠ k := by
  rw [set] at h
  split at h
  · obtain ⟨kv', hkv', rfl⟩ := List.mem_map.1 h
    split
    · exact Or.inl rfl
    · next hne => exact Or.inr ⟨hkv', fun heq => hne (beq_iff_eq.2 heq)⟩
  · next hnew =>
    rcases List.mem_append.1 h with h | h
    · refine Or.inr ⟨h, fun heq => hnew ((any_key d k).2 ?_)⟩
      exact List.mem_map.2 ⟨kv, h, heq⟩
    · exact Or.inl (List.mem_singleton.1 h)

theorem foldl_set_spec (pairs : List (String × α)) (d : PyDict α) (hd : d.keys.Nodup) :
    (pairs.foldl (fun d kv => d.set kv.1 kv.2) d).keys.Nodup ∧
      ∀ kv ∈ pairs.foldl (fun d kv => d.set kv.1 kv.2) d, kv ∈ d ∨ kv ∈ pairs := by
  induction pairs generalizing d with
  | nil => exact ⟨hd, fun kv hkv => Or.inl hkv⟩
  | cons p pairs ih =>
    obtain ⟨hnodup, hmem⟩ := ih (d.set p.1 p.2) (nodup_keys_set hd p.1 p.2)
    refine ⟨hnodup, ?_⟩
    intro kv hkv
    rcases hmem kv hkv with h | h
    · rcases mem_set h with rfl | ⟨h, -⟩
      · exact Or.inr List.mem_cons_self
      · exact Or.inl h
    · exact Or.inr (List.mem_cons_of_mem _ h)

/-- The keys of `dict(pairs)` are distinct. -/
theorem nodup_keys_ofPairs (pairs : List (String × α)) : (ofPairs pairs).keys.Nodup :=
  (foldl_set_spec pairs [] List.nodup_nil).1

theorem mem_ofPairs {pairs : List (String × α)} {kv : String × α}
    (h : kv ∈ ofPairs pairs) : kv ∈ pairs := by
  rcases (foldl_set_spec pairs [] List.nodup_nil).2 kv h with h | h
  · simp at h
  · exact h

theorem mem_of_lookup {d : PyDict α} {k : String} {v : α} (h : d.lookup k = some v) :
    (k, v) ∈ d := by
  induction d with
  | nil => simp at h
  | cons kv d ih =>
    obtain ⟨k', v'⟩ := kv
    rw [List.lookup_cons] at h
    cases hk : k == k' with
    | true =>
      rw [hk] at h
      cases h
      rw [eq_of_beq hk]
      exact List.mem_cons_self
    | false =>
      rw [hk] at h
      exact List.mem_cons_of_mem _ (ih h)

theorem lookup_eq_none {d : PyDict α} {k : String} (h : k ∉ d.keys) : d.lookup k = none := by
  cases hl : d.lookup k with
  | none => rfl
  | some v => exact absurd (List.mem_map.2 ⟨(k, v), mem_of_lookup hl, rfl⟩) h

/-- With distinct keys, every item is found under its key. -/
theorem lookup_of_mem {d : PyDict α} (hd : d.keys.Nodup) {kv : String × α} (h : kv ∈ d) :
    d.lookup kv.1 = some kv.2 := by
  induction d with
  | nil => simp at h
  | cons kv' d ih =>
    rw [keys, List.map_cons, List.nodup_cons] at hd
    rcases List.mem_cons.1 h with rfl | h
    · rw [List.lookup_cons, beq_self_eq_true]
    · have hne : (kv.1 == kv'.1) = false := by
        rw [beq_eq_false_iff_ne]
        exact fun heq => hd.1 (heq ▸ List.mem_map.2 ⟨kv, h, rfl⟩)
      rw [List.lookup_cons, hne]
      exact ih hd.2 h

theorem lookup_append_of_not_mem {d : PyDict α} {k : String} (h : k ∉ d.keys) (e : PyDict α) :
    (d ++ e).lookup k = e.lookup k := by
  induction d with
  | nil => rfl
  | cons kv d ih =>
    rw [keys, List.map_cons, List.mem_cons, not_or] at h
    rw [List.cons_append, List.lookup_cons, beq_eq_false_iff_ne.2 h.1]
    exact ih h.2

theorem lookup_map_ne {d : PyDict α} {k key : String} (h : k ≠ key) (v : α) :
    (d.map fun kv => if kv.1 == key then (key, v) else kv).lookup k = d.lookup k := by
  induction d with
  | nil => rfl
  | cons kv d ih =>
    rw [List.map_cons]
    by_cases hkv : kv.1 = key
    · rw [if_pos (beq_iff_eq.2 hkv), List.lookup_cons, List.lookup_cons, hkv,
        beq_eq_false_iff_ne.2 h]
      exact ih
    · rw [if_neg (by rwa [beq_iff_eq]), List.lookup_cons, List.lookup_cons, ih]

theorem lookup_map_self {d : PyDict α} {key : String} (h : key ∈ d.keys) (v : α) :
    (d.map fun kv => if kv.1 == key then (key, v) else kv).lookup key = some v := by
  induction d with
  | nil => cases h
  | cons kv d ih =>
    rw [List.map_cons]
    by_cases hkv : kv.1 = key
    · rw [if_pos (beq_iff_eq.2 hkv), List.lookup_cons, beq_self_eq_true]
    · rw [if_neg (by rwa [beq_iff_eq]), List.lookup_cons, beq_eq_false_iff_ne.2 (Ne.symm hkv)]
      apply ih
      rw [keys, List.map_cons, List.mem_cons] at h
      exact h.resolve_left fun heq => hkv heq.symm

/-- After `d[key] = value`, `d[key]` is `value`. -/
theorem lookup_set_self (d : PyDict α) (key : String) (v : α) :
    (d.set key v).lookup key = some v := by
  rw [set]
  by_cases h : key ∈ d.keys
  · rw [if_pos ((any_key d key).2 h)]
    exact lookup_map_self h v
  · rw [if_neg fun hany => h ((any_key d key).1 hany), lookup_append_of_not_mem h,
      List.lookup_cons, beq_self_eq_true]

/-- Other keys are untouched. -/
theorem lookup_set_of_ne (d : PyDict α) {key other : String} (h : other ≠ key) (v : α) :
    (d.set key v).lookup other = d.lookup other := by
  rw [set]
  split
  · exact lookup_map_ne h v
  · by_cases hmem : other ∈ d.keys
    · obtain ⟨kv, hkv, rfl⟩ := List.mem_map.1 hmem
      rw [List.lookup_append, List.lookup_cons, beq_eq_false_iff_ne.2 h]
      simp
    · rw [lookup_append_of_not_mem hmem, lookup_eq_none hmem, List.lookup_cons,
        beq_eq_false_iff_ne.2 h]
      rfl

/-- `dict(d.items())` is `d`. -/
theorem ofPairs_of_nodup {pairs : List (String × α)} (h : (pairs.map Prod.fst).Nodup) :
    ofPairs pairs = pairs := by
  have key : ∀ (rest : List (String × α)) (d : PyDict α), ((d ++ rest).map Prod.fst).Nodup →
      rest.foldl (fun d kv => d.set kv.1 kv.2) d = d ++ rest := by
    intro rest
    induction rest with
    | nil => simp
    | cons p rest ih =>
      intro d hd
      have hp : p.1 ∉ d.keys := by
        intro hmem
        rw [List.map_append, List.nodup_append] at hd
        exact hd.2.2 p.1 hmem p.1 (by simp) rfl
      have hset : d.set p.1 p.2 = d ++ [p] := by
        unfold set
        rw [if_neg fun h => hp ((any_key d p.1).1 h)]
      have happ : d ++ p :: rest = (d ++ [p]) ++ rest := by simp
      rw [List.foldl_cons, hset, happ]
      exact ih (d ++ [p]) (by rw [← happ]; exact hd)
  exact key pairs [] h

/-! ## First keys and last values -/

/-- The keys of a dict filled in a loop are the first occurrences. -/
theorem keys_foldl_set (pairs : List (String × α)) (d : PyDict α) :
    (pairs.foldl (fun d kv => d.set kv.1 kv.2) d).keys =
      d.keys ++ Library.keepFirst id d.keys (pairs.map Prod.fst) := by
  induction pairs generalizing d with
  | nil => rw [List.foldl_nil, List.map_nil, Library.keepFirst_nil, List.append_nil]
  | cons kv pairs ih =>
    rw [List.foldl_cons, ih, keys_set, List.map_cons, Library.keepFirst_cons, id_eq]
    split
    · rfl
    · rw [List.append_assoc]
      refine congrArg (d.keys ++ kv.1 :: ·) (Library.keepFirst_congr id ?_ _)
      intro k
      rw [List.mem_append, List.mem_singleton, List.mem_cons, or_comm]

theorem ofPairs_append (pairs : List (String × α)) (kv : String × α) :
    ofPairs (pairs ++ [kv]) = (ofPairs pairs).set kv.1 kv.2 := by
  rw [ofPairs, List.foldl_append]
  rfl

/-- Every item of `dict(pairs)` is the last pair of its key. -/
theorem last_of_mem_ofPairs {pairs : List (String × α)} {kv : String × α} (h : kv ∈ ofPairs pairs) :
    ∃ pre post, pairs = pre ++ kv :: post ∧ kv.1 ∉ post.map Prod.fst := by
  induction pairs using List.reverseRecOn with
  | nil => cases h
  | append_singleton pairs last ih =>
    rw [ofPairs_append] at h
    rcases mem_set h with rfl | ⟨hmem, hne⟩
    · exact ⟨pairs, [], rfl, List.not_mem_nil⟩
    · obtain ⟨pre, post, rfl, hpost⟩ := ih hmem
      refine ⟨pre, post ++ [last], by rw [List.append_assoc, List.cons_append], ?_⟩
      rw [List.map_append, List.mem_append, not_or]
      exact ⟨hpost, fun hlast => hne (List.mem_singleton.1 hlast)⟩

end PyDict

end AgentCluster.Python
