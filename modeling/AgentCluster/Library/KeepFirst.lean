import Mathlib.Data.List.Nodup

/-!
# Keeping first occurrences

De-duplication with a set of seen keys: an element is kept when its key has not occurred before.
`IsFirsts key as kept` says which list that is, without reference to the algorithm. In a list whose
keys are distinct, the first element of a key is the only one (`find?_key_eq_some_iff`).
-/

set_option autoImplicit false

namespace AgentCluster.Library

universe u v

variable {α : Type u} {κ : Type v}

/-- The elements whose key is neither in `seen` nor the key of an earlier element. -/
def keepFirst [DecidableEq κ] (key : α → κ) : List κ → List α → List α
  | _, [] => []
  | seen, a :: as =>
      if key a ∈ seen then keepFirst key seen as else a :: keepFirst key (key a :: seen) as

/-- One step of the loop that keeps first occurrences: the keys seen and the elements kept so far. -/
def keepStep [DecidableEq κ] (key : α → κ) (acc : List κ × List α) (a : α) : List κ × List α :=
  if key a ∈ acc.1 then acc else (key a :: acc.1, acc.2 ++ [a])

/-- `kept` holds, in order, the elements of `as` that no earlier element shares its key with. -/
structure IsFirsts (key : α → κ) (as kept : List α) : Prop where
  sublist : kept.Sublist as
  nodup : (kept.map key).Nodup
  complete : ∀ a ∈ as, key a ∈ kept.map key
  first : ∀ a ∈ kept, ∃ pre post, as = pre ++ a :: post ∧ key a ∉ pre.map key

section KeepFirst

variable [DecidableEq κ] (key : α → κ)

@[simp]
theorem keepFirst_nil (seen : List κ) : keepFirst key seen [] = [] := rfl

theorem keepFirst_cons (seen : List κ) (a : α) (as : List α) :
    keepFirst key seen (a :: as) =
      if key a ∈ seen then keepFirst key seen as else a :: keepFirst key (key a :: seen) as := rfl

/-- The loop appends the first occurrences to what it had. -/
theorem foldl_keepStep (acc : List κ × List α) (as : List α) :
    (as.foldl (keepStep key) acc).2 = acc.2 ++ keepFirst key acc.1 as := by
  induction as generalizing acc with
  | nil => simp
  | cons a as ih =>
    rw [List.foldl_cons, ih, keepFirst_cons, keepStep]
    split
    · rfl
    · simp

/-- Only which keys were seen matters. -/
theorem keepFirst_congr {seen seen' : List κ} (h : ∀ k, k ∈ seen ↔ k ∈ seen') (as : List α) :
    keepFirst key seen as = keepFirst key seen' as := by
  induction as generalizing seen seen' with
  | nil => rfl
  | cons a as ih =>
    have hcons : ∀ k, k ∈ key a :: seen ↔ k ∈ key a :: seen' := by
      intro k
      rw [List.mem_cons, List.mem_cons, h k]
    rw [keepFirst_cons, keepFirst_cons, ih h, ih hcons]
    exact if_congr (h (key a)) rfl rfl

theorem keepFirst_sublist (seen : List κ) (as : List α) : (keepFirst key seen as).Sublist as := by
  induction as generalizing seen with
  | nil => exact List.Sublist.refl []
  | cons a as ih =>
    rw [keepFirst_cons]
    split
    · exact (ih seen).cons a
    · exact (ih (key a :: seen)).cons_cons a

theorem key_not_mem_seen {seen : List κ} {as : List α} {a : α} (h : a ∈ keepFirst key seen as) :
    key a ∉ seen := by
  induction as generalizing seen with
  | nil => simp at h
  | cons b as ih =>
    rw [keepFirst_cons] at h
    split at h
    · exact ih h
    · rename_i hb
      rcases List.mem_cons.1 h with rfl | h
      · exact hb
      · -- kept from the tail, whose seen keys include those of `seen`
        exact fun hseen => ih h (List.mem_cons_of_mem _ hseen)

theorem nodup_keepFirst (seen : List κ) (as : List α) :
    ((keepFirst key seen as).map key).Nodup := by
  induction as generalizing seen with
  | nil => exact List.nodup_nil
  | cons a as ih =>
    rw [keepFirst_cons]
    split
    · exact ih seen
    · rw [List.map_cons, List.nodup_cons]
      refine ⟨?_, ih (key a :: seen)⟩
      -- the key of `a` counts as seen in the tail
      intro hmem
      obtain ⟨b, hb, hkey⟩ := List.mem_map.1 hmem
      exact key_not_mem_seen key hb (by rw [hkey]; exact List.mem_cons_self)

theorem key_mem_keepFirst (seen : List κ) {as : List α} {a : α} (h : a ∈ as) :
    key a ∈ seen ∨ key a ∈ (keepFirst key seen as).map key := by
  induction as generalizing seen with
  | nil => simp at h
  | cons b as ih =>
    rw [keepFirst_cons]
    rcases List.mem_cons.1 h with rfl | h
    · split
      · exact Or.inl ‹_›
      · exact Or.inr List.mem_cons_self
    · split
      · exact ih seen h
      · rcases ih (key b :: seen) h with hseen | hkept
        · rcases List.mem_cons.1 hseen with heq | hseen
          · exact Or.inr (by rw [heq]; exact List.mem_cons_self)
          · exact Or.inl hseen
        · exact Or.inr (List.mem_cons_of_mem _ hkept)

theorem keepFirst_first (seen : List κ) {as : List α} {a : α} (h : a ∈ keepFirst key seen as) :
    ∃ pre post, as = pre ++ a :: post ∧ key a ∉ pre.map key := by
  induction as generalizing seen with
  | nil => simp at h
  | cons b as ih =>
    rw [keepFirst_cons] at h
    split at h
    · rename_i hb
      -- `b` was dropped, its key was seen: it cannot be the key of `a`
      obtain ⟨pre, post, rfl, hpre⟩ := ih seen h
      refine ⟨b :: pre, post, rfl, ?_⟩
      have hne : key a ≠ key b := fun heq => key_not_mem_seen key h (heq ▸ hb)
      simp [hne, hpre]
    · rcases List.mem_cons.1 h with rfl | h
      · exact ⟨[], as, rfl, by simp⟩
      · -- `b` was kept, so its key is seen in the tail
        obtain ⟨pre, post, rfl, hpre⟩ := ih (key b :: seen) h
        refine ⟨b :: pre, post, rfl, ?_⟩
        have hne : key a ≠ key b :=
          fun heq => key_not_mem_seen key h (by rw [heq]; exact List.mem_cons_self)
        simp [hne, hpre]

/-- De-duplication keeps exactly the first occurrences. -/
theorem isFirsts_keepFirst (as : List α) : IsFirsts key as (keepFirst key [] as) where
  sublist := keepFirst_sublist key [] as
  nodup := nodup_keepFirst key [] as
  complete := by
    intro a ha
    rcases key_mem_keepFirst key [] ha with h | h
    · simp at h
    · exact h
  first := fun a ha => keepFirst_first key [] ha

theorem keepFirst_eq_nil_iff (as : List α) : keepFirst key [] as = [] ↔ as = [] := by
  cases as with
  | nil => simp
  | cons a as => simp [keepFirst_cons]

end KeepFirst

/-- Keys that tell the same elements apart have the same first occurrences. -/
theorem IsFirsts.of_key_iff {κ' : Type v} {key : α → κ} {key' : α → κ'} {as kept : List α}
    (hkey : ∀ a ∈ as, ∀ b ∈ as, key a = key b ↔ key' a = key' b) (h : IsFirsts key as kept) :
    IsFirsts key' as kept where
  sublist := h.sublist
  nodup := by
    have hmem : ∀ a ∈ kept, a ∈ as := fun a ha => h.sublist.subset ha
    have hnodup := List.pairwise_map.1 h.nodup
    refine List.pairwise_map.2 (hnodup.imp_of_mem ?_)
    intro a b ha hb hne heq
    exact hne ((hkey a (hmem a ha) b (hmem b hb)).2 heq)
  complete := by
    intro a ha
    obtain ⟨b, hb, heq⟩ := List.mem_map.1 (h.complete a ha)
    have hkey' := (hkey b (h.sublist.subset hb) a ha).1 heq
    exact List.mem_map.2 ⟨b, hb, hkey'⟩
  first := by
    intro a ha
    obtain ⟨pre, post, hsplit, hpre⟩ := h.first a ha
    refine ⟨pre, post, hsplit, ?_⟩
    intro hmem
    obtain ⟨b, hb, heq⟩ := List.mem_map.1 hmem
    have hb' : b ∈ as := by rw [hsplit]; exact List.mem_append_left _ hb
    have ha' : a ∈ as := h.sublist.subset ha
    exact hpre (List.mem_map.2 ⟨b, hb, (hkey b hb' a ha').2 heq⟩)

theorem find?_key_eq_some_iff [DecidableEq κ] {key : α → κ} {as : List α} (h : (as.map key).Nodup)
    {k : κ} {a : α} : (as.find? fun b => key b = k) = some a ↔ a ∈ as ∧ key a = k := by
  constructor
  · intro hfind
    exact ⟨List.mem_of_find?_eq_some hfind, by simpa using List.find?_some hfind⟩
  · rintro ⟨ha, hkey⟩
    obtain ⟨b, hb⟩ : ∃ b, (as.find? fun b => key b = k) = some b := by
      rw [← Option.isSome_iff_exists, List.find?_isSome]
      exact ⟨a, ha, by simpa using hkey⟩
    have hkey' : key b = k := by simpa using List.find?_some hb
    rw [hb, List.inj_on_of_nodup_map h (List.mem_of_find?_eq_some hb) ha (hkey'.trans hkey.symm)]

end AgentCluster.Library
