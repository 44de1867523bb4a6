import Mathlib.Data.List.Perm.Basic
import Mathlib.Order.Lattice

/-!
# Selecting the first element of the largest key

A loop over a list computes a key for every element, which may fail or find that the element does not
count, and keeps the first element of the largest key. `select_eq_ok_iff` says which element that is.

One failing key fails the selection, wherever it stands; otherwise the selection fails exactly when no
element counts, and a larger list selects no smaller key (`select_mono`). The order of the list matters
only among elements of the largest key (`select_perm_iff`).
-/

set_option autoImplicit false

namespace AgentCluster.Library

universe u v w

variable {ε : Type u} {α : Type v} {κ : Type w}

section Loop

variable [LT κ] [DecidableLT κ]

/-- Keep the element kept so far unless the new key is larger. -/
def keepBest (best : Option (κ × α)) (a : α) (key : κ) : Option (κ × α) :=
  match best with
  | none => some (key, a)
  | some (k, b) => if k < key then some (key, a) else some (k, b)

/-- One turn: elements without a key are passed over. -/
def selectStep (keyOf : α → Except ε (Option κ)) (best : Option (κ × α)) (a : α) :
    Except ε (Option (κ × α)) :=
  match keyOf a with
  | .error e => .error e
  | .ok none => .ok best
  | .ok (some key) => .ok (keepBest best a key)

/-- The loop, and the error when no element counted. -/
def select (keyOf : α → Except ε (Option κ)) (missing : ε) (as : List α) : Except ε α :=
  match as.foldlM (selectStep keyOf) none with
  | .error e => .error e
  | .ok none => .error missing
  | .ok (some (_, a)) => .ok a

end Loop

/-- Every key can be computed. -/
def AllKeyed (keyOf : α → Except ε (Option κ)) (as : List α) : Prop :=
  ∀ a ∈ as, ∃ key, keyOf a = .ok key

theorem not_allKeyed_iff {keyOf : α → Except ε (Option κ)} {as : List α} :
    ¬AllKeyed keyOf as ↔ ∃ a ∈ as, ∃ e, keyOf a = .error e := by
  constructor
  · intro hnot
    by_contra hfine
    apply hnot
    intro a ha
    cases hkey : keyOf a with
    | error e => exact absurd ⟨a, ha, e, hkey⟩ hfine
    | ok key => exact ⟨key, rfl⟩
  · rintro ⟨a, ha, e, he⟩ hall
    obtain ⟨key, hkey⟩ := hall a ha
    rw [he] at hkey
    cases hkey

/-- `a` is the first of the elements of `as` with the largest key, which is `key`. -/
structure IsBest [LinearOrder κ] (keyOf : α → Except ε (Option κ)) (as : List α) (a : α) (key : κ) :
    Prop where
  keyed : keyOf a = .ok (some key)
  split : ∃ pre post, as = pre ++ a :: post ∧
    (∀ b ∈ pre, ∀ k, keyOf b = .ok (some k) → k < key) ∧
    ∀ b ∈ post, ∀ k, keyOf b = .ok (some k) → k ≤ key

section Select

variable [LinearOrder κ] {keyOf : α → Except ε (Option κ)} {missing : ε} {as bs : List α} {a b : α}
  {key : κ}

namespace IsBest

theorem mem (h : IsBest keyOf as a key) : a ∈ as := by
  obtain ⟨pre, post, rfl, -⟩ := h.split
  exact List.mem_append_right _ List.mem_cons_self

/-- No key is larger. -/
theorem le (h : IsBest keyOf as a key) {k : κ} (hb : b ∈ as) (hk : keyOf b = .ok (some k)) :
    k ≤ key := by
  obtain ⟨pre, post, rfl, hpre, hpost⟩ := h.split
  rcases List.mem_append.1 hb with hb | hb
  · exact (hpre b hb k hk).le
  · rcases List.mem_cons.1 hb with rfl | hb
    · rw [h.keyed] at hk
      cases hk
      exact le_rfl
    · exact hpost b hb k hk

/-- An element after it that counts no more changes nothing. -/
theorem append_le (h : IsBest keyOf as a key) (hb : ∀ k, keyOf b = .ok (some k) → k ≤ key) :
    IsBest keyOf (as ++ [b]) a key := by
  obtain ⟨pre, post, rfl, hpre, hpost⟩ := h.split
  refine ⟨h.keyed, pre, post ++ [b], by rw [List.append_assoc, List.cons_append], hpre, ?_⟩
  intro c hc k hk
  rcases List.mem_append.1 hc with hc | hc
  · exact hpost c hc k hk
  · rw [List.mem_singleton.1 hc] at hk
    exact hb k hk

/-- An element of a larger key takes its place. -/
theorem append_lt (h : IsBest keyOf as a key) {k : κ} (hb : keyOf b = .ok (some k)) (hlt : key < k) :
    IsBest keyOf (as ++ [b]) b k := by
  refine ⟨hb, as, [], rfl, ?_, fun c hc => absurd hc List.not_mem_nil⟩
  exact fun c hc j hj => (h.le hc hj).trans_lt hlt

end IsBest

/-- What the loop holds after `as`: nothing as long as no element counted, else the best one. -/
def Holds (keyOf : α → Except ε (Option κ)) (as : List α) : Option (κ × α) → Prop
  | none => ∀ a ∈ as, keyOf a = .ok none
  | some (key, a) => IsBest keyOf as a key

/-- One turn keeps the invariant. -/
theorem holds_selectStep {best best' : Option (κ × α)} (h : Holds keyOf as best)
    (hstep : selectStep keyOf best a = .ok best') : Holds keyOf (as ++ [a]) best' := by
  rw [selectStep] at hstep
  cases ha : keyOf a with
  | error e =>
    rw [ha] at hstep
    cases hstep
  | ok counted =>
    cases counted with
    -- An item that is not counted leaves what is held.
    | none =>
      rw [ha] at hstep
      cases hstep
      cases best with
      | none =>
        intro b hb
        rcases List.mem_append.1 hb with hb | hb
        · exact h b hb
        · rw [List.mem_singleton.1 hb]
          exact ha
      | some held =>
        refine IsBest.append_le h ?_
        intro k hk
        rw [ha] at hk
        cases hk
    | some key =>
      rw [ha] at hstep
      cases hstep
      -- The first counted item is held whatever its key.
      cases best with
      | none =>
        refine ⟨ha, as, [], rfl, ?_, fun c hc => absurd hc List.not_mem_nil⟩
        intro c hc k hk
        rw [h c hc] at hk
        cases hk
      | some held =>
        obtain ⟨k, b⟩ := held
        -- Replaced only by a strictly larger key: of two equal ones the earlier stays.
        rw [keepBest]
        split
        · next hlt => exact IsBest.append_lt h ha hlt
        · next hle =>
          refine IsBest.append_le h ?_
          intro j hj
          rw [ha] at hj
          cases hj
          exact not_lt.1 hle

/-- What a run of the loop after `done` leaves. -/
theorem foldlM_selectStep {done : List α} {best : Option (κ × α)} (h : Holds keyOf done best) :
    (∃ best', as.foldlM (selectStep keyOf) best = .ok best' ∧ AllKeyed keyOf as ∧
        Holds keyOf (done ++ as) best') ∨
      ∃ e, as.foldlM (selectStep keyOf) best = .error e ∧ ∃ a ∈ as, keyOf a = .error e := by
  -- `Holds` is about the items done so far, which is what the induction generalizes over.
  induction as generalizing done best with
  | nil =>
    refine Or.inl ⟨best, rfl, fun a ha => absurd ha List.not_mem_nil, ?_⟩
    rwa [List.append_nil]
  | cons a as ih =>
    rw [List.foldlM_cons]
    cases hstep : selectStep keyOf best a with
    -- An error stops the fold at once, with no item after it looked at.
    | error e =>
      have hkey : keyOf a = .error e := by
        rw [selectStep] at hstep
        split at hstep
        · next he =>
          cases hstep
          exact he
        · cases hstep
        · cases hstep
      exact Or.inr ⟨e, rfl, a, List.mem_cons_self, hkey⟩
    | ok next =>
      have hkeyed : ∃ key, keyOf a = .ok key := by
        rw [selectStep] at hstep
        split at hstep
        · cases hstep
        · next ha => exact ⟨_, ha⟩
        · next ha => exact ⟨_, ha⟩
      rcases ih (holds_selectStep h hstep) with ⟨best', hrun, hall, hholds⟩ | ⟨e, hrun, b, hb, he⟩
      · refine Or.inl ⟨best', hrun, List.forall_mem_cons.2 ⟨hkeyed, hall⟩, ?_⟩
        rwa [List.append_assoc, List.singleton_append] at hholds
      · exact Or.inr ⟨e, hrun, b, List.mem_cons_of_mem a hb, he⟩

/-- The three ways a selection ends. -/
theorem select_cases (keyOf : α → Except ε (Option κ)) (missing : ε) (as : List α) :
    (∃ a key, select keyOf missing as = .ok a ∧ AllKeyed keyOf as ∧ IsBest keyOf as a key) ∨
      (select keyOf missing as = .error missing ∧ ∀ a ∈ as, keyOf a = .ok none) ∨
      ∃ e, select keyOf missing as = .error e ∧ ∃ a ∈ as, keyOf a = .error e := by
  have hstart : Holds keyOf [] none := fun a ha => absurd ha List.not_mem_nil
  rw [select]
  rcases foldlM_selectStep hstart with ⟨best, hrun, hall, hholds⟩ | ⟨e, hrun, herror⟩
  · rw [hrun]
    cases best with
    | none => exact Or.inr (Or.inl ⟨rfl, hholds⟩)
    | some held => exact Or.inl ⟨held.2, held.1, rfl, hall, hholds⟩
  · rw [hrun]
    exact Or.inr (Or.inr ⟨e, rfl, herror⟩)

/-- The best element is unique. -/
theorem IsBest.unique {k : κ} (ha : IsBest keyOf as a key) (hb : IsBest keyOf as b k) : a = b := by
  have hkey : key = k := le_antisymm (hb.le ha.mem ha.keyed) (ha.le hb.mem hb.keyed)
  subst hkey
  obtain ⟨pre, post, has, hpre, -⟩ := ha.split
  obtain ⟨pre', post', has', hpre', -⟩ := hb.split
  rw [has] at has'
  -- of two positions, the later one has the other in front of it
  rcases List.append_eq_append_iff.1 has' with ⟨mid, hmid, htail⟩ | ⟨mid, hmid, htail⟩
  · cases mid with
    | nil => exact (List.cons.inj htail).1
    | cons c mid =>
      obtain rfl := (List.cons.inj htail).1
      exact absurd (hpre' a (by rw [hmid]; simp) key ha.keyed) (lt_irrefl key)
  · cases mid with
    | nil => exact (List.cons.inj htail).1.symm
    | cons c mid =>
      obtain rfl := (List.cons.inj htail).1
      exact absurd (hpre b (by rw [hmid]; simp) key hb.keyed) (lt_irrefl key)

/-- The selection returns the best element, when every key can be computed. -/
theorem select_eq_ok_iff :
    select keyOf missing as = .ok a ↔ AllKeyed keyOf as ∧ ∃ key, IsBest keyOf as a key := by
  rcases select_cases keyOf missing as with ⟨b, k, hb, hall, hbest⟩ | ⟨hmissing, hnone⟩ |
    ⟨e, he, b, hb, hkey⟩
  · rw [hb]
    constructor
    · rintro ⟨⟩
      exact ⟨hall, k, hbest⟩
    · rintro ⟨-, key, ha⟩
      rw [ha.unique hbest]
  · rw [hmissing]
    refine ⟨fun h => (by cases h), ?_⟩
    rintro ⟨-, key, ha⟩
    have hkeyed := ha.keyed
    rw [hnone a ha.mem] at hkeyed
    cases hkeyed
  · rw [he]
    refine ⟨fun h => (by cases h), ?_⟩
    rintro ⟨hall, -⟩
    obtain ⟨key, hkeyed⟩ := hall b hb
    rw [hkey] at hkeyed
    cases hkeyed

/-- The selection fails exactly when a key does, or when no element counts. -/
theorem select_eq_error_iff :
    (∃ e, select keyOf missing as = .error e) ↔
      ¬AllKeyed keyOf as ∨ ∀ a ∈ as, ∀ key, keyOf a ≠ .ok (some key) := by
  rcases select_cases keyOf missing as with ⟨b, k, hb, hall, hbest⟩ | ⟨hmissing, hnone⟩ |
    ⟨e, he, b, hb, hkey⟩
  · rw [hb]
    refine ⟨fun h => (by obtain ⟨e, he⟩ := h; cases he), ?_⟩
    rintro (hnot | hnone)
    · exact absurd hall hnot
    · exact absurd hbest.keyed (hnone b hbest.mem k)
  · rw [hmissing]
    refine iff_of_true ⟨missing, rfl⟩ (Or.inr ?_)
    intro a ha key hkey
    rw [hnone a ha] at hkey
    cases hkey
  · rw [he]
    refine iff_of_true ⟨e, rfl⟩ (Or.inl ?_)
    intro hall
    obtain ⟨key, hkeyed⟩ := hall b hb
    rw [hkey] at hkeyed
    cases hkeyed

/-- The error is that of a key, or the one for a missing element. -/
theorem error_of_select {e : ε} (h : select keyOf missing as = .error e) :
    e = missing ∨ ∃ a ∈ as, keyOf a = .error e := by
  rcases select_cases keyOf missing as with ⟨b, k, hb, -, -⟩ | ⟨hmissing, -⟩ | ⟨e', he, hkey⟩
  · rw [hb] at h
    cases h
  · rw [hmissing] at h
    cases h
    exact Or.inl rfl
  · rw [he] at h
    cases h
    exact Or.inr hkey

/-- With all keys computed, a list with an element that counts has a best one. -/
theorem exists_best (missing : ε) (hall : AllKeyed keyOf as) (ha : a ∈ as)
    (hkey : keyOf a = .ok (some key)) :
    ∃ b k, select keyOf missing as = .ok b ∧ IsBest keyOf as b k := by
  rcases select_cases keyOf missing as with ⟨b, k, hb, -, hbest⟩ | ⟨-, hnone⟩ | ⟨e, -, b, hb, he⟩
  · exact ⟨b, k, hb, hbest⟩
  · rw [hnone a ha] at hkey
    cases hkey
  · obtain ⟨k, hk⟩ := hall b hb
    rw [he] at hk
    cases hk

/-- Enlarging the list selects no smaller key. -/
theorem select_mono (missing : ε) {k : κ} (hsub : as ⊆ bs) (hall : AllKeyed keyOf bs) (ha : a ∈ as)
    (hk : keyOf a = .ok (some k)) :
    ∃ b j, select keyOf missing bs = .ok b ∧ keyOf b = .ok (some j) ∧ k ≤ j := by
  obtain ⟨b, j, hselect, hbest⟩ := exists_best missing hall (hsub ha) hk
  exact ⟨b, j, hselect, hbest.keyed, hbest.le (hsub ha) hk⟩

/-- `b` goes before `a`: its key is larger, or the same and it stands further in front. -/
def Outranks [DecidableEq α] (keyOf : α → Except ε (Option κ)) (as : List α) (b a : α) : Prop :=
  ∃ j k, keyOf b = .ok (some j) ∧ keyOf a = .ok (some k) ∧
    (k < j ∨ k = j ∧ as.idxOf b < as.idxOf a)

/-- The best element goes before every other one. -/
theorem IsBest.outranks [DecidableEq α] (h : IsBest keyOf as a key) {k : κ} (hb : b ∈ as)
    (hk : keyOf b = .ok (some k)) (hne : b ≠ a) : Outranks keyOf as a b := by
  refine ⟨key, k, h.keyed, hk, (h.le hb hk).lt_or_eq.imp id fun heq => ⟨heq, ?_⟩⟩
  obtain ⟨pre, post, rfl, hpre, -⟩ := h.split
  have ha_pre : a ∉ pre := fun ha => absurd (hpre a ha key h.keyed) (lt_irrefl key)
  have hb_pre : b ∉ pre := fun hb => absurd (hpre b hb k hk) (heq ▸ lt_irrefl k)
  rw [List.idxOf_append_of_notMem ha_pre, List.idxOf_append_of_notMem hb_pre, List.idxOf_cons_self,
    List.idxOf_cons_ne post (Ne.symm hne)]
  omega

theorem IsBest.not_outranks [DecidableEq α] (h : IsBest keyOf as a key) (hb : b ∈ as) :
    ¬Outranks keyOf as b a := by
  rintro ⟨j, k, hj, hk, hrank⟩
  rw [h.keyed] at hk
  cases hk
  rcases hrank with hlt | ⟨rfl, hidx⟩
  · exact absurd (h.le hb hj) (not_le.2 hlt)
  · by_cases hne : b = a
    · rw [hne] at hidx
      exact lt_irrefl _ hidx
    · obtain ⟨i, k, hi, hk, hrank⟩ := h.outranks hb hj hne
      rw [h.keyed] at hi
      cases hi
      rw [hj] at hk
      cases hk
      exact hrank.elim (lt_irrefl _) fun hback => lt_asymm hidx hback.2

omit [LinearOrder κ] in
theorem AllKeyed.perm (hall : AllKeyed keyOf as) (h : as.Perm bs) : AllKeyed keyOf bs :=
  fun b hb => hall b (h.mem_iff.2 hb)

/-- The key of `a` is the largest one. -/
def IsLargest (keyOf : α → Except ε (Option κ)) (as : List α) (a : α) : Prop :=
  ∃ key, keyOf a = .ok (some key) ∧ ∀ b ∈ as, ∀ k, keyOf b = .ok (some k) → k ≤ key

/-- Only one element has the largest key. -/
def UniqueLargest (keyOf : α → Except ε (Option κ)) (as : List α) : Prop :=
  ∀ a ∈ as, ∀ b ∈ as, IsLargest keyOf as a → IsLargest keyOf as b → a = b

theorem IsBest.isLargest (h : IsBest keyOf as a key) : IsLargest keyOf as a :=
  ⟨key, h.keyed, fun _ hb _ hk => h.le hb hk⟩

/-- No element before the best one has the largest key. -/
theorem IsBest.first (h : IsBest keyOf as a key) :
    ∃ pre post, as = pre ++ a :: post ∧ ∀ b ∈ pre, ¬IsLargest keyOf as b := by
  obtain ⟨pre, post, hsplit, hpre, -⟩ := h.split
  refine ⟨pre, post, hsplit, ?_⟩
  rintro b hb ⟨k, hk, hle⟩
  exact absurd (hle a h.mem key h.keyed) (not_le.2 (hpre b hb k hk))

theorem IsLargest.perm (h : IsLargest keyOf as a) (hperm : as.Perm bs) : IsLargest keyOf bs a := by
  obtain ⟨key, hkey, hle⟩ := h
  exact ⟨key, hkey, fun b hb => hle b (hperm.mem_iff.2 hb)⟩

theorem UniqueLargest.perm (hunique : UniqueLargest keyOf as) (h : as.Perm bs) :
    UniqueLargest keyOf bs :=
  fun a ha b hb hla hlb =>
    hunique a (h.mem_iff.2 ha) b (h.mem_iff.2 hb) (hla.perm h.symm) (hlb.perm h.symm)

/-- An element of the largest key is selected when it stands in front. -/
theorem exists_perm_select (missing : ε) (hall : AllKeyed keyOf as) (ha : a ∈ as)
    (h : IsLargest keyOf as a) : ∃ bs, as.Perm bs ∧ select keyOf missing bs = .ok a := by
  obtain ⟨key, hkey, hmax⟩ := h
  obtain ⟨pre, post, rfl⟩ := List.append_of_mem ha
  have hperm : (pre ++ a :: post).Perm (a :: (pre ++ post)) := List.perm_middle
  refine ⟨a :: (pre ++ post), hperm, select_eq_ok_iff.2 ⟨hall.perm hperm, key, hkey, [], pre ++ post,
    rfl, fun b hb => absurd hb List.not_mem_nil, ?_⟩⟩
  intro b hb k hk
  exact hmax b (hperm.mem_iff.2 (List.mem_cons_of_mem a hb)) k hk

/-- Another order selects an element of the largest key too. -/
theorem select_of_perm (hperm : as.Perm bs) (h : select keyOf missing as = .ok a) :
    ∃ b ∈ as, select keyOf missing bs = .ok b ∧ IsLargest keyOf as b := by
  obtain ⟨hall, key, hbest⟩ := select_eq_ok_iff.1 h
  obtain ⟨b, k, hselect, hbest'⟩ :=
    exists_best missing (hall.perm hperm) (hperm.mem_iff.1 hbest.mem) hbest.keyed
  exact ⟨b, hperm.mem_iff.2 hbest'.mem, hselect, hbest'.isLargest.perm hperm.symm⟩

/-- The selection is the same for every order of the list exactly when a key fails or one element
only has the largest key. -/
theorem select_perm_iff :
    (∀ bs, as.Perm bs → ∀ a, select keyOf missing as = .ok a ↔ select keyOf missing bs = .ok a) ↔
      ¬AllKeyed keyOf as ∨ UniqueLargest keyOf as := by
  constructor
  · intro hsame
    by_cases hall : AllKeyed keyOf as
    · refine Or.inr ?_
      -- Each of two largest items comes first in some order, and the same item is selected in both.
      intro a ha b hb hla hlb
      obtain ⟨as', hpa, hsa⟩ := exists_perm_select missing hall ha hla
      obtain ⟨bs', hpb, hsb⟩ := exists_perm_select missing hall hb hlb
      have heq := ((hsame as' hpa a).2 hsa).symm.trans ((hsame bs' hpb b).2 hsb)
      cases heq
      rfl
    · exact Or.inl hall
  · have hsame : ∀ {cs ds : List α}, UniqueLargest keyOf cs → cs.Perm ds → ∀ a,
        select keyOf missing cs = .ok a → select keyOf missing ds = .ok a := by
      intro cs ds hunique hperm a ha
      obtain ⟨-, key, hbest⟩ := select_eq_ok_iff.1 ha
      obtain ⟨b, hb, hselect, hlargest⟩ := select_of_perm hperm ha
      rw [hunique a hbest.mem b hb hbest.isLargest hlargest]
      exact hselect
    rintro (hnot | hunique) bs hperm a
    · have hnot' : ¬AllKeyed keyOf bs := fun hall => hnot (hall.perm hperm.symm)
      rw [select_eq_ok_iff, select_eq_ok_iff]
      exact iff_of_false (fun h => hnot h.1) (fun h => hnot' h.1)
    · exact ⟨hsame hunique hperm a, hsame (hunique.perm hperm) hperm.symm a⟩

end Select

/-! ## Elements that belong, and elements whose key fails -/

/-- The key fails on the `Bad` elements, and there is one for each other element that belongs. -/
structure Describes (keyOf : α → Except ε (Option κ)) (Bad Belongs : α → Prop) : Prop where
  bad : ∀ a, (∃ e, keyOf a = .error e) ↔ Bad a
  belongs : ∀ a, ¬Bad a → ((∃ key, keyOf a = .ok (some key)) ↔ Belongs a)

/-- An element that belongs is selected, of the largest key, and the selection fails only if there is
none. -/
structure Optimal [LinearOrder κ] (keyOf : α → Except ε (Option κ)) (missing : ε)
    (Belongs : α → Prop) (as : List α) : Prop where
  best : ∀ a, select keyOf missing as = .ok a → a ∈ as ∧ Belongs a ∧
    ∃ key, keyOf a = .ok (some key) ∧ ∀ b ∈ as, Belongs b → ∃ k, keyOf b = .ok (some k) ∧ k ≤ key
  fails : (∃ e, select keyOf missing as = .error e) ↔ ∀ a ∈ as, ¬Belongs a

/-- A larger list still has a selection, of no smaller key. -/
def Grows [LinearOrder κ] (keyOf : α → Except ε (Option κ)) (missing : ε) (as bs : List α) : Prop :=
  ∀ a, select keyOf missing as = .ok a → ∃ b k j, select keyOf missing bs = .ok b ∧
    keyOf a = .ok (some k) ∧ keyOf b = .ok (some j) ∧ k ≤ j

namespace Describes

variable {keyOf : α → Except ε (Option κ)} {Bad Belongs : α → Prop} {as bs : List α}

theorem allKeyed_iff (h : Describes keyOf Bad Belongs) :
    AllKeyed keyOf as ↔ ∀ a ∈ as, ¬Bad a := by
  rw [← not_iff_not, not_allKeyed_iff]
  simp only [h.bad, not_forall, not_not, exists_prop]

theorem not_allKeyed_iff (h : Describes keyOf Bad Belongs) :
    ¬AllKeyed keyOf as ↔ ∃ a ∈ as, Bad a := by
  simp only [Library.not_allKeyed_iff, h.bad]

variable [LinearOrder κ] {missing : ε}

/-- One bad element fails the selection, wherever it stands. -/
theorem select_error_iff (h : Describes keyOf Bad Belongs) (missing : ε) :
    (∃ e, select keyOf missing as = .error e) ↔ (∃ a ∈ as, Bad a) ∨ ∀ a ∈ as, ¬Belongs a := by
  rw [select_eq_error_iff, h.not_allKeyed_iff]
  by_cases hbad : ∃ a ∈ as, Bad a
  · exact iff_of_true (Or.inl hbad) (Or.inl hbad)
  · rw [or_iff_right hbad, or_iff_right hbad]
    apply forall₂_congr
    intro a ha
    rw [← h.belongs a fun hnot => hbad ⟨a, ha, hnot⟩, not_exists]

/-- The selection is optimal unless a bad element stands beside one that belongs. -/
theorem optimal_iff (h : Describes keyOf Bad Belongs) :
    Optimal keyOf missing Belongs as ↔ (∀ a ∈ as, ¬Bad a) ∨ ∀ a ∈ as, ¬Belongs a := by
  constructor
  · intro hoptimal
    by_cases hbad : ∃ a ∈ as, Bad a
    · exact Or.inr (hoptimal.fails.1 ((h.select_error_iff missing).2 (Or.inl hbad)))
    · exact Or.inl fun a ha hnot => hbad ⟨a, ha, hnot⟩
  · intro hfine
    constructor
    · intro a hselect
      obtain ⟨hall, key, hbest⟩ := select_eq_ok_iff.1 hselect
      have hnot := h.allKeyed_iff.1 hall
      refine ⟨hbest.mem, (h.belongs a (hnot a hbest.mem)).1 ⟨key, hbest.keyed⟩, key, hbest.keyed, ?_⟩
      intro b hb hbelongs
      obtain ⟨k, hk⟩ := (h.belongs b (hnot b hb)).2 hbelongs
      exact ⟨k, hk, hbest.le hb hk⟩
    · rw [h.select_error_iff]
      refine ⟨fun hfails => ?_, Or.inr⟩
      rcases hfails with ⟨a, ha, hbad⟩ | hnone
      · exact hfine.resolve_left fun hall => hall a ha hbad
      · exact hnone

/-- Enlarging the list is safe as long as nothing bad is added. -/
theorem grows_iff (h : Describes keyOf Bad Belongs) (hsub : as ⊆ bs) :
    Grows keyOf missing as bs ↔
      (∃ a ∈ as, Bad a) ∨ (∀ a ∈ as, ¬Belongs a) ∨ ∀ b ∈ bs, ¬Bad b := by
  rw [← or_assoc, ← h.select_error_iff missing, ← h.allKeyed_iff]
  constructor
  · intro hgrows
    cases hselect : select keyOf missing as with
    | error e => exact Or.inl ⟨e, rfl⟩
    | ok a =>
      obtain ⟨b, k, j, hb, -⟩ := hgrows a hselect
      exact Or.inr (select_eq_ok_iff.1 hb).1
  · intro hfine a hselect
    rcases hfine with ⟨e, he⟩ | hall
    · rw [hselect] at he
      cases he
    · obtain ⟨-, k, hbest⟩ := select_eq_ok_iff.1 hselect
      obtain ⟨b, j, hb, hkey, hle⟩ := select_mono missing hsub hall hbest.mem hbest.keyed
      exact ⟨b, k, j, hb, hbest.keyed, hkey, hle⟩

/-- What is selected is good exactly when a good element goes before every other that belongs. -/
theorem good_iff [DecidableEq α] (h : Describes keyOf Bad Belongs) (missing : ε)
    (Good : α → Prop) (as : List α) :
    (∀ a, select keyOf missing as = .ok a → Good a) ↔
      (∃ a ∈ as, Bad a) ∨ ∀ a ∈ as, Belongs a → ¬Good a →
        ∃ b ∈ as, Good b ∧ Outranks keyOf as b a := by
  rw [← h.not_allKeyed_iff]
  constructor
  · intro hgood
    by_cases hall : AllKeyed keyOf as
    · refine Or.inr ?_
      intro a ha hbelongs hbad
      obtain ⟨key, hkey⟩ := (h.belongs a (h.allKeyed_iff.1 hall a ha)).2 hbelongs
      obtain ⟨b, k, hselect, hbest⟩ := exists_best missing hall ha hkey
      have hne : a ≠ b := by
        rintro rfl
        exact hbad (hgood a hselect)
      exact ⟨b, hbest.mem, hgood b hselect, hbest.outranks ha hkey hne⟩
    · exact Or.inl hall
  · rintro hfine a hselect
    obtain ⟨hall, key, hbest⟩ := select_eq_ok_iff.1 hselect
    have hbelongs := (h.belongs a (h.allKeyed_iff.1 hall a hbest.mem)).1 ⟨key, hbest.keyed⟩
    by_contra hbad
    obtain ⟨b, hb, -, hrank⟩ := hfine.resolve_left (not_not.2 hall) a hbest.mem hbelongs hbad
    exact hbest.not_outranks hb hrank

end Describes

end AgentCluster.Library
