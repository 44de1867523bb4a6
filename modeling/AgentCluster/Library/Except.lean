import Mathlib.Data.List.Basic

/-!
# Computations that can raise

What is known when a computation in `Except` has returned. A sequence returns when both of its parts do
(`bind_eq_ok_iff`). A loop and a pass over a list return when each of their steps does, with the result
of the steps without their errors (`foldlM_eq_ok_iff`, `mapM_eq_ok_iff`).
-/

set_option autoImplicit false

namespace AgentCluster.Library

universe u v w

variable {ε : Type u} {α : Type w} {β : Type v}

theorem bind_eq_ok_iff {γ : Type v} (x : Except ε γ) (f : γ → Except ε β) (b : β) :
    (x >>= f) = .ok b ↔ ∃ c, x = .ok c ∧ f c = .ok b := by
  cases x with
  | error e =>
    refine iff_of_false (fun h => by cases h) ?_
    rintro ⟨c, hc, -⟩
    cases hc
  | ok c =>
    constructor
    · intro h
      exact ⟨c, rfl, h⟩
    · rintro ⟨c', hc, h⟩
      cases hc
      exact h

/-- A loop whose step returns exactly where `P` holds, with the result of `g`. -/
theorem foldlM_eq_ok_iff {f : β → α → Except ε β} {P : α → Prop} {g : β → α → β}
    (h : ∀ b a b', f b a = .ok b' ↔ P a ∧ b' = g b a) (as : List α) (b b' : β) :
    as.foldlM f b = .ok b' ↔ (∀ a ∈ as, P a) ∧ b' = as.foldl g b := by
  induction as generalizing b with
  | nil => exact ⟨fun hok => ⟨by simp, (Except.ok.inj hok).symm⟩, fun hok => hok.2 ▸ rfl⟩
  | cons a as ih =>
    simp only [List.foldlM_cons, bind_eq_ok_iff, h, ih, List.forall_mem_cons, List.foldl_cons]
    constructor
    · rintro ⟨c, ⟨ha, rfl⟩, has, rfl⟩
      exact ⟨⟨ha, has⟩, rfl⟩
    · rintro ⟨⟨ha, has⟩, rfl⟩
      exact ⟨_, ⟨ha, rfl⟩, has, rfl⟩

/-- A pass over a list with such a step. -/
theorem mapM_eq_ok_iff {f : α → Except ε β} {P : α → Prop} {g : α → β}
    (h : ∀ a b, f a = .ok b ↔ P a ∧ b = g a) (as : List α) (bs : List β) :
    as.mapM f = .ok bs ↔ (∀ a ∈ as, P a) ∧ bs = as.map g := by
  induction as generalizing bs with
  | nil => exact ⟨fun hok => ⟨by simp, (Except.ok.inj hok).symm⟩, fun hok => hok.2 ▸ rfl⟩
  | cons a as ih =>
    simp only [List.mapM_cons, bind_eq_ok_iff, h, ih, List.forall_mem_cons, List.map_cons]
    constructor
    · rintro ⟨b, ⟨ha, rfl⟩, rest, ⟨has, rfl⟩, hok⟩
      exact ⟨⟨ha, has⟩, (Except.ok.inj hok).symm⟩
    · rintro ⟨⟨ha, has⟩, rfl⟩
      exact ⟨_, ⟨ha, rfl⟩, _, ⟨has, rfl⟩, rfl⟩

end AgentCluster.Library
