import Mathlib.Logic.Function.Basic
import Mathlib.Tactic.SplitIfs

/-!
# Threads and a lock

Threads that are each in a phase of what they do, and a lock that one of them may hold. Some phases
are those between taking the lock and giving it back; `Exclusive` says that the thread in such a phase
is the one that holds the lock. Moving on (`goto`), taking the lock (`acquire`) and giving it back
(`release`) keep it, if the phases are as they should be.
-/

set_option autoImplicit false

namespace AgentCluster.Library

/-- A lock and the phases of threads. -/
structure Guarded (θ φ : Type) where
  lock : Option θ
  phase : θ → φ

namespace Guarded

variable {θ φ : Type} [DecidableEq θ]

def goto (g : Guarded θ φ) (t : θ) (p : φ) : Guarded θ φ :=
  { g with phase := Function.update g.phase t p }

def acquire (g : Guarded θ φ) (t : θ) (p : φ) : Guarded θ φ := ⟨some t, Function.update g.phase t p⟩

def release (g : Guarded θ φ) (t : θ) (p : φ) : Guarded θ φ := ⟨none, Function.update g.phase t p⟩

/-- The threads inside are those that hold the lock. -/
def Exclusive (inside : φ → Bool) (g : Guarded θ φ) : Prop :=
  ∀ t, inside (g.phase t) = true ↔ g.lock = some t

section Lemmas

variable {inside : φ → Bool} {g : Guarded θ φ} {t : θ} {p : φ}

omit [DecidableEq θ] in
/-- No two threads are inside. -/
theorem Exclusive.unique (h : g.Exclusive inside) {u : θ} (ht : inside (g.phase t) = true)
    (hu : inside (g.phase u) = true) : t = u :=
  Option.some.inj (((h t).1 ht).symm.trans ((h u).1 hu))

omit [DecidableEq θ] in
/-- The lock is free when nobody is inside. -/
theorem Exclusive.free (h : g.Exclusive inside) (hout : ∀ u, inside (g.phase u) = false) :
    g.lock = none := by
  cases hlock : g.lock with
  | none => rfl
  | some u =>
    have hin := (h u).2 hlock
    rw [hout u] at hin
    cases hin

theorem phase_goto (u : θ) : (g.goto t p).phase u = if u = t then p else g.phase u :=
  Function.update_apply g.phase t p u

theorem phase_acquire (u : θ) : (g.acquire t p).phase u = if u = t then p else g.phase u :=
  Function.update_apply g.phase t p u

theorem phase_release (u : θ) : (g.release t p).phase u = if u = t then p else g.phase u :=
  Function.update_apply g.phase t p u

theorem Exclusive.goto (h : g.Exclusive inside) (hp : inside p = inside (g.phase t)) :
    (g.goto t p).Exclusive inside := by
  intro u
  rw [phase_goto]
  split_ifs with hu
  · subst hu
    rw [hp]
    exact h u
  · exact h u

theorem Exclusive.acquire (h : g.Exclusive inside) (hfree : g.lock = none) (hp : inside p = true) :
    (g.acquire t p).Exclusive inside := by
  intro u
  rw [phase_acquire]
  split_ifs with hu
  · subst hu
    exact iff_of_true hp rfl
  · refine iff_of_false ?_ ?_
    · rw [h u, hfree]
      exact fun hnone => nomatch hnone
    · intro hsome
      exact hu (Option.some.inj hsome).symm

theorem Exclusive.release (h : g.Exclusive inside) (ht : inside (g.phase t) = true)
    (hp : inside p = false) : (g.release t p).Exclusive inside := by
  intro u
  rw [phase_release]
  refine iff_of_false ?_ fun hnone => nomatch hnone
  split_ifs with hu
  · rw [hp]
    exact Bool.false_ne_true
  · exact fun hin => hu (h.unique hin ht)

end Lemmas

end Guarded

end AgentCluster.Library
