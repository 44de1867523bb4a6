import Mathlib.Init

/-!
# Partial step machines

A machine is a partial step function: `none` is an action that is not enabled. A run is a list of
actions all of which are enabled in turn. Invariants are proved of one step and hold of every run;
`Along C` says that every step of a run meets the condition `C`, which may look at the state before
the step and at the action.
-/

set_option autoImplicit false

namespace AgentCluster.Library.Machine

universe u v

variable {σ : Type u} {α : Type v} (step : σ → α → Option σ)

/-- The state after a list of actions, if each is enabled in turn. -/
def run : σ → List α → Option σ
  | s, [] => some s
  | s, a :: as => (step s a).bind fun t => run t as

/-- Every step of the run meets `C`. -/
def Along (C : σ → α → Prop) : σ → List α → Prop
  | _, [] => True
  | s, a :: as => C s a ∧ ∀ t, step s a = some t → Along C t as

variable {step}

theorem run_cons {s t : σ} {a : α} {as : List α} :
    run step s (a :: as) = some t ↔ ∃ r, step s a = some r ∧ run step r as = some t := by
  rw [run, Option.bind_eq_some_iff]

theorem run_of_step {s r t : σ} {a : α} {as : List α} (hstep : step s a = some r)
    (hrun : run step r as = some t) : run step s (a :: as) = some t := run_cons.2 ⟨r, hstep, hrun⟩

theorem run_append {s t : σ} {as bs : List α} :
    run step s (as ++ bs) = some t ↔ ∃ r, run step s as = some r ∧ run step r bs = some t := by
  induction as generalizing s with
  | nil => simp [run]
  | cons a as ih =>
    rw [List.cons_append, run_cons]
    constructor
    · rintro ⟨r, hr, hrun⟩
      obtain ⟨q, hq, hrest⟩ := ih.1 hrun
      exact ⟨q, run_cons.2 ⟨r, hr, hq⟩, hrest⟩
    · rintro ⟨q, hq, hrest⟩
      obtain ⟨r, hr, hrun⟩ := run_cons.1 hq
      exact ⟨r, hr, ih.2 ⟨q, hrun, hrest⟩⟩

/-- What one step preserves, a run preserves, when every step meets `C`. -/
theorem run_induct_along {I : σ → Prop} {C : σ → α → Prop}
    (hstep : ∀ s a t, I s → C s a → step s a = some t → I t) {s t : σ} {as : List α} (hs : I s)
    (hC : Along step C s as) (h : run step s as = some t) : I t := by
  induction as generalizing s with
  | nil =>
    cases h
    exact hs
  | cons a as ih =>
    obtain ⟨r, hr, hrun⟩ := run_cons.1 h
    exact ih (hstep s a r hs hC.1 hr) (hC.2 r hr) hrun

theorem along_of_forall {C : σ → α → Prop} {as : List α} (h : ∀ a ∈ as, ∀ s, C s a) (s : σ) :
    Along step C s as := by
  induction as generalizing s with
  | nil => trivial
  | cons a as ih =>
    refine ⟨h a List.mem_cons_self s, ?_⟩
    intro t _
    exact ih (fun b hb => h b (List.mem_cons_of_mem a hb)) t

theorem along_true (s : σ) (as : List α) : Along step (fun _ _ => True) s as :=
  along_of_forall (fun _ _ _ => trivial) s

theorem along_and {C : σ → α → Prop} {D : α → Prop} {s : σ} {as : List α}
    (hC : Along step C s as) (hD : ∀ a ∈ as, D a) : Along step (fun s a => C s a ∧ D a) s as := by
  induction as generalizing s with
  | nil => trivial
  | cons a as ih =>
    refine ⟨⟨hC.1, hD a List.mem_cons_self⟩, ?_⟩
    intro t ht
    exact ih (hC.2 t ht) fun b hb => hD b (List.mem_cons_of_mem a hb)

/-- What an invariant implies of a step holds along every run that keeps it. -/
theorem along_of_invariant {I : σ → Prop} {C : σ → α → Prop} {D : α → Prop}
    (hstep : ∀ s a t, I s → D a → step s a = some t → I t) (hC : ∀ s a, I s → D a → C s a) {s : σ}
    {as : List α} (hs : I s) (hD : ∀ a ∈ as, D a) : Along step C s as := by
  induction as generalizing s with
  | nil => trivial
  | cons a as ih =>
    have ha := hD a List.mem_cons_self
    refine ⟨hC s a hs ha, ?_⟩
    intro t ht
    exact ih (hstep s a t hs ha ht) fun b hb => hD b (List.mem_cons_of_mem a hb)

theorem along_of_step {C : σ → α → Prop} {s r : σ} {a : α} {as : List α} (hC : C s a)
    (hstep : step s a = some r) (hrest : Along step C r as) : Along step C s (a :: as) := by
  refine ⟨hC, ?_⟩
  intro t ht
  obtain rfl : r = t := Option.some.inj (hstep.symm.trans ht)
  exact hrest

theorem along_append {C : σ → α → Prop} {s r : σ} {as bs : List α}
    (hfirst : Along step C s as) (hrun : run step s as = some r) (hrest : Along step C r bs) :
    Along step C s (as ++ bs) := by
  induction as generalizing s with
  | nil =>
    cases hrun
    exact hrest
  | cons a as ih =>
    obtain ⟨q, hq, hrun⟩ := run_cons.1 hrun
    exact along_of_step hfirst.1 hq (ih (hfirst.2 q hq) hrun)

/-- What one step preserves, a run preserves. -/
theorem run_induct {I : σ → Prop} (hstep : ∀ s a t, I s → step s a = some t → I t) {s t : σ}
    {as : List α} (hs : I s) (h : run step s as = some t) : I t :=
  run_induct_along (fun s a t hI _ => hstep s a t hI) hs (along_true s as) h

/-- Conditions that agree on the states of a run hold along the same runs. -/
theorem along_congr {I : σ → Prop} {C D : σ → α → Prop}
    (hstep : ∀ s a t, I s → step s a = some t → I t) (hCD : ∀ s a, I s → (C s a ↔ D s a)) {s : σ}
    (hs : I s) (as : List α) : Along step C s as ↔ Along step D s as := by
  induction as generalizing s with
  | nil => exact Iff.rfl
  | cons a as ih =>
    rw [Along, Along, hCD s a hs]
    apply and_congr_right
    intro _
    apply forall_congr'
    intro t
    apply imp_congr_right
    intro ht
    exact ih (hstep s a t hs ht)

/-! ## Exact conditions -/

/-- What can only be lost held at the start if it holds at the end. -/
theorem run_back {P : σ → Prop} (hback : ∀ s a t, step s a = some t → P t → P s) {s t : σ}
    {as : List α} (h : run step s as = some t) (ht : P t) : P s := by
  induction as generalizing s with
  | nil =>
    cases h
    exact ht
  | cons a as ih =>
    obtain ⟨r, hr, hrun⟩ := run_cons.1 h
    exact hback s a r hr (ih hrun)

/-- If `P` can only be lost, and is lost by a step that violates `C`, then every step of a run that
ends in `P` met `C`. -/
theorem along_of_run {I P : σ → Prop} {C : σ → α → Prop}
    (hstep : ∀ s a t, I s → step s a = some t → I t)
    (hback : ∀ s a t, step s a = some t → P t → P s)
    (hneeds : ∀ s a t, I s → step s a = some t → P t → C s a) {s t : σ} {as : List α}
    (hs : I s) (h : run step s as = some t) (ht : P t) : Along step C s as := by
  induction as generalizing s with
  | nil => trivial
  | cons a as ih =>
    obtain ⟨r, hr, hrun⟩ := run_cons.1 h
    constructor
    · exact hneeds s a r hs hr (run_back hback hrun ht)
    · intro r' hr'
      obtain rfl : r = r' := Option.some.inj (hr.symm.trans hr')
      exact ih (hstep s a r hs hr) hrun

/-- A run keeps `P` exactly when each of its steps meets `C`. `I` holds in any case, and `J` is what
steps that meet `C` preserve. -/
theorem run_iff_along {I J P : σ → Prop} {C : σ → α → Prop}
    (hI : ∀ s a t, I s → step s a = some t → I t)
    (hJ : ∀ s a t, I s → J s → C s a → step s a = some t → J t) (hP : ∀ s, I s → J s → P s)
    (hback : ∀ s a t, step s a = some t → P t → P s)
    (hneeds : ∀ s a t, I s → step s a = some t → P t → C s a) {s t : σ} {as : List α}
    (hIs : I s) (hJs : J s) (h : run step s as = some t) : P t ↔ Along step C s as := by
  constructor
  · exact along_of_run hI hback hneeds hIs h
  · intro hC
    have hboth : I t ∧ J t := by
      refine run_induct_along (I := fun q => I q ∧ J q) ?_ ⟨hIs, hJs⟩ hC h
      rintro q a r ⟨hIq, hJq⟩ hCq hr
      exact ⟨hI q a r hIq hr, hJ q a r hIq hJq hCq hr⟩
    exact hP t hboth.1 hboth.2

/-- Every state of a run satisfies `P` exactly when each of its steps meets `C`. -/
theorem along_iff {I P : σ → Prop} {C : σ → α → Prop}
    (hI : ∀ s a t, I s → step s a = some t → I t)
    (hC : ∀ s a, I s → P s → ((∀ t, step s a = some t → P t) ↔ C s a)) {s : σ} (hIs : I s)
    (hPs : P s) (as : List α) :
    Along step (fun s a => ∀ t, step s a = some t → P t) s as ↔ Along step C s as := by
  induction as generalizing s with
  | nil => exact Iff.rfl
  | cons a as ih =>
    constructor
    · rintro ⟨hkeeps, hrest⟩
      refine ⟨(hC s a hIs hPs).1 hkeeps, ?_⟩
      intro t ht
      exact (ih (hI s a t hIs ht) (hkeeps t ht)).1 (hrest t ht)
    · rintro ⟨hmeets, hrest⟩
      have hkeeps := (hC s a hIs hPs).2 hmeets
      refine ⟨hkeeps, ?_⟩
      intro t ht
      exact (ih (hI s a t hIs ht) (hkeeps t ht)).2 (hrest t ht)

/-! ## Maps between machines -/

section Map

universe w

variable {τ : Type w} {step' : τ → α → Option τ} {f : σ → τ}

/-- A map that commutes with every step commutes with every run. -/
theorem run_map (hf : ∀ s a, (step s a).map f = step' (f s) a) (s : σ) (as : List α) :
    (run step s as).map f = run step' (f s) as := by
  induction as generalizing s with
  | nil => rfl
  | cons a as ih =>
    rw [run, run, ← hf s a]
    cases step s a with
    | none => rfl
    | some t => exact ih t

theorem along_map (hf : ∀ s a, (step s a).map f = step' (f s) a) {C : σ → α → Prop}
    {C' : τ → α → Prop} (hC : ∀ s a, C s a ↔ C' (f s) a) (s : σ) (as : List α) :
    Along step C s as ↔ Along step' C' (f s) as := by
  induction as generalizing s with
  | nil => exact Iff.rfl
  | cons a as ih =>
    rw [Along, Along, hC s a, ← hf s a]
    apply and_congr_right
    intro _
    cases step s a with
    | none => simp
    | some t => simpa using ih t

end Map

end AgentCluster.Library.Machine
