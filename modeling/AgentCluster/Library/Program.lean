import AgentCluster.Library.Machine
import Mathlib.Data.List.Basic

/-!
# Programs of atomic steps

A program of several atomic steps over a shared state, as a tree: each step changes the state and
chooses how to go on from what it read. `Program.run` runs a program with nothing in between;
`Pool.step` interleaves the steps of any number of running programs.

`Program.Meets R Q pre p` is a rely-guarantee judgement: started in a state that satisfies `pre`,
with other programs making `R` steps in between, every step of `p` satisfies `Q`. A pool in which
every program meets its specification keeps doing so (`Pool.Sound.step`).
-/

set_option autoImplicit false

namespace AgentCluster.Library

/-- A program of atomic steps: `next` sees the state before the step. -/
inductive Program (σ ε α : Type) where
  | ret (a : α)
  | raise (e : ε)
  | atomic (act : σ → σ) (next : σ → Program σ ε α)

namespace Program

variable {σ ε α β γ : Type}

/-- One statement: it returns a value and the state after it. -/
def exec (f : σ → β × σ) (k : β → Program σ ε α) : Program σ ε α :=
  .atomic (fun s => (f s).2) fun s => k (f s).1

/-- The program run alone. -/
def run : Program σ ε α → σ → Except ε α × σ
  | .ret a, s => (.ok a, s)
  | .raise e, s => (.error e, s)
  | .atomic act next, s => run (next s) (act s)

/-- The result of a finished program. -/
def outcome : Program σ ε α → Option (Except ε α)
  | .ret a => some (.ok a)
  | .raise e => some (.error e)
  | .atomic .. => none

def map (f : α → β) : Program σ ε α → Program σ ε β
  | .ret a => .ret (f a)
  | .raise e => .raise e
  | .atomic act next => .atomic act fun s => map f (next s)

theorem map_exec (g : α → γ) (f : σ → β × σ) (k : β → Program σ ε α) :
    map g (exec f k) = exec f fun b => map g (k b) := rfl

theorem run_exec (f : σ → β × σ) (k : β → Program σ ε α) (s : σ) :
    run (exec f k) s = run (k (f s).1) (f s).2 := rfl

theorem run_map (f : α → β) (p : Program σ ε α) (s : σ) :
    (map f p).run s = ((p.run s).1.map f, (p.run s).2) := by
  induction p generalizing s with
  | ret a => rfl
  | raise e => rfl
  | atomic act next ih => exact ih s (act s)

/-- Every step of the program, taken in a state the rely `R` allows, satisfies `Q` of the state
before it, the result if it was the last step, and the state after it. -/
def Meets (R : σ → σ → Prop) (Q : σ → Option (Except ε α) → σ → Prop) :
    (σ → Prop) → Program σ ε α → Prop
  | _, .ret _ => True
  | _, .raise _ => True
  | pre, .atomic act next =>
      ∀ s, pre s → Q s (next s).outcome (act s) ∧ Meets R Q (R (act s)) (next s)

theorem meets_ret {R : σ → σ → Prop} {Q : σ → Option (Except ε α) → σ → Prop} {pre : σ → Prop}
    (a : α) : Meets R Q pre (.ret a) := trivial

theorem meets_raise {R : σ → σ → Prop} {Q : σ → Option (Except ε α) → σ → Prop} {pre : σ → Prop}
    (e : ε) : Meets R Q pre (.raise e : Program σ ε α) := trivial

theorem meets_exec {R : σ → σ → Prop} {Q : σ → Option (Except ε α) → σ → Prop} {pre : σ → Prop}
    {f : σ → β × σ} {k : β → Program σ ε α}
    (h : ∀ s, pre s → Q s (k (f s).1).outcome (f s).2 ∧ Meets R Q (R (f s).2) (k (f s).1)) :
    Meets R Q pre (exec f k) := h

end Program

/-- A weaker guarantee. -/
theorem Program.Meets.mono {σ ε α : Type} {R : σ → σ → Prop}
    {Q Q' : σ → Option (Except ε α) → σ → Prop} (hQ : ∀ s o t, Q s o t → Q' s o t)
    {p : Program σ ε α} {pre : σ → Prop} (h : Program.Meets R Q pre p) :
    Program.Meets R Q' pre p := by
  induction p generalizing pre with
  | ret a => trivial
  | raise e => trivial
  | atomic act next ih =>
    intro s hs
    obtain ⟨hnow, hlater⟩ := h s hs
    exact ⟨hQ _ _ _ hnow, ih s hlater⟩

/-- The rule of consequence: others may do less, more is known at first, and less is promised. -/
theorem Program.Meets.conseq {σ ε α : Type} {R R' : σ → σ → Prop}
    {Q Q' : σ → Option (Except ε α) → σ → Prop} (hR : ∀ s t, R' s t → R s t)
    (hQ : ∀ s o t, Q s o t → Q' s o t) {p : Program σ ε α} {pre pre' : σ → Prop}
    (hpre : ∀ s, pre' s → pre s) (h : Program.Meets R Q pre p) : Program.Meets R' Q' pre' p := by
  induction p generalizing pre pre' with
  | ret a => trivial
  | raise e => trivial
  | atomic act next ih =>
    intro s hs
    obtain ⟨hnow, hlater⟩ := h s (hpre s hs)
    exact ⟨hQ _ _ _ hnow, ih s (fun t ht => hR (act s) t ht) hlater⟩

/-- A precondition that the rely keeps holds at every step. -/
theorem Program.Meets.frame {σ ε α : Type} {R : σ → σ → Prop}
    {Q : σ → Option (Except ε α) → σ → Prop} {X : σ → Prop}
    (hX : ∀ s t, X s → R s t → X t) (hguar : ∀ s o t, Q s o t → R s t) {p : Program σ ε α}
    {pre : σ → Prop} (hpre : ∀ s, pre s → X s) (h : Program.Meets R Q pre p) :
    Program.Meets R (fun s o t => Q s o t ∧ X s) pre p := by
  induction p generalizing pre with
  | ret a => trivial
  | raise e => trivial
  | atomic act next ih =>
    intro s hs
    obtain ⟨hnow, hlater⟩ := h s hs
    have hact : X (act s) := hX s (act s) (hpre s hs) (hguar _ _ _ hnow)
    exact ⟨⟨hnow, hpre s hs⟩, ih s (fun t ht => hX (act s) t hact ht) hlater⟩

/-! ## Pools -/

/-- Running programs over a shared state, each with the call it carries out, and the results of the
calls that have finished, in order. -/
structure Pool (σ ε α κ : Type) where
  state : σ
  running : List (κ × Program σ ε α)
  answers : List (κ × Except ε α)

/-- A call begins, or a running call takes its next atomic step. -/
inductive PoolAction (κ : Type) where
  | begin (call : κ)
  | advance (i : Nat)

namespace Pool

variable {σ ε α κ : Type} (program : κ → Program σ ε α)

/-- No call yet. -/
def initial (s : σ) : Pool σ ε α κ := ⟨s, [], []⟩

/-- A call finishes with its last step. -/
def step (P : Pool σ ε α κ) : PoolAction κ → Option (Pool σ ε α κ)
  | .begin call => some { P with running := P.running ++ [(call, program call)] }
  | .advance i =>
      match P.running[i]? with
      | some (call, .atomic act next) =>
          some <|
            match (next P.state).outcome with
            | some result =>
                { state := act P.state
                  running := P.running.eraseIdx i
                  answers := P.answers ++ [(call, result)] }
            | none =>
                { P with
                  state := act P.state
                  running := P.running.set i (call, next P.state) }
      | _ => none

variable {program}

/-- The pool after the first atomic step of the program at `i` has left it at `p`. -/
def afterStep (P : Pool σ ε α κ) (i : Nat) (call : κ) (s : σ) (p : Program σ ε α) : Pool σ ε α κ :=
  match p.outcome with
  | some result =>
      { state := s
        running := P.running.eraseIdx i
        answers := P.answers ++ [(call, result)] }
  | none =>
      { P with
        state := s
        running := P.running.set i (call, p) }

/-- What a step is. -/
theorem step_cases {P P' : Pool σ ε α κ} {a : PoolAction κ} (h : step program P a = some P') :
    (∃ call, a = .begin call ∧ P' = { P with running := P.running ++ [(call, program call)] }) ∨
      ∃ i call act next, a = .advance i ∧ P.running[i]? = some (call, .atomic act next) ∧
        P' = P.afterStep i call (act P.state) (next P.state) := by
  cases a with
  | begin call =>
    cases h
    exact Or.inl ⟨call, rfl, rfl⟩
  | advance i =>
    simp only [step] at h
    split at h
    · next call act next hi =>
      refine Or.inr ⟨i, call, act, next, rfl, hi, ?_⟩
      rw [afterStep]
      exact (Option.some.inj h).symm
    · cases h

theorem afterStep_answered {P : Pool σ ε α κ} {i : Nat} {call : κ} {s : σ} {p : Program σ ε α}
    {result : Except ε α} (h : p.outcome = some result) :
    P.afterStep i call s p =
      { state := s
        running := P.running.eraseIdx i
        answers := P.answers ++ [(call, result)] } := by
  rw [afterStep, h]

theorem afterStep_running {P : Pool σ ε α κ} {i : Nat} {call : κ} {s : σ} {p : Program σ ε α}
    (h : p.outcome = none) :
    P.afterStep i call s p =
      { P with
        state := s
        running := P.running.set i (call, p) } := by
  rw [afterStep, h]

theorem step_exec {β : Type} {P : Pool σ ε α κ} {i : Nat} {call : κ} {f : σ → β × σ}
    {k : β → Program σ ε α} (hi : P.running[i]? = some (call, Program.exec f k)) :
    step program P (.advance i) = some (P.afterStep i call (f P.state).2 (k (f P.state).1)) := by
  rw [step, hi, afterStep]
  rfl

/-- The last statement of a program answers its call. -/
theorem answers_of_last {β : Type} {P P' : Pool σ ε α κ} {i : Nat} {call : κ} {f : σ → β × σ}
    {k : β → Program σ ε α} {result : Except ε α}
    (hi : P.running[i]? = some (call, Program.exec f k))
    (hlast : (k (f P.state).1).outcome = some result)
    (h : step program P (.advance i) = some P') : P'.answers = P.answers ++ [(call, result)] := by
  rcases step_cases h with ⟨_, hbegin, -⟩ | ⟨j, call', act, next, hj, hi', rfl⟩
  · cases hbegin
  · cases hj
    rw [hi] at hi'
    cases hi'
    rw [afterStep_answered hlast]

/-- No answer is taken back. -/
theorem answers_of_step {P P' : Pool σ ε α κ} {a : PoolAction κ} (h : step program P a = some P') :
    P.answers <+: P'.answers := by
  rcases step_cases h with ⟨call, -, rfl⟩ | ⟨i, call, act, next, -, -, rfl⟩
  · exact List.prefix_rfl
  · cases ho : (next P.state).outcome with
    | some result =>
      rw [afterStep_answered ho]
      exact List.prefix_append _ _
    | none =>
      have hsame : (P.afterStep i call (act P.state) (next P.state)).answers = P.answers := by
        rw [afterStep_running ho]
      exact hsame ▸ List.prefix_rfl

/-- Every running program meets the specification of its call. -/
def Sound (R : σ → σ → Prop) (Q : κ → σ → Option (Except ε α) → σ → Prop) (P : Pool σ ε α κ) :
    Prop :=
  ∀ cp ∈ P.running, ∃ pre : σ → Prop,
    pre P.state ∧ (∀ s t, pre s → R s t → pre t) ∧ Program.Meets R (Q cp.1) pre cp.2

section Sound

variable {R : σ → σ → Prop} {Q : κ → σ → Option (Except ε α) → σ → Prop}

theorem sound_initial (s : σ) : Sound R Q (initial s : Pool σ ε α κ) := by
  intro cp hcp
  cases hcp

/-- What a step of a pool does: a call begins, or a call takes a step as specified, which is its last
step exactly when it answers. -/
theorem step_spec (hrefl : ∀ s, R s s) (htrans : ∀ r s t, R r s → R s t → R r t)
    (hguar : ∀ call s o t, Q call s o t → R s t) {P P' : Pool σ ε α κ} {a : PoolAction κ}
    (h : step program P a = some P') (hsound : Sound R Q P)
    (hbegin : ∀ call, a = .begin call → ∃ pre : σ → Prop,
      pre P.state ∧ (∀ s t, pre s → R s t → pre t) ∧ Program.Meets R (Q call) pre (program call)) :
    Sound R Q P' ∧
      ((P'.state = P.state ∧ P'.answers = P.answers) ∨
        ∃ cp ∈ P.running, ∃ o, Q cp.1 P.state o P'.state ∧
          P'.answers = P.answers ++ (o.map fun result => (cp.1, result)).toList) := by
  rcases step_cases h with ⟨call, rfl, rfl⟩ | ⟨i, call, act, next, -, hi, rfl⟩
  · refine ⟨?_, Or.inl ⟨rfl, rfl⟩⟩
    intro cp hcp
    rcases List.mem_append.1 hcp with hcp | hcp
    · exact hsound cp hcp
    · obtain rfl := List.mem_singleton.1 hcp
      exact hbegin call rfl
  · have hmem : (call, .atomic act next) ∈ P.running := List.mem_of_getElem? hi
    obtain ⟨pre, hpre, -, hmeets⟩ := hsound _ hmem
    obtain ⟨hQ, hnext⟩ := hmeets P.state hpre
    have hR : R P.state (act P.state) := hguar _ _ _ _ hQ
    -- The other programs' preconditions survive the step, by the rely.
    have hothers : ∀ cp ∈ P.running, ∃ pre : σ → Prop, pre (act P.state) ∧
        (∀ s t, pre s → R s t → pre t) ∧ Program.Meets R (Q cp.1) pre cp.2 := by
      intro cp hcp
      obtain ⟨pre', hpre', hstable, hmeets'⟩ := hsound cp hcp
      exact ⟨pre', hstable _ _ hpre' hR, hstable, hmeets'⟩
    cases ho : (next P.state).outcome with
    | some result =>
      rw [afterStep_answered ho]
      rw [ho] at hQ
      refine ⟨?_, Or.inr ⟨_, hmem, some result, hQ, rfl⟩⟩
      intro cp hcp
      exact hothers cp (List.mem_of_mem_eraseIdx hcp)
    | none =>
      rw [afterStep_running ho]
      rw [ho] at hQ
      refine ⟨?_, Or.inr ⟨_, hmem, none, hQ, (List.append_nil _).symm⟩⟩
      intro cp hcp
      rcases List.mem_or_eq_of_mem_set hcp with hcp | rfl
      · exact hothers cp hcp
      · exact ⟨R (act P.state), hrefl _, fun s t hs hst => htrans _ s t hs hst, hnext⟩

end Sound

end Pool

end AgentCluster.Library
