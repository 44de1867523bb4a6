import AgentCluster.Library.Program

/-!
# Scripts of calls to a device

A script is a sequential program whose only effects are calls to a device; what the device does with
a call is given apart from it. A script can be run, its calls can be listed (`Script.trace`), and it
can be made a `Program` whose atomic steps are the calls, to be interleaved with others.
-/

set_option autoImplicit false

namespace AgentCluster.Library

/-- A program whose steps are the calls `op`, each answered by a `Res op`. -/
inductive Script (Op : Type) (Res : Op → Type) (ε α : Type) where
  | ret (a : α)
  | raise (e : ε)
  | call (op : Op) (next : Res op → Script Op Res ε α)

namespace Script

variable {Op : Type} {Res : Op → Type} {σ ε α β : Type}

def bind : Script Op Res ε α → (α → Script Op Res ε β) → Script Op Res ε β
  | .ret a, k => k a
  | .raise e, _ => .raise e
  | .call op next, k => .call op fun r => bind (next r) k

instance : Monad (Script Op Res ε) where
  pure := .ret
  bind := bind

/-- One call, and its answer. -/
def perform (op : Op) : Script Op Res ε (Res op) := .call op .ret

/-- A result computed without a call. -/
def ofExcept : Except ε α → Script Op Res ε α
  | .ok a => .ret a
  | .error e => .raise e

@[simp]
theorem pure_eq (a : α) : (pure a : Script Op Res ε α) = .ret a := rfl

@[simp]
theorem ret_bind (a : α) (k : α → Script Op Res ε β) : (.ret a >>= k) = k a := rfl

@[simp]
theorem call_bind (op : Op) (next : Res op → Script Op Res ε α) (k : α → Script Op Res ε β) :
    (.call op next >>= k) = .call op fun r => next r >>= k := rfl

@[simp]
theorem ofExcept_ok (a : α) : (ofExcept (.ok a) : Script Op Res ε α) = .ret a := rfl

section Run

variable (device : (op : Op) → σ → Except ε (Res op) × σ)

/-- The script run alone. An error of the device ends it. -/
def run : Script Op Res ε α → σ → Except ε α × σ
  | .ret a, s => (.ok a, s)
  | .raise e, s => (.error e, s)
  | .call op next, s =>
      match (device op s).1 with
      | .ok r => run (next r) (device op s).2
      | .error e => (.error e, (device op s).2)

/-- The calls the script makes when it is run alone. -/
def trace : Script Op Res ε α → σ → List Op
  | .ret _, _ => []
  | .raise _, _ => []
  | .call op next, s =>
      op ::
        match (device op s).1 with
        | .ok r => trace (next r) (device op s).2
        | .error _ => []

/-- The script with its calls as atomic steps. -/
def program : Script Op Res ε α → Program σ ε α
  | .ret a => .ret a
  | .raise e => .raise e
  | .call op next =>
      Program.exec (device op) fun
        | .ok r => program (next r)
        | .error e => .raise e

variable {device}

@[simp]
theorem run_ret (a : α) (s : σ) : run device (.ret a) s = (.ok a, s) := rfl

theorem run_perform (op : Op) (s : σ) : run device (perform op) s = device op s := by
  rw [perform, run]
  obtain ⟨r, s'⟩ := device op s
  cases r <;> rfl

theorem run_ofExcept (r : Except ε α) (s : σ) :
    run device (ofExcept r : Script Op Res ε α) s = (r, s) := by
  cases r <;> rfl

/-- A sequence runs its first part, and the rest from where that left the state. -/
theorem run_bind (p : Script Op Res ε α) (k : α → Script Op Res ε β) (s : σ) :
    run device (p >>= k) s =
      match run device p s with
      | (.ok a, s') => run device (k a) s'
      | (.error e, s') => (.error e, s') := by
  induction p generalizing s with
  | ret a => rfl
  | raise e => rfl
  | call op next ih =>
    rw [call_bind, run, run]
    cases (device op s).1 with
    | ok r => exact ih r _
    | error e => rfl

theorem run_bind_ok {p : Script Op Res ε α} {s s' : σ} {a : α} (h : run device p s = (.ok a, s'))
    (k : α → Script Op Res ε β) : run device (p >>= k) s = run device (k a) s' := by
  rw [run_bind, h]

theorem run_bind_error {p : Script Op Res ε α} {s s' : σ} {e : ε}
    (h : run device p s = (.error e, s')) (k : α → Script Op Res ε β) :
    run device (p >>= k) s = (.error e, s') := by
  rw [run_bind, h]

/-- The calls of a sequence are those of its first part and then those of the rest. -/
theorem trace_bind (p : Script Op Res ε α) (k : α → Script Op Res ε β) (s : σ) :
    trace device (p >>= k) s =
      trace device p s ++
        match run device p s with
        | (.ok a, s') => trace device (k a) s'
        | (.error _, _) => [] := by
  induction p generalizing s with
  | ret a => rfl
  | raise e => rfl
  | call op next ih =>
    rw [call_bind, trace, trace, run]
    cases (device op s).1 with
    | ok r => exact congrArg (op :: ·) (ih r _)
    | error e => rfl

theorem map_eq (f : α → β) (p : Script Op Res ε α) : f <$> p = p >>= fun a => .ret (f a) := rfl

theorem trace_map (f : α → β) (p : Script Op Res ε α) (s : σ) :
    trace device (f <$> p) s = trace device p s := by
  rw [map_eq, trace_bind]
  obtain ⟨r, s'⟩ := run device p s
  cases r <;> exact List.append_nil _

theorem run_map (f : α → β) (p : Script Op Res ε α) (s : σ) :
    run device (f <$> p) s = ((run device p s).1.map f, (run device p s).2) := by
  rw [map_eq, run_bind]
  obtain ⟨r, s'⟩ := run device p s
  cases r <;> rfl

/-- The result of the script run alone. -/
def answer (device : (op : Op) → σ → Except ε (Res op) × σ) (p : Script Op Res ε α) (s : σ) :
    Except ε α := (run device p s).1

/-- The script leaves the state as it is. -/
def Reads (device : (op : Op) → σ → Except ε (Res op) × σ) (p : Script Op Res ε α) : Prop :=
  ∀ s, (run device p s).2 = s

theorem Reads.run {p : Script Op Res ε α} (h : Reads device p) (s : σ) :
    p.run device s = (p.answer device s, s) := Prod.ext rfl (h s)

theorem reads_ofExcept (r : Except ε α) : Reads device (ofExcept r : Script Op Res ε α) := by
  intro s
  rw [run_ofExcept]

theorem answer_ofExcept (r : Except ε α) (s : σ) :
    answer device (ofExcept r : Script Op Res ε α) s = r := by
  rw [answer, run_ofExcept]

theorem reads_ret (a : α) : Reads device (.ret a : Script Op Res ε α) := fun _ => rfl

theorem reads_raise (e : ε) : Reads device (.raise e : Script Op Res ε α) := fun _ => rfl

theorem reads_perform {op : Op} (h : ∀ s, (device op s).2 = s) :
    Reads device (perform op : Script Op Res ε (Res op)) := by
  intro s
  rw [run_perform, h]

theorem answer_perform (op : Op) (s : σ) :
    answer device (perform op : Script Op Res ε (Res op)) s = (device op s).1 := by
  rw [answer, run_perform]

theorem Reads.bind {p : Script Op Res ε α} {k : α → Script Op Res ε β} (hp : Reads device p)
    (hk : ∀ a, Reads device (k a)) : Reads device (p >>= k) := by
  intro s
  rw [run_bind, hp.run]
  cases p.answer device s with
  | ok a => exact hk a s
  | error e => rfl

/-- After a script that only reads, the rest runs on the state it read. -/
theorem Reads.run_bind {p : Script Op Res ε α} (h : Reads device p) (k : α → Script Op Res ε β)
    (s : σ) :
    Script.run device (p >>= k) s =
      match p.answer device s with
      | .ok a => Script.run device (k a) s
      | .error e => (.error e, s) := by
  rw [Script.run_bind, h.run]
  cases p.answer device s <;> rfl

theorem Reads.answer_bind {p : Script Op Res ε α} (h : Reads device p)
    (k : α → Script Op Res ε β) (s : σ) :
    answer device (p >>= k) s = (p.answer device s).bind fun a => (k a).answer device s := by
  rw [answer, h.run_bind]
  cases p.answer device s <;> rfl

/-- Two states in which the first part and every continuation answer alike. -/
theorem Reads.answer_congr {p : Script Op Res ε α} (h : Reads device p)
    {k : α → Script Op Res ε β} {s s' : σ} (hp : p.answer device s' = p.answer device s)
    (hk : ∀ a, (k a).answer device s' = (k a).answer device s) :
    (p >>= k).answer device s' = (p >>= k).answer device s := by
  rw [h.answer_bind, h.answer_bind, hp]
  exact congrArg _ (funext hk)

theorem answer_congr_ofExcept {r : Except ε α} {k : α → Script Op Res ε β} {s s' : σ}
    (hk : ∀ a, (k a).answer device s' = (k a).answer device s) :
    (ofExcept r >>= k).answer device s' = (ofExcept r >>= k).answer device s := by
  apply (reads_ofExcept r).answer_congr _ hk
  rw [answer_ofExcept, answer_ofExcept]

theorem Reads.trace_bind {p : Script Op Res ε α} (h : Reads device p) (k : α → Script Op Res ε β)
    (s : σ) :
    trace device (p >>= k) s =
      trace device p s ++
        match p.answer device s with
        | .ok a => trace device (k a) s
        | .error _ => [] := by
  rw [Script.trace_bind, h.run]
  cases p.answer device s <;> rfl

/-- Every call the script can make satisfies `Q`, whatever it is answered. -/
def Calls (Q : Op → Prop) : Script Op Res ε α → Prop
  | .ret _ => True
  | .raise _ => True
  | .call op next => Q op ∧ ∀ r, Calls Q (next r)

theorem calls_ofExcept {Q : Op → Prop} (r : Except ε α) :
    Calls Q (ofExcept r : Script Op Res ε α) := by
  cases r <;> trivial

theorem calls_perform {Q : Op → Prop} {op : Op} (h : Q op) :
    Calls Q (perform op : Script Op Res ε (Res op)) := ⟨h, fun _ => trivial⟩

theorem Calls.bind {Q : Op → Prop} {p : Script Op Res ε α} {k : α → Script Op Res ε β}
    (hp : Calls Q p) (hk : ∀ a, Calls Q (k a)) : Calls Q (p >>= k) := by
  induction p with
  | ret a => exact hk a
  | raise e => trivial
  | call op next ih => exact ⟨hp.1, fun r => ih r (hp.2 r)⟩

/-- A run makes no other calls. -/
theorem Calls.trace {Q : Op → Prop} {p : Script Op Res ε α} (h : Calls Q p) (s : σ) :
    ∀ op ∈ p.trace device s, Q op := by
  induction p generalizing s with
  | ret a => exact fun op hop => absurd hop List.not_mem_nil
  | raise e => exact fun op hop => absurd hop List.not_mem_nil
  | call op next ih =>
    rw [Script.trace, List.forall_mem_cons]
    refine ⟨h.1, ?_⟩
    cases (device op s).1 with
    | ok r => exact ih r (h.2 r) _
    | error e => exact fun op hop => absurd hop List.not_mem_nil

/-- The first thing the script does is the call. -/
def Starts (op : Op) (p : Script Op Res ε α) : Prop := ∃ next, p = .call op next

theorem starts_perform (op : Op) : Starts op (perform op : Script Op Res ε (Res op)) :=
  ⟨.ret, rfl⟩

theorem Starts.bind {op : Op} {p : Script Op Res ε α} (h : Starts op p)
    (k : α → Script Op Res ε β) : Starts op (p >>= k) := by
  obtain ⟨next, rfl⟩ := h
  exact ⟨fun r => next r >>= k, rfl⟩

theorem Starts.mem_trace {op : Op} {p : Script Op Res ε α} (h : Starts op p) (s : σ) :
    op ∈ p.trace device s := by
  obtain ⟨next, rfl⟩ := h
  rw [trace]
  exact List.mem_cons_self

theorem program_call (op : Op) (next : Res op → Script Op Res ε α) :
    program device (.call op next) =
      Program.exec (device op) fun r =>
        match r with
        | .ok x => program device (next x)
        | .error e => .raise e := by
  rw [program]

theorem outcome_program_call (op : Op) (next : Res op → Script Op Res ε α) :
    (program device (.call op next)).outcome = none := by
  rw [program_call]
  rfl

/-- A running script makes its next call. -/
theorem step_call {κ : Type} {program' : κ → Program σ ε α} {P : Pool σ ε α κ} {i : Nat} {call : κ}
    {op : Op} {next : Res op → Script Op Res ε α} {s : σ} {x : Res op}
    (hi : P.running[i]? = some (call, program device (.call op next)))
    (hrun : device op P.state = (.ok x, s)) :
    Pool.step program' P (.advance i) =
      some (P.afterStep i call s (program device (next x))) := by
  rw [program_call] at hi
  rw [Pool.step_exec hi, hrun]

end Run

end Script

end AgentCluster.Library
