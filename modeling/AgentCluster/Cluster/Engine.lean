import AgentCluster.Cluster.Database
import AgentCluster.Library.Lock
import AgentCluster.Library.Machine

/-!
# One engine for a process

A `Database` holds the engine of a process and the connector behind it. `engine()` builds them on
first use and may be called from any number of threads: it looks whether there is an engine, takes the
lock if there is none, and looks again. `aclose()` disposes of the engine and closes the connector; it
takes no lock.

As long as nobody asks for the engine while the database is being closed, and it is closed only when
nobody is asking, there is one connection pool at a time, whoever asks gets it, and nothing that an
engine was built with is forgotten before it is closed (`engine_run`).
-/

set_option autoImplicit false

namespace AgentCluster.Cluster

open Library

/-- An engine: the number of engines before it, what it was built with, and the connector it connects
through. -/
structure Engine where
  number : Nat
  spec : EngineSpec
  connector : Option Nat
  deriving DecidableEq

namespace Engine

/-- Where a thread is: in `engine()`, up to `leaving`, or in `aclose()`, from `closing` on. -/
inductive Phase where
  | idle
  /-- Before the first look at the engine. -/
  | called
  /-- The first look has found an engine. -/
  | found
  | waiting
  /-- With the lock, before the second look. -/
  | locked
  | building
  /-- The connector is there, but not the engine. -/
  | connected (connector : Nat)
  | leaving
  | closing
  | disposing
  | disposed
  /-- The engine is gone, and the connector is looked at. -/
  | engineless
  | closingConnector
  | closedConnector
  deriving DecidableEq

namespace Phase

/-- Between taking the lock and giving it back. -/
def inside : Phase → Bool
  | locked | building | connected _ | leaving => true
  | _ => false

/-- In `aclose()`. -/
def isClosing : Phase → Bool
  | closing | disposing | disposed | engineless | closingConnector | closedConnector => true
  | _ => false

end Phase

inductive Failure where
  | disabled (e : ValueError)
  /-- What a library raises. -/
  | library
  /-- `None` has no method to call. -/
  | attribute
  deriving DecidableEq

/-- What a call ends with: `engine()` returns what the field holds. -/
inductive Answer where
  | engine (engine : Option Engine)
  | closed
  | raised (failure : Failure)
  deriving DecidableEq

/-- The fields of a `Database`, the threads that use it, the engines and the number of connectors made
so far, the engines disposed of, the connectors that were told to close, and the answers of the calls
that have ended, in order. -/
structure Process where
  engine : Option Engine
  connector : Option Nat
  threads : Guarded Nat Phase
  engines : List Engine
  connectors : Nat
  disposed : List Engine
  closed : List Nat
  answers : List (Nat × Answer)

namespace Process

def initial : Process := ⟨none, none, ⟨none, fun _ => .idle⟩, [], 0, [], [], []⟩

variable (p : Process) (t : Nat)

def phase : Phase := p.threads.phase t

def goto (φ : Phase) : Process := { p with threads := p.threads.goto t φ }

/-- A call ends. -/
def reply (answer : Answer) : Process :=
  { p with
    threads := p.threads.goto t .idle
    answers := p.answers ++ [(t, answer)] }

/-- A call ends that gives the lock back. -/
def replyUnlocked (answer : Answer) : Process :=
  { p with
    threads := p.threads.release t .idle
    answers := p.answers ++ [(t, answer)] }

/-- `create_async_engine`, and the field is set. -/
def create (spec : EngineSpec) (connector : Option Nat) : Process :=
  let engine : Engine := ⟨p.engines.length, spec, connector⟩
  { p with
    engine := some engine
    engines := p.engines ++ [engine]
    threads := p.threads.goto t .leaving }

/-- `dispose()` has ended. -/
def dispose (engine : Engine) : Process := { p with disposed := p.disposed ++ [engine] }

/-- `close()` was called. -/
def tell (connector : Nat) : Process := { p with closed := p.closed ++ [connector] }

end Process

/-- A call of `engine()` or `aclose()` begins on a thread, or a thread takes its next step; what a
library is called for in the step may fail. -/
inductive Action where
  | engine (t : Nat)
  | aclose (t : Nat)
  | advance (t : Nat) (ok : Bool)

section Step

variable (config : DatabaseConfig)

/-- The next step of a thread, one access to a field each. -/
def advance (p : Process) (t : Nat) (ok : Bool) : Option Process :=
  match p.phase t with
  | .idle => none
  | .called => some (p.goto t (if p.engine = none then .waiting else .found))
  | .found => some (p.reply t (.engine p.engine))
  | .waiting =>
      if p.threads.lock = none then some { p with threads := p.threads.acquire t .locked } else none
  | .locked => some (p.goto t (if p.engine = none then .building else .leaving))
  | .building =>
      if ok = false then some (p.replyUnlocked t (.raised .library))
      else if config.backend = .alloydb then
        some
          { p with
            connector := some p.connectors
            connectors := p.connectors + 1
            threads := p.threads.goto t (.connected p.connectors) }
      else some (p.create t config.engineSpec none)
  | .connected connector =>
      if ok = false then some (p.replyUnlocked t (.raised .library))
      else some (p.create t config.engineSpec (some connector))
  | .leaving => some (p.replyUnlocked t (.engine p.engine))
  | .closing => some (p.goto t (if p.engine = none then .engineless else .disposing))
  | .disposing =>
      match p.engine with
      | none => some (p.reply t (.raised .attribute))
      | some engine =>
          if ok = false then some (p.reply t (.raised .library))
          else some ((p.dispose engine).goto t .disposed)
  | .disposed => some ({ p with engine := none }.goto t .engineless)
  | .engineless =>
      if p.connector = none then some (p.reply t .closed) else some (p.goto t .closingConnector)
  | .closingConnector =>
      match p.connector with
      | none => some (p.reply t (.raised .attribute))
      | some connector =>
          if ok = false then some ((p.tell connector).reply t (.raised .library))
          else some ((p.tell connector).goto t .closedConnector)
  | .closedConnector => some ({ p with connector := none }.reply t .closed)

def step (p : Process) : Action → Option Process
  | .engine t =>
      if p.phase t = .idle then
        if config.enabled then some (p.goto t .called)
        else some (p.reply t (.raised (.disabled DatabaseConfig.disabledError)))
      else none
  | .aclose t => if p.phase t = .idle then some (p.goto t .closing) else none
  | .advance t ok => advance config p t ok

/-- No call is under way. -/
def Quiet (p : Process) : Prop := ∀ t, p.phase t = .idle

/-- The database is closed when nobody asks for the engine, and nobody asks while it is being
closed. -/
def Orderly (p : Process) : Action → Prop
  | .engine _ => ∀ u, (p.phase u).isClosing = false
  | .aclose _ => Quiet p
  | .advance .. => True

end Step

/-! ## What holds between steps -/

/-- What a thread in a phase relies on. -/
def Phase.Fits (p : Process) : Phase → Prop
  | found | leaving | disposing => p.engine ≠ none
  | building | engineless => p.engine = none
  | connected n => p.engine = none ∧ p.connector = some n
  | disposed => ∀ e, p.engine = some e → e ∈ p.disposed
  | closingConnector => p.engine = none ∧ p.connector ≠ none
  | closedConnector => p.engine = none ∧ ∀ n, p.connector = some n → n ∈ p.closed
  | idle | called | waiting | locked | closing => True

/-- The connectors of engines were told to close. -/
def AllClosed (p : Process) : Prop :=
  ∀ e ∈ p.engines, ∀ n, e.connector = some n → n ∈ p.closed

/-- An engine that is there, or an end that is no fault of the code. -/
def Answer.Proper (engines : List Engine) : Answer → Prop
  | engine r => ∃ e ∈ engines, r = some e
  | closed => True
  | raised failure => failure ≠ .attribute

/-- Engines are built from the configuration and disposed of before they are replaced, and their
connectors are told to close before they are. -/
structure Store (config : DatabaseConfig) (p : Process) : Prop where
  spec : ∀ e ∈ p.engines, e.spec = config.engineSpec
  live : ∀ e ∈ p.engines, p.engine = some e ∨ e ∈ p.disposed
  current : ∀ e, p.engine = some e → e ∈ p.engines ∧ ∀ n, e.connector = some n → p.connector = some n
  connectors : ∀ e ∈ p.engines, ∀ n, e.connector = some n → p.connector = some n ∨ n ∈ p.closed
  numbers : p.engines.map Engine.number = List.range p.engines.length
  answers : ∀ t answer, (t, answer) ∈ p.answers → answer.Proper p.engines

/-- The lock is held by the thread that is inside, a thread that closes is alone, and every thread
finds what it relies on. -/
structure Sound (config : DatabaseConfig) (p : Process) : Prop where
  exclusive : p.threads.Exclusive Phase.inside
  alone : ∀ t, (p.phase t).isClosing = true → ∀ u, u ≠ t → p.phase u = .idle
  fits : ∀ t, (p.phase t).Fits p
  store : Store config p
  closed : p.engine = none → (∀ t, (p.phase t).isClosing = false) → AllClosed p

theorem Answer.Proper.append {engines : List Engine} {answer : Answer} (h : answer.Proper engines)
    (more : List Engine) : answer.Proper (engines ++ more) := by
  cases answer with
  | engine r =>
    obtain ⟨e, he, rfl⟩ := h
    exact ⟨e, List.mem_append_left _ he, rfl⟩
  | closed => trivial
  | raised failure => exact h

section Sound

variable {config : DatabaseConfig} {p p' : Process} {t : Nat} {φ : Phase}

theorem sound_initial : Sound config .initial where
  exclusive _ := iff_of_false Bool.false_ne_true fun h => nomatch h
  alone _ h := nomatch h
  fits _ := trivial
  store :=
    ⟨fun _ he => absurd he List.not_mem_nil, fun _ he => absurd he List.not_mem_nil,
      fun _ he => (nomatch he), fun _ he => absurd he List.not_mem_nil, rfl,
      fun _ _ hr => absurd hr List.not_mem_nil⟩
  closed _ _ _ h := nomatch h

/-- No other thread closes while a thread does something. -/
theorem Sound.open_of_ne_idle (h : Sound config p) (ht : p.phase t ≠ .idle) (u : Nat) (hu : u ≠ t) :
    (p.phase u).isClosing = false := by
  cases hclosing : (p.phase u).isClosing with
  | false => rfl
  | true => exact absurd (h.alone u hclosing t hu.symm) ht

/-- A thread moves on, in a way that the others do not notice. -/
theorem sound_of_move
    (hphase : ∀ u, p'.phase u = if u = t then φ else p.phase u)
    (hexclusive : p'.threads.Exclusive Phase.inside)
    (hopen : ∀ u, u ≠ t → (p.phase u).isClosing = false)
    (halone : φ.isClosing = true → ∀ u, u ≠ t → p.phase u = .idle) (hfits : φ.Fits p')
    (hframe : ∀ u, u ≠ t → (p.phase u).Fits p') (hstore : Store config p')
    (hclosed : p'.engine = none → φ.isClosing = false → AllClosed p') : Sound config p' where
  exclusive := hexclusive
  alone u hu v hv := by
    rw [hphase] at hu ⊢
    by_cases hut : u = t
    · subst hut
      rw [if_pos rfl] at hu
      rw [if_neg hv]
      exact halone hu v hv
    · rw [if_neg hut, hopen u hut] at hu
      cases hu
  fits u := by
    rw [hphase]
    split_ifs with hu
    · exact hfits
    · exact hframe u hu
  store := hstore
  closed hnone hall := by
    apply hclosed hnone
    have ht := hall t
    rwa [hphase, if_pos rfl] at ht

/-- What holds of the connectors holds while a thread moves on that does not close. -/
theorem Sound.allClosed (h : Sound config p) (hopen : ∀ u, u ≠ t → (p.phase u).isClosing = false)
    (ht : (p.phase t).isClosing = false) (hnone : p.engine = none) : AllClosed p := by
  apply h.closed hnone
  intro u
  by_cases hu : u = t
  · rw [hu]
    exact ht
  · exact hopen u hu

theorem Sound.goto (h : Sound config p) (hin : φ.inside = (p.phase t).inside)
    (hopen : ∀ u, u ≠ t → (p.phase u).isClosing = false)
    (halone : φ.isClosing = true → ∀ u, u ≠ t → p.phase u = .idle) (hfits : φ.Fits p)
    (hclosed : p.engine = none → φ.isClosing = false → AllClosed p) : Sound config (p.goto t φ) :=
  sound_of_move (fun _ => Guarded.phase_goto _) (h.exclusive.goto hin) hopen halone hfits
    (fun u _ => h.fits u) ⟨h.store.spec, h.store.live, h.store.current, h.store.connectors,
      h.store.numbers, h.store.answers⟩ hclosed

/-- A call ends, with an engine or without. -/
theorem Store.reply (h : Store config p) {threads : Guarded Nat Phase} {answer : Answer}
    (hanswer : answer.Proper p.engines) :
    Store config { p with threads := threads, answers := p.answers ++ [(t, answer)] } where
  spec := h.spec
  live := h.live
  current := h.current
  connectors := h.connectors
  numbers := h.numbers
  answers u r hr := by
    rcases List.mem_append.1 hr with hr | hr
    · exact h.answers u r hr
    · cases List.mem_singleton.1 hr
      exact hanswer

theorem Sound.reply (h : Sound config p) {answer : Answer} (hin : (p.phase t).inside = false)
    (hopen : ∀ u, u ≠ t → (p.phase u).isClosing = false)
    (hanswer : answer.Proper p.engines)
    (hclosed : p.engine = none → AllClosed p) : Sound config (p.reply t answer) :=
  sound_of_move (φ := .idle) (fun _ => Guarded.phase_goto _) (h.exclusive.goto hin.symm) hopen
    (fun hidle => nomatch hidle) trivial (fun u _ => h.fits u) (h.store.reply hanswer)
    fun hnone _ => hclosed hnone

/-- A thread that holds the lock ends its call. -/
theorem Sound.replyUnlocked (h : Sound config p) {answer : Answer}
    (hin : (p.phase t).inside = true) (hopen : ∀ u, u ≠ t → (p.phase u).isClosing = false)
    (ht : (p.phase t).isClosing = false)
    (hanswer : answer.Proper p.engines) :
    Sound config (p.replyUnlocked t answer) :=
  sound_of_move (φ := .idle) (fun _ => Guarded.phase_release _) (h.exclusive.release hin rfl) hopen
    (fun hidle => nomatch hidle) trivial (fun u _ => h.fits u) (h.store.reply hanswer)
    fun hnone _ => h.allClosed hopen ht hnone

/-- While a thread builds, the others rely on nothing. -/
theorem Sound.fits_of_building (h : Sound config p) (hin : (p.phase t).inside = true)
    (hopen : ∀ u, u ≠ t → (p.phase u).isClosing = false) (hnone : p.engine = none) (u : Nat)
    (hu : u ≠ t) : (p.phase u).Fits p' := by
  have hout : (p.phase u).inside = false := by
    cases huin : (p.phase u).inside with
    | false => rfl
    | true => exact absurd (h.exclusive.unique huin hin) hu
  have hopenu := hopen u hu
  have hfits := h.fits u
  cases hφ : p.phase u with
  | idle => trivial
  | called => trivial
  | waiting => trivial
  | found =>
    rw [hφ] at hfits
    exact absurd hnone hfits
  | locked => trivial
  | closing => trivial
  | building | leaving =>
    rw [hφ] at hout
    cases hout
  | connected n =>
    rw [hφ] at hout
    cases hout
  | disposing | disposed | engineless | closingConnector | closedConnector =>
    rw [hφ] at hopenu
    cases hopenu

/-- The engine is there. -/
theorem Sound.create (h : Sound config p) {connector : Option Nat} (hin : (p.phase t).inside = true)
    (hopen : ∀ u, u ≠ t → (p.phase u).isClosing = false) (ht : (p.phase t).isClosing = false)
    (hnone : p.engine = none) (hconnector : ∀ n, connector = some n → p.connector = some n) :
    Sound config (p.create t config.engineSpec connector) := by
  have hclosed := h.allClosed hopen ht hnone
  refine sound_of_move (φ := .leaving) (fun _ => Guarded.phase_goto _) (h.exclusive.goto hin.symm) hopen
    (fun hleaving => nomatch hleaving) (Option.some_ne_none _) (h.fits_of_building hin hopen hnone)
    ?_ (fun hnone _ => nomatch hnone)
  have hold := h.store
  constructor
  · intro e he
    rcases List.mem_append.1 he with he | he
    · exact hold.spec e he
    · rw [List.mem_singleton.1 he]
  · intro e he
    rcases List.mem_append.1 he with he | he
    · exact Or.inr ((hold.live e he).resolve_left fun hsome => by rw [hnone] at hsome; cases hsome)
    · exact Or.inl (congrArg some (List.mem_singleton.1 he).symm)
  · intro e he
    cases he
    exact ⟨List.mem_append_right _ (List.mem_singleton_self _), hconnector⟩
  · intro e he n hn
    rcases List.mem_append.1 he with he | he
    · exact Or.inr (hclosed e he n hn)
    · rw [List.mem_singleton.1 he] at hn
      exact Or.inl (hconnector n hn)
  · show (p.engines ++ [_]).map Engine.number = List.range (p.engines ++ [_]).length
    rw [List.map_append, hold.numbers, List.length_append, List.length_singleton, List.range_succ]
    rfl
  · exact fun u answer hanswer => (hold.answers u answer hanswer).append _

theorem inside_of_isClosing (h : φ.isClosing = true) : φ.inside = false := by
  cases φ with
  | closing | disposing | disposed | engineless | closingConnector | closedConnector => rfl
  | _ => cases h

/-- A thread that closes is alone, so that it may change what others rely on. -/
theorem Sound.move_closing (h : Sound config p) (ht : (p.phase t).isClosing = true)
    (hthreads : p'.threads = p.threads.goto t φ) (hin : φ.inside = false) (hfits : φ.Fits p')
    (hstore : Store config p') (hclosed : φ.isClosing = false → AllClosed p') : Sound config p' := by
  have halone := h.alone t ht
  refine sound_of_move (t := t) (φ := φ) ?_ ?_ ?_ (fun _ => halone) hfits ?_ hstore fun _ => hclosed
  · intro u
    rw [Process.phase, hthreads]
    exact Guarded.phase_goto u
  · rw [hthreads]
    exact h.exclusive.goto (hin.trans (inside_of_isClosing ht).symm)
  · intro u hu
    rw [halone u hu]
    rfl
  · intro u hu
    rw [halone u hu]
    trivial

/-- A thread that closes. -/
theorem sound_close {ok : Bool} (h : Sound config p) (ht : (p.phase t).isClosing = true)
    (hstep : advance config p t ok = some p') : Sound config p' := by
  have halone := h.alone t ht
  have hopen : ∀ u, u ≠ t → (p.phase u).isClosing = false := by
    intro u hu
    rw [halone u hu]
    rfl
  have hfits := h.fits t
  cases hφ : p.phase t with
  | closing =>
    simp only [advance, hφ, Option.some.injEq] at hstep
    subst hstep
    split_ifs with hnone
    · exact h.goto (by rw [hφ]; rfl) hopen (fun _ => halone) hnone fun _ hclosing => nomatch hclosing
    · exact h.goto (by rw [hφ]; rfl) hopen (fun _ => halone) hnone fun _ hclosing => nomatch hclosing
  | disposing =>
    simp only [advance, hφ] at hstep
    cases hengine : p.engine with
    | none =>
      rw [hφ] at hfits
      exact absurd hengine hfits
    | some e =>
      simp only [hengine] at hstep
      split_ifs at hstep with hok
      · cases hstep
        refine h.reply (by rw [hφ]; rfl) hopen (fun hfault => nomatch hfault) ?_
        rw [hengine]
        exact fun hnone => nomatch hnone
      · cases hstep
        refine h.move_closing (φ := .disposed) ht rfl rfl ?_
          ⟨h.store.spec, ?_, h.store.current, h.store.connectors, h.store.numbers, h.store.answers⟩
          fun hclosing => nomatch hclosing
        · intro e' he'
          obtain rfl : e = e' := Option.some.inj (hengine.symm.trans he')
          exact List.mem_append_right _ (List.mem_singleton_self e)
        · exact fun e' he' => (h.store.live e' he').imp_right (List.mem_append_left _)
  | disposed =>
    rw [hφ] at hfits
    simp only [advance, hφ, Option.some.injEq] at hstep
    subst hstep
    refine h.move_closing (φ := .engineless) ht rfl rfl rfl
      ⟨h.store.spec, ?_, fun _ he => (nomatch he), h.store.connectors, h.store.numbers,
        h.store.answers⟩ fun hclosing => nomatch hclosing
    exact fun e he => Or.inr ((h.store.live e he).elim (hfits e) id)
  | engineless =>
    rw [hφ] at hfits
    simp only [advance, hφ] at hstep
    split_ifs at hstep with hnone
    · cases hstep
      refine h.reply (by rw [hφ]; rfl) hopen trivial ?_
      intro _ e he n hn
      refine (h.store.connectors e he n hn).resolve_left ?_
      rw [hnone]
      exact fun hsome => nomatch hsome
    · cases hstep
      exact h.goto (by rw [hφ]; rfl) hopen (fun _ => halone) ⟨hfits, hnone⟩
        fun _ hclosing => nomatch hclosing
  | closingConnector =>
    rw [hφ] at hfits
    simp only [advance, hφ] at hstep
    cases hconnector : p.connector with
    | none => exact absurd hconnector hfits.2
    | some n =>
      simp only [hconnector] at hstep
      -- With the connector told to close, those of all engines are.
      have hall : AllClosed (p.tell n) := by
        intro e he m hm
        rcases h.store.connectors e he m hm with hsome | hclosed
        · obtain rfl : n = m := Option.some.inj (hconnector.symm.trans hsome)
          exact List.mem_append_right _ (List.mem_singleton_self n)
        · exact List.mem_append_left _ hclosed
      have hstore : Store config (p.tell n) :=
        ⟨h.store.spec, h.store.live, h.store.current,
          fun e he m hm => Or.inr (hall e he m hm), h.store.numbers, h.store.answers⟩
      split_ifs at hstep with hok
      · cases hstep
        exact h.move_closing (φ := .idle) ht rfl rfl trivial
          (hstore.reply fun hfault => (nomatch hfault)) fun _ => hall
      · cases hstep
        refine h.move_closing (φ := .closedConnector) ht rfl rfl ⟨hfits.1, ?_⟩
          ⟨hstore.spec, hstore.live, hstore.current, hstore.connectors, hstore.numbers,
            hstore.answers⟩ fun hclosing => nomatch hclosing
        intro m hm
        obtain rfl : n = m := Option.some.inj (hconnector.symm.trans hm)
        exact List.mem_append_right _ (List.mem_singleton_self n)
  | closedConnector =>
    rw [hφ] at hfits
    simp only [advance, hφ, Option.some.injEq] at hstep
    subst hstep
    have hall : AllClosed p := fun e he n hn => (h.store.connectors e he n hn).elim (hfits.2 n) id
    have hstore : Store config { p with connector := none } :=
      ⟨h.store.spec, h.store.live, fun e he => absurd (hfits.1.symm.trans he) (fun hn => nomatch hn),
        fun e he n hn => Or.inr (hall e he n hn), h.store.numbers, h.store.answers⟩
    exact h.move_closing (φ := .idle) ht rfl rfl trivial (hstore.reply trivial) fun _ => hall
  | _ =>
    rw [hφ] at ht
    cases ht

/-- A thread that has begun. -/
theorem sound_advance {ok : Bool} (h : Sound config p) (hstep : advance config p t ok = some p') :
    Sound config p' := by
  by_cases hidle : p.phase t = .idle
  · simp only [advance, hidle] at hstep
    cases hstep
  have hopen := h.open_of_ne_idle hidle
  have hfits := h.fits t
  have hcurrent : p.engine ≠ none → (Answer.engine p.engine).Proper p.engines := by
    intro hsome
    obtain ⟨e, he⟩ := Option.ne_none_iff_exists'.1 hsome
    exact ⟨e, (h.store.current e he).1, he⟩
  cases hφ : p.phase t with
  | idle => exact absurd hφ hidle
  | called =>
    simp only [advance, hφ, Option.some.injEq] at hstep
    subst hstep
    have hclosed := h.allClosed hopen (by rw [hφ]; rfl)
    split_ifs with hnone
    · exact h.goto (by rw [hφ]; rfl) hopen (fun hclosing => nomatch hclosing) trivial
        fun hnone _ => hclosed hnone
    · exact h.goto (by rw [hφ]; rfl) hopen (fun hclosing => nomatch hclosing) hnone
        fun hnone _ => hclosed hnone
  | found =>
    simp only [advance, hφ, Option.some.injEq] at hstep
    subst hstep
    rw [hφ] at hfits
    exact h.reply (by rw [hφ]; rfl) hopen (hcurrent hfits)
      (h.allClosed hopen (by rw [hφ]; rfl))
  | waiting =>
    simp only [advance, hφ] at hstep
    split_ifs at hstep with hfree
    cases hstep
    exact sound_of_move (φ := .locked) (fun _ => Guarded.phase_acquire _)
      (h.exclusive.acquire hfree rfl) hopen (fun hclosing => nomatch hclosing) trivial
      (fun u _ => h.fits u) ⟨h.store.spec, h.store.live, h.store.current, h.store.connectors,
        h.store.numbers, h.store.answers⟩ fun hnone _ => h.allClosed hopen (by rw [hφ]; rfl) hnone
  | locked =>
    simp only [advance, hφ, Option.some.injEq] at hstep
    subst hstep
    have hclosed := h.allClosed hopen (by rw [hφ]; rfl)
    split_ifs with hnone
    · exact h.goto (by rw [hφ]; rfl) hopen (fun hclosing => nomatch hclosing) hnone
        fun hnone _ => hclosed hnone
    · exact h.goto (by rw [hφ]; rfl) hopen (fun hclosing => nomatch hclosing) hnone
        fun hnone _ => hclosed hnone
  | building =>
    have hin : (p.phase t).inside = true := by rw [hφ]; rfl
    have ht : (p.phase t).isClosing = false := by rw [hφ]; rfl
    rw [hφ] at hfits
    simp only [advance, hφ] at hstep
    split_ifs at hstep with hok hbackend
    · cases hstep
      exact h.replyUnlocked hin hopen ht fun hfault => nomatch hfault
    · -- What the connector that is replaced belongs to, if anything, was closed.
      have hclosed := h.allClosed hopen ht hfits
      cases hstep
      exact sound_of_move (φ := .connected p.connectors) (fun _ => Guarded.phase_goto _)
        (h.exclusive.goto hin.symm) hopen (fun hclosing => nomatch hclosing) ⟨hfits, rfl⟩
        (h.fits_of_building hin hopen hfits)
        ⟨h.store.spec, h.store.live, fun e he => absurd (hfits.symm.trans he) (fun hn => nomatch hn),
          fun e he n hn => Or.inr (hclosed e he n hn), h.store.numbers, h.store.answers⟩
        fun _ _ => hclosed
    · cases hstep
      exact h.create hin hopen ht hfits fun _ hn => nomatch hn
  | connected n =>
    have hin : (p.phase t).inside = true := by rw [hφ]; rfl
    have ht : (p.phase t).isClosing = false := by rw [hφ]; rfl
    rw [hφ] at hfits
    simp only [advance, hφ] at hstep
    split_ifs at hstep with hok
    · cases hstep
      exact h.replyUnlocked hin hopen ht fun hfault => nomatch hfault
    · cases hstep
      exact h.create hin hopen ht hfits.1 fun _ hn => hfits.2.trans hn
  | leaving =>
    rw [hφ] at hfits
    simp only [advance, hφ, Option.some.injEq] at hstep
    subst hstep
    exact h.replyUnlocked (by rw [hφ]; rfl) hopen (by rw [hφ]; rfl) (hcurrent hfits)
  | closing | disposing | disposed | engineless | closingConnector | closedConnector =>
    exact sound_close h (by rw [hφ]; rfl) hstep

/-- Every step of an orderly run. -/
theorem sound_step {a : Action} (h : Sound config p) (ha : Orderly p a)
    (hstep : step config p a = some p') : Sound config p' := by
  cases a with
  | engine t =>
    rw [step] at hstep
    split_ifs at hstep with hidle henabled
    · cases hstep
      exact h.goto (by rw [hidle]; rfl) (fun u _ => ha u) (fun hcalled => nomatch hcalled) trivial
        fun hnone _ => h.closed hnone ha
    · cases hstep
      exact h.reply (by rw [hidle]; rfl) (fun u _ => ha u) (fun hfault => nomatch hfault)
        fun hnone => h.closed hnone ha
  | aclose t =>
    rw [step] at hstep
    split_ifs at hstep with hidle
    cases hstep
    refine h.goto (by rw [hidle]; rfl) ?_ (fun _ u _ => ha u) trivial fun _ hclosing => nomatch hclosing
    intro u _
    rw [ha u]
    rfl
  | advance t ok => exact sound_advance h hstep

/-- No thread waits for nothing. -/
theorem Sound.advances (h : Sound config p) (hbusy : ¬Quiet p) :
    ∃ t, ∀ ok, (advance config p t ok).isSome = true := by
  obtain ⟨t, ht⟩ := not_forall.1 hbusy
  have hstep : ∀ u, p.phase u ≠ .idle → (p.phase u = .waiting → p.threads.lock = none) → ∀ ok,
      (advance config p u ok).isSome = true := by
    intro u hidle hwaiting ok
    cases hφ : p.phase u with
    | idle => exact absurd hφ hidle
    | waiting => simp only [advance, hφ, if_pos (hwaiting hφ), Option.isSome_some]
    | _ =>
      simp only [advance, hφ]
      repeat' split
      all_goals rfl
  cases hlock : p.threads.lock with
  | none => exact ⟨t, hstep t ht fun _ => hlock⟩
  | some u =>
    -- The thread with the lock is not the one that waits.
    have hin : (p.phase u).inside = true := (h.exclusive u).2 hlock
    refine ⟨u, hstep u ?_ ?_⟩
    · intro hidle
      rw [hidle] at hin
      cases hin
    · intro hwaiting
      rw [hwaiting] at hin
      cases hin

/-- A thread in `engine()` stays there or ends its call, and disposes of nothing. -/
theorem advance_open {ok : Bool} (ht : (p.phase t).isClosing = false)
    (hstep : advance config p t ok = some p') :
    p'.disposed = p.disposed ∧
      ∃ ψ : Phase, ψ.isClosing = false ∧ ∀ u, p'.phase u = if u = t then ψ else p.phase u := by
  cases hφ : p.phase t with
  | idle =>
    simp only [advance, hφ] at hstep
    cases hstep
  | called | locked =>
    simp only [advance, hφ, Option.some.injEq] at hstep
    subst hstep
    refine ⟨rfl, _, ?_, fun u => Guarded.phase_goto u⟩
    split_ifs <;> rfl
  | found =>
    simp only [advance, hφ, Option.some.injEq] at hstep
    subst hstep
    exact ⟨rfl, .idle, rfl, fun u => Guarded.phase_goto u⟩
  | leaving =>
    simp only [advance, hφ, Option.some.injEq] at hstep
    subst hstep
    exact ⟨rfl, .idle, rfl, fun u => Guarded.phase_release u⟩
  | waiting =>
    simp only [advance, hφ] at hstep
    split_ifs at hstep
    cases hstep
    exact ⟨rfl, .locked, rfl, fun u => Guarded.phase_acquire u⟩
  | building =>
    simp only [advance, hφ] at hstep
    split_ifs at hstep
    · cases hstep
      exact ⟨rfl, .idle, rfl, fun u => Guarded.phase_release u⟩
    · cases hstep
      exact ⟨rfl, .connected p.connectors, rfl, fun u => Guarded.phase_goto u⟩
    · cases hstep
      exact ⟨rfl, .leaving, rfl, fun u => Guarded.phase_goto u⟩
  | connected n =>
    simp only [advance, hφ] at hstep
    split_ifs at hstep
    · cases hstep
      exact ⟨rfl, .idle, rfl, fun u => Guarded.phase_release u⟩
    · cases hstep
      exact ⟨rfl, .leaving, rfl, fun u => Guarded.phase_goto u⟩
  | _ =>
    rw [hφ] at ht
    cases ht

/-- Nothing is disposed of before the database is closed. -/
theorem undisposed_step {a : Action} (hundisposed : p.disposed = [])
    (hopen : ∀ t, (p.phase t).isClosing = false) (ha : ∀ t, a ≠ .aclose t)
    (hstep : step config p a = some p') :
    p'.disposed = [] ∧ ∀ t, (p'.phase t).isClosing = false := by
  have hmoved : p'.disposed = p.disposed ∧ ∃ t, ∃ ψ : Phase, ψ.isClosing = false ∧
      ∀ u, p'.phase u = if u = t then ψ else p.phase u := by
    cases a with
    | engine t =>
      rw [step] at hstep
      split_ifs at hstep
      · cases hstep
        exact ⟨rfl, t, .called, rfl, fun u => Guarded.phase_goto u⟩
      · cases hstep
        exact ⟨rfl, t, .idle, rfl, fun u => Guarded.phase_goto u⟩
    | aclose t => exact absurd rfl (ha t)
    | advance t ok =>
      obtain ⟨hsame, ψ, hψ, hphase⟩ := advance_open (hopen t) hstep
      exact ⟨hsame, t, ψ, hψ, hphase⟩
  obtain ⟨hsame, t, ψ, hψ, hphase⟩ := hmoved
  refine ⟨hsame.trans hundisposed, ?_⟩
  intro u
  rw [hphase]
  split_ifs
  · exact hψ
  · exact hopen u

/-- A run in which the database is not closed is orderly. -/
theorem orderly_of_unclosed {as : List Action} (hunclosed : ∀ t, .aclose t ∉ as) :
    Machine.Along (step config) Orderly .initial as := by
  apply Machine.along_of_invariant
    (I := fun p => p.disposed = [] ∧ ∀ t, (p.phase t).isClosing = false)
    (D := fun a => ∀ t, a ≠ Action.aclose t)
  · exact fun p a p' hp ha hstep => undisposed_step hp.1 hp.2 ha hstep
  · intro p a hp ha
    cases a with
    | engine t => exact hp.2
    | aclose t => exact absurd rfl (ha t)
    | advance t ok => trivial
  · exact ⟨rfl, fun _ => rfl⟩
  · exact fun a ha t heq => hunclosed t (heq ▸ ha)

end Sound

/-- In a run in which the database is closed only when nobody asks for the engine, and nobody asks
while it is being closed: callers get engines; each is built from the configuration, and is the current
one or was disposed of; when there is none, no connector of an engine was forgotten. Threads do not
wait for each other for ever, and when no call is under way the lock is free, whatever failed. Until
the database is closed for the first time, all callers get the same engine, and no other is built. -/
theorem engine_run {config : DatabaseConfig} {as : List Action} {p : Process}
    (h : Machine.run (step config) .initial as = some p)
    (horderly : Machine.Along (step config) Orderly .initial as) :
    (∀ t answer, (t, answer) ∈ p.answers → answer.Proper p.engines) ∧
      (∀ e ∈ p.engines, e.spec = config.engineSpec ∧ (p.engine = some e ∨ e ∈ p.disposed)) ∧
      (p.engine = none → (∀ t, (p.phase t).isClosing = false) → AllClosed p) ∧
      (¬Quiet p → ∃ t, ∀ ok, (step config p (.advance t ok)).isSome = true) ∧
      (Quiet p → p.threads.lock = none) ∧
      ((∀ t, .aclose t ∉ as) → p.engines.length ≤ 1 ∧
        ∀ t r, (t, .engine r) ∈ p.answers → r = p.engine) := by
  have hsound : Sound config p :=
    Machine.run_induct_along (fun _ _ _ => sound_step) sound_initial horderly h
  refine ⟨hsound.store.answers, ?_, hsound.closed, hsound.advances, ?_, ?_⟩
  · exact fun e he => ⟨hsound.store.spec e he, hsound.store.live e he⟩
  · intro hquiet
    apply hsound.exclusive.free
    intro u
    rw [← Process.phase, hquiet u]
    rfl
  · intro hunclosed
    have hundisposed : p.disposed = [] := by
      have hboth : p.disposed = [] ∧ ∀ t, (p.phase t).isClosing = false := by
        refine Machine.run_induct_along
          (I := fun q => q.disposed = [] ∧ ∀ t, (q.phase t).isClosing = false)
          (C := fun _ a => ∀ t, a ≠ Action.aclose t) ?_
          ⟨rfl, fun _ => rfl⟩ (Machine.along_of_forall ?_ _) h
        · exact fun q a r hq ha hstep => undisposed_step hq.1 hq.2 ha hstep
        · exact fun a ha _ t heq => hunclosed t (heq ▸ ha)
      exact hboth.1
    have hcurrent : ∀ e ∈ p.engines, p.engine = some e := by
      intro e he
      refine (hsound.store.live e he).resolve_right ?_
      rw [hundisposed]
      exact List.not_mem_nil
    constructor
    · -- Engines are numbered, so that two of them are not the same.
      by_contra hmany
      have hnumbers := hsound.store.numbers
      match hengines : p.engines with
      | [] => simp [hengines] at hmany
      | [e] => simp [hengines] at hmany
      | e :: e' :: rest =>
        have he := hcurrent e (by simp [hengines])
        have he' := hcurrent e' (by simp [hengines])
        obtain rfl : e = e' := Option.some.inj (he.symm.trans he')
        have hnodup : (p.engines.map Engine.number).Nodup := hnumbers ▸ List.nodup_range
        simp [hengines] at hnodup
    · intro t r hr
      obtain ⟨e, he, rfl⟩ := hsound.store.answers t _ hr
      exact (hcurrent e he).symm

/-! ## Two threads at once -/

/-- The thread an action is about. -/
def Action.thread : Action → Nat
  | engine t => t
  | aclose t => t
  | advance t _ => t

section Idle

variable {config : DatabaseConfig} {p p' : Process} {u : Nat}

/-- A step is about one thread. -/
theorem phase_step {a : Action} (hu : u ≠ a.thread) (hstep : step config p a = some p') :
    p'.phase u = p.phase u := by
  cases a with
  | engine t =>
    rw [step] at hstep
    split_ifs at hstep with hidle henabled
    · cases hstep
      exact Function.update_of_ne hu _ _
    · cases hstep
      exact Function.update_of_ne hu _ _
  | aclose t =>
    rw [step] at hstep
    split_ifs at hstep with hidle
    cases hstep
    exact Function.update_of_ne hu _ _
  | advance t ok =>
    revert hstep
    show advance config p t ok = some p' → _
    fun_cases advance config p t ok
    all_goals
      intro hstep
      cases hstep
    all_goals exact Function.update_of_ne hu _ _

theorem phase_run {as : List Action} (hu : ∀ a ∈ as, u ≠ a.thread)
    (hrun : Machine.run (step config) p as = some p') : p'.phase u = p.phase u := by
  induction as generalizing p with
  | nil =>
    cases hrun
    rfl
  | cons a as ih =>
    obtain ⟨q, hstep, hrest⟩ := Machine.run_cons.1 hrun
    obtain ⟨ha, has⟩ := List.forall_mem_cons.1 hu
    rw [ih has hrest, phase_step ha hstep]

end Idle

section Example

/-- A local PostgreSQL server. -/
def localConfig : DatabaseConfig where
  backend := .url
  instanceUri := ""
  iamUser := ""
  name := "agents"
  dbSchema := "math"
  url := "postgresql+asyncpg://localhost/agents"
  ipType := "PRIVATE"
  poolSize := 5
  maxOverflow := 2
  poolRecycle := 1800

/-- Both find no engine. The one that takes the lock first fails to build one, the other builds it. -/
def racing : List Action :=
  [.engine 1, .engine 2, .advance 1 true, .advance 2 true, .advance 2 true, .advance 2 true,
    .advance 2 false, .advance 1 true, .advance 1 true, .advance 1 true, .advance 1 true]

/-- Then the database is closed, and somebody asks again. -/
def reopening : List Action :=
  [.aclose 1, .advance 1 true, .advance 1 true, .advance 1 true, .advance 1 true, .engine 2,
    .advance 2 true, .advance 2 true, .advance 2 true, .advance 2 true, .advance 2 true]

theorem unclosed_racing (t : Nat) : Action.aclose t ∉ racing := by
  simp [racing]

/-- Closing between two calls of `engine()` is in order. -/
theorem orderly_reopening {p : Process}
    (hrun : Machine.run (step localConfig) .initial racing = some p) :
    Machine.Along (step localConfig) Orderly .initial (racing ++ reopening) := by
  have hend : Machine.run (step localConfig) .initial racing = some _ := rfl
  have hquiet : Quiet p := by
    intro u
    by_cases hu : u = 1 ∨ u = 2
    · cases hend.symm.trans hrun
      rcases hu with rfl | rfl <;> rfl
    · rw [not_or] at hu
      refine phase_run ?_ hrun
      simp [racing, Action.thread, hu]
  have hdone : ∀ q u, Machine.run (step localConfig) p (reopening.take 5) = some q →
      (q.phase u).isClosing = false := by
    intro q u hq
    by_cases hu : u = 1
    · cases hend.symm.trans hrun
      cases hq
      rw [hu]
      rfl
    · rw [phase_run (by simp [reopening, Action.thread, hu]) hq, hquiet u]
      rfl
  refine Machine.along_append (orderly_of_unclosed unclosed_racing) hrun ?_
  cases hend.symm.trans hrun
  refine Machine.along_of_step hquiet rfl <| Machine.along_of_step trivial rfl <|
    Machine.along_of_step trivial rfl <| Machine.along_of_step trivial rfl <|
    Machine.along_of_step trivial rfl <| Machine.along_of_step (hdone _ · rfl) rfl <|
    Machine.along_of_forall ?_ _
  simp [Orderly]

theorem engine_run_racing :
    (∃ p, Machine.run (step localConfig) .initial racing = some p ∧
      (1, .engine (some ⟨0, localConfig.engineSpec, none⟩)) ∈ p.answers ∧ p.engines.length ≤ 1) ∧
      ∃ p, Machine.run (step localConfig) .initial (racing ++ reopening) = some p ∧
        p.engines.length = 2 ∧ ⟨0, localConfig.engineSpec, none⟩ ∈ p.disposed ∧
        ∀ t answer, (t, answer) ∈ p.answers → answer.Proper p.engines := by
  have hrun : Machine.run (step localConfig) .initial racing = some _ := rfl
  constructor
  · have hengines := (engine_run hrun (orderly_of_unclosed unclosed_racing)).2.2.2.2.2 unclosed_racing
    exact ⟨_, hrun, by decide, hengines.1⟩
  · have hrun' : Machine.run (step localConfig) .initial (racing ++ reopening) = some _ := rfl
    exact ⟨_, hrun', rfl, by decide, (engine_run hrun' (orderly_reopening hrun)).1⟩

/-- Without order, `engine()` may return nothing. -/
example :
    ((Machine.run (step localConfig) .initial
      ([.engine 1, .advance 1 true, .advance 1 true, .advance 1 true, .advance 1 true,
        .advance 1 true, .engine 1, .advance 1 true, .aclose 2, .advance 2 true, .advance 2 true,
        .advance 2 true, .advance 1 true])).map (·.answers.getLast?)) =
      some (some (1, .engine none)) := by
  decide +kernel

end Example

end Engine

end AgentCluster.Cluster
