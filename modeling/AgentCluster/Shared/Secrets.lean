import AgentCluster.Library.Program
import AgentCluster.Python.Dict
import AgentCluster.Python.Text

/-!
# Secrets

`Secrets` reads secrets from Secret Manager and keeps what it has read. It takes no lock: a call looks
into the cache, asks the service, stores the answer and reads it back, and any other call, or a rotation
of the secret, may come in between.

Answers are never made up, however calls and rotations are interleaved. A refresh is up to date, and a
value that is kept is not asked for again, as seen from a moment when no call for the secret is under
way (`secrets_run`).
-/

set_option autoImplicit false

namespace AgentCluster.Shared

open Python Library

namespace Secrets

def defaultSecretVersion : String := "latest"

/-- What Secret Manager answers for each resource: the payload of the version, or a refusal. -/
abbrev Service : Type := String → Except String ByteArray

inductive SecretError where
  | value (message : String)
  /-- The service refuses. -/
  | access (reason : String)
  | unicodeDecode
  /-- The cache has no value to return. -/
  | key (resource : String)
  deriving DecidableEq

/-- The resource path of a secret version. -/
def resourceName [UnicodeData] (project name version : String) : Except SecretError String :=
  if name.toList.contains '/' then .ok name
  else if project = "" then
    .error (.value ("Cannot resolve secret " ++ strRepr name ++ " without a project: set " ++
      "GOOGLE_CLOUD_PROJECT (or install ModelModule with a project), or pass a fully-qualified " ++
      "resource name."))
  else .ok ("projects/" ++ project ++ "/secrets/" ++ name ++ "/versions/" ++ version)

/-- The service as it is, and as it was before each rotation; the cache; and the resources the service
was asked for, in order. -/
structure Process where
  past : List Service
  service : Service
  cache : PyDict String
  asked : List String

namespace Process

def initial (service : Service) : Process := ⟨[], service, [], []⟩

/-- Everything the service has been, up to now. -/
def history (s : Process) : List Service := s.past ++ [s.service]

/-- The service answers differently from now on. -/
def rotate (s : Process) (service : Service) : Process :=
  { s with
    past := s.history
    service := service }

/-- The service is asked for a resource. -/
def ask (s : Process) (resource : String) : Process := { s with asked := s.asked ++ [resource] }

def store (s : Process) (resource value : String) : Process :=
  { s with cache := s.cache.set resource value }

end Process

structure Request where
  name : String
  version : String := defaultSecretVersion
  refresh : Bool := false
  deriving DecidableEq

/-- What is returned for what the cache has. -/
def returnCached (resource : String) : Option String → Program Process SecretError String
  | some value => .ret value
  | none => .raise (.key resource)

/-- `return self._cache[resource]`. -/
def readCache (resource : String) : Program Process SecretError String :=
  .exec (fun s => (s.cache.lookup resource, s)) (returnCached resource)

/-- Decode the response of the service and store it. -/
def keepResponse (resource : String) :
    Except String ByteArray → Program Process SecretError String
  | .error reason => .raise (.access reason)
  | .ok payload =>
      match String.fromUTF8? payload with
      | none => .raise .unicodeDecode
      | some value => .exec (fun s => ((), s.store resource value)) fun _ => readCache resource

/-- Ask the service, and store what it answers. -/
def fetch (resource : String) : Program Process SecretError String :=
  .exec (fun s => (s.service resource, s.ask resource)) (keepResponse resource)

section Calls

variable [UnicodeData] (project : String)

/-- The resource of a request. -/
def Request.resource (r : Request) : Except SecretError String := resourceName project r.name r.version

/-- Fetch the value if the cache, as it was found, is not to be used. -/
def look (r : Request) (cache : PyDict String) : Program Process SecretError String :=
  match r.resource project with
  | .error e => .raise e
  | .ok resource =>
      if r.refresh = true ∨ cache.lookup resource = none then fetch resource
      else readCache resource

/-- The value of a secret. -/
def get (r : Request) : Program Process SecretError String :=
  .exec (fun s => (s.cache, s)) (look project r)

abbrev Calls : Type := Pool Process SecretError String Request

/-- A call begins or goes on, or the service changes. -/
inductive Action where
  | call (a : PoolAction Request)
  | rotate (service : Service)

def step (P : Calls) : Action → Option Calls
  | .call a => Pool.step (get project) P a
  | .rotate service => some { P with state := P.state.rotate service }

end Calls

/-! ## Values and times -/

/-- Some service of these has the value at the resource. -/
def Has (services : List Service) (k v : String) : Prop :=
  ∃ service ∈ services, ∃ payload, service k = .ok payload ∧ String.fromUTF8? payload = some v

/-- What the cache has of the resource, the service had at moment `n` or later. -/
def Fresh (n : Nat) (k : String) (s : Process) : Prop :=
  ∀ v, s.cache.lookup k = some v → Has (s.history.drop n) k v

/-- The answer to a call for the resource. A value is said to be the service's since moment `n` only
under a condition; a refusal always was. -/
def Answered (n : Nat) (k : String) (condition : Prop) (s : Process) :
    Except SecretError String → Prop
  | .ok v => condition → Has (s.history.drop n) k v
  | .error (.access reason) => ∃ service ∈ s.history.drop n, service k = .error reason
  | .error .unicodeDecode => ∃ service ∈ s.history.drop n, ∃ payload,
      service k = .ok payload ∧ String.fromUTF8? payload = none
  | .error (.value _) => False
  | .error (.key _) => False

section Times

variable {n : Nat} {k v : String} {s t : Process}

theorem drop_subset (h : s.history <+: t.history) : s.history.drop n ⊆ t.history.drop n := by
  obtain ⟨later, hlater⟩ := h
  rw [← hlater, List.drop_append]
  exact List.subset_append_left _ _

theorem Has.mono (h : s.history <+: t.history) (hhas : Has (s.history.drop n) k v) :
    Has (t.history.drop n) k v := by
  obtain ⟨service, hservice, hpayload⟩ := hhas
  exact ⟨service, drop_subset h hservice, hpayload⟩

theorem Answered.mono {condition : Prop} (h : s.history <+: t.history) :
    ∀ {result}, Answered n k condition s result → Answered n k condition t result
  | .ok _, hhas => fun hcondition => (hhas hcondition).mono h
  | .error (.access _), ⟨service, hservice, he⟩ => ⟨service, drop_subset h hservice, he⟩
  | .error .unicodeDecode, ⟨service, hservice, hpayload⟩ =>
      ⟨service, drop_subset h hservice, hpayload⟩

theorem Answered.imp {condition condition' : Prop} (h : condition' → condition) :
    ∀ {result}, Answered n k condition s result → Answered n k condition' s result
  | .ok _, hhas => fun hcondition => hhas (h hcondition)
  | .error (.access _), hreason => hreason
  | .error .unicodeDecode, hpayload => hpayload

theorem service_mem_drop (h : n ≤ s.past.length) : s.service ∈ s.history.drop n := by
  rw [Process.history, List.drop_append, Nat.sub_eq_zero_of_le h]
  exact List.mem_append_right _ List.mem_cons_self

theorem length_past_mono (h : s.history <+: t.history) : s.past.length ≤ t.past.length := by
  have hle := h.length_le
  rw [Process.history, Process.history, List.length_append, List.length_append] at hle
  exact Nat.le_of_add_le_add_right hle

theorem history_rotate (s : Process) (service : Service) : s.history <+: (s.rotate service).history :=
  List.prefix_append _ _

end Times

/-! ## What a call touches -/

/-- A call changes nothing but what is kept of its own resource, and without a resource it says why. -/
structure Frame [UnicodeData] (project : String) (r : Request) (s : Process)
    (o : Option (Except SecretError String)) (t : Process) : Prop where
  past : t.past = s.past
  service : t.service = s.service
  others : ∀ k, r.resource project ≠ .ok k →
    t.cache.lookup k = s.cache.lookup k ∧ t.asked.count k = s.asked.count k
  refused : ∀ e result, r.resource project = .error e → o = some result → result = .error e

section Frame

variable [UnicodeData] {project : String} {r : Request} {k : String}

theorem Frame.history {s t : Process} {o : Option (Except SecretError String)}
    (h : Frame project r s o t) : t.history = s.history := by
  rw [Process.history, Process.history, h.past, h.service]

theorem frame_read (hk : r.resource project = .ok k) (s : Process)
    (o : Option (Except SecretError String)) : Frame project r s o s :=
  ⟨rfl, rfl, fun _ _ => ⟨rfl, rfl⟩, fun e _ he => by rw [hk] at he; cases he⟩

theorem frame_ask (hk : r.resource project = .ok k) (s : Process)
    (o : Option (Except SecretError String)) : Frame project r s o (s.ask k) := by
  refine ⟨rfl, rfl, ?_, fun e _ he => by rw [hk] at he; cases he⟩
  intro other hother
  have hne : k ≠ other := fun heq => hother (heq ▸ hk)
  exact ⟨rfl, by simp [Process.ask, hne]⟩

theorem frame_store (hk : r.resource project = .ok k) (s : Process) (v : String)
    (o : Option (Except SecretError String)) : Frame project r s o (s.store k v) := by
  refine ⟨rfl, rfl, ?_, fun e _ he => by rw [hk] at he; cases he⟩
  intro other hother
  have hne : other ≠ k := fun heq => hother (heq ▸ hk)
  exact ⟨PyDict.lookup_set_of_ne _ hne _, rfl⟩

theorem look_error {e : SecretError} (h : r.resource project = .error e) (cache : PyDict String) :
    look project r cache = .raise e := by
  rw [look, h]

theorem look_fetch (hk : r.resource project = .ok k) {cache : PyDict String}
    (h : r.refresh = true ∨ cache.lookup k = none) : look project r cache = fetch k := by
  simp only [look, hk, if_pos h]

theorem look_read (hk : r.resource project = .ok k) {cache : PyDict String}
    (hrefresh : r.refresh = false) (hcached : cache.lookup k ≠ none) :
    look project r cache = readCache k := by
  have hnot : ¬(r.refresh = true ∨ cache.lookup k = none) := by simp [hrefresh, hcached]
  simp only [look, hk, if_neg hnot]

theorem readCache_frame (hk : r.resource project = .ok k) (pre : Process → Prop) :
    Program.Meets (fun _ _ => True) (Frame project r) pre (readCache k) := by
  apply Program.meets_exec
  intro s _
  refine ⟨frame_read hk s _, ?_⟩
  dsimp only
  cases s.cache.lookup k with
  | none => exact Program.meets_raise _
  | some v => exact Program.meets_ret _

theorem fetch_frame (hk : r.resource project = .ok k) (pre : Process → Prop) :
    Program.Meets (fun _ _ => True) (Frame project r) pre (fetch k) := by
  apply Program.meets_exec
  intro s _
  refine ⟨frame_ask hk s _, ?_⟩
  dsimp only
  cases s.service k with
  | error reason => exact Program.meets_raise _
  | ok payload =>
    rw [keepResponse]
    cases String.fromUTF8? payload with
    | none => exact Program.meets_raise _
    | some v =>
      apply Program.meets_exec
      intro t _
      exact ⟨frame_store hk t v _, readCache_frame hk _⟩

/-- Whatever others do, each step of a call stays within its frame. -/
theorem get_frame (r : Request) :
    Program.Meets (fun _ _ => True) (Frame project r) (fun _ => True) (get project r) := by
  apply Program.meets_exec
  intro s _
  dsimp only
  cases hk : r.resource project with
  | error e =>
    rw [look_error hk]
    refine ⟨⟨rfl, rfl, fun _ _ => ⟨rfl, rfl⟩, ?_⟩, Program.meets_raise _⟩
    rintro e' result he ⟨⟩
    rw [hk] at he
    cases he
    rfl
  | ok k =>
    refine ⟨frame_read hk s _, ?_⟩
    by_cases hfetch : r.refresh = true ∨ s.cache.lookup k = none
    · rw [look_fetch hk hfetch]
      exact fetch_frame hk _
    · rw [not_or, Bool.not_eq_true] at hfetch
      rw [look_read hk hfetch.1 hfetch.2]
      exact readCache_frame hk _

/-- A call for another resource keeps any promise that its frame keeps. -/
theorem meets_of_frame {R : Process → Process → Prop}
    {G : Process → Option (Except SecretError String) → Process → Prop}
    (hframe : ∀ s o t, Frame project r s o t → G s o t) {p : Program Process SecretError String}
    {pre : Process → Prop} (hpre : ∀ s, pre s)
    (hmeets : Program.Meets (fun _ _ => True) (Frame project r) pre p) (pre' : Process → Prop) :
    Program.Meets R G pre' p :=
  hmeets.conseq (fun _ _ _ => trivial) hframe fun s _ => hpre s

end Frame

/-! ## Calls for one resource since a moment -/

/-- What the calls for a resource and the rotations since moment `n` do to it. -/
structure Since (n : Nat) (k : String) (s t : Process) : Prop where
  history : s.history <+: t.history
  cached : s.cache.lookup k ≠ none → t.cache.lookup k ≠ none
  fresh : Fresh n k s → Fresh n k t

/-- The step does what may be done, and a call for the resource answers as it should. -/
structure Answers [UnicodeData] (project : String) (n : Nat) (k : String) (kept : Prop) (r : Request)
    (s : Process) (o : Option (Except SecretError String)) (t : Process) : Prop where
  since : Since n k s t
  answered : r.resource project = .ok k → ∀ result, o = some result →
    Answered n k (r.refresh = true ∨ kept) t result

section Since

variable {n : Nat} {k v : String} {s t : Process}

theorem Since.refl (n : Nat) (k : String) (s : Process) : Since n k s s :=
  ⟨List.prefix_rfl, id, id⟩

theorem Since.trans {r : Process} (h : Since n k r s) (h' : Since n k s t) : Since n k r t :=
  ⟨h.history.trans h'.history, fun hr => h'.cached (h.cached hr), fun hr => h'.fresh (h.fresh hr)⟩

theorem since_of_same (hhistory : s.history <+: t.history)
    (hcache : t.cache.lookup k = s.cache.lookup k) : Since n k s t := by
  refine ⟨hhistory, fun hs => by rwa [hcache], ?_⟩
  intro hfresh v hv
  exact (hfresh v (hcache ▸ hv)).mono hhistory

theorem lookup_store (s : Process) (k v : String) : (s.store k v).cache.lookup k = some v :=
  PyDict.lookup_set_self _ _ _

theorem cached_store (s : Process) (k v : String) : (s.store k v).cache.lookup k ≠ none := by
  rw [lookup_store]
  exact Option.some_ne_none v

theorem fresh_store (hhas : Has (s.history.drop n) k v) : Fresh n k (s.store k v) := by
  intro w hw
  rw [lookup_store] at hw
  cases hw
  exact hhas

theorem since_store (hhas : Has (s.history.drop n) k v) : Since n k s (s.store k v) :=
  ⟨List.prefix_rfl, fun _ => cached_store s k v, fun _ => fresh_store hhas⟩

variable [UnicodeData] {project : String} {kept : Prop} {r : Request}

/-- A call for another resource. -/
theorem answers_of_frame (hne : r.resource project ≠ .ok k) (s : Process)
    (o : Option (Except SecretError String)) (t : Process) (h : Frame project r s o t) :
    Answers project n k kept r s o t :=
  ⟨since_of_same (h.history ▸ List.prefix_rfl) (h.others k hne).1, fun hk => absurd hk hne⟩

/-- What the cache has is read back, and it is fresh if the answer has to be. -/
theorem readCache_answers {pre : Process → Prop}
    (hpre : ∀ s, pre s → s.cache.lookup k ≠ none ∧ (r.refresh = true ∨ kept → Fresh n k s)) :
    Program.Meets (Since n k) (Answers project n k kept r) pre (readCache k) := by
  apply Program.meets_exec
  intro s hs
  obtain ⟨hcached, hfresh⟩ := hpre s hs
  obtain ⟨v, hv⟩ := Option.ne_none_iff_exists'.1 hcached
  dsimp only
  rw [hv]
  refine ⟨⟨Since.refl n k s, ?_⟩, Program.meets_ret _⟩
  rintro - result ⟨⟩
  exact fun hcondition => hfresh hcondition v hv

theorem fetch_answers {pre : Process → Prop} (hpre : ∀ s, pre s → n ≤ s.past.length) :
    Program.Meets (Since n k) (Answers project n k kept r) pre (fetch k) := by
  apply Program.meets_exec
  intro s hs
  have hnow : s.service ∈ (s.ask k).history.drop n := service_mem_drop (hpre s hs)
  have hsince : Since n k s (s.ask k) := since_of_same List.prefix_rfl rfl
  dsimp only
  cases hanswer : s.service k with
  | error reason =>
    refine ⟨⟨hsince, ?_⟩, Program.meets_raise _⟩
    rintro - result ⟨⟩
    exact ⟨s.service, hnow, hanswer⟩
  | ok payload =>
    rw [keepResponse]
    cases hpayload : String.fromUTF8? payload with
    | none =>
      refine ⟨⟨hsince, ?_⟩, Program.meets_raise _⟩
      rintro - result ⟨⟩
      exact ⟨s.service, hnow, payload, hanswer, hpayload⟩
    | some v =>
      refine ⟨⟨hsince, fun _ result hresult => by cases hresult⟩, ?_⟩
      apply Program.meets_exec
      intro t ht
      -- Others may have come in, but the value was the service's when it was asked.
      have hhas : Has (t.history.drop n) k v :=
        Has.mono ht.history ⟨s.service, hnow, payload, hanswer, hpayload⟩
      refine ⟨⟨since_store hhas, fun _ result hresult => by cases hresult⟩, ?_⟩
      apply readCache_answers
      intro u hu
      exact ⟨hu.cached (cached_store t k v), fun _ => hu.fresh (fresh_store hhas)⟩

theorem get_answers (r : Request) :
    Program.Meets (Since n k) (Answers project n k kept r)
      (fun s => n ≤ s.past.length ∧ (kept → Fresh n k s)) (get project r) := by
  by_cases hk : r.resource project = .ok k
  · apply Program.meets_exec
    rintro s ⟨hn, hkept⟩
    have hlooked : Answers project n k kept r s (look project r s.cache).outcome s := by
      refine ⟨Since.refl n k s, ?_⟩
      intro _ result hresult
      by_cases hfetch : r.refresh = true ∨ s.cache.lookup k = none
      · rw [look_fetch hk hfetch] at hresult
        cases hresult
      · rw [not_or, Bool.not_eq_true] at hfetch
        rw [look_read hk hfetch.1 hfetch.2] at hresult
        cases hresult
    refine ⟨hlooked, ?_⟩
    dsimp only
    by_cases hfetch : r.refresh = true ∨ s.cache.lookup k = none
    · rw [look_fetch hk hfetch]
      exact fetch_answers fun t ht => hn.trans (length_past_mono ht.history)
    · rw [not_or, Bool.not_eq_true] at hfetch
      rw [look_read hk hfetch.1 hfetch.2]
      apply readCache_answers
      intro t ht
      refine ⟨ht.cached hfetch.2, ?_⟩
      rintro (hrefresh | hk)
      · rw [hfetch.1] at hrefresh
        cases hrefresh
      · exact ht.fresh (hkept hk)
  · exact meets_of_frame (answers_of_frame hk) (fun _ => trivial) (get_frame r) _

end Since

/-! ## Calls that use the cache -/

/-- Nothing happens to the resource. -/
structure Unasked (k : String) (s t : Process) : Prop where
  cache : t.cache.lookup k = s.cache.lookup k
  asked : t.asked.count k = s.asked.count k

section Unasked

variable {k v : String} [UnicodeData] {project : String}

theorem get_unasked {r : Request} (hrefresh : r.resource project = .ok k → r.refresh = false) :
    Program.Meets (Unasked k)
      (fun s o t => Unasked k s t ∧
        (r.resource project = .ok k → ∀ result, o = some result → result = .ok v))
      (fun s => s.cache.lookup k = some v) (get project r) := by
  by_cases hk : r.resource project = .ok k
  · apply Program.meets_exec
    intro s hs
    dsimp only
    rw [look_read hk (hrefresh hk) (by rw [hs]; exact Option.some_ne_none v)]
    refine ⟨⟨⟨rfl, rfl⟩, fun _ result hresult => by cases hresult⟩, ?_⟩
    apply Program.meets_exec
    intro t ht
    have hv : t.cache.lookup k = some v := ht.cache.trans hs
    dsimp only
    rw [hv]
    refine ⟨⟨⟨rfl, rfl⟩, ?_⟩, Program.meets_ret _⟩
    rintro - result ⟨⟩
    rfl
  · refine meets_of_frame ?_ (fun _ => trivial) (get_frame r) _
    intro s o t h
    exact ⟨⟨(h.others k hk).1, (h.others k hk).2⟩, fun hk' => absurd hk' hk⟩

end Unasked

/-! ## Runs -/

section Runs

variable [UnicodeData] {project : String}

/-- A run of calls that meet their promises. What they may rely on (`R`) survives a rotation; every
answer that is given keeps being `good`. -/
theorem run_meets {R : Process → Process → Prop}
    {G : Request → Process → Option (Except SecretError String) → Process → Prop} (I : Process → Prop)
    (allowed : Request → Prop) (good : Process → Request × Except SecretError String → Prop)
    (hrefl : ∀ s, R s s) (htrans : ∀ r s t, R r s → R s t → R r t)
    (hguar : ∀ r s o t, G r s o t → R s t) (hrotate : ∀ s service, R s (s.rotate service))
    (hI : ∀ s t, I s → R s t → I t)
    (hmeets : ∀ r, allowed r → Program.Meets R (G r) I (get project r))
    (hgood : ∀ r s result t, G r s (some result) t → good t (r, result))
    (hmono : ∀ s t answer, good s answer → R s t → good t answer) {later : List Action}
    (hallowed : ∀ r, .call (.begin r) ∈ later → allowed r) {P Q : Calls}
    (hsound : Pool.Sound R G P) (hP : I P.state)
    (hrun : Machine.run (step project) P later = some Q) :
    Pool.Sound R G Q ∧ R P.state Q.state ∧
      ∃ answers, Q.answers = P.answers ++ answers ∧ ∀ answer ∈ answers, good Q.state answer := by
  induction later generalizing P with
  | nil =>
    cases hrun
    exact ⟨hsound, hrefl _, [], (List.append_nil _).symm, fun _ h => by cases h⟩
  | cons a later ih =>
    obtain ⟨P', hstep, hrun⟩ := Machine.run_cons.1 hrun
    -- One step: the programs keep their promises, and at most one answer is added, a good one.
    have hone : Pool.Sound R G P' ∧ R P.state P'.state ∧
        ∃ answers, P'.answers = P.answers ++ answers ∧ ∀ answer ∈ answers, good P'.state answer := by
      cases a with
      | rotate service =>
        cases hstep
        refine ⟨?_, hrotate _ _, [], (List.append_nil _).symm, fun _ h => by cases h⟩
        intro cp hcp
        obtain ⟨pre, hpre, hstable, hprogram⟩ := hsound cp hcp
        exact ⟨pre, hstable _ _ hpre (hrotate _ _), hstable, hprogram⟩
      | call a =>
        obtain ⟨hsound', hcases⟩ := Pool.step_spec hrefl htrans hguar hstep hsound fun r ha =>
          ⟨I, hP, hI, hmeets r (hallowed r (ha ▸ List.mem_cons_self))⟩
        rcases hcases with ⟨hstate, hanswers⟩ | ⟨cp, -, o, hG, hanswers⟩
        · exact ⟨hsound', hstate ▸ hrefl _, [], hanswers.trans (List.append_nil _).symm,
            fun _ h => by cases h⟩
        · refine ⟨hsound', hguar _ _ _ _ hG, _, hanswers, ?_⟩
          intro answer hanswer
          obtain ⟨result, rfl, rfl⟩ : ∃ result, o = some result ∧ answer = (cp.1, result) := by
            cases o with
            | none => cases hanswer
            | some result => exact ⟨result, rfl, List.mem_singleton.1 hanswer⟩
          exact hgood _ _ _ _ hG
    obtain ⟨hsound', hR, answers, hanswers, hgoods⟩ := hone
    obtain ⟨hend, hR', answers', hanswers', hgoods'⟩ :=
      ih (fun r hr => hallowed r (List.mem_cons_of_mem a hr)) hsound' (hI _ _ hP hR) hrun
    refine ⟨hend, htrans _ _ _ hR hR', answers ++ answers', ?_, ?_⟩
    · rw [hanswers', hanswers, List.append_assoc]
    · intro answer hanswer
      rcases List.mem_append.1 hanswer with hanswer | hanswer
      · exact hmono _ _ _ (hgoods answer hanswer) hR'
      · exact hgoods' answer hanswer

/-- In every run each call stays within its frame, and a name without a resource is refused. -/
theorem frame_run {service : Service} {actions : List Action} {P : Calls}
    (hrun : Machine.run (step project) (Pool.initial (Process.initial service)) actions = some P) :
    Pool.Sound (fun _ _ => True) (Frame project) P ∧
      ∀ answer ∈ P.answers, ∀ e, answer.1.resource project = .error e → answer.2 = .error e := by
  obtain ⟨hsound, -, answers, hanswers, hgood⟩ := run_meets (fun _ => True) (fun _ => True)
    (fun _ answer => ∀ e, answer.1.resource project = .error e → answer.2 = .error e)
    (fun _ => trivial) (fun _ _ _ _ _ => trivial) (fun _ _ _ _ _ => trivial) (fun _ _ => trivial)
    (fun _ _ _ _ => trivial) (fun r _ => get_frame r)
    (fun r s result t h e he => h.refused e result he rfl) (fun _ _ _ h _ => h) (fun _ _ => trivial)
    (Pool.sound_initial _) trivial hrun
  refine ⟨hsound, ?_⟩
  rw [hanswers]
  exact hgood

/-- No call for the resource is under way. -/
def Idle (project k : String) (P : Calls) : Prop := ∀ cp ∈ P.running, cp.1.resource project ≠ .ok k

/-- Calls under way for other resources keep any promise that their frames keep. -/
theorem sound_of_idle {R : Process → Process → Prop}
    {G : Request → Process → Option (Except SecretError String) → Process → Prop} {k : String} {P : Calls}
    (hframe : ∀ r, r.resource project ≠ .ok k → ∀ s o t, Frame project r s o t → G r s o t)
    (hsound : Pool.Sound (fun _ _ => True) (Frame project) P) (hidle : Idle project k P) :
    Pool.Sound R G P := by
  intro cp hcp
  obtain ⟨pre, hpre, hstable, hmeets⟩ := hsound cp hcp
  refine ⟨fun _ => True, trivial, fun _ _ _ _ => trivial, ?_⟩
  exact meets_of_frame (hframe cp.1 (hidle cp hcp)) (fun s => hstable P.state s hpre trivial) hmeets _

variable {k : String} {P Q : Calls} {later : List Action}

/-- From a moment when no call for the resource is under way: a refreshed value is one the service has
had since, and so is every value if the one in the cache was. -/
theorem answers_since (hsound : Pool.Sound (fun _ _ => True) (Frame project) P)
    (hidle : Idle project k P) (hrun : Machine.run (step project) P later = some Q) {n : Nat}
    (hn : n ≤ P.state.past.length) :
    ∃ answers, Q.answers = P.answers ++ answers ∧ ∀ answer ∈ answers,
      answer.1.resource project = .ok k →
        Answered n k (answer.1.refresh = true ∨ Fresh n k P.state) Q.state answer.2 := by
  let kept : Prop := Fresh n k P.state
  have hstart : Pool.Sound (Since n k) (Answers project n k kept) P :=
    sound_of_idle (fun r hr => answers_of_frame hr) hsound hidle
  obtain ⟨-, -, hanswers⟩ := run_meets
    (fun s => n ≤ s.past.length ∧ (kept → Fresh n k s)) (fun _ => True)
    (fun s answer => answer.1.resource project = .ok k →
      Answered n k (answer.1.refresh = true ∨ kept) s answer.2)
    (Since.refl n k) (fun _ _ _ => Since.trans) (fun _ _ _ _ h => h.since)
    (fun s service => since_of_same (history_rotate s service) rfl)
    (fun s t hs hst => ⟨hs.1.trans (length_past_mono hst.history), fun h => hst.fresh (hs.2 h)⟩)
    (fun r _ => get_answers r) (fun r s result t h hk => h.answered hk result rfl)
    (fun s t answer h hst hk => (h hk).mono hst.history) (fun _ _ => trivial) hstart ⟨hn, id⟩ hrun
  exact hanswers

/-- From a moment when no call for the resource is under way and the cache has its value: if nobody
asks for a refresh, nothing is asked of the service, and every answer is this value. -/
theorem unasked_since (hsound : Pool.Sound (fun _ _ => True) (Frame project) P)
    (hidle : Idle project k P) (hrun : Machine.run (step project) P later = some Q) {v : String}
    (hv : P.state.cache.lookup k = some v)
    (hrefresh : ∀ r, .call (.begin r) ∈ later → r.resource project = .ok k → r.refresh = false) :
    Unasked k P.state Q.state ∧
      ∃ answers, Q.answers = P.answers ++ answers ∧ ∀ answer ∈ answers,
        answer.1.resource project = .ok k → answer.2 = .ok v := by
  have hstart : Pool.Sound (Unasked k) (fun r s o t => Unasked k s t ∧
      (r.resource project = .ok k → ∀ result, o = some result → result = .ok v)) P := by
    refine sound_of_idle ?_ hsound hidle
    intro r hr s o t h
    exact ⟨⟨(h.others k hr).1, (h.others k hr).2⟩, fun hk => absurd hk hr⟩
  obtain ⟨-, hunasked, hanswers⟩ := run_meets (fun s => s.cache.lookup k = some v)
    (fun r => r.resource project = .ok k → r.refresh = false)
    (fun _ answer => answer.1.resource project = .ok k → answer.2 = .ok v)
    (fun _ => ⟨rfl, rfl⟩)
    (fun _ _ _ h h' => ⟨h'.cache.trans h.cache, h'.asked.trans h.asked⟩) (fun _ _ _ _ h => h.1)
    (fun _ _ => ⟨rfl, rfl⟩) (fun _ _ hs hst => hst.cache.trans hs) (fun r hr => get_unasked hr)
    (fun r s result t h hk => h.2 hk result rfl) (fun _ _ _ h _ => h) hrefresh hstart hv hrun
  exact ⟨hunasked, hanswers⟩

/-- In every run of calls and rotations, in any order of their steps: an answer is a value or a refusal
the service has had for the resource, and a name without a resource is refused. From any moment when no
call for a resource is under way: what is answered to a refresh the service has had since then; and if
the cache has a value, it is not asked for again until somebody asks for a refresh, and every answer is
this value. -/
theorem secrets_run (service : Service) {actions : List Action}
    (hrun : Machine.run (step project) (Pool.initial (Process.initial service)) actions = some P) :
    (∀ answer ∈ P.answers,
      (∀ e, answer.1.resource project = .error e → answer.2 = .error e) ∧
        ∀ k, answer.1.resource project = .ok k → Answered 0 k True P.state answer.2) ∧
      ∀ later Q k, Machine.run (step project) P later = some Q → Idle project k P →
        ∃ answers, Q.answers = P.answers ++ answers ∧
          (∀ answer ∈ answers, answer.1.resource project = .ok k →
            Answered P.state.past.length k (answer.1.refresh = true) Q.state answer.2) ∧
          ∀ v, P.state.cache.lookup k = some v →
            (∀ r, .call (.begin r) ∈ later → r.resource project = .ok k → r.refresh = false) →
              Q.state.asked.count k = P.state.asked.count k ∧
                ∀ answer ∈ answers, answer.1.resource project = .ok k → answer.2 = .ok v := by
  obtain ⟨hsound, hrefused⟩ := frame_run hrun
  constructor
  · intro answer hanswer
    refine ⟨hrefused answer hanswer, ?_⟩
    intro k hk
    -- At first the cache is empty, so all it ever has is fresh.
    have hempty : Fresh 0 k (Process.initial service) := fun v hv => by cases hv
    obtain ⟨answers, hanswers, hgood⟩ := answers_since (k := k) (Pool.sound_initial _)
      (fun cp hcp => by cases hcp) hrun (Nat.zero_le _)
    rw [hanswers] at hanswer
    exact Answered.imp (fun _ => Or.inr hempty) (hgood answer hanswer hk)
  · intro later Q k hlater hidle
    obtain ⟨answers, hanswers, hgood⟩ := answers_since hsound hidle hlater le_rfl
    refine ⟨answers, hanswers, ?_, ?_⟩
    · intro answer hanswer hk
      exact Answered.imp Or.inl (hgood answer hanswer hk)
    · intro v hv hrefresh
      obtain ⟨hunasked, answers', hanswers', hvalue⟩ :=
        unasked_since hsound hidle hlater hv hrefresh
      rw [hanswers] at hanswers'
      rw [List.append_cancel_left hanswers']
      exact ⟨hunasked.asked, hvalue⟩

end Runs

section Example

attribute [local instance] asciiData

/-- A service with one value for all resources. -/
def always (value : String) : Service := fun _ => .ok value.toUTF8

/-- Two threads read a secret at the same time, and both ask for it. Then the secret is rotated. -/
def twoReaders : List Action :=
  [.call (.begin { name := "token" }), .call (.begin { name := "token" }), .call (.advance 0),
   .call (.advance 1), .call (.advance 0), .call (.advance 1), .call (.advance 1), .call (.advance 0),
   .call (.advance 0), .call (.advance 0), .rotate (always "two")]

def rereading : List Action :=
  [.call (.begin { name := "token" }), .call (.advance 0), .call (.advance 0)]

def refreshing : List Action :=
  [.call (.begin { name := "token", refresh := true }), .call (.advance 0), .call (.advance 0),
   .call (.advance 0), .call (.advance 0)]

def tokenPath : String := "projects/p/secrets/token/versions/latest"

theorem resource_token (refresh : Bool) :
    Request.resource "p" { name := "token", refresh := refresh } = .ok tokenPath := by
  have hshort : "token".toList.contains '/' = false := by decide
  show resourceName "p" "token" "latest" = .ok tokenPath
  rw [resourceName, hshort]
  rfl

theorem run_twoReaders :
    ∃ P, Machine.run (step "p") (Pool.initial (Process.initial (always "one"))) twoReaders = some P ∧
      Idle "p" tokenPath P ∧ P.state.cache.lookup tokenPath = some "one" ∧
      P.state.asked.count tokenPath = 2 ∧ P.state.history = [always "one", always "two"] ∧
      (∃ Q, Machine.run (step "p") P rereading = some Q) ∧
      ∃ Q, Machine.run (step "p") P refreshing = some Q ∧ Q.state.history = P.state.history ∧
        ∃ value, Q.answers = P.answers ++ [({ name := "token", refresh := true }, .ok value)] :=
  ⟨_, rfl, fun _ hcp => (List.not_mem_nil hcp).elim, rfl, by decide +kernel, rfl, ⟨_, rfl⟩, _, rfl,
    rfl, _, rfl⟩

/-- The old value is kept, without another question, until somebody asks for a refresh. -/
theorem secrets_run_rotated :
    ∃ P, Machine.run (step "p") (Pool.initial (Process.initial (always "one"))) twoReaders = some P ∧
      (∃ Q, Machine.run (step "p") P rereading = some Q ∧ Q.state.asked.count tokenPath = 2) ∧
      ∃ Q, Machine.run (step "p") P refreshing = some Q ∧
        Q.answers = P.answers ++ [({ name := "token", refresh := true }, .ok "two")] := by
  obtain ⟨P, hrun, hidle, hcache, hasked, hhistory, ⟨Q, hQ⟩, R, hR, hsame, value, hanswers⟩ :=
    run_twoReaders
  obtain ⟨-, hlater⟩ := secrets_run (always "one") hrun
  refine ⟨P, hrun, ⟨Q, hQ, ?_⟩, R, hR, ?_⟩
  · obtain ⟨answers, -, -, hkept⟩ := hlater rereading Q tokenPath hQ hidle
    have hrefresh : ∀ r, Action.call (.begin r) ∈ rereading →
        r.resource "p" = .ok tokenPath → r.refresh = false := by
      intro r hr _
      simp only [rereading, List.mem_cons, Action.call.injEq, PoolAction.begin.injEq, reduceCtorEq,
        List.not_mem_nil, or_false] at hr
      rw [hr]
    rw [(hkept "one" hcache hrefresh).1, hasked]
  · obtain ⟨answers, hsince, hfresh, -⟩ := hlater refreshing R tokenPath hR hidle
    rw [hanswers] at hsince
    have hmem : ({ name := "token", refresh := true }, .ok value) ∈ answers := by
      rw [← List.append_cancel_left hsince]
      exact List.mem_singleton.2 rfl
    have hpast : P.state.past.length = 1 := by
      have hlength := congrArg List.length hhistory
      rw [Process.history, List.length_append] at hlength
      exact Nat.succ.inj hlength
    obtain ⟨service, hservice, payload, hpayload, hvalue⟩ := hfresh _ hmem (resource_token true) rfl
    rw [hsame, hhistory, hpast] at hservice
    obtain rfl := List.mem_singleton.1 hservice
    cases hpayload
    rw [hanswers, ← Option.some.inj hvalue]
    rfl

end Example

end Secrets

end AgentCluster.Shared
