import AgentCluster.Cluster.Config
import AgentCluster.Python.IntegerFloat

/-!
# The cluster configuration

`ClusterConfig.fromEnv` reads the whole configuration from the environment. Every variable has a
default and no value is refused: a port that is no number is the default port, and `normalizeRpcPath`
makes a path of any text. It is documented to leave one leading slash and none at the end, and does
unless the text is made of slashes only (`isNormal_normalizeRpcPath_iff`).
-/

set_option autoImplicit false

namespace AgentCluster.Cluster

open Python Library

def defaultAgentName : String := "orchestrator"

def defaultNameSpace : String := "agents"

def defaultClusterDomain : String := "svc.cluster.local"

def defaultPeerScheme : String := "http"

def defaultPeerPort : Int := 80

def defaultRpcPath : String := "/a2a/app"

def agentNameEnv : String := "AGENT_NAME"

def nameSpaceEnv : String := "A2A_NAMESPACE"

def clusterDomainEnv : String := "A2A_CLUSTER_DOMAIN"

def peersEnv : String := "A2A_PEERS"

def peerSchemeEnv : String := "A2A_PEER_SCHEME"

def peerPortEnv : String := "A2A_PEER_PORT"

def rpcPathEnv : String := "A2A_RPC_PATH"

/-- Parse a port, falling back to the default. -/
def parsePort : Option String → Int
  | none => defaultPeerPort
  | some raw => if raw = "" ∨ strip raw = "" then defaultPeerPort
      else (pyInt (strip raw)).getD defaultPeerPort

/-- Normalize the A2A RPC path, falling back to the default. -/
def normalizeRpcPath : Option String → String
  | none => defaultRpcPath
  | some raw => if raw = "" ∨ strip raw = "" then defaultRpcPath
      else "/" ++ stripChar (strip raw) '/'

/-- Resolved cluster configuration of an agent instance. -/
structure ClusterConfig where
  name : String
  nameSpace : String
  clusterDomain : String
  peerScheme : String
  peerPort : Int
  peers : List PeerSpec
  rpcPath : String
  deriving DecidableEq

/-- Build the configuration from the environment. A given `name` is not read from it. -/
def ClusterConfig.fromEnv (env : PyDict String) (name : Option String) (defaultPeers : List String) :
    ClusterConfig :=
  let stripped := strip (name.getD ((env.lookup agentNameEnv).getD defaultAgentName))
  let resolvedName := if stripped = "" then defaultAgentName else stripped
  let nameSpace := strip ((env.lookup nameSpaceEnv).getD defaultNameSpace)
  let clusterDomain := strip ((env.lookup clusterDomainEnv).getD defaultClusterDomain)
  let scheme := strip ((env.lookup peerSchemeEnv).getD defaultPeerScheme)
  let port := parsePort (env.lookup peerPortEnv)
  let rpcPath := normalizeRpcPath (env.lookup rpcPathEnv)
  let peers := parsePeers ⟨nameSpace, clusterDomain, scheme, port⟩ (env.lookup peersEnv) defaultPeers
  ⟨resolvedName, nameSpace, clusterDomain, scheme, port, peers, rpcPath⟩

/-! ## The RPC path -/

/-- Exactly one leading slash and no trailing one. -/
structure IsNormal (path : String) : Prop where
  leading : leading '/' path.toList = 1
  trailing : trailing '/' path.toList = 0

instance (path : String) : Decidable (IsNormal path) :=
  decidable_of_iff (leading '/' path.toList = 1 ∧ trailing '/' path.toList = 0)
    ⟨fun h => ⟨h.1, h.2⟩, fun h => ⟨h.leading, h.trailing⟩⟩

/-- A value that is not blank and, without the blanks around it, holds no character but slashes. -/
def OnlySlashes (raw : Option String) : Prop :=
  ∃ text, raw = some text ∧ strip text ≠ "" ∧ ∀ c ∈ (strip text).toList, c = '/'

/-- What is left of a text without the slashes around it neither starts nor ends with one. -/
theorem stripWith_slash (s : List Char) :
    leading '/' (stripWith (· == '/') s) = 0 ∧ trailing '/' (stripWith (· == '/') s) = 0 :=
  ⟨leading_of_isPrefix (List.rdropWhile_prefix _ _) (leading_dropWhile '/' s),
    trailing_rdropWhile '/' _⟩

/-- The default path, or a slash before the text without the blanks and slashes around it. -/
theorem normalizeRpcPath_cases (raw : Option String) :
    (normalizeRpcPath raw = defaultRpcPath ∧ ¬OnlySlashes raw) ∨
      ∃ text, raw = some text ∧ strip text ≠ "" ∧
        normalizeRpcPath raw = "/" ++ stripChar (strip text) '/' := by
  cases raw with
  | none =>
    refine Or.inl ⟨rfl, ?_⟩
    rintro ⟨text, htext, -⟩
    cases htext
  | some raw =>
    by_cases hblank : raw = "" ∨ strip raw = ""
    · refine Or.inl ⟨if_pos hblank, ?_⟩
      rintro ⟨text, ⟨⟩, hne, -⟩
      rcases hblank with hempty | hblank
      · rw [hempty] at hne
        exact hne rfl
      · exact hne hblank
    · exact Or.inr ⟨raw, rfl, fun hempty => hblank (Or.inr hempty), if_neg hblank⟩

/-- A path is a slash and a text without slashes around it, and that text is empty only for a value
made of slashes. -/
theorem normalizeRpcPath_spec (raw : Option String) :
    ∃ body, (normalizeRpcPath raw).toList = '/' :: body ∧ leading '/' body = 0 ∧
      trailing '/' body = 0 ∧ (body = [] ↔ OnlySlashes raw) := by
  rcases normalizeRpcPath_cases raw with ⟨hpath, hnot⟩ | ⟨text, rfl, hne, hpath⟩
  · rw [hpath]
    exact ⟨"a2a/app".toList, by decide, by decide, by decide, iff_of_false (by decide) hnot⟩
  · obtain ⟨hleading, htrailing⟩ := stripWith_slash (strip text).toList
    refine ⟨stripWith (· == '/') (strip text).toList, ?_, hleading, htrailing, ?_⟩
    · have hslash : "/".toList = ['/'] := rfl
      rw [hpath, String.toList_append, hslash, stripChar, String.toList_ofList,
        List.singleton_append]
    · rw [stripWith_eq_nil_iff]
      simp only [beq_iff_eq]
      constructor
      · exact fun h => ⟨text, rfl, hne, h⟩
      · rintro ⟨text, ⟨⟩, -, h⟩
        exact h

/-- The path is normal for every value that is not made of slashes only. -/
theorem isNormal_normalizeRpcPath_iff (raw : Option String) :
    IsNormal (normalizeRpcPath raw) ↔ ¬OnlySlashes raw := by
  obtain ⟨body, hpath, hleading, htrailing, hempty⟩ := normalizeRpcPath_spec raw
  rw [← hempty]
  constructor
  · rintro ⟨-, hend⟩ rfl
    rw [hpath] at hend
    cases hend
  · intro hne
    constructor
    · rw [hpath, leading_cons_self, hleading]
    · rw [hpath, ← List.singleton_append]
      exact trailing_append hne htrailing _

/-- The documented spellings of the default path. -/
example : ["a2a/app", "/a2a/app/", "///a2a/app///"].map (fun raw => normalizeRpcPath (some raw)) =
    ["/a2a/app", "/a2a/app", "/a2a/app"] := by
  decide +kernel

end AgentCluster.Cluster
