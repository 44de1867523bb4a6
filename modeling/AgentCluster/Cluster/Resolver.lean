import AgentCluster.Cluster.Environment

/-!
# Peers as tools

`AgentResolver` makes a tool of each configured peer, addressed by the URL of its agent card: base
URL, RPC path and well-known path written one after the other. `composes_fromEnv_iff` is when the
slashes of that URL are right; `resolves_peers` ties the lookup by name to the list of all tools.
-/

set_option autoImplicit false

namespace AgentCluster.Cluster

open Python Library

/-- `AGENT_CARD_WELL_KNOWN_PATH`: a path that starts with exactly one slash. -/
structure WellKnownPath where
  path : String
  slash : leading '/' path.toList = 1

/-- An agent behind the URL of its card. -/
structure RemoteA2aAgent where
  name : String
  agentCard : String
  description : String
  deriving DecidableEq

/-- A peer as a tool with the contract of its payload. -/
structure PeerTool (σ : Type) where
  agent : RemoteA2aAgent
  payloadSchema : σ
  description : String
  deriving DecidableEq

structure KeyError where
  message : String
  deriving DecidableEq

/-- What peers are resolved with: the configuration, the contract of each peer that has one, and
`UnknownPeerRequest` for the others. -/
structure AgentResolver (σ : Type) where
  config : ClusterConfig
  payloadSchemas : PyDict σ
  unknownPeerRequest : σ

namespace AgentResolver

variable {σ : Type} (resolver : AgentResolver σ) (wellKnown : WellKnownPath)

/-- The URL of the agent card of a peer. -/
def cardUrl (peer : PeerSpec) : String :=
  peer.baseUrl ++ resolver.config.rpcPath ++ wellKnown.path

def payloadSchema (name : String) : σ :=
  (resolver.payloadSchemas.lookup name).getD resolver.unknownPeerRequest

/-- The tool of a peer. -/
def resolvePeer (peer : PeerSpec) : PeerTool σ :=
  let remote : RemoteA2aAgent :=
    ⟨peer.name, resolver.cardUrl wellKnown peer, "Remote specialist agent '" ++ peer.name ++
      "' reachable over A2A at " ++ peer.baseUrl ++ "."⟩
  ⟨remote, resolver.payloadSchema peer.name, "Delegate a self-contained task to the '" ++
    peer.name ++ "' specialist agent over A2A. It receives ONLY the fields below — it cannot " ++
      "see this conversation — so state everything it needs."⟩

/-- The tool of the first peer of that name. -/
def resolve [UnicodeData] (name : String) : Except KeyError (PeerTool σ) :=
  match resolver.config.peers.find? fun peer => peer.name = name with
  | some peer => .ok (resolver.resolvePeer wellKnown peer)
  | none => .error ⟨"No peer named " ++ strRepr name ++ " in cluster configuration"⟩

/-- The tools of all peers. -/
def resolveAll : List (PeerTool σ) := resolver.config.peers.map (resolver.resolvePeer wellKnown)

end AgentResolver

/-! ## Card URLs -/

/-- The URL is the base, the path and the tail, with exactly one slash where two of them meet. -/
structure CleanUrl (url base path tail : String) : Prop where
  text : url = base ++ path ++ tail
  first : JoinsOnce '/' base.toList (path ++ tail).toList
  second : JoinsOnce '/' (base ++ path).toList tail.toList

/-- Agent-card URLs compose cleanly. -/
structure Composes {σ : Type} (wellKnown : WellKnownPath) (resolver : AgentResolver σ) : Prop where
  rpcPath : IsNormal resolver.config.rpcPath
  baseUrl : ∀ peer ∈ resolver.config.peers, trailing '/' peer.baseUrl.toList = 0
  cardUrl : ∀ peer ∈ resolver.config.peers, CleanUrl (resolver.cardUrl wellKnown peer) peer.baseUrl
    resolver.config.rpcPath wellKnown.path

/-- A base without a trailing slash and a path that is a slash and a body: the URL is clean exactly
when the body is not empty. -/
theorem cleanUrl_iff {base path : String} {body : List Char} (wellKnown : WellKnownPath)
    (hbase : trailing '/' base.toList = 0) (hpath : path.toList = '/' :: body)
    (hleading : leading '/' body = 0) (htrailing : trailing '/' body = 0) :
    CleanUrl (base ++ path ++ wellKnown.path) base path wellKnown.path ↔ body ≠ [] := by
  constructor
  · rintro ⟨-, hfirst, -⟩ rfl
    rw [String.toList_append, hpath] at hfirst
    exact (not_joinsOnce_separator hbase wellKnown.slash).1 hfirst
  · intro hne
    obtain ⟨hfirst, hsecond⟩ := joinsOnce_middle hbase hne hleading htrailing wellKnown.slash
    refine ⟨rfl, ?_, ?_⟩
    · rwa [String.toList_append, hpath]
    · rwa [String.toList_append, hpath]

section FromEnv

variable (env : PyDict String) (name : Option String) (defaultPeers : List String)

/-- The peers of a configuration are those that some list of items stands for. -/
theorem isParsed_fromEnv : ∃ dns items,
    IsParsed dns items (ClusterConfig.fromEnv env name defaultPeers).peers :=
  ⟨_, _, isParsed_foldl _⟩

theorem trailing_baseUrl {peer : PeerSpec}
    (hpeer : peer ∈ (ClusterConfig.fromEnv env name defaultPeers).peers) :
    trailing '/' peer.baseUrl.toList = 0 := by
  obtain ⟨dns, items, hparsed⟩ := isParsed_fromEnv env name defaultPeers
  exact trailing_eq_zero_iff.2 (hparsed.noSlash peer hpeer)

variable {σ : Type} (schemas : PyDict σ) (unknown : σ) (wellKnown : WellKnownPath)

/-- **The card URLs of every environment compose cleanly exactly when its RPC path is not made of
slashes only.** The same holds of each card URL. -/
theorem composes_fromEnv_iff :
    let resolver : AgentResolver σ :=
      ⟨ClusterConfig.fromEnv env name defaultPeers, schemas, unknown⟩
    (Composes wellKnown resolver ↔ ¬OnlySlashes (env.lookup rpcPathEnv)) ∧
      ∀ peer ∈ resolver.config.peers,
        CleanUrl (resolver.cardUrl wellKnown peer) peer.baseUrl resolver.config.rpcPath
          wellKnown.path ↔ ¬OnlySlashes (env.lookup rpcPathEnv) := by
  intro resolver
  obtain ⟨body, hpath, hleading, htrailing, hempty⟩ :=
    normalizeRpcPath_spec (env.lookup rpcPathEnv)
  have hurl : ∀ peer ∈ resolver.config.peers,
      CleanUrl (resolver.cardUrl wellKnown peer) peer.baseUrl resolver.config.rpcPath
        wellKnown.path ↔ ¬OnlySlashes (env.lookup rpcPathEnv) := by
    intro peer hpeer
    rw [← hempty]
    exact cleanUrl_iff wellKnown (trailing_baseUrl env name defaultPeers hpeer) hpath hleading
      htrailing
  refine ⟨⟨?_, ?_⟩, hurl⟩
  · intro h
    exact (isNormal_normalizeRpcPath_iff _).1 h.rpcPath
  · intro hnot
    constructor
    · exact (isNormal_normalizeRpcPath_iff _).2 hnot
    · exact fun peer hpeer => trailing_baseUrl env name defaultPeers hpeer
    · exact fun peer hpeer => (hurl peer hpeer).2 hnot

end FromEnv

/-- The path where the agent card is published. -/
def agentCardPath : WellKnownPath := ⟨"/.well-known/agent-card.json", by decide⟩

/-- With `A2A_RPC_PATH` a single slash the card URL of a peer has two slashes behind its host. -/
theorem rpcPath_slash_fails :
    let resolver : AgentResolver Unit :=
      ⟨ClusterConfig.fromEnv [("A2A_RPC_PATH", "/"), ("A2A_PEERS", "math=http://math")] none [], [],
        ()⟩
    resolver.config.rpcPath = "/" ∧
      resolver.config.peers.map (resolver.cardUrl agentCardPath) =
        ["http://math//.well-known/agent-card.json"] ∧
      ¬Composes agentCardPath resolver := by
  intro resolver
  have hpath : resolver.config.rpcPath = "/" := by decide +kernel
  refine ⟨hpath, by decide +kernel, ?_⟩
  intro h
  have hnormal := h.rpcPath
  rw [hpath] at hnormal
  exact absurd hnormal (by decide)

end AgentCluster.Cluster
