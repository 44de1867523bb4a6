import AgentCluster.Cluster.Environment

/-!
# The database of an agent

`DatabaseConfig.fromEnv` reads from the environment which backend an agent uses and how it connects.
What an engine does that is built from a configuration is an `EngineSpec`: the pool it keeps, and for
PostgreSQL the `search_path` of every connection, which is the agent's own schema
(`searchPath_engineSpec`).
-/

set_option autoImplicit false

namespace AgentCluster.Cluster

open Python Library

def dbBackendEnv : String := "DB_BACKEND"

def dbNameEnv : String := "DB_NAME"

def dbSchemaEnv : String := "DB_SCHEMA"

def dbUrlEnv : String := "DB_URL"

def dbPoolSizeEnv : String := "DB_POOL_SIZE"

def dbMaxOverflowEnv : String := "DB_MAX_OVERFLOW"

def dbPoolRecycleEnv : String := "DB_POOL_RECYCLE"

def alloydbInstanceUriEnv : String := "ALLOYDB_INSTANCE_URI"

def alloydbIamUserEnv : String := "ALLOYDB_IAM_USER"

def alloydbIpTypeEnv : String := "ALLOYDB_IP_TYPE"

def defaultDbName : String := "agents"

def defaultIpType : String := "PRIVATE"

def defaultPoolSize : Int := 5

def defaultMaxOverflow : Int := 2

def defaultPoolRecycle : Int := 1800

inductive Backend where
  | none
  | alloydb
  | url
  deriving DecidableEq

namespace Backend

def toString : Backend → String
  | none => "none"
  | alloydb => "alloydb"
  | url => "url"

/-- `BACKENDS`. -/
def all : List Backend := [none, alloydb, url]

end Backend

structure ValueError where
  message : String
  deriving DecidableEq

/-- Parse an integer, falling back to the default. -/
def intEnv (raw : Option String) (default : Int) : Int :=
  match raw with
  | none => default
  | some raw =>
      if raw = "" ∨ strip raw = "" then default else (pyInt (strip raw)).getD default

/-- Resolved database configuration of an agent instance. -/
structure DatabaseConfig where
  backend : Backend
  instanceUri : String
  iamUser : String
  name : String
  dbSchema : String
  url : String
  ipType : String
  poolSize : Int
  maxOverflow : Int
  poolRecycle : Int
  deriving DecidableEq

namespace DatabaseConfig

def enabled (config : DatabaseConfig) : Bool := config.backend ≠ .none

section FromEnv

variable [UnicodeData] [CaseMapping] (env : PyDict String)

/-- The backend an environment names. -/
def backendOf : Except ValueError Backend :=
  let lowered := CaseMapping.lower (strip ((env.lookup dbBackendEnv).getD Backend.none.toString))
  let backend := if lowered = "" then Backend.none.toString else lowered
  match Backend.all.find? fun b => b.toString = backend with
  | some b => .ok b
  | none =>
      .error ⟨"Unknown " ++ dbBackendEnv ++ "=" ++ strRepr backend ++ "; expected one of " ++
        join ", " (Backend.all.map fun item => strRepr item.toString) ++ "."⟩

/-- What the backend needs is there. -/
def checkRequired (backend : Backend) (instanceUri iamUser url : String) : Except ValueError Unit :=
  match backend with
  | .alloydb =>
      let missing := [(alloydbInstanceUriEnv, instanceUri), (alloydbIamUserEnv, iamUser)].filterMap
        fun (name, value) => if value = "" then some name else none
      if missing = [] then .ok ()
      else
        .error ⟨dbBackendEnv ++ "=" ++ Backend.alloydb.toString ++ " requires " ++
          join " and " missing ++ " to be set."⟩
  | .url =>
      if url = "" then
        .error ⟨dbBackendEnv ++ "=" ++ Backend.url.toString ++ " requires " ++ dbUrlEnv ++
          " to be set."⟩
      else .ok ()
  | .none => .ok ()

/-- Build the configuration from the environment. -/
def fromEnv (defaultSchema : String) : Except ValueError DatabaseConfig := do
  let backend ← backendOf env
  let instanceUri := strip ((env.lookup alloydbInstanceUriEnv).getD "")
  let iamUser := strip ((env.lookup alloydbIamUserEnv).getD "")
  let url := strip ((env.lookup dbUrlEnv).getD "")
  checkRequired backend instanceUri iamUser url
  let name := strip ((env.lookup dbNameEnv).getD defaultDbName)
  let ipType := CaseMapping.upper (strip ((env.lookup alloydbIpTypeEnv).getD defaultIpType))
  return {
    backend := backend
    instanceUri := instanceUri
    iamUser := iamUser
    name := if name = "" then defaultDbName else name
    dbSchema := strip ((env.lookup dbSchemaEnv).getD defaultSchema)
    url := url
    ipType := if ipType = "" then defaultIpType else ipType
    poolSize := intEnv (env.lookup dbPoolSizeEnv) defaultPoolSize
    maxOverflow := intEnv (env.lookup dbMaxOverflowEnv) defaultMaxOverflow
    poolRecycle := intEnv (env.lookup dbPoolRecycleEnv) defaultPoolRecycle }

end FromEnv

/-- Whether a `search_path` is pinned: a schema is given and the driver is PostgreSQL. -/
def wantsSearchPath (config : DatabaseConfig) : Bool :=
  if config.dbSchema = "" then false
  else if config.backend = .alloydb then true
  else startsWith config.url "postgresql"

/-- PostgreSQL session settings of every new connection. -/
def serverSettings (config : DatabaseConfig) : PyDict String :=
  if config.wantsSearchPath then [("search_path", config.dbSchema)] else []

end DatabaseConfig

/-! ## Engines -/

/-- Pool tuning shared by both backends. -/
structure PoolKwargs where
  poolSize : Int
  maxOverflow : Int
  poolRecycle : Int
  poolPrePing : Bool
  deriving DecidableEq

/-- How an engine connects. -/
inductive Connect where
  | connector (ipType instanceUri user db : String)
  | url (url : String)
  deriving DecidableEq

/-- What an engine is built with. SQLite takes neither settings nor pool tuning. -/
structure EngineSpec where
  connect : Connect
  serverSettings : PyDict String := []
  pool : Option PoolKwargs := none
  deriving DecidableEq

namespace DatabaseConfig

variable (config : DatabaseConfig)

def poolKwargs : PoolKwargs := ⟨config.poolSize, config.maxOverflow, config.poolRecycle, true⟩

/-- An engine that reaches AlloyDB through the connector. -/
def alloydbEngine : EngineSpec where
  connect := .connector config.ipType config.instanceUri config.iamUser config.name
  serverSettings := config.serverSettings
  pool := some config.poolKwargs

/-- An engine from a URL. -/
def urlEngine : EngineSpec :=
  if startsWith config.url "sqlite" then ⟨.url config.url, [], none⟩
  else ⟨.url config.url, config.serverSettings, some config.poolKwargs⟩

/-- The engine of a configuration that is enabled. -/
def engineSpec : EngineSpec :=
  if config.backend = .alloydb then config.alloydbEngine else config.urlEngine

/-- The error of a configuration that is not. -/
def disabledError : ValueError :=
  ⟨"No database configured (" ++ dbBackendEnv ++ "=" ++ Backend.none.toString ++ "). Set " ++
    dbBackendEnv ++ " to 'alloydb' or 'url' before requesting an engine."⟩

/-- The target is PostgreSQL. -/
def isPostgresql : Bool :=
  config.backend = .alloydb ∨ config.backend = .url ∧ startsWith config.url "postgresql" = true

/-- A text does not start with two words that differ in their first letter. -/
theorem not_sqlite_of_postgresql (h : startsWith config.url "postgresql" = true) :
    startsWith config.url "sqlite" = false := by
  rw [startsWith] at h ⊢
  cases hurl : config.url.toList with
  | nil =>
    rw [hurl] at h
    cases h
  | cons c rest =>
    rw [hurl] at h
    have hc : 'p' = c := by
      have hprefix := List.isPrefixOf_iff_prefix.1 h
      exact (List.cons_prefix_cons.1 hprefix).1
    rw [← hc]
    rfl

/-- The connections of a PostgreSQL engine find tables in the schema of the configuration, and in
the server's own default if there is none. -/
theorem searchPath_engineSpec (h : config.isPostgresql = true) :
    config.engineSpec.serverSettings.lookup "search_path" =
      if config.dbSchema = "" then none else some config.dbSchema := by
  have hsettings : config.engineSpec.serverSettings = config.serverSettings := by
    rw [engineSpec]
    by_cases hbackend : config.backend = .alloydb
    · rw [if_pos hbackend]
      rfl
    · simp only [isPostgresql, hbackend, false_or, decide_eq_true_eq] at h
      rw [if_neg hbackend, urlEngine, not_sqlite_of_postgresql config h.2]
      rfl
  rw [hsettings, serverSettings, wantsSearchPath]
  by_cases hschema : config.dbSchema = ""
  · rw [if_pos hschema, if_pos hschema]
    rfl
  · rw [if_neg hschema, if_neg hschema]
    by_cases hbackend : config.backend = .alloydb
    · rw [if_pos hbackend]
      rfl
    · simp only [isPostgresql, hbackend, false_or, decide_eq_true_eq] at h
      rw [if_neg hbackend, h.2]
      rfl

end DatabaseConfig

/-- The configuration of this process: the schema defaults to the agent's name. -/
def buildDatabase [UnicodeData] [CaseMapping] (env : PyDict String) :
    Except ValueError DatabaseConfig :=
  let name := strip ((env.lookup agentNameEnv).getD defaultAgentName)
  DatabaseConfig.fromEnv env (if name = "" then defaultAgentName else name)

end AgentCluster.Cluster
