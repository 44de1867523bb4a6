import AgentCluster.Python.Value

/-!
# Session events

What the program reads of the framework's events. An event without content, with content without
parts, and with an empty list of parts read alike everywhere, and all three are `parts := []`.
-/

set_option autoImplicit false

namespace AgentCluster.Adk

open Python

/-- A tool result on an event. -/
structure FunctionResponse where
  name : String
  response : Value

/-- A part of an event's content. Of a function call only the name is ever read. -/
structure Part where
  text : Option String := none
  functionCall : Option String := none
  functionResponse : Option FunctionResponse := none

/-- An event of a session. `isFinalResponse` is what the framework's method of that name answers. -/
structure Event where
  author : String
  invocationId : String := ""
  parts : List Part
  errorMessage : Option String := none
  isFinalResponse : Bool := false

namespace Event

def getFunctionCalls (e : Event) : List String := e.parts.filterMap Part.functionCall

def getFunctionResponses (e : Event) : List FunctionResponse :=
  e.parts.filterMap Part.functionResponse

/-- `"".join(p.text or "" for p in e.content.parts).strip()`. -/
def text (e : Event) : String := strip (join "" (e.parts.map fun p => p.text.getD ""))

end Event

end AgentCluster.Adk
