import Mathlib.Init

/-!
# Contracts between agents

The status a specialist answers with instead of acting, and the payload that delegates to the math
specialist.
-/

set_option autoImplicit false

namespace AgentCluster.Agents

/-- The status of a result that proposes an action instead of performing it. -/
def approvalRequired : String := "approval_required"

/-- Ask the math specialist to evaluate an expression, and maybe publish it. -/
structure MathRequest where
  caseId : String
  documentRefs : List String := []
  expression : String
  publishAs : String := ""
  approvedBy : String := ""
  decisionNote : String := ""
  deriving DecidableEq

end AgentCluster.Agents
