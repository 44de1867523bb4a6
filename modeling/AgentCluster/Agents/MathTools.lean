import AgentCluster.Agents.Contracts
import AgentCluster.Python.Json

/-!
# The gated action of the math agent

`publishResult` proposes to publish, or publishes, depending on whether an approver is named. The list
of publications is passed in and returned.
-/

set_option autoImplicit false

namespace AgentCluster.Agents

open Python

/-- Names the effect in a proposal. -/
def publishAction : String := "publish_result"

/-- A record of the publications list. -/
structure Publication where
  value : String
  label : String
  approvedBy : String
  deriving DecidableEq

/-- The record as the dict it is. -/
def Publication.toDict (p : Publication) : Dict :=
  [("value", .str p.value), ("label", .str p.label), ("approved_by", .str p.approvedBy)]

/-- One stable spelling of a numeric result; what is not numeric stays as it is. -/
def canonicalValue (value : String) : String :=
  match pyFloat value with
  | none => value
  | some number =>
      if number.isInteger then String.ofList (DecimalLiteral.ofInt number.toInt).render
      else String.ofList number.repr

/-- An approver is named. -/
def isApprover (approvedBy : String) : Bool := strip approvedBy != ""

section PublishResult

variable [UnicodeData]

/-- What the call returns when nobody has approved yet. -/
def proposalResult (value label : String) : Dict :=
  [("status", .str approvalRequired), ("action", .str publishAction),
   ("proposal", .dict
      [("action", .str publishAction), ("value", .str value), ("label", .str label)]),
   ("summary", .str ("Publish " ++ strRepr value ++ " under label " ++ strRepr label ++ "."))]

/-- What the call returns after publishing. -/
def publishedResult (record : Publication) (note : String) : Dict :=
  [("status", .str "published"), ("action", .str publishAction), ("note", .str note)] ++
    record.toDict

/-- Publish a computed result, or propose doing so if nobody has approved yet: the result of the
call, and the publications after it. -/
def publishResult (publications : List Publication) (value label approvedBy note : String) :
    Dict × List Publication :=
  let value := canonicalValue value
  if isApprover approvedBy then
    let record : Publication := ⟨value, label, approvedBy⟩
    (publishedResult record note, publications ++ [record])
  else (proposalResult value label, publications)

variable {publications : List Publication} {value label approvedBy note : String}

theorem publishResult_of_isApprover (h : isApprover approvedBy = true) :
    publishResult publications value label approvedBy note =
      (publishedResult ⟨canonicalValue value, label, approvedBy⟩ note,
        publications ++ [⟨canonicalValue value, label, approvedBy⟩]) := by
  rw [publishResult, if_pos h]

theorem publishResult_of_not_isApprover (h : isApprover approvedBy = false) :
    publishResult publications value label approvedBy note =
      (proposalResult (canonicalValue value) label, publications) := by
  rw [publishResult, if_neg (by rw [h]; exact Bool.noConfusion)]

end PublishResult

end AgentCluster.Agents
