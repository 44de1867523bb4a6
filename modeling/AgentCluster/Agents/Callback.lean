import AgentCluster.Agents.Reporting

/-!
# When the reporting callback raises

The callback runs after every turn, on whatever a tool returned. It looks each status up in a set,
which raises for one that has no hash and is no set, and it writes what it collected twice, the second
time without the `default` of the first. Writing raises for an `int` that is too long for `str`, for a
value nested beyond the recursion limit and, without a `default`, for one `json` does not know. Apart
from these the callback does not raise (`restates_iff`).
-/

set_option autoImplicit false

namespace AgentCluster.Agents

open Python Library Adk

/-- The callback returns, with a text or without one, exactly when every status can be looked up, every
audited payload can be written with a `default`, and every result without one. -/
theorem restates_iff (room : Room) (ctx : InvocationContext) :
    (∃ text, restateWithin room ctx = .ok text) ↔
      ctx.PayloadsAccepted room ∧ ctx.ResultsWritable room := by
  constructor
  · rintro ⟨text, htext⟩
    exact (restateWithin_iff.1 htext).1
  · intro h
    exact ⟨_, restateWithin_iff.2 ⟨h, rfl⟩⟩

/-- A turn with one tool result. -/
def singleResult (response : Value) : InvocationContext where
  invocationId := "inv-1"
  agentName := "math"
  events :=
    [{ author := "math", invocationId := "inv-1"
       parts := [{ functionResponse := some ⟨"tool", response⟩ }] }]

/-- A status that is a list, and a proposal of a date, both make the callback raise. A status that is a
set does not. -/
theorem singleResult_raises :
    restateStructuredResults (singleResult (.dict [("status", .list [.str "published"])])) =
        .error .unhashableStatus ∧
      restateStructuredResults (singleResult (.dict
        [("status", .str approvalRequired),
         ("proposal", .dict [("due", .object "2026-01-01" "datetime.date(2026, 1, 1)" .hashable)])])) =
        .error .notWritable ∧
      restateStructuredResults (singleResult (.dict
        [("status", .object "\x7b'published'\x7d" "\x7b'published'\x7d" .set)])) = .ok none := by
  refine ⟨?_, ?_, ?_⟩
  · rfl
  · rfl
  · rfl

end AgentCluster.Agents
