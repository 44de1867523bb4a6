import AgentCluster.Agents.Calculate
import AgentCluster.Python.FloatOverflow
import AgentCluster.Python.FloatReading

/-!
# Failures of the arithmetic evaluator

`calculate` reports unsupported nodes, divisions by zero and type errors. Two failures pass it: an
`OverflowError`, from an integer literal past the range of floats or from a power, is not among the
exceptions it catches; and the value of an expression can be a complex number, which `float` cannot
read back. `contains_iff` says that these two are all.
-/

set_option autoImplicit false

namespace AgentCluster.Agents

open Python

section Failures

variable [Platform]

/-- Evaluation reaches an integer literal past the range of floats, or a power that overflows. -/
inductive Overflows : Expr → Prop
  | int {n : Int} : (2 ^ 54 - 1) * 2 ^ 970 ≤ n.natAbs → Overflows (.constant (.int n))
  | left {left right : Expr} {op : Operator} {f : Number → Number → Except Exception Number} :
      binaryOps op = some f → Overflows left → Overflows (.binOp left op right)
  | right {left right : Expr} {op : Operator} {f : Number → Number → Except Exception Number}
      {v : Number} :
      binaryOps op = some f → Denotes left v → Overflows right → Overflows (.binOp left op right)
  | power {left right : Expr} {v w : Number} {e : Exception} :
      Denotes left v → Denotes right w → Number.pow v w = .error e → e.kind = .overflowError →
        Overflows (.binOp left .pow right)
  | operand {operand : Expr} {op : UnaryOp} {f : Number → Number} :
      unaryOps op = some f → Overflows operand → Overflows (.unaryOp op operand)

/-- What overflows raises an `OverflowError`. -/
theorem error_of_overflows {e : Expr} (h : Overflows e) :
    ∃ x, evalNode e = .error x ∧ x.kind = .overflowError := by
  induction h with
  | int hn =>
    obtain ⟨x, hx, hkind⟩ := floatOfInt_of_large hn
    exact ⟨x, evalNode_constant_eq_error.2 (Or.inr (congrArg some hx)), hkind⟩
  | left hop _ ih =>
    obtain ⟨x, hx, hkind⟩ := ih
    exact ⟨x, evalNode_binOp_eq_error.2 (Or.inr ⟨_, hop, Or.inl hx⟩), hkind⟩
  | right hop hl _ ih =>
    obtain ⟨x, hx, hkind⟩ := ih
    have hv := evalNode_of_denotes hl
    exact ⟨x, evalNode_binOp_eq_error.2 (Or.inr ⟨_, hop, Or.inr ⟨_, hv, Or.inl hx⟩⟩), hkind⟩
  | @power left right v w x hl hr hx hkind =>
    have hv := evalNode_of_denotes hl
    have hw := evalNode_of_denotes hr
    exact ⟨x, evalNode_binOp_eq_error.2 (Or.inr ⟨_, rfl, Or.inr ⟨_, hv, Or.inr ⟨_, hw, hx⟩⟩⟩), hkind⟩
  | operand hop _ ih =>
    obtain ⟨x, hx, hkind⟩ := ih
    exact ⟨x, evalNode_unaryOp_eq_error.2 (Or.inr ⟨_, hop, hx⟩), hkind⟩

/-- An error of a literal is reported, or the literal is past the range. -/
theorem overflows_constant {value : Constant} {x : Exception}
    (h : evalNode (.constant value) = .error x) :
    ExceptionKind.isReported x.kind = true ∨ Overflows (.constant value) := by
  rcases evalNode_constant_eq_error.1 h with ⟨-, rfl⟩ | hx
  · exact Or.inl rfl
  · cases value with
    | int n => exact Or.inr (.int (floatOfInt_eq_error (Option.some.inj hx)).1)
    | bool b =>
      have hlarge := (floatOfInt_eq_error (Option.some.inj hx)).1
      exact absurd hlarge (not_large_of_lt (by cases b <;> decide))
    | float y => cases hx
    | _ => cases hx

/-- What is raised is reported, unless evaluation overflows. -/
theorem overflows_of_error (e : Expr) : ∀ x, evalNode e = .error x →
    ExceptionKind.isReported x.kind = true ∨ Overflows e := by
  induction e using evalNode.induct with
  | case1 value y hy => exact fun x => overflows_constant
  | case2 value hy => exact fun x => overflows_constant
  | case3 left op right f hop ihl ihr =>
    intro x h
    -- The errors come in the order Python evaluates: no such operator, then the left operand, the
    -- right one, and last the operation.
    rcases evalNode_binOp_eq_error.1 h with ⟨-, rfl⟩ | ⟨g, hg, hl | ⟨v, hv, hr | ⟨w, hw, hx⟩⟩⟩
    · exact Or.inl rfl
    · exact (ihl x hl).imp_right (.left hop)
    · exact (ihr x hr).imp_right (.right hop (denotes_of_evalNode left v hv))
    · rcases kind_of_binaryOps hg hx with hk | hk | ⟨rfl, hk⟩
      · exact Or.inl (by rw [hk]; rfl)
      · exact Or.inl (by rw [hk]; rfl)
      -- Of the operations only `**` overflows, and that is not reported.
      · cases hg
        exact Or.inr (.power (denotes_of_evalNode left v hv) (denotes_of_evalNode right w hw) hx hk)
  | case4 left op right hop =>
    intro x h
    rcases evalNode_binOp_eq_error.1 h with ⟨-, rfl⟩ | ⟨g, hg, -⟩
    · exact Or.inl rfl
    · rw [hop] at hg
      cases hg
  | case5 op operand f hop ih =>
    intro x h
    rcases evalNode_unaryOp_eq_error.1 h with ⟨-, rfl⟩ | ⟨g, hg, hx⟩
    · exact Or.inl rfl
    · exact (ih x hx).imp_right (.operand hop)
  | case6 op operand hop =>
    intro x h
    rcases evalNode_unaryOp_eq_error.1 h with ⟨-, rfl⟩ | ⟨g, hg, -⟩
    · exact Or.inl rfl
    · rw [hop] at hg
      cases hg
  | case7 e hconstant hbin hunary =>
    intro x h
    rw [evalNode_other hconstant hbin hunary] at h
    cases h
    exact Or.inl rfl

/-- The call returns a mapping, with the status `error` when evaluating the tree fails, and with the
text of a real number when the status is `ok`. -/
def Contains (parse : String → Except Exception Expr) (expression : String) (tree : Expr) : Prop :=
  ∃ d, calculate parse expression = .ok d ∧
    ((∃ x, evalNode tree = .error x) → d.lookup "status" = some (.str "error")) ∧
    (d.lookup "status" = some (.str "ok") →
      ∃ result x, d.lookup "result" = some (.str result) ∧ pyFloat result = some x)

variable {parse : String → Except Exception Expr} {expression : String} {tree : Expr}

theorem calculate_of_ok {v : Number} (hparse : parse expression = .ok tree)
    (h : evalNode tree = .ok v) :
    calculate parse expression =
      .ok [("status", .str "ok"), ("expression", .str expression), ("result", .str v.str)] := by
  rw [calculate, hparse, Except.bind, h]

theorem calculate_of_reported {x : Exception} (hparse : parse expression = .ok tree)
    (h : evalNode tree = .error x) (hx : ExceptionKind.isReported x.kind = true) :
    calculate parse expression =
      .ok [("status", .str "error"), ("expression", .str expression), ("error", .str x.message)] := by
  rw [calculate, hparse, Except.bind, h]
  exact if_pos hx

theorem calculate_of_not_reported {x : Exception} (hparse : parse expression = .ok tree)
    (h : evalNode tree = .error x) (hx : ExceptionKind.isReported x.kind = false) :
    calculate parse expression = .error x := by
  rw [calculate, hparse, Except.bind, h]
  exact if_neg (by rw [hx]; exact Bool.false_ne_true)

/-- Every failure of a parsed expression is contained exactly when evaluation does not overflow and
the value is not complex. -/
theorem contains_iff (hparse : parse expression = .ok tree) :
    Contains parse expression tree ↔ ¬Overflows tree ∧ ¬∃ z, Denotes tree (.complex z) := by
  constructor
  · rintro ⟨d, hd, -, hreal⟩
    constructor
    · intro hover
      obtain ⟨x, hx, hkind⟩ := error_of_overflows hover
      rw [calculate_of_not_reported hparse hx (by rw [hkind]; rfl)] at hd
      cases hd
    · rintro ⟨z, hz⟩
      rw [calculate_of_ok hparse (evalNode_of_denotes hz)] at hd
      cases hd
      obtain ⟨result, x, hresult, hx⟩ := hreal rfl
      -- A complex result is printed as `(a+bj)`, which `float` does not read.
      have htext : some (Value.str (String.ofList z.repr)) = some (Value.str result) := hresult
      cases htext
      rw [pyFloat_complex] at hx
      cases hx
  · rintro ⟨hover, hcomplex⟩
    cases heval : evalNode tree with
    | error x =>
      have hreported := (overflows_of_error tree x heval).resolve_right hover
      refine ⟨_, calculate_of_reported hparse heval hreported, fun _ => rfl, ?_⟩
      intro hstatus
      have herror : some (Value.str "error") = some (Value.str "ok") := hstatus
      simp at herror
    | ok v =>
      refine ⟨_, calculate_of_ok hparse heval, ?_, ?_⟩
      · rintro ⟨x, hx⟩
        rw [heval] at hx
        cases hx
      · intro hstatus
        cases v with
        | real y => exact ⟨_, y, rfl, pyFloat_repr y⟩
        | complex z => exact absurd ⟨z, denotes_of_evalNode tree _ heval⟩ hcomplex

theorem not_overflows_of_ok {v : Number} (h : evalNode tree = .ok v) : ¬Overflows tree := by
  intro hover
  obtain ⟨x, hx, -⟩ := error_of_overflows hover
  rw [h] at hx
  cases hx

end Failures

/-- A parser that knows one expression. -/
def parserOf (expression : String) (tree : Expr) (s : String) : Except Exception Expr :=
  if s = expression then .ok tree else .error ⟨.syntaxError, "invalid syntax"⟩

theorem parserOf_self (expression : String) (tree : Expr) :
    parserOf expression tree expression = .ok tree :=
  if_pos rfl

section Runs

attribute [local instance] samplePlatform

/-- The tree of `(2 + 3) * 4`. -/
def product : Expr :=
  .binOp (.binOp (.constant (.int 2)) .add (.constant (.int 3))) .mult (.constant (.int 4))

theorem product_contained :
    Contains (parserOf "(2 + 3) * 4" product) "(2 + 3) * 4" product := by
  have hvalue : evalNode product = .ok (.real (.ofInt 20)) := by decide +kernel
  refine (contains_iff (parserOf_self _ _)).2 ⟨not_overflows_of_ok hvalue, ?_⟩
  rintro ⟨z, hz⟩
  have hcomplex := evalNode_of_denotes hz
  rw [hvalue] at hcomplex
  cases hcomplex

/-- A one and 400 zeros. -/
def longNumber : String := String.ofList ('1' :: List.replicate 400 '0')

/-- The tree of `(-1) ** 0.5`. -/
def squareRoot : Expr :=
  .binOp (.unaryOp .uSub (.constant (.int 1))) .pow (.constant (.float .half))

/-- The long number raises an `OverflowError` out of the call, and the square root of minus one is
reported as a result that `float` refuses. -/
theorem failures_escape :
    (∃ x, calculate (parserOf longNumber (.constant (.int (10 ^ 400)))) longNumber = .error x ∧
        x.kind = .overflowError) ∧
      ∃ result, calculate (parserOf "(-1) ** 0.5" squareRoot) "(-1) ** 0.5" =
          .ok [("status", .str "ok"), ("expression", .str "(-1) ** 0.5"), ("result", .str result)] ∧
        pyFloat result = none := by
  constructor
  · have hover : Overflows (.constant (.int (10 ^ 400))) := .int (by decide +kernel)
    obtain ⟨x, hx, hkind⟩ := error_of_overflows hover
    refine ⟨x, calculate_of_not_reported (parserOf_self _ _) hx ?_, hkind⟩
    rw [hkind]
    rfl
  · have hvalue : evalNode squareRoot =
        .ok (.complex ⟨.finite false 4967757600021511 968 (by decide), .one⟩) := by
      decide +kernel
    exact ⟨_, calculate_of_ok (parserOf_self _ _) hvalue, pyFloat_complex _⟩

end Runs

end AgentCluster.Agents
