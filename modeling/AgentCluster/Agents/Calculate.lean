import AgentCluster.Python.Arithmetic
import AgentCluster.Python.Value

/-!
# The arithmetic evaluator

`evalNode` walks an expression tree and accepts number literals, seven binary operators and the two
signs; `calculate` reports the value or the error. `Denotes` gives the trees their values without
following the evaluator, and the evaluator agrees with it (`denotes_of_evalNode`,
`evalNode_of_denotes`).

`InLanguage` is the language of the tool. Every tree of it is evaluated, or fails in its arithmetic.
The other way round `True` and `False` are literals the evaluator lets through, because a `bool` is an
`int`: it accepts exactly the language on the trees that do not name them or have no value anyway
(`acceptsExactly_iff`).
-/

set_option autoImplicit false

namespace AgentCluster.Agents

open Python

/-- `float(value)` of the instances of `int` and `float`; a `bool` is an `int`. -/
def numeric : Constant → Option (Except Exception Binary64)
  | .bool b => some (floatOfInt (if b then 1 else 0))
  | .int n => some (floatOfInt n)
  | .float x => some (.ok x)
  | _ => none

/-- What is raised for every other node. -/
def unsupported : Exception := ⟨.valueError, "Unsupported expression"⟩

/-- Unary operators allowed in the arithmetic evaluator. -/
def unaryOps : UnaryOp → Option (Number → Number)
  | .uAdd => some Number.pos
  | .uSub => some Number.neg
  | _ => none

/-- Numeric literals, the seven binary operators and the two signs, at any depth. -/
inductive InLanguage : Expr → Prop
  | int (n : Int) : InLanguage (.constant (.int n))
  | float (x : Binary64) : InLanguage (.constant (.float x))
  | binOp {left right : Expr} {op : Operator}
      (hop : op ∈ [Operator.add, .sub, .mult, .div, .floorDiv, .mod, .pow]) :
      InLanguage left → InLanguage right → InLanguage (.binOp left op right)
  | unaryOp {operand : Expr} {op : UnaryOp} (hop : op ∈ [UnaryOp.uAdd, .uSub]) :
      InLanguage operand → InLanguage (.unaryOp op operand)

/-- `True` or `False` stands where an operand can stand. -/
def namesBool : Expr → Bool
  | .constant (.bool _) => true
  | .binOp left _ right => namesBool left || namesBool right
  | .unaryOp _ operand => namesBool operand
  | _ => false

theorem InLanguage.namesBool {e : Expr} (h : InLanguage e) : namesBool e = false := by
  induction h with
  | int n => rfl
  | float x => rfl
  | binOp hop _ _ ihl ihr => rw [Agents.namesBool, ihl, ihr, Bool.or_false]
  | unaryOp hop _ ih => exact ih

section Calculate

variable [Platform]

/-- Binary operators allowed in the arithmetic evaluator. -/
def binaryOps : Operator → Option (Number → Number → Except Exception Number)
  | .add => some fun v w => .ok (v.add w)
  | .sub => some fun v w => .ok (v.sub w)
  | .mult => some fun v w => .ok (v.mul w)
  | .div => some Number.truediv
  | .floorDiv => some Number.floordiv
  | .mod => some Number.mod
  | .pow => some Number.pow
  | _ => none

/-- Recursively evaluate a whitelisted arithmetic node. -/
def evalNode : Expr → Except Exception Number
  | .constant value =>
      match numeric value with
      | some x => x.map .real
      | none => .error unsupported
  | .binOp left op right =>
      match binaryOps op with
      | some f => do
          let v ← evalNode left
          let w ← evalNode right
          f v w
      | none => .error unsupported
  | .unaryOp op operand =>
      match unaryOps op with
      | some f => (evalNode operand).map f
      | none => .error unsupported
  | _ => .error unsupported

/-- The exceptions that `calculate` reports. -/
def ExceptionKind.isReported : ExceptionKind → Bool
  | .valueError | .syntaxError | .zeroDivisionError | .typeError => true
  | _ => false

/-- Evaluate a basic arithmetic expression; `parse` is `ast.parse` in expression mode. -/
def calculate (parse : String → Except Exception Expr) (expression : String) :
    Except Exception Dict :=
  match (parse expression).bind evalNode with
  | .error e =>
      if ExceptionKind.isReported e.kind then
        .ok [("status", .str "error"), ("expression", .str expression), ("error", .str e.message)]
      else .error e
  | .ok result =>
      .ok [("status", .str "ok"), ("expression", .str expression), ("result", .str result.str)]

/-! ## Values -/

/-- The number an expression stands for. -/
inductive Denotes : Expr → Number → Prop
  | constant {value : Constant} {x : Binary64} :
      numeric value = some (.ok x) → Denotes (.constant value) (.real x)
  | binOp {left right : Expr} {op : Operator} {f : Number → Number → Except Exception Number}
      {v w z : Number} :
      binaryOps op = some f → Denotes left v → Denotes right w → f v w = .ok z →
        Denotes (.binOp left op right) z
  | unaryOp {operand : Expr} {op : UnaryOp} {f : Number → Number} {v : Number} :
      unaryOps op = some f → Denotes operand v → Denotes (.unaryOp op operand) (f v)

theorem evalNode_constant (value : Constant) :
    evalNode (.constant value) = (numeric value).elim (.error unsupported) fun x => x.map .real := by
  rw [evalNode]
  cases numeric value <;> rfl

theorem evalNode_binOp (left right : Expr) (op : Operator) :
    evalNode (.binOp left op right) =
      (binaryOps op).elim (.error unsupported) fun f =>
        (evalNode left).bind fun v => (evalNode right).bind fun w => f v w := by
  rw [evalNode]
  cases binaryOps op <;> rfl

theorem evalNode_unaryOp (op : UnaryOp) (operand : Expr) :
    evalNode (.unaryOp op operand) =
      (unaryOps op).elim (.error unsupported) fun f => (evalNode operand).map f := by
  rw [evalNode]
  cases unaryOps op <;> rfl

/-- A binary node has a value when its operator is known, both sides have values and the operator
returns. -/
theorem evalNode_binOp_eq_ok {left right : Expr} {op : Operator} {z : Number} :
    evalNode (.binOp left op right) = .ok z ↔
      ∃ f v w, binaryOps op = some f ∧ evalNode left = .ok v ∧ evalNode right = .ok w ∧
        f v w = .ok z := by
  rw [evalNode_binOp]
  cases hop : binaryOps op with
  | none => simp
  | some f =>
    cases hl : evalNode left with
    | error x => simp [Except.bind]
    | ok v =>
      cases hr : evalNode right with
      | error x => simp [Except.bind]
      | ok w => simp [Except.bind]

/-- The error of a binary node is that of the first part that fails. -/
theorem evalNode_binOp_eq_error {left right : Expr} {op : Operator} {x : Exception} :
    evalNode (.binOp left op right) = .error x ↔
      binaryOps op = none ∧ x = unsupported ∨
        ∃ f, binaryOps op = some f ∧
          (evalNode left = .error x ∨
            ∃ v, evalNode left = .ok v ∧
              (evalNode right = .error x ∨ ∃ w, evalNode right = .ok w ∧ f v w = .error x)) := by
  rw [evalNode_binOp]
  cases hop : binaryOps op with
  | none => simp [eq_comm]
  | some f =>
    cases hl : evalNode left with
    | error y => simp [Except.bind]
    | ok v =>
      cases hr : evalNode right with
      | error y => simp [Except.bind]
      | ok w => simp [Except.bind]

theorem evalNode_unaryOp_eq_ok {operand : Expr} {op : UnaryOp} {z : Number} :
    evalNode (.unaryOp op operand) = .ok z ↔
      ∃ f v, unaryOps op = some f ∧ evalNode operand = .ok v ∧ f v = z := by
  rw [evalNode_unaryOp]
  cases hop : unaryOps op with
  | none => simp
  | some f =>
    cases hv : evalNode operand with
    | error x => simp [Except.map]
    | ok v => simp [Except.map]

theorem evalNode_unaryOp_eq_error {operand : Expr} {op : UnaryOp} {x : Exception} :
    evalNode (.unaryOp op operand) = .error x ↔
      unaryOps op = none ∧ x = unsupported ∨
        ∃ f, unaryOps op = some f ∧ evalNode operand = .error x := by
  rw [evalNode_unaryOp]
  cases hop : unaryOps op with
  | none => simp [eq_comm]
  | some f =>
    cases hv : evalNode operand with
    | error y => simp [Except.map]
    | ok v => simp [Except.map]

theorem evalNode_constant_eq_ok {value : Constant} {z : Number} :
    evalNode (.constant value) = .ok z ↔ ∃ x, numeric value = some (.ok x) ∧ .real x = z := by
  rw [evalNode_constant]
  cases numeric value with
  | none => simp
  | some r => cases r <;> simp [Except.map]

theorem evalNode_constant_eq_error {value : Constant} {x : Exception} :
    evalNode (.constant value) = .error x ↔
      numeric value = none ∧ x = unsupported ∨ numeric value = some (.error x) := by
  rw [evalNode_constant]
  cases numeric value with
  | none => simp [eq_comm]
  | some r => cases r <;> simp [Except.map]

/-- Every other node is refused. -/
theorem evalNode_other {e : Expr} (hconstant : ∀ value, e = .constant value → False)
    (hbin : ∀ left op right, e = .binOp left op right → False)
    (hunary : ∀ op operand, e = .unaryOp op operand → False) : evalNode e = .error unsupported :=
  evalNode.eq_4 e hconstant hbin hunary

theorem evalNode_of_denotes {e : Expr} {v : Number} (h : Denotes e v) : evalNode e = .ok v := by
  induction h with
  | constant hx => exact evalNode_constant_eq_ok.2 ⟨_, hx, rfl⟩
  | binOp hop _ _ hz ihl ihr => exact evalNode_binOp_eq_ok.2 ⟨_, _, _, hop, ihl, ihr, hz⟩
  | unaryOp hop _ ih => exact evalNode_unaryOp_eq_ok.2 ⟨_, _, hop, ih, rfl⟩

theorem denotes_of_evalNode (e : Expr) : ∀ v, evalNode e = .ok v → Denotes e v := by
  -- The cases are `evalNode`'s own branches: a constant, an operator with its table entry, an
  -- operator without one, any other node.
  induction e using evalNode.induct with
  | case1 value x hx =>
    intro v h
    obtain ⟨y, hy, rfl⟩ := evalNode_constant_eq_ok.1 h
    exact .constant hy
  | case2 value hx =>
    intro v h
    obtain ⟨y, hy, rfl⟩ := evalNode_constant_eq_ok.1 h
    exact .constant hy
  | case3 left op right f hop ihl ihr =>
    intro z h
    obtain ⟨g, v, w, hg, hv, hw, hz⟩ := evalNode_binOp_eq_ok.1 h
    exact .binOp hg (ihl v hv) (ihr w hw) hz
  -- An operator missing from the table raises, so there is no value to account for.
  | case4 left op right hop =>
    intro z h
    obtain ⟨g, v, w, hg, -⟩ := evalNode_binOp_eq_ok.1 h
    rw [hop] at hg
    cases hg
  | case5 op operand f hop ih =>
    intro z h
    obtain ⟨g, v, hg, hv, rfl⟩ := evalNode_unaryOp_eq_ok.1 h
    exact .unaryOp hg (ih v hv)
  | case6 op operand hop =>
    intro z h
    obtain ⟨g, v, hg, -⟩ := evalNode_unaryOp_eq_ok.1 h
    rw [hop] at hg
    cases hg
  | case7 e hconstant hbin hunary =>
    intro z h
    rw [evalNode_other hconstant hbin hunary] at h
    cases h

/-! ## The language -/

theorem mem_of_binaryOps {op : Operator} {f : Number → Number → Except Exception Number}
    (h : binaryOps op = some f) : op ∈ [Operator.add, .sub, .mult, .div, .floorDiv, .mod, .pow] := by
  cases op <;> simp [binaryOps] at h ⊢

omit [Platform] in
theorem mem_of_unaryOps {op : UnaryOp} {f : Number → Number} (h : unaryOps op = some f) :
    op ∈ [UnaryOp.uAdd, .uSub] := by
  cases op <;> simp [unaryOps] at h ⊢

/-- What has a value and does not name a truth value is in the language. -/
theorem inLanguage_of_denotes {e : Expr} {v : Number} (h : Denotes e v)
    (hbool : namesBool e = false) : InLanguage e := by
  induction h with
  | @constant value x hx =>
    cases value with
    | int n => exact .int n
    | float y => exact .float y
    | bool b => cases hbool
    | _ => cases hx
  | binOp hop _ _ _ ihl ihr =>
    obtain ⟨hl, hr⟩ := Bool.or_eq_false_iff.1 hbool
    exact .binOp (mem_of_binaryOps hop) (ihl hl) (ihr hr)
  | unaryOp hop _ ih => exact .unaryOp (mem_of_unaryOps hop) (ih hbool)

/-- The operators raise arithmetic and type errors only. -/
theorem kind_of_binaryOps {op : Operator} {f : Number → Number → Except Exception Number}
    {v w : Number} {x : Exception} (hop : binaryOps op = some f) (h : f v w = .error x) :
    x.kind = .zeroDivisionError ∨ x.kind = .typeError ∨ op = .pow ∧ x.kind = .overflowError := by
  cases op with
  | add => cases hop; cases h
  | sub => cases hop; cases h
  | mult => cases hop; cases h
  | div =>
    cases hop
    exact Or.inl (Number.kind_of_truediv h)
  | floorDiv =>
    cases hop
    exact (Number.kind_of_floordiv h).imp_right Or.inl
  | mod =>
    cases hop
    exact (Number.kind_of_mod h).imp_right Or.inl
  | pow =>
    cases hop
    exact (Number.kind_of_pow h).imp_right fun hk => Or.inr ⟨rfl, hk⟩
  | _ => cases hop

/-- A tree of the language is never refused. -/
theorem kind_of_inLanguage {e : Expr} {x : Exception} (h : InLanguage e)
    (hx : evalNode e = .error x) : x.kind ≠ .valueError := by
  induction h with
  | int n =>
    rcases evalNode_constant_eq_error.1 hx with ⟨hnone, -⟩ | hsome
    · cases hnone
    · rw [kind_of_floatOfInt (Option.some.inj hsome)]
      decide
  | float y =>
    rcases evalNode_constant_eq_error.1 hx with ⟨hnone, -⟩ | hsome
    · cases hnone
    · cases hsome
  | @binOp left right op hop _ _ ihl ihr =>
    rcases evalNode_binOp_eq_error.1 hx with ⟨hnone, -⟩ | ⟨f, hf, hl | ⟨v, -, hr | ⟨w, -, hfx⟩⟩⟩
    · simp only [List.mem_cons, List.not_mem_nil, or_false] at hop
      rcases hop with rfl | rfl | rfl | rfl | rfl | rfl | rfl <;> cases hnone
    · exact ihl hl
    · exact ihr hr
    · rcases kind_of_binaryOps hf hfx with hk | hk | ⟨-, hk⟩ <;> rw [hk] <;> decide
  | unaryOp hop _ ih =>
    rcases evalNode_unaryOp_eq_error.1 hx with ⟨hnone, -⟩ | ⟨f, -, hoperand⟩
    · simp only [List.mem_cons, List.not_mem_nil, or_false] at hop
      rcases hop with rfl | rfl <;> cases hnone
    · exact ih hoperand

/-- The evaluator has a value for trees of the language only, and never refuses one of them. -/
def AcceptsExactly (e : Expr) : Prop :=
  ((∃ v, evalNode e = .ok v) → InLanguage e) ∧ (InLanguage e → evalNode e ≠ .error unsupported)

/-- The evaluator accepts exactly the language on the trees that name no truth value, and on those
that have no value. -/
theorem acceptsExactly_iff (e : Expr) :
    AcceptsExactly e ↔ namesBool e = false ∨ ¬∃ v, Denotes e v := by
  constructor
  · rintro ⟨hvalue, -⟩
    by_cases hdenotes : ∃ v, Denotes e v
    · obtain ⟨v, hv⟩ := hdenotes
      exact Or.inl (hvalue ⟨v, evalNode_of_denotes hv⟩).namesBool
    · exact Or.inr hdenotes
  · intro h
    refine ⟨?_, fun hlang hx => kind_of_inLanguage hlang hx rfl⟩
    rintro ⟨v, hv⟩
    have hdenotes := denotes_of_evalNode e v hv
    exact inLanguage_of_denotes hdenotes (h.resolve_right fun hnone => hnone ⟨v, hdenotes⟩)

end Calculate

/-- `True` is evaluated, as one, and is no literal of the language. -/
theorem true_accepted :
    @evalNode samplePlatform (.constant (.bool true)) = .ok (.real .one) ∧
      ¬InLanguage (.constant (.bool true)) := by
  refine ⟨by decide +kernel, ?_⟩
  intro h
  cases h

end AgentCluster.Agents
