import AgentCluster.Python.Binary64

/-!
# Expression trees

The expression nodes of the `ast` module, Python 3.14. Positions in the source text are left out.
-/

set_option autoImplicit false

namespace AgentCluster.Python

/-- The values that literals have. -/
inductive Constant where
  | none
  | bool (b : Bool)
  | int (n : Int)
  | float (x : Binary64)
  | complex (imag : Binary64)
  | str (s : String)
  | bytes (bs : List (Fin 256))
  | ellipsis
  deriving DecidableEq

/-- Binary operators. -/
inductive Operator where
  | add | sub | mult | matMult | div | mod | pow | lShift | rShift | bitOr | bitXor | bitAnd
  | floorDiv
  deriving DecidableEq

/-- Unary operators. -/
inductive UnaryOp where
  | invert | not | uAdd | uSub
  deriving DecidableEq

inductive BoolOp where
  | and | or
  deriving DecidableEq

/-- Comparison operators. -/
inductive CmpOp where
  | eq | notEq | lt | ltE | gt | gtE | is | isNot | in | notIn
  deriving DecidableEq

inductive ExprContext where
  | load | store | del
  deriving DecidableEq

mutual

/-- `ast.expr`. -/
inductive Expr where
  | boolOp (op : BoolOp) (values : List Expr)
  | namedExpr (target value : Expr)
  | binOp (left : Expr) (op : Operator) (right : Expr)
  | unaryOp (op : UnaryOp) (operand : Expr)
  | lambda (args : Arguments) (body : Expr)
  | ifExp (test body orelse : Expr)
  | dict (keys : List (Option Expr)) (values : List Expr)
  | set (elts : List Expr)
  | listComp (elt : Expr) (generators : List Comprehension)
  | setComp (elt : Expr) (generators : List Comprehension)
  | dictComp (key value : Expr) (generators : List Comprehension)
  | generatorExp (elt : Expr) (generators : List Comprehension)
  | await (value : Expr)
  | yield (value : Option Expr)
  | yieldFrom (value : Expr)
  | compare (left : Expr) (ops : List CmpOp) (comparators : List Expr)
  | call (func : Expr) (args : List Expr) (keywords : List Keyword)
  | formattedValue (value : Expr) (conversion : Int) (formatSpec : Option Expr)
  | interpolation (value : Expr) (str : String) (conversion : Int) (formatSpec : Option Expr)
  | joinedStr (values : List Expr)
  | templateStr (values : List Expr)
  | constant (value : Constant)
  | attribute (value : Expr) (attr : String) (ctx : ExprContext)
  | subscript (value slice : Expr) (ctx : ExprContext)
  | starred (value : Expr) (ctx : ExprContext)
  | name (id : String) (ctx : ExprContext)
  | list (elts : List Expr) (ctx : ExprContext)
  | tuple (elts : List Expr) (ctx : ExprContext)
  | slice (lower upper step : Option Expr)

/-- One `for` clause with its conditions. -/
inductive Comprehension where
  | mk (target iter : Expr) (ifs : List Expr) (isAsync : Bool)

/-- A parameter of a lambda. -/
inductive Arg where
  | mk (arg : String) ( annotation : Option Expr)

/-- The parameters of a lambda. -/
inductive Arguments where
  | mk (posonlyargs args : List Arg) (vararg : Option Arg) (kwonlyargs : List Arg)
      (kwDefaults : List (Option Expr)) (kwarg : Option Arg) (defaults : List Expr)

/-- A keyword argument of a call; without a name it is `**value`. -/
inductive Keyword where
  | mk (arg : Option String) (value : Expr)

end

end AgentCluster.Python
