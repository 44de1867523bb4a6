import AgentCluster.Python.IntegerFloat
import AgentCluster.Python.Syntax

/-!
# Arithmetic of floats

The operators `+ - * / // % **` and the signs on floats and on the complex numbers that powers lead
to, with the exceptions they raise.

Sums, differences, products, quotients and remainders of floats are computed exactly and rounded once;
`//` and `%` follow the C implementation step by step. What Python takes from the C library, and the
products, quotients and powers of complex numbers, are parameters, `Platform`.
-/

set_option autoImplicit false

namespace AgentCluster.Python

/-- The kinds of exceptions that parsing and evaluating raise, up to subclasses. -/
inductive ExceptionKind where
  | valueError | syntaxError | typeError | zeroDivisionError | overflowError | memoryError
  | recursionError
  deriving DecidableEq

structure Exception where
  kind : ExceptionKind
  message : String
  deriving DecidableEq

namespace Binary64

def zero (neg : Bool) : Binary64 := finite neg 0 0 (by decide)

def one : Binary64 := finite false (2 ^ 52) 1022 (by decide)

def half : Binary64 := finite false (2 ^ 52) 1021 (by decide)

/-- The signed number of units of a finite float. -/
def units : Binary64 → Int
  | finite neg m q _ => if neg then -(m * 2 ^ q : Nat) else (m * 2 ^ q : Nat)
  | _ => 0

def isNaN : Binary64 → Bool
  | nan => true
  | _ => false

def isInf : Binary64 → Bool
  | inf _ => true
  | _ => false

/-- `x == 0.0`. -/
def isZero : Binary64 → Bool
  | finite _ m _ _ => m == 0
  | _ => false

/-- The sign bit; that of a NaN is not represented. -/
def signBit : Binary64 → Bool
  | finite neg _ _ _ => neg
  | inf neg => neg
  | nan => false

/-- `x < y`. -/
def lt : Binary64 → Binary64 → Bool
  | nan, _ => false
  | _, nan => false
  | inf s, inf t => s && !t
  | inf s, _ => s
  | _, inf t => !t
  | x, y => x.units < y.units

def neg : Binary64 → Binary64
  | finite s m q h => finite (!s) m q h
  | inf s => inf (!s)
  | nan => nan

/-- `fabs`. -/
def abs : Binary64 → Binary64
  | finite _ m q h => finite false m q h
  | inf _ => inf false
  | nan => nan

/-- The float nearest to a number of units. -/
def ofUnits (neg : Bool) (u : Nat) : Binary64 := ofRatio neg u unitsPerOne

/-- An exact zero has a minus sign only when both summands do. -/
def add : Binary64 → Binary64 → Binary64
  | nan, _ => nan
  | _, nan => nan
  | inf s, inf t => if s = t then inf s else nan
  | inf s, _ => inf s
  | _, inf t => inf t
  | x, y =>
      let sum := x.units + y.units
      if sum = 0 then zero (x.signBit && y.signBit) else ofUnits (sum < 0) sum.natAbs

def sub (x y : Binary64) : Binary64 := x.add y.neg

def mul : Binary64 → Binary64 → Binary64
  | nan, _ => nan
  | _, nan => nan
  | inf s, y => if y.isZero then nan else inf (s != y.signBit)
  | x, inf t => if x.isZero then nan else inf (x.signBit != t)
  | x, y =>
      ofRatio (x.signBit != y.signBit) (x.units * y.units).natAbs (unitsPerOne * unitsPerOne)

/-- The quotient by a number that is not zero. -/
def div : Binary64 → Binary64 → Binary64
  | nan, _ => nan
  | _, nan => nan
  | inf _, inf _ => nan
  | inf s, y => inf (s != y.signBit)
  | x, inf t => zero (x.signBit != t)
  | x, y => ofRatio (x.signBit != y.signBit) x.units.natAbs y.units.natAbs

/-- `fmod` by a number that is not zero: the remainder has the sign of `x`. -/
def fmod : Binary64 → Binary64 → Binary64
  | nan, _ => nan
  | _, nan => nan
  | inf _, _ => nan
  | x, inf _ => x
  | x, y => ofUnits x.signBit (x.units.natAbs % y.units.natAbs)

def floor : Binary64 → Binary64
  | finite neg m q h =>
      ofRatio neg ((finite neg m q h).units / unitsPerOne).natAbs 1
  | x => x

/-- `fmod(fabs(x), 2.0) == 1.0`. -/
def isOddInteger : Binary64 → Bool
  | finite _ m q _ => m * 2 ^ q % (2 * unitsPerOne) == unitsPerOne
  | _ => false

/-- `v // w` for `w` not zero: the quotient of what the remainder leaves, snapped to an integer. -/
def floordiv (v w : Binary64) : Binary64 :=
  let mod := fmod v w
  let quotient := (v.sub mod).div w
  let quotient :=
    if !mod.isZero && (w.lt (zero false) != mod.lt (zero false)) then quotient.sub one else quotient
  if quotient.isZero then zero (v.div w).signBit
  else
    let down := quotient.floor
    if half.lt (quotient.sub down) then down.add one else down

/-- `v % w` for `w` not zero: the remainder has the sign of `w`. -/
def mod (v w : Binary64) : Binary64 :=
  let mod := fmod v w
  if mod.isZero then zero w.signBit
  else if w.lt (zero false) != mod.lt (zero false) then mod.add w
  else mod

end Binary64

/-- A complex number. -/
structure Complex where
  re : Binary64
  im : Binary64
  deriving DecidableEq

/-- What the operators return. -/
inductive Number where
  | real (x : Binary64)
  | complex (z : Complex)
  deriving DecidableEq

/-- The arithmetic errors of complex powers. -/
inductive ArithmeticError where
  | zeroDivision | overflow
  deriving DecidableEq

/-- What the operators take from the platform. -/
class Platform where
  /-- The C library's `pow`, for a finite positive base other than one and a finite exponent other
  than zero; infinite on overflow. -/
  pow : Binary64 → Binary64 → Binary64
  /-- A product with a complex factor. -/
  complexMul : Number → Number → Complex
  /-- A quotient with a complex part, by a number that is not zero. -/
  complexDiv : Number → Number → Complex
  /-- A power that is complex. -/
  complexPow : Number → Number → Except ArithmeticError Complex
  /-- The text of the error an operator raises on two operands. -/
  errorText : Operator → Number → Number → String

/-- A platform whose only power is the square root of minus one. -/
@[reducible]
def samplePlatform : Platform where
  pow _ _ := .one
  complexMul _ _ := ⟨.zero false, .one⟩
  complexDiv _ _ := ⟨.zero false, .one⟩
  complexPow _ _ := .ok ⟨.finite false 4967757600021511 968 (by decide), .one⟩
  errorText _ _ _ := "division by zero"

/-- `float(n)` of an integer. -/
def floatOfInt (n : Int) : Except Exception Binary64 :=
  let x := Binary64.ofInt n
  if x.isInf then .error ⟨.overflowError, "int too large to convert to float"⟩ else .ok x

namespace Number

/-- `x == 0`. -/
def isZero : Number → Bool
  | real x => x.isZero
  | complex z => z.re.isZero && z.im.isZero

/-- `operator.pos`. -/
def pos (v : Number) : Number := v

/-- `operator.neg`. -/
def neg : Number → Number
  | real x => real x.neg
  | complex z => complex ⟨z.re.neg, z.im.neg⟩

/-- `operator.add`. -/
def add : Number → Number → Number
  | real x, real y => real (x.add y)
  | real x, complex w => complex ⟨x.add w.re, w.im⟩
  | complex z, real y => complex ⟨z.re.add y, z.im⟩
  | complex z, complex w => complex ⟨z.re.add w.re, z.im.add w.im⟩

/-- `operator.sub`. -/
def sub : Number → Number → Number
  | real x, real y => real (x.sub y)
  | real x, complex w => complex ⟨x.sub w.re, w.im.neg⟩
  | complex z, real y => complex ⟨z.re.sub y, z.im⟩
  | complex z, complex w => complex ⟨z.re.sub w.re, z.im.sub w.im⟩

section Operators

variable [Platform]

/-- The error an operator raises. -/
def raise (op : Operator) (v w : Number) (kind : ExceptionKind) : Except Exception Number :=
  .error ⟨kind, Platform.errorText op v w⟩

/-- `operator.mul`. -/
def mul : Number → Number → Number
  | real x, real y => real (x.mul y)
  | v, w => complex (Platform.complexMul v w)

/-- `operator.truediv`. -/
def truediv (v w : Number) : Except Exception Number :=
  if w.isZero then raise .div v w .zeroDivisionError
  else match v, w with
    | real x, real y => .ok (real (x.div y))
    | v, w => .ok (complex (Platform.complexDiv v w))

/-- `operator.floordiv`; complex numbers do not support it. -/
def floordiv (v w : Number) : Except Exception Number :=
  match v, w with
  | real x, real y =>
      if y.isZero then raise .floorDiv v w .zeroDivisionError else .ok (real (x.floordiv y))
  | v, w => raise .floorDiv v w .typeError

/-- `operator.mod`; complex numbers do not support it. -/
def mod (v w : Number) : Except Exception Number :=
  match v, w with
  | real x, real y => if y.isZero then raise .mod v w .zeroDivisionError else .ok (real (x.mod y))
  | v, w => raise .mod v w .typeError

/-- A power that is complex. -/
def complexPow (v w : Number) : Except Exception Number :=
  match Platform.complexPow v w with
  | .ok z => .ok (complex z)
  | .error .zeroDivision => raise .pow v w .zeroDivisionError
  | .error .overflow => raise .pow v w .overflowError

/-- The power of two floats, the special cases first. A fractional power of a negative number is
complex. -/
def floatPow (v w : Binary64) : Except Exception Number :=
  if w.isZero then .ok (real .one)
  else if v.isNaN then .ok (real v)
  else if w.isNaN then .ok (real (if v = .one then .one else w))
  else if w.isInf then
    if v.abs = .one then .ok (real .one)
    else if (Binary64.zero false).lt w = Binary64.one.lt v.abs then .ok (real w.abs)
    else .ok (real (.zero false))
  else if v.isInf then
    if (Binary64.zero false).lt w then .ok (real (if w.isOddInteger then v else v.abs))
    else .ok (real (.zero (w.isOddInteger && v.signBit)))
  else if v.isZero then
    if w.lt (.zero false) then raise .pow (real v) (real w) .zeroDivisionError
    else .ok (real (if w.isOddInteger then v else .zero false))
  else if v.signBit && !w.isInteger then complexPow (real v) (real w)
  else
    let negate := v.signBit && w.isOddInteger
    if v.abs = .one then .ok (real (if negate then Binary64.one.neg else .one))
    else
      let x := Platform.pow v.abs w
      if x.isInf then raise .pow (real v) (real w) .overflowError
      else .ok (real (if negate then x.neg else x))

/-- `operator.pow`. -/
def pow : Number → Number → Except Exception Number
  | real x, real y => floatPow x y
  | v, w => complexPow v w

end Operators

end Number

/-! ## The errors of the operators -/

/-- A converted integer is finite, or the conversion overflows. -/
theorem kind_of_floatOfInt {n : Int} {e : Exception} (h : floatOfInt n = .error e) :
    e.kind = .overflowError := by
  simp only [floatOfInt] at h
  split at h
  · cases h
    rfl
  · cases h

namespace Number

/-- A conditional fails as one of its branches does. -/
theorem error_of_ite {c : Prop} [Decidable c] {a b : Except Exception Number} {p : Prop} {e : Exception}
    (ha : a = .error e → p) (hb : b = .error e → p) (h : (if c then a else b) = .error e) : p := by
  by_cases hc : c
  · rw [if_pos hc] at h
    exact ha h
  · rw [if_neg hc] at h
    exact hb h

variable [Platform] {v w : Number} {e : Exception}

theorem kind_of_raise {op : Operator} {kind : ExceptionKind} (h : raise op v w kind = .error e) :
    e.kind = kind := by
  cases h
  rfl

theorem kind_of_truediv (h : truediv v w = .error e) : e.kind = .zeroDivisionError := by
  unfold truediv at h
  split at h
  · exact kind_of_raise h
  · split at h <;> cases h

theorem kind_of_floordiv (h : floordiv v w = .error e) :
    e.kind = .zeroDivisionError ∨ e.kind = .typeError := by
  unfold floordiv at h
  split at h
  · split at h
    · exact Or.inl (kind_of_raise h)
    · cases h
  · exact Or.inr (kind_of_raise h)

theorem kind_of_mod (h : mod v w = .error e) :
    e.kind = .zeroDivisionError ∨ e.kind = .typeError := by
  unfold mod at h
  split at h
  · split at h
    · exact Or.inl (kind_of_raise h)
    · cases h
  · exact Or.inr (kind_of_raise h)

theorem kind_of_complexPow (h : complexPow v w = .error e) :
    e.kind = .zeroDivisionError ∨ e.kind = .overflowError := by
  unfold complexPow at h
  split at h
  · cases h
  · exact Or.inl (kind_of_raise h)
  · exact Or.inr (kind_of_raise h)

theorem kind_of_floatPow {x y : Binary64} (h : floatPow x y = .error e) :
    e.kind = .zeroDivisionError ∨ e.kind = .overflowError := by
  have hok : ∀ {z : Number}, (Except.ok z : Except Exception Number) = .error e →
      e.kind = .zeroDivisionError ∨ e.kind = .overflowError := by
    intro z hz
    cases hz
  have hzero : raise .pow (real x) (real y) .zeroDivisionError = .error e →
      e.kind = .zeroDivisionError ∨ e.kind = .overflowError := fun h => Or.inl (kind_of_raise h)
  have hover : raise .pow (real x) (real y) .overflowError = .error e →
      e.kind = .zeroDivisionError ∨ e.kind = .overflowError := fun h => Or.inr (kind_of_raise h)
  -- the branches in the order of the definition
  refine error_of_ite hok (error_of_ite hok (error_of_ite hok (error_of_ite ?_ ?_))) h
  · exact error_of_ite hok (error_of_ite hok hok)
  · refine error_of_ite (error_of_ite hok hok) (error_of_ite (error_of_ite hzero hok) ?_)
    exact error_of_ite kind_of_complexPow (error_of_ite hok (error_of_ite hover hok))

theorem kind_of_pow (h : pow v w = .error e) :
    e.kind = .zeroDivisionError ∨ e.kind = .overflowError := by
  unfold pow at h
  split at h
  · exact kind_of_floatPow h
  · exact kind_of_complexPow h

end Number

/-! ## The text of a number -/

/-- The spelling inside a complex number, without the `.0` of a whole number. -/
def Binary64.imagRepr (x : Binary64) : List Char :=
  if [ '.', '0' ].isSuffixOf x.repr then x.repr.dropLast.dropLast else x.repr

/-- `repr` of a complex number. -/
def Complex.repr (z : Complex) : List Char :=
  if z.re = .zero false then z.im.imagRepr ++ ['j']
  else
    let sign := if z.im.signBit then [] else ['+']
    '(' :: z.re.imagRepr ++ sign ++ z.im.imagRepr ++ ['j', ')']

/-- `str(v)`. -/
def Number.str : Number → String
  | real x => String.ofList x.repr
  | complex z => String.ofList z.repr

end AgentCluster.Python
