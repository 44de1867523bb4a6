import AgentCluster.Python.Dict
import AgentCluster.Python.FloatText
import Mathlib.Data.List.Sort
import Mathlib.Data.String.Basic

/-!
# Python values

What `json.loads` can produce, and beside it tuples and one constructor for any other Python object.
A `dict` is the list of its items in insertion order; `isJson` says that every dict in a value has
distinct keys and that no tuple and no foreign object occurs, which is what a JSON value is.

Two equalities are defined by one recursion. `pyEq` is Python's `==`, which compares numbers and
booleans by their numeric value. `jsonEq` is equality of JSON values: numbers by numeric value,
booleans apart from numbers, objects up to the order of their members.
-/

set_option autoImplicit false

namespace AgentCluster.Python

/-- What `hash` does with an object. A `set` cannot be hashed, but it can be looked up in a set, as the
`frozenset` of its items. -/
inductive Hashing where
  | hashable
  | set
  | unhashable
  deriving DecidableEq

/-- A Python value. `object` is a value `json` does not know: its `str`, its `repr`, and how it is
hashed. -/
inductive Value where
  | none
  | bool (b : Bool)
  | int (n : Int)
  | float (x : Binary64)
  | str (s : String)
  | list (items : List Value)
  | dict (items : List (String × Value))
  | tuple (items : List Value)
  | object (str repr : String) (hashing : Hashing)

/-- A `dict` of Python values. -/
abbrev Dict := PyDict Value

namespace Dict

/-- `d.get(key, default)`. -/
def getD (d : Dict) (key : String) (default : Value) : Value := (d.lookup key).getD default

/-- `d.get(key)`. -/
def get (d : Dict) (key : String) : Value := d.getD key .none

end Dict

namespace Value

/-- Structural induction with the items of a list, a dict or a tuple as hypotheses. -/
@[elab_as_elim]
theorem induct {p : Value → Prop} (none : p .none) (bool : ∀ b, p (.bool b))
    (int : ∀ n, p (.int n)) (float : ∀ x, p (.float x)) (str : ∀ s, p (.str s))
    (object : ∀ s r h, p (.object s r h)) (list : ∀ xs, (∀ x ∈ xs, p x) → p (.list xs))
    (dict : ∀ d : Dict, (∀ kv ∈ d, p kv.2) → p (.dict d))
    (tuple : ∀ xs, (∀ x ∈ xs, p x) → p (.tuple xs)) (v : Value) : p v := by
  refine Value.rec (motive_1 := p) (motive_2 := fun xs => ∀ x ∈ xs, p x)
    (motive_3 := fun d => ∀ kv ∈ d, p kv.2) (motive_4 := fun kv => p kv.2)
    none bool int float str list dict tuple object ?_ ?_ ?_ ?_ ?_ v
  · simp
  · intro x xs hx hxs y hy
    rcases List.mem_cons.1 hy with rfl | hy
    · exact hx
    · exact hxs y hy
  · simp
  · intro kv d hkv hd kv' hkv'
    rcases List.mem_cons.1 hkv' with rfl | hkv'
    · exact hkv
    · exact hd kv' hkv'
  · intro k v hv
    exact hv

/-- `bool(v)`. -/
def truthy : Value → Bool
  | none => false
  | bool b => b
  | int n => n != 0
  | float x => !x.magnitude.eq (.ofInt 0)
  | str s => s != ""
  | list xs => !xs.isEmpty
  | dict d => !d.isEmpty
  | tuple xs => !xs.isEmpty
  | object .. => true

mutual

/-- `hash(v)` is defined. -/
def hashable : Value → Bool
  | list _ => false
  | dict _ => false
  | tuple xs => hashableList xs
  | object _ _ h => h == .hashable
  | _ => true

def hashableList : List Value → Bool
  | [] => true
  | x :: xs => hashable x && hashableList xs

end

/-- `v in s` does not raise, for a set `s` of strings. -/
def lookable : Value → Bool
  | object _ _ .set => true
  | v => v.hashable

/-- The dict, if the value is one. -/
def asDict? : Value → Option Dict
  | dict d => some d
  | _ => Option.none

/-! ## Equality -/

/-- The number a value counts as in Python, where booleans are integers. -/
def magnitude? : Value → Option Magnitude
  | bool b => some (.ofInt (if b then 1 else 0))
  | int n => some (.ofInt n)
  | float x => some x.magnitude
  | _ => Option.none

/-- `==` on values that are not both lists, both tuples or both dicts. -/
def pyEqAtom (a b : Value) : Bool :=
  match a.magnitude?, b.magnitude? with
  | some x, some y => x.eq y
  | _, _ => match a, b with
    | none, none => true
    | str s, str t => s == t
    | object s r h, object s' r' h' => s == s' && r == r' && h == h'
    | _, _ => false

/-- The same without the conversion of booleans to numbers. -/
def jsonEqAtom (a b : Value) : Bool :=
  match a, b with
  | bool b, bool c => b == c
  | bool _, _ => false
  | _, bool _ => false
  | a, b => pyEqAtom a b

section Recursion

variable (atom : Value → Value → Bool)

mutual

/-- Lists and tuples item by item, dicts key by key, everything else by `atom`. -/
def eqWith : Value → Value → Bool
  | .list xs, .list ys => eqWithList xs ys
  | .tuple xs, .tuple ys => eqWithList xs ys
  | .dict d, .dict e => d.length == e.length && eqWithDict d e
  | a, b => atom a b

def eqWithList : List Value → List Value → Bool
  | [], [] => true
  | x :: xs, y :: ys => eqWith x y && eqWithList xs ys
  | _, _ => false

def eqWithDict : List (String × Value) → List (String × Value) → Bool
  | [], _ => true
  | (k, v) :: d, e =>
      (match e.lookup k with
        | some w => eqWith v w
        | Option.none => false) && eqWithDict d e

end

end Recursion

theorem eqWithList_eq_true {atom : Value → Value → Bool} {xs : List Value} {f : Value → Value}
    (h : ∀ x ∈ xs, eqWith atom (f x) x = true) : eqWithList atom (xs.map f) xs = true := by
  induction xs with
  | nil => rfl
  | cons x xs ih =>
    rw [List.map_cons, eqWithList, h x List.mem_cons_self]
    exact ih fun y hy => h y (List.mem_cons_of_mem x hy)

theorem eqWithDict_iff {atom : Value → Value → Bool} {d e : Dict} :
    eqWithDict atom d e = true ↔
      ∀ kv ∈ d, ∃ w, e.lookup kv.1 = some w ∧ eqWith atom kv.2 w = true := by
  induction d with
  | nil => simp [eqWithDict]
  | cons kv d ih =>
    obtain ⟨k, v⟩ := kv
    rw [eqWithDict, Bool.and_eq_true, ih, List.forall_mem_cons]
    cases e.lookup k <;> simp

/-- Python's `a == b`. -/
def pyEq : Value → Value → Bool := eqWith pyEqAtom

/-- Equality of JSON values. -/
def jsonEq : Value → Value → Bool := eqWith jsonEqAtom

/-- Only a string equals a string. -/
theorem pyEq_str_iff (v : Value) (s : String) : pyEq v (.str s) = true ↔ v = .str s := by
  cases v <;> simp [pyEq, eqWith, pyEqAtom, magnitude?]

theorem str_pyEq_iff (v : Value) (s : String) : pyEq (.str s) v = true ↔ v = .str s := by
  constructor
  · intro h
    cases v <;> simp_all [pyEq, eqWith, pyEqAtom, magnitude?]
  · rintro rfl
    exact (pyEq_str_iff _ s).2 rfl

/-- Numbers and booleans are compared by what they count as. -/
theorem pyEq_of_magnitude {v w : Value} {m n : Magnitude} (hv : v.magnitude? = some m)
    (hw : w.magnitude? = some n) : pyEq v w = m.eq n := by
  cases v with
  | bool b => cases w <;> cases hv <;> cases hw <;> rfl
  | int i => cases w <;> cases hv <;> cases hw <;> rfl
  | float x => cases w <;> cases hv <;> cases hw <;> rfl
  | _ => cases hv

/-- What equals a number or a boolean is one. -/
theorem magnitude_of_pyEq {v w : Value} {n : Magnitude} (hw : w.magnitude? = some n)
    (h : pyEq v w = true) : ∃ m, v.magnitude? = some m ∧ m.eq n = true := by
  cases hv : v.magnitude? with
  | some m => exact ⟨m, rfl, by rw [← pyEq_of_magnitude hv hw]; exact h⟩
  | none =>
    cases v <;> cases hv <;> cases w <;> cases hw <;>
      simp [pyEq, eqWith, pyEqAtom, magnitude?] at h

/-- A string, a number or a boolean. -/
def isScalar : Value → Bool
  | bool _ => true
  | int _ => true
  | float _ => true
  | str _ => true
  | _ => false

theorem isScalar_cases {v : Value} (h : v.isScalar = true) :
    (∃ s, v = .str s) ∨ ∃ m, v.magnitude? = some m := by
  cases v with
  | str s => exact Or.inl ⟨s, rfl⟩
  | bool b => exact Or.inr ⟨_, rfl⟩
  | int n => exact Or.inr ⟨_, rfl⟩
  | float x => exact Or.inr ⟨_, rfl⟩
  | _ => cases h

/-! ## JSON values -/

mutual

/-- No tuple, no foreign object, and distinct keys in every dict. -/
def isJson : Value → Bool
  | .object .. => false
  | .tuple _ => false
  | .list xs => isJsonList xs
  | .dict d => decide (d.map Prod.fst).Nodup && isJsonDict d
  | _ => true

def isJsonList : List Value → Bool
  | [] => true
  | x :: xs => isJson x && isJsonList xs

def isJsonDict : List (String × Value) → Bool
  | [] => true
  | (_, v) :: d => isJson v && isJsonDict d

end

mutual

/-- No infinity and no NaN anywhere. -/
def isFinite : Value → Bool
  | .float x => x.isFinite
  | .list xs => isFiniteList xs
  | .tuple xs => isFiniteList xs
  | .dict d => isFiniteDict d
  | _ => true

def isFiniteList : List Value → Bool
  | [] => true
  | x :: xs => isFinite x && isFiniteList xs

def isFiniteDict : List (String × Value) → Bool
  | [] => true
  | (_, v) :: d => isFinite v && isFiniteDict d

end

theorem isJsonList_iff (xs : List Value) : isJsonList xs = true ↔ ∀ x ∈ xs, isJson x = true := by
  induction xs with
  | nil => simp [isJsonList]
  | cons x xs ih => simp [isJsonList, ih]

theorem isFiniteList_iff (xs : List Value) :
    isFiniteList xs = true ↔ ∀ x ∈ xs, isFinite x = true := by
  induction xs with
  | nil => simp [isFiniteList]
  | cons x xs ih => simp [isFiniteList, ih]

theorem isFiniteDict_iff (d : Dict) : isFiniteDict d = true ↔ ∀ kv ∈ d, isFinite kv.2 = true := by
  induction d with
  | nil => simp [isFiniteDict]
  | cons kv d ih => simp [isFiniteDict, ih]

theorem isJsonDict_iff (d : Dict) : isJsonDict d = true ↔ ∀ kv ∈ d, isJson kv.2 = true := by
  induction d with
  | nil => simp [isJsonDict]
  | cons kv d ih => simp [isJsonDict, ih]

theorem isJson_list_iff (xs : List Value) :
    isJson (.list xs) = true ↔ ∀ x ∈ xs, isJson x = true := by
  rw [isJson, isJsonList_iff]

theorem isJson_dict_iff (d : Dict) :
    isJson (.dict d) = true ↔ (PyDict.keys d).Nodup ∧ ∀ kv ∈ d, isJson kv.2 = true := by
  rw [isJson, Bool.and_eq_true, isJsonDict_iff, decide_eq_true_eq]
  rfl

/-- What a JSON object holds under a key is a JSON value. -/
theorem isJson_get {d : Dict} (h : isJson (.dict d) = true) (key : String) :
    isJson (d.get key) = true := by
  rw [Dict.get, Dict.getD]
  cases hl : d.lookup key with
  | none => rfl
  | some v => exact ((isJson_dict_iff d).1 h).2 _ (PyDict.mem_of_lookup hl)

/-! ## `str` and `repr` -/

section Repr

variable [UnicodeData]

mutual

/-- `repr(v)`. -/
def repr : Value → String
  | .none => "None"
  | .bool b => if b then "True" else "False"
  | .int n => String.ofList (DecimalLiteral.ofInt n).render
  | .float x => String.ofList x.repr
  | .str s => strRepr s
  | .list xs => "[" ++ join ", " (reprList xs) ++ "]"
  | .dict d => "\x7b" ++ join ", " (reprDict d) ++ "\x7d"
  | .tuple xs => "(" ++ join ", " (reprList xs) ++ (if xs.length = 1 then ",)" else ")")
  | .object _ r _ => r

def reprList : List Value → List String
  | [] => []
  | x :: xs => repr x :: reprList xs

def reprDict : List (String × Value) → List String
  | [] => []
  | (k, v) :: d => (strRepr k ++ ": " ++ repr v) :: reprDict d

end

/-- `str(v)`. -/
def toStr : Value → String
  | .str s => s
  | .object s _ _ => s
  | v => repr v

end Repr

end Value

end AgentCluster.Python
