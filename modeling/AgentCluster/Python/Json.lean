import AgentCluster.Python.Value

/-!
# The `json` module

`json.dumps` with its default separators and ASCII output, and `JSONDecoder.raw_decode`.

The decoder is a recursive descent over the remaining text. The recursion carries fuel, which
bounds nesting and length together; a text of length `n` never needs more than `2 * n + 1`
(`scanOnce_fuel` in `JsonScan`). An escaped lone surrogate, which no `Char` is, is read as U+FFFD.

The interpreter's own limits are those of writing: which values have a text is said by `writable` and
`depth`, and the text is there for the others as well. Reading has no limits here.
-/

set_option autoImplicit false

namespace AgentCluster.Python

namespace Json

/-! ## `dumps` -/

/-- `\uXXXX`. -/
def unicodeEscape (n : Nat) : List Char :=
  ['\\', 'u', (n / 4096 % 16).digitChar, (n / 256 % 16).digitChar, (n / 16 % 16).digitChar,
    (n % 16).digitChar]

/-- One character of a string literal. -/
def escapeChar (c : Char) : List Char :=
  if c = '"' then ['\\', '"']
  else if c = '\\' then ['\\', '\\']
  else if c = '\n' then ['\\', 'n']
  else if c = '\r' then ['\\', 'r']
  else if c = '\t' then ['\\', 't']
  else if c = '\x0c' then ['\\', 'f']
  else if c = '\x08' then ['\\', 'b']
  else if 0x20 ≤ c.toNat ∧ c.toNat ≤ 0x7e then [c]
  else if c.toNat < 0x10000 then unicodeEscape c.toNat
  else
    unicodeEscape (0xd800 + (c.toNat - 0x10000) / 0x400) ++
      unicodeEscape (0xdc00 + (c.toNat - 0x10000) % 0x400)

/-- A string literal. -/
def encodeString (s : String) : List Char := '"' :: (s.toList.flatMap escapeChar ++ ['"'])

/-- A number literal; infinities and NaN have names of their own. -/
def encodeFloat : Binary64 → List Char
  | .nan => ['N', 'a', 'N']
  | .inf neg => (if neg then ['-'] else []) ++ ['I', 'n', 'f', 'i', 'n', 'i', 't', 'y']
  | x => x.repr

mutual

/-- The text of a value. What `json` does not know is written as the string `str` makes of it, as
`default=str` does. -/
def encode : Value → List Char
  | .none => ['n', 'u', 'l', 'l']
  | .bool true => ['t', 'r', 'u', 'e']
  | .bool false => ['f', 'a', 'l', 's', 'e']
  | .int n => (DecimalLiteral.ofInt n).render
  | .float x => encodeFloat x
  | .str s => encodeString s
  | .list xs => '[' :: (encodeItems [] xs ++ [']'])
  | .tuple xs => '[' :: (encodeItems [] xs ++ [']'])
  | .dict d => '{' :: (encodeMembers [] d ++ ['}'])
  | .object s _ _ => encodeString s

/-- List items, each after a separator. -/
def encodeItems (sep : List Char) : List Value → List Char
  | [] => []
  | x :: xs => sep ++ (encode x ++ encodeItems [',', ' '] xs)

/-- Dict items, each after a separator. -/
def encodeMembers (sep : List Char) : List (String × Value) → List Char
  | [] => []
  | (k, v) :: d => sep ++ (encodeString k ++ (':' :: ' ' :: (encode v ++ encodeMembers [',', ' '] d)))

end

/-- The order of `sort_keys`. -/
def keyLe (a b : String × Value) : Prop := a.1 ≤ b.1

instance : DecidableRel keyLe := fun a b => inferInstanceAs (Decidable (a.1 ≤ b.1))

mutual

/-- Every dict with its items in key order. -/
def sortKeys : Value → Value
  | .list xs => .list (sortKeysList xs)
  | .tuple xs => .tuple (sortKeysList xs)
  | .dict d => .dict ((sortKeysDict d).insertionSort keyLe)
  | v => v

def sortKeysList : List Value → List Value
  | [] => []
  | x :: xs => sortKeys x :: sortKeysList xs

def sortKeysDict : List (String × Value) → List (String × Value)
  | [] => []
  | (k, v) :: d => (k, sortKeys v) :: sortKeysDict d

end

/-- `json.dumps(v, default=str)`. -/
def dumps (v : Value) : String := String.ofList (encode v)

/-- `json.dumps(v, sort_keys=True, default=str)`; on values `json` knows, `default` is not consulted. -/
def dumpsSorted (v : Value) : String := String.ofList (encode (sortKeys v))

/-- The longest `str` of an `int`, in digits. -/
def maxStrDigits : Nat := 4300

/-- `str(n)` does not raise. -/
def hasStr (n : Int) : Bool := (digits n.natAbs).length ≤ maxStrDigits

mutual

/-- `json.dumps(v, default=str)` does not raise, or without a `default` if `strict`, which leaves only
values that `json` knows. -/
def writable (strict : Bool) : Value → Bool
  | .object .. => !strict
  | .int n => hasStr n
  | .list xs => writableList strict xs
  | .tuple xs => writableList strict xs
  | .dict d => writableDict strict d
  | _ => true

def writableList (strict : Bool) : List Value → Bool
  | [] => true
  | x :: xs => writable strict x && writableList strict xs

def writableDict (strict : Bool) : List (String × Value) → Bool
  | [] => true
  | (_, v) :: d => writable strict v && writableDict strict d

end

mutual

/-- How deep the calls are nested that write `v`. -/
def depth : Value → Nat
  | .object .. => 1
  | .list xs => depthList xs + 1
  | .tuple xs => depthList xs + 1
  | .dict d => depthDict d + 1
  | _ => 0

def depthList : List Value → Nat
  | [] => 0
  | x :: xs => max (depth x) (depthList xs)

def depthDict : List (String × Value) → Nat
  | [] => 0
  | (_, v) :: d => max (depth v) (depthDict d)

end

/-- `json.dumps(v)` knows every value in `v` and can write its numbers. -/
def serializable (v : Value) : Bool := writable true v

/-- `json.dumps(v)`; `none` is the error. -/
def dumpsStrict (v : Value) : Option String := if serializable v then some (dumps v) else none

/-! ## `raw_decode` -/

/-- JSON whitespace. -/
def isWs (c : Char) : Bool := c == ' ' || c == '\t' || c == '\n' || c == '\r'

/-- The text after its leading whitespace. -/
def skipWs (s : List Char) : List Char := s.dropWhile isWs

/-- The value of a hexadecimal digit. -/
def hexVal (c : Char) : Option Nat :=
  if '0' ≤ c ∧ c ≤ '9' then some (c.toNat - 48)
  else if 'a' ≤ c ∧ c ≤ 'f' then some (c.toNat - 87)
  else if 'A' ≤ c ∧ c ≤ 'F' then some (c.toNat - 55)
  else none

/-- Four hexadecimal digits. -/
def scanHex4 : List Char → Option (Nat × List Char)
  | a :: b :: c :: d :: s =>
      match hexVal a, hexVal b, hexVal c, hexVal d with
      | some a, some b, some c, some d => some (a * 4096 + b * 256 + c * 16 + d, s)
      | _, _, _, _ => none
  | _ => none

/-- The character with a code point; surrogates have none. -/
def charOfCode (n : Nat) : Char := if n.isValidChar then Char.ofNat n else '\uFFFD'

/-- What a backslash and `e` stand for. -/
def simpleEscape (e : Char) : Option Char :=
  if e = '"' then some '"'
  else if e = '\\' then some '\\'
  else if e = '/' then some '/'
  else if e = 'b' then some '\x08'
  else if e = 'f' then some '\x0c'
  else if e = 'n' then some '\n'
  else if e = 'r' then some '\r'
  else if e = 't' then some '\t'
  else none

/-- The text after the word `w`, if it starts with it. -/
def dropWord : List Char → List Char → Option (List Char)
  | [], s => some s
  | c :: w, d :: s => if c = d then dropWord w s else none
  | _ :: _, [] => none

/-- What follows `\u`. A high surrogate combines with an escaped low surrogate right after it. -/
def scanUnicodeEscape (s : List Char) : Option (Char × List Char) :=
  (scanHex4 s).bind fun (u, r) =>
    if 0xd800 ≤ u ∧ u < 0xdc00 then
      match dropWord ['\\', 'u'] r with
      | some r' =>
          (scanHex4 r').map fun (lo, r'') =>
            if 0xdc00 ≤ lo ∧ lo < 0xe000 then
              (charOfCode (0x10000 + (u - 0xd800) * 0x400 + (lo - 0xdc00)), r'')
            else (charOfCode u, r)
      | none => some (charOfCode u, r)
    else some (charOfCode u, r)

/-- What follows a backslash. -/
def scanEscape : List Char → Option (Char × List Char)
  | [] => none
  | e :: s => if e = 'u' then scanUnicodeEscape s else (simpleEscape e).map fun c => (c, s)

/-- One character of a string literal; control characters are refused. -/
def scanChar : List Char → Option (Char × List Char)
  | [] => none
  | c :: s => if c = '\\' then scanEscape s else if c.toNat < 0x20 then none else some (c, s)

/-- The text after the character `c`, if it starts with it. -/
def after (c : Char) : List Char → Option (List Char)
  | [] => none
  | d :: s => if d = c then some s else none

/-- The rest of a string literal, up to and including the closing quote. -/
def scanString : Nat → List Char → Option (List Char × List Char)
  | 0, _ => none
  | n + 1, s =>
      match after '"' s with
      | some r => some ([], r)
      | none =>
          (scanChar s).bind fun (c, r) => (scanString n r).map fun (cs, r') => (c :: cs, r')

/-- Fraction digits, if a point and a digit follow. -/
def scanFrac (s : List Char) : List Char × List Char :=
  match after '.' s with
  | some r =>
      if (r.takeWhile Char.isDigit).isEmpty then ([], s)
      else (r.takeWhile Char.isDigit, r.dropWhile Char.isDigit)
  | none => ([], s)

/-- An exponent, if one follows. -/
def scanExp : List Char → Option (Bool × List Char) × List Char
  | [] => (none, [])
  | c :: s =>
      if c = 'e' ∨ c = 'E' then
        let (neg, r) := takeSign s
        if (r.takeWhile Char.isDigit).isEmpty then (none, c :: s)
        else (some (neg, r.takeWhile Char.isDigit), r.dropWhile Char.isDigit)
      else (none, c :: s)

/-- The digits before the point: a leading zero stands alone. -/
def scanWhole (s : List Char) : Option (List Char × List Char) :=
  match after '0' s with
  | some r => some (['0'], r)
  | none =>
      if (s.takeWhile Char.isDigit).isEmpty then none
      else some (s.takeWhile Char.isDigit, s.dropWhile Char.isDigit)

/-- The sign of a number. -/
def scanMinus (s : List Char) : Bool × List Char :=
  match after '-' s with
  | some r => (true, r)
  | none => (false, s)

/-- The longest number literal at the start of the text. -/
def scanNumber (s : List Char) : Option (DecimalLiteral × List Char) :=
  let (neg, s) := scanMinus s
  (scanWhole s).map fun (whole, s) =>
    let (frac, s) := scanFrac s
    let (exp, s) := scanExp s
    (⟨neg, whole, frac, exp⟩, s)

/-- `float` or `int`, by the shape of the literal. -/
def numberValue (d : DecimalLiteral) : Value :=
  if d.isFloat then .float d.toBinary64 else .int d.toInt

/-- The names of the constants. -/
def constants : List (List Char × Value) :=
  [(['n', 'u', 'l', 'l'], .none), (['t', 'r', 'u', 'e'], .bool true),
   (['f', 'a', 'l', 's', 'e'], .bool false), (['N', 'a', 'N'], .float .nan),
   (['I', 'n', 'f', 'i', 'n', 'i', 't', 'y'], .float (.inf false)),
   (['-', 'I', 'n', 'f', 'i', 'n', 'i', 't', 'y'], .float (.inf true))]

/-- A constant or a number. -/
def scanAtom (s : List Char) : Option (Value × List Char) :=
  match constants.findSome? fun p => (dropWord p.1 s).map fun r => (p.2, r) with
  | some r => some r
  | none => (scanNumber s).map fun (d, r) => (numberValue d, r)

/-- A key and the colon after it, with the whitespace around the colon. -/
def scanKey (n : Nat) (s : List Char) : Option (String × List Char) :=
  (after '"' s).bind fun s' =>
    (scanString n s').bind fun (k, r) =>
      (after ':' (skipWs r)).map fun r' => (String.ofList k, skipWs r')

/-- After an item: the closing bracket (`true`), or a comma and the whitespace after it. -/
def scanSep (close : Char) (s : List Char) : Option (Bool × List Char) :=
  match after close (skipWs s) with
  | some r => some (true, r)
  | none => (after ',' (skipWs s)).map fun r => (false, skipWs r)

mutual

/-- A value at the start of the text, and the text after it. -/
def scanOnce : Nat → List Char → Option (Value × List Char)
  | 0, _ => none
  | _ + 1, [] => none
  | n + 1, c :: r =>
      if c = '"' then (scanString n r).map fun (cs, r') => (.str (String.ofList cs), r')
      else if c = '{' then
        match after '}' (skipWs r) with
        | some r' => some (.dict [], r')
        | none => (scanMembers n (skipWs r)).map fun (kvs, r') => (.dict (PyDict.ofPairs kvs), r')
      else if c = '[' then
        match after ']' (skipWs r) with
        | some r' => some (.list [], r')
        | none => (scanItems n (skipWs r)).map fun (xs, r') => (.list xs, r')
      else scanAtom (c :: r)

/-- The members of an object, from the first key to the closing brace. -/
def scanMembers : Nat → List Char → Option (List (String × Value) × List Char)
  | 0, _ => none
  | n + 1, s =>
      (scanKey n s).bind fun (k, r) =>
        (scanOnce n r).bind fun (v, r') =>
          (scanSep '}' r').bind fun (done, r'') =>
            if done then some ([(k, v)], r'')
            else (scanMembers n r'').map fun (kvs, r₃) => ((k, v) :: kvs, r₃)

/-- The items of an array, from the first one to the closing bracket. -/
def scanItems : Nat → List Char → Option (List Value × List Char)
  | 0, _ => none
  | n + 1, s =>
      (scanOnce n s).bind fun (v, r) =>
        (scanSep ']' r).bind fun (done, r') =>
          if done then some ([v], r')
          else (scanItems n r').map fun (xs, r'') => (v :: xs, r'')

end

/-- The value at the start of the text and the text after it; `none` is the `ValueError`. -/
def decode (s : List Char) : Option (Value × List Char) := scanOnce (2 * s.length + 1) s

/-- `JSONDecoder().raw_decode(text, idx)`: the value and the index where it ended. -/
def rawDecode (text : List Char) (idx : Nat) : Option (Value × Nat) :=
  (decode (text.drop idx)).map fun (v, rest) => (v, text.length - rest.length)

/-- `json.loads(text)`; `none` is the `ValueError`. -/
def loads (text : String) : Option Value :=
  (decode (skipWs text.toList)).bind fun (v, rest) =>
    if (skipWs rest).isEmpty then some v else none

end Json

end AgentCluster.Python
