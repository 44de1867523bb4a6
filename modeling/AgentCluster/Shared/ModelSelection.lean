import AgentCluster.Library.SelectBest
import AgentCluster.Python.Arithmetic
import AgentCluster.Python.Path
import Mathlib.Data.List.Lex
import Mathlib.Data.Prod.Lex

/-!
# Selecting a model from the catalog

Model ids are parsed into the pieces they are ranked by, `classifyModel` and
`classifyEmbeddingModel`, and the selectors keep the first id of the largest key. Tuples are compared
lexicographically, as the orders of `List` and of `×ₗ` are.

The regular expression of the ids is spelled out in `matchModelId`: `\d` is a decimal digit of any
script, `.` is any character but a newline, and `$` also stands before a newline that ends the text.
-/

set_option autoImplicit false

namespace AgentCluster.Shared

open Python

def flashLiteFamily : String := "flash-lite"

def flashFamily : String := "flash"

def proFamily : String := "pro"

/-- Embedding model families, highest priority first. -/
def embeddingFamilies : List String :=
  ["gemini-embedding", "text-embedding", "text-multilingual-embedding", "embeddinggemma"]

/-- Trailing markers that denote a preview or experimental release. -/
def previewMarkers : List String := ["preview", "exp"]

/-! ## Numbers -/

/-- The longest text of digits that `int` reads. -/
def maxStrDigits : Nat := 4300

/-- `int(s)` of a text of digits; what the error quotes is cut off after 200 characters. -/
def parseInt (s : String) : Except Exception Nat :=
  match intOfDigits s with
  | none =>
      .error ⟨.valueError, "invalid literal for int() with base 10: " ++
        String.ofList (("'" ++ s ++ "'").toList.take 200)⟩
  | some n =>
      if maxStrDigits < s.length then
        .error ⟨.valueError, "Exceeds the limit (4300 digits) for integer string conversion: value " ++
          "has " ++ intStr s.length ++ " digits; use sys.set_int_max_str_digits() to increase the limit"⟩
      else .ok n

/-- The numbers among the tokens. -/
def suffixNumbers (tokens : List String) : Except Exception (List Nat) :=
  (tokens.filter isDigit).mapM parseInt

/-! ## Generative models -/

/-- A decimal digit, `\d`. -/
def isDecimal (c : Char) : Bool := (decimalValue c).isSome

/-- The part of the version after the first number, and what follows it. -/
def matchMinor : List Char → List Char × List Char
  | '.' :: s =>
      if (s.takeWhile isDecimal).isEmpty then ([], '.' :: s)
      else ('.' :: s.takeWhile isDecimal, s.dropWhile isDecimal)
  | s => ([], s)

/-- The text after the second dash, up to the end or to the newline that ends it. -/
def matchRest (s : List Char) : Option (List Char) :=
  let rest := s.takeWhile (· != '\n')
  let after := s.dropWhile (· != '\n')
  if rest ≠ [] ∧ (after = [] ∨ after = ['\n']) then some rest else none

/-- The version and the rest of `gemini-<version>-<rest>`. -/
def matchModelId (modelId : String) : Option (String × String) :=
  match modelId.toList.dropPrefix? "gemini-".toList with
  | none => none
  | some s =>
      let major := s.takeWhile isDecimal
      let (minor, after) := matchMinor (s.dropWhile isDecimal)
      match after with
      | '-' :: t =>
          if major = [] then none
          else (matchRest t).map fun rest => (String.ofList (major ++ minor), String.ofList rest)
      | _ => none

/-- The family the tokens start with, and the tokens after it. -/
def splitFamily (tokens : List String) : Option (String × List String) :=
  if tokens.take 2 = ["flash", "lite"] then some (flashLiteFamily, tokens.drop 2)
  else if tokens.head? = some "flash" then some (flashFamily, tokens.drop 1)
  else if tokens.head? = some "pro" then some (proFamily, tokens.drop 1)
  else none

/-- The first token after the family is a number or a marker, if there is one. -/
def extraAllowed : List String → Bool
  | [] => true
  | token :: _ => isDigit token || previewMarkers.contains token

def isPreview : List String → Bool
  | [] => false
  | token :: _ => previewMarkers.contains token

/-- What a model id says. -/
structure ModelInfo where
  version : List Nat
  family : String
  isPreview : Bool
  isPlain : Bool
  suffixNumbers : List Nat
  deriving DecidableEq

/-- Parse a model id, or skip it. -/
def classifyModel (modelId : String) : Except Exception (Option ModelInfo) :=
  match matchModelId modelId with
  | none => .ok none
  | some (versionText, rest) =>
      match (split versionText '.').mapM parseInt with
      | .error e => .error e
      | .ok version =>
          match splitFamily (split rest '-') with
          | none => .ok none
          | some (family, extra) =>
              if extraAllowed extra then
                (suffixNumbers extra).map fun numbers =>
                  some ⟨version, family, isPreview extra, extra.isEmpty, numbers⟩
              else .ok none

/-- What models are ranked by: version, stable over preview, alias, numbers. -/
abbrev ModelKey := List Nat ×ₗ Nat ×ₗ Nat ×ₗ List Nat

def ModelInfo.key (m : ModelInfo) : ModelKey :=
  toLex (m.version, toLex (if m.isPreview then 0 else 1,
    toLex (if m.isPlain then 1 else 0, m.suffixNumbers)))

/-- The key of a model of the family. -/
def modelKey (family modelId : String) : Except Exception (Option ModelKey) :=
  match classifyModel modelId with
  | .error e => .error e
  | .ok none => .ok none
  | .ok (some m) => if m.family = family then .ok (some m.key) else .ok none

/-- What is raised when the catalog has no model of the family. -/
def noModel (family : String) : Exception :=
  ⟨.valueError, "No Gemini model found for family '" ++ family ++ "' in the Vertex AI " ++
    "catalog. Set the corresponding GEMINI_*_MODEL env var to pin one."⟩

/-- Pick the latest model id of a family. -/
def selectLatestModel (modelIds : List String) (family : String) : Except Exception String :=
  Library.select (modelKey family) (noModel family) modelIds

/-! ## Embedding models -/

/-- The first family the id belongs to, with its place in the list. -/
def embeddingFamily (modelId : String) : Option (String × Nat) :=
  embeddingFamilies.zipIdx.find? fun p => modelId == p.1 || startsWith modelId (p.1 ++ "-")

/-- What embedding models are ranked by: family, stable over variant, numbers. -/
abbrev EmbeddingKey := Nat ×ₗ Bool ×ₗ List Nat

/-- Rank an embedding model id, or skip it. -/
def classifyEmbeddingModel (modelId : String) : Except Exception (Option EmbeddingKey) :=
  match embeddingFamily modelId with
  | none => .ok none
  | some (family, rank) =>
      let remainder := lstrip (String.ofList (modelId.toList.drop family.length)) '-'
      let tokens := if remainder = "" then [] else split remainder '-'
      let isStable := tokens.isEmpty || (tokens.head?.map isDigit).getD false
      (suffixNumbers tokens).map fun numbers =>
        some (toLex (embeddingFamilies.length - rank, toLex (isStable, numbers)))

def noEmbeddingModel : Exception :=
  ⟨.valueError, "No supported embedding model found in the Vertex AI catalog. Set " ++
    "GEMINI_EMBEDDING_MODEL to pin one."⟩

/-- Pick the best embedding model id. -/
def selectEmbeddingModel (modelIds : List String) : Except Exception String :=
  Library.select classifyEmbeddingModel noEmbeddingModel modelIds

end AgentCluster.Shared
