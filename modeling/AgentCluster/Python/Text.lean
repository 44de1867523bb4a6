import Mathlib.Data.List.DropRight

/-!
# Python strings

The `str` operations the program uses, with their Unicode behaviour: `strip`, `join`, `find`, and
`repr`. A string is a sequence of Unicode scalar values; lone surrogates are not represented.

Which characters `repr` leaves unescaped is a property of the interpreter's Unicode database and
stays a parameter, `UnicodeData`.
-/

set_option autoImplicit false

namespace AgentCluster.Python

/-- `c.isspace()`, the whole table. -/
def isSpace (c : Char) : Bool :=
  let n := c.toNat
  (9 ≤ n && n ≤ 13) || (0x1c ≤ n && n ≤ 0x20) || n == 0x85 || n == 0xa0 || n == 0x1680 ||
    (0x2000 ≤ n && n ≤ 0x200a) || n == 0x2028 || n == 0x2029 || n == 0x202f || n == 0x205f ||
    n == 0x3000

/-- The zeros of the decimal digit ranges outside ASCII, ten consecutive code points each. -/
def decimalZeros : List Nat :=
  [0x660, 0x6f0, 0x7c0, 0x966, 0x9e6, 0xa66, 0xae6, 0xb66, 0xbe6, 0xc66, 0xce6, 0xd66, 0xde6, 0xe50,
   0xed0, 0xf20, 0x1040, 0x1090, 0x17e0, 0x1810, 0x1946, 0x19d0, 0x1a80, 0x1a90, 0x1b50, 0x1bb0,
   0x1c40, 0x1c50, 0xa620, 0xa8d0, 0xa900, 0xa9d0, 0xa9f0, 0xaa50, 0xabf0, 0xff10, 0x104a0, 0x10d30,
   0x10d40, 0x11066, 0x110f0, 0x11136, 0x111d0, 0x112f0, 0x11450, 0x114d0, 0x11650, 0x116c0, 0x116d0,
   0x116da, 0x11730, 0x118e0, 0x11950, 0x11bf0, 0x11c50, 0x11d50, 0x11da0, 0x11f50, 0x16130, 0x16a60,
   0x16ac0, 0x16b50, 0x16d70, 0x1ccf0, 0x1d7ce, 0x1d7d8, 0x1d7e2, 0x1d7ec, 0x1d7f6, 0x1e140, 0x1e2f0,
   0x1e4f0, 0x1e5f1, 0x1e950, 0x1fbf0]

/-- The ASCII form of a character of a number: decimal digits and spaces of any script become
ASCII ones, and what is neither becomes a character no number contains. -/
def toAsciiDecimal (c : Char) : Char :=
  if c.toNat < 127 then c
  else if isSpace c then ' '
  else match decimalZeros.find? fun z => z ≤ c.toNat && c.toNat < z + 10 with
    | some z => Char.ofNat (48 + (c.toNat - z))
    | none => '?'

/-- Characters dropped on both sides. -/
def stripWith (p : Char → Bool) (s : List Char) : List Char := (s.dropWhile p).rdropWhile p

/-- `s.strip()`. -/
def strip (s : String) : String := String.ofList (stripWith isSpace s.toList)

/-- `sep.join(parts)`. -/
def join (sep : String) : List String → String
  | [] => ""
  | [s] => s
  | s :: rest => s ++ sep ++ join sep rest

/-- `s.split(sep)`. -/
def split (s : String) (sep : Char) : List String := (s.toList.splitOn sep).map String.ofList

/-- `s.partition(sep)`: what is before the first separator, the separator, and what is after it. -/
def partition (s : String) (sep : Char) : String × String × String :=
  match s.toList.dropWhile (· != sep) with
  | [] => (s, "", "")
  | c :: rest =>
      (String.ofList (s.toList.takeWhile (· != sep)), String.ofList [c], String.ofList rest)

/-- `s.rstrip(c)`. -/
def rstrip (s : String) (c : Char) : String := String.ofList (s.toList.rdropWhile (· == c))

/-- `s.lstrip(c)`. -/
def lstrip (s : String) (c : Char) : String := String.ofList (s.toList.dropWhile (· == c))

/-- `s.strip(c)`. -/
def stripChar (s : String) (c : Char) : String := String.ofList (stripWith (· == c) s.toList)

/-- `s.find(c, start)`. -/
def find (s : List Char) (c : Char) (start : Nat) : Option Nat :=
  ((s.drop start).findIdx? (· == c)).map (start + ·)

/-- `s.startswith(p)`. -/
def startsWith (s p : String) : Bool := p.toList.isPrefixOf s.toList

/-- The part of the Unicode character database that `repr` consults. -/
class UnicodeData where
  isPrintable : Char → Bool

/-- A database in which only ASCII is printable. -/
@[reducible]
def asciiData : UnicodeData := ⟨fun c => c.toNat < 127⟩

/-- The case mappings of the database. -/
class CaseMapping where
  lower : String → String
  upper : String → String

/-- Mappings that change only ASCII letters. -/
@[reducible]
def asciiCase : CaseMapping :=
  ⟨fun s => String.ofList (s.toList.map Char.toLower),
    fun s => String.ofList (s.toList.map Char.toUpper)⟩

/-- `re.match` of a pattern between `^` and `$`: the last position is the end of the text or before a
newline that ends it. -/
def matchWhole (pattern : List Char → Bool) (s : String) : Bool :=
  pattern s.toList || (s.toList.getLast? == some '\n' && pattern s.toList.dropLast)

/-- The lowercase hexadecimal digits of `n`, padded with zeros to `width`. -/
def hexPadded (width n : Nat) : List Char :=
  let ds := Nat.toDigits 16 n
  List.replicate (width - ds.length) '0' ++ ds

/-- One character inside `repr(s)` with the quote `q`. -/
def reprChar [UnicodeData] (q c : Char) : List Char :=
  if c == q || c == '\\' then ['\\', c]
  else if c == '\t' then ['\\', 't']
  else if c == '\n' then ['\\', 'n']
  else if c == '\r' then ['\\', 'r']
  else if c.toNat < 0x20 || c.toNat == 0x7f then '\\' :: 'x' :: hexPadded 2 c.toNat
  else if c.toNat < 0x7f || UnicodeData.isPrintable c then [c]
  else if c.toNat ≤ 0xff then '\\' :: 'x' :: hexPadded 2 c.toNat
  else if c.toNat ≤ 0xffff then '\\' :: 'u' :: hexPadded 4 c.toNat
  else '\\' :: 'U' :: hexPadded 8 c.toNat

/-- `repr(s)`: single quotes unless only double quotes avoid escaping. -/
def strRepr [UnicodeData] (s : String) : String :=
  let q := if s.toList.contains '\'' && !s.toList.contains '"' then '"' else '\''
  String.ofList (q :: s.toList.flatMap (reprChar q) ++ [q])

/-! ## Joining, splitting and stripping -/

theorem join_cons (sep s : String) {rest : List String} (h : rest ≠ []) :
    join sep (s :: rest) = s ++ sep ++ join sep rest := by
  cases rest with
  | nil => exact absurd rfl h
  | cons t ts => rfl

/-- Nothing is stripped where no character is to be dropped. -/
theorem stripWith_of_all {p : Char → Bool} {s : List Char} (h : ∀ c ∈ s, p c = false) :
    stripWith p s = s := by
  have hdrop : s.dropWhile p = s := by
    cases s with
    | nil => rfl
    | cons c s =>
      rw [List.dropWhile_cons, if_neg (by rw [h c List.mem_cons_self]; exact Bool.false_ne_true)]
  rw [stripWith, hdrop, List.rdropWhile_eq_self_iff]
  intro hne
  rw [h _ (List.getLast_mem hne)]
  exact Bool.false_ne_true

/-- Stripping changes nothing exactly when no character to be dropped is at either end. -/
theorem stripWith_eq_self_iff {p : Char → Bool} {s : List Char} :
    stripWith p s = s ↔
      (∀ c, s.head? = some c → p c = false) ∧ ∀ c, s.getLast? = some c → p c = false := by
  constructor
  · intro h
    -- Stripping both ends only shortens, so what is unchanged was not shortened on the left either.
    have hlen : (s.dropWhile p).length = s.length := by
      apply Nat.le_antisymm ((List.dropWhile_suffix p).length_le)
      have hle := (List.rdropWhile_prefix p (s.dropWhile p)).length_le
      rw [stripWith] at h
      rwa [h] at hle
    have hdrop : s.dropWhile p = s := (List.dropWhile_suffix p).eq_of_length hlen
    rw [stripWith, hdrop, List.rdropWhile_eq_self_iff] at h
    constructor
    · intro c hc
      cases s with
      | nil => cases hc
      | cons d s =>
        cases hc
        cases hp : p c with
        | false => rfl
        | true =>
          rw [List.dropWhile_cons, if_pos hp] at hdrop
          have hshort := (List.dropWhile_suffix p (l := s)).length_le
          rw [hdrop, List.length_cons] at hshort
          omega
    · intro c hc
      obtain ⟨hne, rfl⟩ := List.mem_getLast?_eq_getLast hc
      exact eq_false_of_ne_true (h hne)
  · rintro ⟨hhead, hlast⟩
    have hdrop : s.dropWhile p = s := by
      cases s with
      | nil => rfl
      | cons d s =>
        rw [List.dropWhile_cons, if_neg (by rw [hhead d rfl]; exact Bool.false_ne_true)]
    rw [stripWith, hdrop, List.rdropWhile_eq_self_iff]
    intro hne
    rw [hlast _ (List.getLast?_eq_some_getLast hne)]
    exact Bool.false_ne_true

/-- Stripping twice changes nothing more. -/
theorem stripWith_stripWith (p : Char → Bool) (s : List Char) :
    stripWith p (stripWith p s) = stripWith p s := by
  apply stripWith_eq_self_iff.2
  constructor
  · intro c hc
    obtain ⟨rest, hrest⟩ : stripWith p s <+: s.dropWhile p := List.rdropWhile_prefix p _
    have hfirst : (s.dropWhile p).head? = some c := by
      rw [← hrest, List.head?_append, hc]
      rfl
    have hkept := List.head?_dropWhile_not p s
    rwa [hfirst] at hkept
  · intro c hc
    obtain ⟨hne, rfl⟩ := List.mem_getLast?_eq_getLast hc
    exact eq_false_of_ne_true (List.rdropWhile_last_not p _ hne)

/-- Nothing is left where every character is to be dropped. -/
theorem stripWith_eq_nil_iff {p : Char → Bool} {s : List Char} :
    stripWith p s = [] ↔ ∀ c ∈ s, p c = true := by
  rw [stripWith, List.rdropWhile_eq_nil_iff]
  constructor
  · intro h c hc
    rw [← List.takeWhile_append_dropWhile (p := p) (l := s)] at hc
    rcases List.mem_append.1 hc with hc | hc
    · exact List.mem_takeWhile_imp hc
    · exact h c hc
  · intro h c hc
    exact h c ((List.dropWhile_suffix p).subset hc)

theorem toList_join (sep : String) (parts : List String) :
    (join sep parts).toList = sep.toList.intercalate (parts.map String.toList) := by
  induction parts with
  | nil => rfl
  | cons s parts ih =>
    cases parts with
    | nil => simp [join]
    | cons t parts =>
      rw [join_cons sep s (List.cons_ne_nil t parts), String.toList_append, String.toList_append, ih]
      rw [List.map_cons, List.map_cons, List.map_cons, List.intercalate_cons_cons]

theorem not_mem_join {sep : String} {parts : List String} {c : Char} (hsep : c ∉ sep.toList)
    (h : ∀ part ∈ parts, c ∉ part.toList) : c ∉ (join sep parts).toList := by
  induction parts with
  | nil => exact List.not_mem_nil
  | cons s parts ih =>
    obtain ⟨hs, hparts⟩ := List.forall_mem_cons.1 h
    cases parts with
    | nil => exact hs
    | cons t parts =>
      rw [join_cons sep s (List.cons_ne_nil t parts), String.toList_append, String.toList_append,
        List.mem_append, List.mem_append]
      rintro ((hmem | hmem) | hmem)
      · exact hs hmem
      · exact hsep hmem
      · exact ih hparts hmem

/-- Splitting what was joined gives the parts back, when none contains the separator. -/
theorem split_join {sepText : String} {sep : Char} (hsep : sepText.toList = [sep])
    {parts : List String} (hne : parts ≠ []) (h : ∀ s ∈ parts, sep ∉ s.toList) :
    split (join sepText parts) sep = parts := by
  have hnot : ∀ w ∈ parts.map String.toList, sep ∉ w := by
    rw [List.forall_mem_map]
    exact h
  have hmap : parts.map String.toList ≠ [] := fun heq => hne (List.map_eq_nil_iff.1 heq)
  rw [split, toList_join, hsep, List.splitOn_intercalate sep hnot hmap, List.map_map]
  exact List.map_id'' (fun s => String.ofList_toList) _

theorem split_ne_nil (s : String) (sep : Char) : split s sep ≠ [] :=
  fun h => List.splitOn_ne_nil sep s.toList (List.map_eq_nil_iff.1 h)

/-- Joining the parts of a text gives the text back. -/
theorem join_split {sepText : String} {sep : Char} (hsep : sepText.toList = [sep]) (s : String) :
    join sepText (split s sep) = s := by
  have hid : String.toList ∘ String.ofList = id := funext fun w => String.toList_ofList
  rw [← String.toList_inj, toList_join, hsep, split, List.map_map, hid, List.map_id]
  exact List.intercalate_splitOn sep

theorem not_mem_of_mem_splitOn {a : Char} {s w : List Char} (h : w ∈ s.splitOn a) : a ∉ w := by
  induction s generalizing w with
  | nil =>
    rw [List.splitOn_nil, List.mem_singleton] at h
    rw [h]
    exact List.not_mem_nil
  | cons c s ih =>
    rw [List.splitOn_cons_eq_if_modifyHead] at h
    cases hs : s.splitOn a with
    | nil => exact absurd hs (List.splitOn_ne_nil a s)
    | cons v ws =>
      rw [hs] at h ih
      split at h
      · rcases List.mem_cons.1 h with rfl | h
        · exact List.not_mem_nil
        · exact ih h
      · next hc =>
        rw [List.modifyHead_cons] at h
        rcases List.mem_cons.1 h with rfl | h
        · have hv := ih List.mem_cons_self
          simp only [beq_iff_eq] at hc
          rw [List.mem_cons, not_or]
          exact ⟨Ne.symm hc, hv⟩
        · exact ih (List.mem_cons_of_mem v h)

/-- The parts of a text have no separator. -/
theorem not_mem_of_mem_split {s part : String} {sep : Char} (h : part ∈ split s sep) :
    sep ∉ part.toList := by
  obtain ⟨w, hw, rfl⟩ := List.mem_map.1 h
  rw [String.toList_ofList]
  exact not_mem_of_mem_splitOn hw

theorem startsWith_iff {s p : String} : startsWith s p = true ↔ ∃ rest, s = p ++ rest := by
  rw [startsWith, List.isPrefixOf_iff_prefix]
  constructor
  · rintro ⟨rest, hrest⟩
    refine ⟨String.ofList rest, ?_⟩
    rw [← String.toList_inj, String.toList_append, String.toList_ofList]
    exact hrest.symm
  · rintro ⟨rest, rfl⟩
    rw [String.toList_append]
    exact ⟨rest.toList, rfl⟩

/-! ## Finding -/

theorem find_eq_none {text : List Char} {c : Char} {start : Nat} (h : find text c start = none) :
    c ∉ text.drop start := by
  intro hmem
  rw [find, Option.map_eq_none_iff, List.findIdx?_eq_none_iff] at h
  simpa using h c hmem

/-- The text between the start and the position found does not contain the character. -/
theorem find_eq_some {text : List Char} {c : Char} {start index : Nat}
    (h : find text c start = some index) :
    ∃ pre, c ∉ pre ∧ text.drop start = pre ++ text.drop index ∧
      text.drop index = c :: text.drop (index + 1) := by
  rw [find, Option.map_eq_some_iff] at h
  obtain ⟨k, hk, rfl⟩ := h
  obtain ⟨hlt, hget, hbefore⟩ := List.findIdx?_eq_some_iff_getElem.1 hk
  refine ⟨(text.drop start).take k, ?_, ?_, ?_⟩
  · intro hmem
    obtain ⟨i, hi, hci⟩ := List.mem_iff_getElem.1 hmem
    rw [List.length_take] at hi
    rw [List.getElem_take] at hci
    have hi' : i < k := by omega
    exact hbefore i hi' (by rw [hci]; simp)
  · rw [← List.drop_drop, List.take_append_drop]
  · rw [← List.drop_drop, ← List.drop_drop, ← List.drop_drop, List.drop_eq_getElem_cons hlt]
    simpa using hget

theorem getElem?_ne_of_find_eq_none {text : List Char} {c : Char} {start : Nat}
    (h : find text c start = none) {i : Nat} (hi : start ≤ i) : text[i]? ≠ some c := by
  intro hget
  apply find_eq_none h
  rw [List.mem_iff_getElem?]
  exact ⟨i - start, by rw [List.getElem?_drop, Nat.add_sub_cancel' hi, hget]⟩

/-- The position found is the first from the start on. -/
theorem first_of_find_eq_some {text : List Char} {c : Char} {start index : Nat}
    (h : find text c start = some index) :
    start ≤ index ∧ text[index]? = some c ∧ ∀ i, start ≤ i → i < index → text[i]? ≠ some c := by
  rw [find, Option.map_eq_some_iff] at h
  obtain ⟨k, hk, rfl⟩ := h
  obtain ⟨hlt, hget, hbefore⟩ := List.findIdx?_eq_some_iff_getElem.1 hk
  refine ⟨Nat.le_add_right _ _, ?_, ?_⟩
  · rw [← List.getElem?_drop, List.getElem?_eq_getElem hlt, beq_iff_eq.1 hget]
  · intro i hi hik hc
    obtain ⟨j, rfl⟩ := Nat.exists_eq_add_of_le hi
    have hj : j < k := by omega
    have hne := hbefore j hj
    rw [← List.getElem?_drop, List.getElem?_eq_getElem (hj.trans hlt)] at hc
    rw [Option.some.inj hc, beq_self_eq_true] at hne
    exact hne rfl

theorem strip_strip (s : String) : strip (strip s) = strip s := by
  rw [strip, strip, String.toList_ofList, stripWith_stripWith]

/-! ## Up to a character -/

theorem takeWhile_stop {α : Type*} {p : α → Bool} {s t : List α} {c : α} (h : ∀ a ∈ s, p a = true)
    (hc : p c = false) : (s ++ c :: t).takeWhile p = s := by
  rw [List.takeWhile_append_of_pos h, List.takeWhile_cons, hc, if_neg Bool.false_ne_true,
    List.append_nil]

theorem dropWhile_stop {α : Type*} {p : α → Bool} {s t : List α} {c : α} (h : ∀ a ∈ s, p a = true)
    (hc : p c = false) : (s ++ c :: t).dropWhile p = c :: t := by
  rw [List.dropWhile_append_of_pos h, List.dropWhile_cons, hc, if_neg Bool.false_ne_true]

/-- The first separator is the one after a part without separators. -/
theorem partition_append {a b : String} {sep : Char} (h : sep ∉ a.toList) :
    partition (a ++ String.ofList [sep] ++ b) sep = (a, String.ofList [sep], b) := by
  have hall : ∀ c ∈ a.toList, (c != sep) = true := by
    intro c hc
    rw [bne_iff_ne]
    rintro rfl
    exact h hc
  have hsep : (sep != sep) = false := bne_self_eq_false sep
  have htext : (a ++ String.ofList [sep] ++ b).toList = a.toList ++ sep :: b.toList := by
    rw [String.toList_append, String.toList_append, String.toList_ofList, List.append_assoc]
    rfl
  rw [partition, htext, dropWhile_stop hall hsep]
  simp only [takeWhile_stop hall hsep, String.ofList_toList]

end AgentCluster.Python
