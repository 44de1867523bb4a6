import AgentCluster.Python.FloatText

/-!
# Paths and the names of versions

`pathlib`'s absolute paths as their components, with `/`, and the `str` methods that tell a version
number from another name: `str.isdigit`, `int` and `str` of an integer.

The two slashes that POSIX lets a path start with are read as one, and the interpreter's limit on
the digits `int` reads is not modelled.
-/

set_option autoImplicit false

namespace AgentCluster.Python

/-! ## Numbers as names -/

/-- The value of a decimal digit of any script. -/
def decimalValue (c : Char) : Option Nat :=
  if c.isDigit then some (c.toNat - 48)
  else (decimalZeros.find? fun z => z ≤ c.toNat && c.toNat < z + 10).map (c.toNat - ·)

/-- Ranges of characters that are digits but not decimal ones, such as superscripts. -/
def otherDigits : List (Nat × Nat) :=
  [(0xb2, 0xb3), (0xb9, 0xb9), (0x1369, 0x1371), (0x19da, 0x19da), (0x2070, 0x2070),
   (0x2074, 0x2079), (0x2080, 0x2089), (0x2460, 0x2468), (0x2474, 0x247c), (0x2488, 0x2490),
   (0x24ea, 0x24ea), (0x24f5, 0x24fd), (0x24ff, 0x24ff), (0x2776, 0x277e), (0x2780, 0x2788),
   (0x278a, 0x2792), (0x10a40, 0x10a43), (0x10e60, 0x10e68), (0x11052, 0x1105a),
   (0x1f100, 0x1f10a)]

/-- `c.isdigit()`. -/
def isDigitChar (c : Char) : Bool :=
  (decimalValue c).isSome || otherDigits.any fun r => r.1 ≤ c.toNat && c.toNat ≤ r.2

/-- `s.isdigit()`. -/
def isDigit (s : String) : Bool := !s.toList.isEmpty && s.toList.all isDigitChar

/-- `int(s)` of a string of digits; `none` is the `ValueError` for a digit that is not decimal. -/
def intOfDigits (s : String) : Option Nat :=
  (s.toList.mapM decimalValue).map fun ds => ds.foldl (fun n d => 10 * n + d) 0

/-- `str(v)`. -/
def intStr : Int → String
  | .ofNat n => String.ofList (digits n)
  | .negSucc n => String.ofList ('-' :: digits (n + 1))

theorem decimalValue_of_isDigit {c : Char} (h : c.isDigit = true) :
    decimalValue c = some (c.toNat - 48) := if_pos h

theorem mapM_decimalValue {ds : List Char} (h : ∀ c ∈ ds, c.isDigit = true) :
    ds.mapM decimalValue = some (ds.map fun c => c.toNat - 48) := by
  induction ds with
  | nil => rfl
  | cons c ds ih =>
    rw [List.mapM_cons, decimalValue_of_isDigit (h c List.mem_cons_self),
      ih fun d hd => h d (List.mem_cons_of_mem c hd)]
    rfl

/-- `int` reads back what `str` writes. -/
theorem intOfDigits_intStr (n : Nat) : intOfDigits (intStr n) = some n := by
  have hmap := mapM_decimalValue fun c (hc : c ∈ digits n) => isDigit_of_mem_digits hc
  show (((String.ofList (digits n)).toList.mapM decimalValue).map _) = some n
  rw [String.toList_ofList, hmap, Option.map_some, List.foldl_map]
  exact congrArg some (Nat.ofDigitChars_eq_foldl.symm.trans (digitsValue_digits n))

theorem isDigit_intStr (n : Nat) : isDigit (intStr n) = true := by
  show isDigit (String.ofList (digits n)) = true
  rw [isDigit, String.toList_ofList, Bool.and_eq_true]
  constructor
  · cases h : digits n with
    | nil => exact absurd h Nat.toDigits_ne_nil
    | cons c ds => rfl
  · rw [List.all_eq_true]
    intro c hc
    rw [isDigitChar, decimalValue_of_isDigit (isDigit_of_mem_digits hc)]
    rfl

theorem intStr_natCast_inj {m n : Nat} (h : intStr m = intStr n) : m = n := by
  have heq := intOfDigits_intStr m
  rw [h, intOfDigits_intStr] at heq
  exact (Option.some.inj heq).symm

/-! ## Components -/

/-- The components of a path text: empty ones and `.` are dropped. -/
def components (s : String) : List String :=
  ((s.toList.splitOn '/').filter fun w => w != [] && w != ['.']).map String.ofList

/-- The text starts at the root. -/
def isAbsolute (s : String) : Bool := s.toList.head? == some '/'

/-- `path / segment`: an absolute segment replaces the path. -/
def joinPath (path : List String) (segment : String) : List String :=
  if isAbsolute segment then components segment else path ++ components segment

/-- The text of a path. -/
def pathStr (path : List String) : String := "/" ++ join "/" path

/-- A name of one component. -/
structure IsName (s : String) : Prop where
  ne_empty : s ≠ ""
  ne_dot : s ≠ "."
  ne_dotdot : s ≠ ".."
  noSlash : '/' ∉ s.toList

/-- What a component of a path text is. -/
theorem component_spec {s c : String} (h : c ∈ components s) :
    c ≠ "" ∧ c ≠ "." ∧ '/' ∉ c.toList := by
  obtain ⟨w, hw, rfl⟩ := List.mem_map.1 h
  obtain ⟨hmem, hkept⟩ := List.mem_filter.1 hw
  simp only [bne_iff_ne, ne_eq, Bool.and_eq_true] at hkept
  refine ⟨?_, ?_, ?_⟩
  · intro heq
    exact hkept.1 (by rw [← String.toList_ofList (l := w), heq]; rfl)
  · intro heq
    exact hkept.2 (by rw [← String.toList_ofList (l := w), heq]; rfl)
  · rw [String.toList_ofList]
    exact not_mem_of_mem_splitOn hmem

theorem isName_of_component {s c : String} (h : c ∈ components s) (hup : c ≠ "..") : IsName c :=
  let ⟨hempty, hdot, hslash⟩ := component_spec h
  ⟨hempty, hdot, hup, hslash⟩

/-- A path text made of names has these as its components. -/
theorem components_join {names : List String} (h : ∀ n ∈ names, IsName n) :
    components (join "/" names) = names := by
  cases names with
  | nil => rfl
  | cons m names =>
    have hslash : ∀ w ∈ (m :: names).map String.toList, '/' ∉ w := by
      rw [List.forall_mem_map]
      exact fun n hn => (h n hn).noSlash
    have hsep : "/".toList = ['/'] := rfl
    rw [components, toList_join, hsep, List.splitOn_intercalate '/' hslash (List.cons_ne_nil _ _)]
    rw [List.filter_eq_self.2]
    · rw [List.map_map]
      exact List.map_id'' (fun n => String.ofList_toList) _
    · rw [List.forall_mem_map]
      intro n hn
      rw [Bool.and_eq_true, bne_iff_ne, bne_iff_ne]
      exact ⟨fun heq => (h n hn).ne_empty (String.toList_inj.1 heq),
        fun heq => (h n hn).ne_dot (String.toList_inj.1 heq)⟩

theorem components_name {s : String} (h : IsName s) : components s = [s] := by
  have hnames : ∀ n ∈ [s], IsName n := List.forall_mem_singleton.2 h
  exact components_join hnames

theorem not_isAbsolute_join {names : List String} (h : ∀ n ∈ names, IsName n) :
    isAbsolute (join "/" names) = false := by
  cases names with
  | nil => rfl
  | cons n names =>
    have hn := h n List.mem_cons_self
    have hhead : (join "/" (n :: names)).toList.head? = n.toList.head? := by
      cases names with
      | nil => rfl
      | cons m names =>
        rw [join_cons "/" n (List.cons_ne_nil m names), String.toList_append, String.toList_append,
          List.append_assoc, List.head?_append_of_ne_nil]
        exact fun heq => hn.ne_empty (String.toList_eq_nil_iff.1 heq)
    rw [isAbsolute, hhead, beq_eq_false_iff_ne]
    exact fun heq => hn.noSlash (List.mem_of_head? heq)

theorem joinPath_join {names : List String} (h : ∀ n ∈ names, IsName n) (path : List String) :
    joinPath path (join "/" names) = path ++ names := by
  rw [joinPath, not_isAbsolute_join h, components_join h]
  rfl

theorem joinPath_name {s : String} (h : IsName s) (path : List String) :
    joinPath path s = path ++ [s] := by
  have hnames : ∀ n ∈ [s], IsName n := List.forall_mem_singleton.2 h
  exact joinPath_join hnames path

theorem isName_of_digit {s : String} {c : Char} (hc : c ∈ s.toList) (hdigit : c.isDigit = true)
    (hslash : '/' ∉ s.toList) : IsName s := by
  refine ⟨?_, ?_, ?_, hslash⟩
  · rintro rfl
    cases hc
  · rintro rfl
    obtain rfl : c = '.' := List.mem_singleton.1 hc
    cases hdigit
  · rintro rfl
    have hdot : c ∈ ['.', '.'] := hc
    obtain rfl : c = '.' := by simpa using hdot
    cases hdigit

theorem not_slash_mem_digits (n : Nat) : '/' ∉ digits n := by
  intro h
  cases isDigit_of_mem_digits h

/-- The names of versions are names. -/
theorem isName_intStr (v : Int) : IsName (intStr v) := by
  have hhead : ∀ n : Nat, ∃ c ∈ digits n, c.isDigit = true := by
    intro n
    obtain ⟨c, hc⟩ := List.exists_mem_of_ne_nil (digits n) Nat.toDigits_ne_nil
    exact ⟨c, hc, isDigit_of_mem_digits hc⟩
  cases v with
  | ofNat n =>
    obtain ⟨c, hc, hdigit⟩ := hhead n
    apply isName_of_digit (c := c) _ hdigit
    · rw [intStr, String.toList_ofList]
      exact not_slash_mem_digits n
    · rw [intStr, String.toList_ofList]
      exact hc
  | negSucc n =>
    obtain ⟨c, hc, hdigit⟩ := hhead (n + 1)
    apply isName_of_digit (c := c) _ hdigit
    · rw [intStr, String.toList_ofList, List.mem_cons, not_or]
      exact ⟨by decide, not_slash_mem_digits (n + 1)⟩
    · rw [intStr, String.toList_ofList]
      exact List.mem_cons_of_mem '-' hc

theorem intStr_injective {v w : Int} (h : intStr v = intStr w) : v = w := by
  have hminus : ∀ m n : Nat, digits m ≠ '-' :: digits n := by
    intro m n heq
    have hdigit : ('-' : Char).isDigit = true :=
      isDigit_of_mem_digits (n := m) (by rw [heq]; exact List.mem_cons_self)
    cases hdigit
  cases v with
  | ofNat m =>
    cases w with
    | ofNat n => exact congrArg Int.ofNat (intStr_natCast_inj h)
    | negSucc n => exact absurd (String.ofList_injective h) (hminus m (n + 1))
  | negSucc m =>
    cases w with
    | ofNat n => exact absurd (String.ofList_injective h).symm (hminus n (m + 1))
    | negSucc n =>
      have hdigits : digits (m + 1) = digits (n + 1) := (List.cons.inj (String.ofList_injective h)).2
      have heq : m + 1 = n + 1 := by
        rw [← digitsValue_digits (m + 1), hdigits, digitsValue_digits]
      exact congrArg Int.negSucc (Nat.succ.inj heq)

end AgentCluster.Python
