import AgentCluster.Shared.ModelSelection

/-!
# The ids of models

What the regular expression of the ids and the tokens after it mean, in terms of how an id is
spelled: `matchModelId_eq_some_iff` for the expression, `classifyModel_eq_ok_iff` for the parser.
Numbers are decimal digits of any script; `int` reads those of at most 4300 digits. A token that
`str.isdigit` calls digits may hold digits that are not decimal, and the parser raises on it.
-/

set_option autoImplicit false

namespace AgentCluster.Shared

open Python

/-! ## Numbers -/

/-- A number: decimal digits of any script. -/
def IsNumeric (s : String) : Prop := s ≠ "" ∧ ∀ c ∈ s.toList, isDecimal c = true

instance (s : String) : Decidable (IsNumeric s) :=
  decidable_of_iff (s ≠ "" ∧ s.toList.all isDecimal = true) (by rw [List.all_eq_true, IsNumeric])

/-- A number that `int` reads. -/
def IsReadable (s : String) : Prop := IsNumeric s ∧ s.length ≤ maxStrDigits

theorem not_mem_of_isNumeric {s : String} (h : IsNumeric s) {c : Char} (hc : isDecimal c = false) :
    c ∉ s.toList := by
  intro hmem
  rw [h.2 c hmem] at hc
  cases hc

theorem isDigit_of_isNumeric {s : String} (h : IsNumeric s) : isDigit s = true := by
  rw [isDigit, Bool.and_eq_true, List.all_eq_true]
  constructor
  · rw [Bool.not_eq_true', List.isEmpty_eq_false_iff]
    exact fun heq => h.1 (String.toList_eq_nil_iff.1 heq)
  · intro c hc
    rw [isDigitChar, Bool.or_eq_true]
    exact Or.inl (h.2 c hc)

theorem isSome_mapM_decimalValue (s : List Char) :
    (s.mapM decimalValue).isSome ↔ ∀ c ∈ s, isDecimal c = true := by
  induction s with
  | nil => simp
  | cons c s ih =>
    rw [List.mapM_cons, List.forall_mem_cons, ← ih, isDecimal]
    cases decimalValue c with
    | none => simp
    | some d =>
      cases s.mapM decimalValue with
      | none => simp
      | some ds => simp

/-- `int` reads a text of digits when all are decimal and there are not too many. -/
theorem parseInt_ok_iff {s : String} (hne : s ≠ "") :
    (∃ n, parseInt s = .ok n) ↔ IsReadable s := by
  have hdecimal : (intOfDigits s).isSome ↔ ∀ c ∈ s.toList, isDecimal c = true := by
    rw [intOfDigits, Option.isSome_map]
    exact isSome_mapM_decimalValue s.toList
  rw [parseInt, IsReadable, IsNumeric, ← hdecimal]
  cases intOfDigits s with
  | none => simp
  | some n =>
    by_cases hlong : maxStrDigits < s.length
    · simp [hlong]
    · simp [hlong, hne, Nat.le_of_not_lt hlong]

theorem not_isReadable_of_parseInt {s : String} {e : Exception} (h : parseInt s = .error e) :
    ¬IsReadable s := by
  intro hread
  obtain ⟨n, hn⟩ := (parseInt_ok_iff hread.1.1).2 hread
  rw [h] at hn
  cases hn

/-- The error of `int` is a `ValueError`. -/
theorem kind_of_parseInt {s : String} {e : Exception} (h : parseInt s = .error e) :
    e.kind = .valueError := by
  rw [parseInt] at h
  cases hint : intOfDigits s with
  | none =>
    rw [hint] at h
    cases h
    rfl
  | some n =>
    rw [hint] at h
    by_cases hlong : maxStrDigits < s.length
    · simp only [if_pos hlong] at h
      cases h
      rfl
    · simp only [if_neg hlong] at h
      cases h

/-- Reading the texts one after the other succeeds when reading each one does. -/
theorem mapM_ok_iff {ε α β : Type} {f : α → Except ε β} {as : List α} :
    (∃ bs, as.mapM f = .ok bs) ↔ ∀ a ∈ as, ∃ b, f a = .ok b := by
  induction as with
  | nil => simp [pure, Except.pure]
  | cons a as ih =>
    rw [List.mapM_cons, List.forall_mem_cons, ← ih]
    cases f a with
    | error e => simp [bind, Except.bind]
    | ok b =>
      cases as.mapM f with
      | error e => simp [bind, Except.bind]
      | ok bs => simp [bind, Except.bind, pure, Except.pure]

theorem exists_error_of_mapM {ε α β : Type} {f : α → Except ε β} {as : List α} {e : ε}
    (h : as.mapM f = .error e) : ∃ a ∈ as, f a = .error e := by
  induction as with
  | nil => cases h
  | cons a as ih =>
    rw [List.mapM_cons] at h
    cases ha : f a with
    | error e' =>
      rw [ha] at h
      cases h
      exact ⟨a, List.mem_cons_self, ha⟩
    | ok b =>
      rw [ha] at h
      cases has : as.mapM f with
      | error e' =>
        rw [has] at h
        cases h
        obtain ⟨a', hmem, ha'⟩ := ih has
        exact ⟨a', List.mem_cons_of_mem a hmem, ha'⟩
      | ok bs =>
        rw [has] at h
        cases h

/-- The tokens of digits can all be read. -/
theorem suffixNumbers_ok_iff {tokens : List String} :
    (∃ ns, suffixNumbers tokens = .ok ns) ↔
      ∀ token ∈ tokens, isDigit token = true → IsReadable token := by
  rw [suffixNumbers, mapM_ok_iff]
  constructor
  · intro h token hmem hdigit
    have hne : token ≠ "" := by
      rintro rfl
      cases hdigit
    exact (parseInt_ok_iff hne).1 (h token (List.mem_filter.2 ⟨hmem, hdigit⟩))
  · intro h token hmem
    obtain ⟨hmem, hdigit⟩ := List.mem_filter.1 hmem
    have hread := h token hmem hdigit
    exact (parseInt_ok_iff hread.1.1).2 hread

/-! ## The regular expression -/

/-- The parts of a version: one number, or two. -/
structure IsVersion (parts : List String) : Prop where
  numeric : ∀ part ∈ parts, IsNumeric part
  count : parts.length = 1 ∨ parts.length = 2

/-- `gemini-<version>-<rest>`. -/
def idText (version : List String) (rest : String) : String :=
  "gemini-" ++ join "." version ++ "-" ++ rest

/-- The id matches the regular expression, which lets a newline follow. -/
structure Matches (modelId : String) (version : List String) (rest : String) : Prop where
  isVersion : IsVersion version
  ne_empty : rest ≠ ""
  line : '\n' ∉ rest.toList
  spelled : modelId = idText version rest ∨ modelId = idText version rest ++ "\n"

/-- Digits, and at least one. -/
def IsDigits (s : List Char) : Prop := s ≠ [] ∧ ∀ c ∈ s, isDecimal c = true

/-- The part of a version after the first number. -/
def IsMinor (s : List Char) : Prop := s = [] ∨ ∃ ds, s = '.' :: ds ∧ IsDigits ds

theorem isNumeric_iff {s : String} : IsNumeric s ↔ IsDigits s.toList := by
  rw [IsNumeric, IsDigits, Ne, Ne, String.toList_eq_nil_iff]

/-- The texts of versions. -/
theorem version_text_iff {v : List Char} :
    (∃ version, IsVersion version ∧ (join "." version).toList = v) ↔
      ∃ major minor, v = major ++ minor ∧ IsDigits major ∧ IsMinor minor := by
  constructor
  -- Split at the dots: one number, or two with a dot between.
  · rintro ⟨version, hversion, rfl⟩
    rcases hversion.count with hcount | hcount
    · obtain ⟨major, rfl⟩ := List.length_eq_one_iff.1 hcount
      have hmajor := hversion.numeric major List.mem_cons_self
      exact ⟨major.toList, [], (List.append_nil _).symm, isNumeric_iff.1 hmajor, Or.inl rfl⟩
    · obtain ⟨major, minor, rfl⟩ := List.length_eq_two.1 hcount
      have hmajor := hversion.numeric major List.mem_cons_self
      have hminor := hversion.numeric minor (List.mem_cons_of_mem major List.mem_cons_self)
      refine ⟨major.toList, '.' :: minor.toList, ?_, isNumeric_iff.1 hmajor,
        Or.inr ⟨minor.toList, rfl, isNumeric_iff.1 hminor⟩⟩
      rw [join_cons "." major (List.cons_ne_nil minor []), String.toList_append, String.toList_append,
        List.append_assoc]
      rfl
  · rintro ⟨major, minor, rfl, hmajor, rfl | ⟨ds, rfl, hds⟩⟩
    · refine ⟨[String.ofList major], ⟨?_, Or.inl rfl⟩, ?_⟩
      · rw [List.forall_mem_singleton, isNumeric_iff, String.toList_ofList]
        exact hmajor
      · rw [List.append_nil]
        exact String.toList_ofList
    · refine ⟨[String.ofList major, String.ofList ds], ⟨?_, Or.inr rfl⟩, ?_⟩
      · rw [List.forall_mem_cons, List.forall_mem_singleton, isNumeric_iff, isNumeric_iff,
          String.toList_ofList, String.toList_ofList]
        exact ⟨hmajor, hds⟩
      · rw [join_cons "." _ (List.cons_ne_nil _ []), String.toList_append, String.toList_append,
          String.toList_ofList, List.append_assoc]
        exact congrArg (major ++ '.' :: ·) String.toList_ofList

theorem matchMinor_spec (s : List Char) :
    s = (matchMinor s).1 ++ (matchMinor s).2 ∧ IsMinor (matchMinor s).1 := by
  unfold matchMinor
  split
  · next s =>
    split
    · exact ⟨rfl, Or.inl rfl⟩
    · next hdigits =>
      constructor
      · exact (congrArg ('.' :: ·) List.takeWhile_append_dropWhile).symm
      · refine Or.inr ⟨s.takeWhile isDecimal, rfl, ?_, fun c hc => List.mem_takeWhile_imp hc⟩
        rwa [List.isEmpty_iff] at hdigits
  · exact ⟨rfl, Or.inl rfl⟩

theorem matchMinor_append {minor : List Char} (h : IsMinor minor) (t : List Char) :
    matchMinor (minor ++ '-' :: t) = (minor, '-' :: t) := by
  rcases h with rfl | ⟨ds, rfl, hne, hds⟩
  · rfl
  · have hdash : isDecimal '-' = false := by decide
    rw [List.cons_append, matchMinor, takeWhile_stop hds hdash, dropWhile_stop hds hdash,
      if_neg (by rwa [List.isEmpty_iff])]

/-- What `.+$` matches. -/
theorem matchRest_eq_some_iff {s rest : List Char} :
    matchRest s = some rest ↔
      rest ≠ [] ∧ '\n' ∉ rest ∧ (s = rest ∨ s = rest ++ ['\n']) := by
  -- `.` matches any character but the newline.
  have hkept : ∀ {r : List Char}, '\n' ∉ r → ∀ c ∈ r, (c != '\n') = true := by
    intro r hr c hc
    rw [bne_iff_ne]
    rintro rfl
    exact hr hc
  have hstop : ('\n' != '\n') = false := rfl
  rw [matchRest]
  constructor
  · intro h
    split at h
    -- `$` also matches before a newline that ends the text.
    · next hends =>
      cases h
      have hsplit := List.takeWhile_append_dropWhile (p := (· != '\n')) (l := s)
      refine ⟨hends.1, fun hmem => absurd (List.mem_takeWhile_imp hmem) (by decide), ?_⟩
      rcases hends.2 with hafter | hafter
      · rw [hafter, List.append_nil] at hsplit
        exact Or.inl hsplit.symm
      · rw [hafter] at hsplit
        exact Or.inr hsplit.symm
    · cases h
  · rintro ⟨hne, hline, rfl | rfl⟩
    · have htake : s.takeWhile (· != '\n') = s := List.takeWhile_eq_self_iff.2 (hkept hline)
      have hdrop : s.dropWhile (· != '\n') = [] := List.dropWhile_eq_nil_iff.2 (hkept hline)
      simp only [htake, hdrop]
      exact if_pos ⟨hne, Or.inl trivial⟩
    · simp only [takeWhile_stop (hkept hline) hstop, dropWhile_stop (hkept hline) hstop]
      exact if_pos ⟨hne, Or.inr trivial⟩

theorem toList_idText (version : List String) (rest : String) :
    (idText version rest).toList =
      "gemini-".toList ++ ((join "." version).toList ++ '-' :: rest.toList) := by
  rw [idText, String.toList_append, String.toList_append, String.toList_append, List.append_assoc,
    List.append_assoc]
  rfl

/-- The steps of the match: the digits, the dot and digits after them, a dash, and the rest. -/
theorem matchModelId_steps {modelId v r : String} :
    matchModelId modelId = some (v, r) ↔
      ∃ major minor t rest, modelId.toList = "gemini-".toList ++ (major ++ minor ++ '-' :: t) ∧
        IsDigits major ∧ IsMinor minor ∧ matchRest t = some rest ∧
          v = String.ofList (major ++ minor) ∧ r = String.ofList rest := by
  rw [matchModelId]
  constructor
  · intro h
    split at h
    · cases h
    · next s hs =>
      obtain ⟨p, hid, hp⟩ := List.dropPrefix?_eq_some_iff.1 hs
      obtain rfl := eq_of_beq hp
      obtain ⟨htail, hminor⟩ := matchMinor_spec (s.dropWhile isDecimal)
      dsimp only at h
      split at h
      · next t hafter =>
        split at h
        · cases h
        · next hmajor =>
          obtain ⟨rest, hrest, heq⟩ := Option.map_eq_some_iff.1 h
          obtain ⟨rfl, rfl⟩ := Prod.mk.inj heq
          refine ⟨_, _, t, rest, ?_, ⟨hmajor, fun c hc => List.mem_takeWhile_imp hc⟩, hminor, hrest,
            rfl, rfl⟩
          rw [hid, ← hafter, List.append_assoc, ← htail, List.takeWhile_append_dropWhile]
      · cases h
  · rintro ⟨major, minor, t, rest, hid, ⟨hne, hmajor⟩, hminor, hrest, rfl, rfl⟩
    have hdrop : modelId.toList.dropPrefix? "gemini-".toList = some (major ++ minor ++ '-' :: t) :=
      List.dropPrefix?_eq_some_iff.2 ⟨_, hid, beq_self_eq_true _⟩
    -- what follows the first number is no digit: a dot, or the dash
    obtain ⟨c, u, hu, hc⟩ : ∃ c u, minor ++ '-' :: t = c :: u ∧ isDecimal c = false := by
      rcases hminor with rfl | ⟨ds, rfl, -⟩
      · exact ⟨'-', t, rfl, by decide⟩
      · exact ⟨'.', ds ++ '-' :: t, rfl, by decide⟩
    have htake : (major ++ minor ++ '-' :: t).takeWhile isDecimal = major := by
      rw [List.append_assoc, hu, takeWhile_stop hmajor hc]
    have hskip : (major ++ minor ++ '-' :: t).dropWhile isDecimal = minor ++ '-' :: t := by
      rw [List.append_assoc, hu, dropWhile_stop hmajor hc]
    rw [hdrop]
    simp only [htake, hskip, matchMinor_append hminor, if_neg hne, hrest, Option.map_some]

/-- What the regular expression matches. -/
theorem matchModelId_eq_some_iff {modelId v rest : String} :
    matchModelId modelId = some (v, rest) ↔
      ∃ version, Matches modelId version rest ∧ join "." version = v := by
  rw [matchModelId_steps]
  constructor
  -- What the steps consumed is the version's text; `$` leaves the two spellings of the end.
  · rintro ⟨major, minor, t, rest, hid, hmajor, hminor, hrest, rfl, rfl⟩
    obtain ⟨version, hversion, htext⟩ := version_text_iff.2 ⟨major, minor, rfl, hmajor, hminor⟩
    obtain ⟨hne, hline, hends⟩ := matchRest_eq_some_iff.1 hrest
    refine ⟨version, ⟨hversion, ?_, ?_, ?_⟩, ?_⟩
    · rw [Ne, ← String.toList_eq_nil_iff, String.toList_ofList]
      exact hne
    · rwa [String.toList_ofList]
    · rcases hends with rfl | rfl
      · left
        rw [← String.toList_inj, hid, toList_idText, htext, String.toList_ofList (l := t)]
      · right
        rw [← String.toList_inj, hid, String.toList_append, toList_idText, htext,
          String.toList_ofList (l := rest), List.append_assoc "gemini-".toList,
          List.append_assoc (major ++ minor)]
        rfl
    · rw [← String.toList_inj, htext, String.toList_ofList]
  -- The parts that spell the text are what the steps consume.
  · rintro ⟨version, h, rfl⟩
    obtain ⟨major, minor, htext, hmajor, hminor⟩ := version_text_iff.1 ⟨version, h.isVersion, rfl⟩
    have hne : rest.toList ≠ [] := fun heq => h.ne_empty (String.toList_eq_nil_iff.1 heq)
    have hv : join "." version = String.ofList (major ++ minor) := by
      rw [← htext, String.ofList_toList]
    rcases h.spelled with rfl | rfl
    · refine ⟨major, minor, rest.toList, rest.toList, ?_, hmajor, hminor,
        matchRest_eq_some_iff.2 ⟨hne, h.line, Or.inl rfl⟩, hv, String.ofList_toList.symm⟩
      rw [toList_idText, htext]
    · refine ⟨major, minor, rest.toList ++ ['\n'], rest.toList, ?_, hmajor, hminor,
        matchRest_eq_some_iff.2 ⟨hne, h.line, Or.inr rfl⟩, hv, String.ofList_toList.symm⟩
      rw [String.toList_append, toList_idText, htext, List.append_assoc,
        List.append_assoc (major ++ minor)]
      rfl

/-! ## The tokens -/

/-- The families of the text models. -/
def textFamilies : List String := [flashLiteFamily, flashFamily, proFamily]

/-- The tokens after the family have no dash, and the family is the longest one. -/
structure IsTail (family : String) (extra : List String) : Prop where
  isFamily : family ∈ textFamilies
  longest : family = flashFamily → extra.head? ≠ some "lite"
  noDash : ∀ token ∈ extra, '-' ∉ token.toList

theorem split_families :
    split flashLiteFamily '-' = ["flash", "lite"] ∧ split flashFamily '-' = ["flash"] ∧
      split proFamily '-' = ["pro"] := by
  decide +kernel

/-- A family is one token, or two. -/
theorem splitFamily_eq_some_iff {tokens : List String} {family : String} {extra : List String} :
    splitFamily tokens = some (family, extra) ↔
      family ∈ textFamilies ∧ (family = flashFamily → extra.head? ≠ some "lite") ∧
        tokens = split family '-' ++ extra := by
  obtain ⟨hlite, hflash, hpro⟩ := split_families
  rw [splitFamily]
  constructor
  · intro h
    split at h
    -- `flash-lite` is tried first.
    · next htake =>
      cases h
      refine ⟨List.mem_cons_self, fun heq => absurd heq (by decide), ?_⟩
      rw [hlite, ← htake, List.take_append_drop]
    · next htake =>
      split at h
      -- `flash`, when the next token is not `lite`.
      · next hhead =>
        cases h
        obtain ⟨rest, rfl⟩ := List.head?_eq_some_iff.1 hhead
        refine ⟨by decide, fun _ hnext => htake ?_, hflash ▸ rfl⟩
        obtain ⟨extra, rfl⟩ := List.head?_eq_some_iff.1 hnext
        rfl
      · split at h
        · next hhead =>
          cases h
          obtain ⟨rest, rfl⟩ := List.head?_eq_some_iff.1 hhead
          exact ⟨by decide, fun heq => absurd heq (by decide), hpro ▸ rfl⟩
        · cases h
  · rintro ⟨hfamily, hlongest, rfl⟩
    -- The other way each family is tried in its turn, and those before it do not match.
    simp only [textFamilies, List.mem_cons, List.not_mem_nil, or_false] at hfamily
    rcases hfamily with rfl | rfl | rfl
    · rw [hlite]
      rfl
    · have hhead : (["flash"] ++ extra).head? = some "flash" := rfl
      rw [hflash, if_neg, if_pos hhead]
      · rfl
      · intro htake
        cases extra with
        | nil => cases htake
        | cons token extra =>
          obtain rfl := (List.cons.inj (List.cons.inj htake).2).1
          exact hlongest rfl rfl
    · have hhead : (["pro"] ++ extra).head? = some "pro" := rfl
      rw [hpro, if_neg, if_neg, if_pos hhead]
      · rfl
      · rw [hhead]
        decide
      · exact fun htake => absurd (List.cons.inj htake).1 (by decide)

theorem join_family {family : String} (h : family ∈ textFamilies) (extra : List String) :
    join "-" (split family '-' ++ extra) = join "-" (family :: extra) := by
  obtain ⟨hlite, hflash, hpro⟩ := split_families
  simp only [textFamilies, List.mem_cons, List.not_mem_nil, or_false] at h
  rcases h with rfl | rfl | rfl
  · rw [hlite]
    cases extra with
    | nil => decide
    | cons token extra =>
      rw [List.cons_append, List.cons_append, List.nil_append,
        join_cons "-" "flash" (List.cons_ne_nil _ _), join_cons "-" "lite" (List.cons_ne_nil _ _),
        join_cons "-" flashLiteFamily (List.cons_ne_nil _ _), ← String.append_assoc,
        ← String.append_assoc]
      rfl
  · rw [hflash]
    rfl
  · rw [hpro]
    rfl

/-- The tokens of a rest that starts with a family. -/
theorem splitFamily_split_iff {rest family : String} {extra : List String} :
    splitFamily (split rest '-') = some (family, extra) ↔
      IsTail family extra ∧ rest = join "-" (family :: extra) := by
  have hsep : "-".toList = ['-'] := rfl
  rw [splitFamily_eq_some_iff]
  constructor
  · rintro ⟨hfamily, hlongest, hsplit⟩
    refine ⟨⟨hfamily, hlongest, ?_⟩, ?_⟩
    · intro token htoken
      have hmem : token ∈ split rest '-' := hsplit ▸ List.mem_append_right _ htoken
      exact not_mem_of_mem_split hmem
    · rw [← join_family hfamily, ← hsplit, join_split hsep]
  · rintro ⟨htail, rfl⟩
    refine ⟨htail.isFamily, htail.longest, ?_⟩
    rw [← join_family htail.isFamily, split_join hsep]
    · exact List.append_ne_nil_of_left_ne_nil (split_ne_nil family '-') extra
    · intro token htoken
      rcases List.mem_append.1 htoken with htoken | htoken
      · exact not_mem_of_mem_split htoken
      · exact htail.noDash token htoken

/-! ## The parser -/

/-- The id reads as a version, a family and tokens, up to a newline that may follow. -/
structure Reads (modelId : String) (version : List String) (family : String) (extra : List String) :
    Prop where
  matched : Matches modelId version (join "-" (family :: extra))
  tail : IsTail family extra

/-- `int` reads the parts of the version and the tokens of digits. -/
def AllReadable (version extra : List String) : Prop :=
  (∀ part ∈ version, IsReadable part) ∧ ∀ token ∈ extra, isDigit token = true → IsReadable token

/-- The parser meets a number that `int` does not read. -/
def Unreadable (modelId : String) : Prop :=
  ∃ version rest, Matches modelId version rest ∧
    ((∃ part ∈ version, ¬IsReadable part) ∨
      ∃ family extra, IsTail family extra ∧ rest = join "-" (family :: extra) ∧
        extraAllowed extra = true ∧ ∃ token ∈ extra, isDigit token = true ∧ ¬IsReadable token)

theorem split_version {version : List String} (h : IsVersion version) :
    split (join "." version) '.' = version := by
  apply split_join rfl
  · rintro rfl
    rcases h.count with hcount | hcount
    · cases hcount
    · cases hcount
  · exact fun part hpart => not_mem_of_isNumeric (h.numeric part hpart) (by decide)

/-- An id matches in one way. -/
theorem Matches.unique {modelId : String} {version version' : List String} {rest rest' : String}
    (h : Matches modelId version rest) (h' : Matches modelId version' rest') :
    version = version' ∧ rest = rest' := by
  have heq := (matchModelId_eq_some_iff.2 ⟨version, h, rfl⟩).symm.trans
    (matchModelId_eq_some_iff.2 ⟨version', h', rfl⟩)
  obtain ⟨hversion, hrest⟩ := Prod.mk.inj (Option.some.inj heq)
  rw [← split_version h.isVersion, hversion, split_version h'.isVersion]
  exact ⟨rfl, hrest⟩

/-- An id reads in one way. -/
theorem Reads.unique {modelId family family' : String} {version version' extra extra' : List String}
    (h : Reads modelId version family extra) (h' : Reads modelId version' family' extra') :
    version = version' ∧ family = family' ∧ extra = extra' := by
  obtain ⟨hversion, hrest⟩ := h.matched.unique h'.matched
  have heq := (splitFamily_split_iff.2 ⟨h.tail, rfl⟩).symm.trans
    (splitFamily_split_iff.2 ⟨h'.tail, hrest⟩)
  obtain ⟨hfamily, hextra⟩ := Prod.mk.inj (Option.some.inj heq)
  exact ⟨hversion, hfamily, hextra⟩

/-- The version is read first, whatever the family is. -/
theorem classifyModel_of_version {modelId rest : String} {version : List String} {e : Exception}
    (h : Matches modelId version rest) (hversion : version.mapM parseInt = .error e) :
    classifyModel modelId = .error e := by
  rw [classifyModel, matchModelId_eq_some_iff.2 ⟨version, h, rfl⟩]
  simp only [split_version h.isVersion, hversion]

theorem classifyModel_of_no_family {modelId rest : String} {version : List String} {numbers : List Nat}
    (h : Matches modelId version rest) (hversion : version.mapM parseInt = .ok numbers)
    (hfamily : splitFamily (split rest '-') = none) : classifyModel modelId = .ok none := by
  rw [classifyModel, matchModelId_eq_some_iff.2 ⟨version, h, rfl⟩]
  simp only [split_version h.isVersion, hversion, hfamily]

/-- The tokens after the family are read once the first one is allowed. -/
theorem classifyModel_of_reads {modelId family : String} {version extra : List String}
    {numbers : List Nat} (h : Reads modelId version family extra)
    (hversion : version.mapM parseInt = .ok numbers) :
    classifyModel modelId =
      if extraAllowed extra then
        (suffixNumbers extra).map fun suffix =>
          some ⟨numbers, family, isPreview extra, extra.isEmpty, suffix⟩
      else .ok none := by
  rw [classifyModel, matchModelId_eq_some_iff.2 ⟨version, h.matched, rfl⟩]
  simp only [split_version h.matched.isVersion, hversion, splitFamily_split_iff.2 ⟨h.tail, rfl⟩]

theorem classifyModel_of_not_matches {modelId : String}
    (h : ∀ version rest, ¬Matches modelId version rest) : classifyModel modelId = .ok none := by
  rw [classifyModel]
  cases hmatch : matchModelId modelId with
  | none => rfl
  | some found =>
    obtain ⟨version, hmatches, -⟩ := matchModelId_eq_some_iff.1 hmatch
    exact absurd hmatches (h version found.2)

theorem version_readable_iff {version : List String} (h : IsVersion version) :
    (∃ ns, version.mapM parseInt = .ok ns) ↔ ∀ part ∈ version, IsReadable part := by
  rw [mapM_ok_iff]
  constructor
  · exact fun hread part hpart => (parseInt_ok_iff (h.numeric part hpart).1).1 (hread part hpart)
  · exact fun hread part hpart => (parseInt_ok_iff (h.numeric part hpart).1).2 (hread part hpart)

/-- The three ways the parser ends. -/
theorem classifyModel_cases (modelId : String) :
    (∃ e, classifyModel modelId = .error e ∧ e.kind = .valueError ∧ Unreadable modelId) ∨
      classifyModel modelId = .ok none ∨
      ∃ version family extra numbers suffix, Reads modelId version family extra ∧
        extraAllowed extra = true ∧ version.mapM parseInt = .ok numbers ∧
          suffixNumbers extra = .ok suffix ∧
            classifyModel modelId =
              .ok (some ⟨numbers, family, isPreview extra, extra.isEmpty, suffix⟩) := by
  by_cases hmatch : ∃ version rest, Matches modelId version rest
  · obtain ⟨version, rest, hmatch⟩ := hmatch
    -- `int` is applied to the version before the family is looked at.
    cases hnumbers : version.mapM parseInt with
    | error e =>
      obtain ⟨part, hpart, hread⟩ := exists_error_of_mapM hnumbers
      exact Or.inl ⟨e, classifyModel_of_version hmatch hnumbers, kind_of_parseInt hread, version, rest,
        hmatch, Or.inl ⟨part, hpart, not_isReadable_of_parseInt hread⟩⟩
    | ok numbers =>
      cases hfamily : splitFamily (split rest '-') with
      | none => exact Or.inr (Or.inl (classifyModel_of_no_family hmatch hnumbers hfamily))
      | some found =>
        obtain ⟨family, extra⟩ := found
        obtain ⟨htail, rfl⟩ := splitFamily_split_iff.1 hfamily
        rw [classifyModel_of_reads ⟨hmatch, htail⟩ hnumbers]
        by_cases hallowed : extraAllowed extra = true
        · rw [if_pos hallowed]
          -- The numbers of the suffix are read last, for an id that is going to be kept.
          cases hsuffix : suffixNumbers extra with
          | error e =>
            obtain ⟨token, htoken, hread⟩ := exists_error_of_mapM hsuffix
            obtain ⟨htoken, hdigit⟩ := List.mem_filter.1 htoken
            exact Or.inl ⟨e, rfl, kind_of_parseInt hread, version, _, hmatch, Or.inr ⟨family, extra,
              htail, rfl, hallowed, token, htoken, hdigit, not_isReadable_of_parseInt hread⟩⟩
          | ok suffix =>
            exact Or.inr (Or.inr ⟨version, family, extra, numbers, suffix, ⟨hmatch, htail⟩, hallowed,
              hnumbers, hsuffix, rfl⟩)
        · exact Or.inr (Or.inl (if_neg hallowed))
  · have hnone : ∀ version rest, ¬Matches modelId version rest :=
      fun version rest hmatches => hmatch ⟨version, rest, hmatches⟩
    exact Or.inr (Or.inl (classifyModel_of_not_matches hnone))

/-- What the parser says about an id it keeps. -/
theorem classifyModel_eq_ok_iff {modelId : String} {m : ModelInfo} :
    classifyModel modelId = .ok (some m) ↔
      ∃ version extra, Reads modelId version m.family extra ∧ extraAllowed extra = true ∧
        version.mapM parseInt = .ok m.version ∧ suffixNumbers extra = .ok m.suffixNumbers ∧
          m.isPreview = isPreview extra ∧ m.isPlain = extra.isEmpty := by
  constructor
  · intro h
    rcases classifyModel_cases modelId with ⟨e, he, -⟩ | hnone |
      ⟨version, family, extra, numbers, suffix, hreads, hallowed, hnumbers, hsuffix, hok⟩
    · rw [he] at h
      cases h
    · rw [hnone] at h
      cases h
    · rw [hok] at h
      cases h
      exact ⟨version, extra, hreads, hallowed, hnumbers, hsuffix, rfl, rfl⟩
  · rintro ⟨version, extra, hreads, hallowed, hnumbers, hsuffix, hpreview, hplain⟩
    rw [classifyModel_of_reads hreads hnumbers, if_pos hallowed, hsuffix, ← hpreview, ← hplain]
    rfl

/-- The parser raises on the ids with a number that cannot be read. -/
theorem classifyModel_error_iff {modelId : String} :
    (∃ e, classifyModel modelId = .error e) ↔ Unreadable modelId := by
  constructor
  · rintro ⟨e, h⟩
    rcases classifyModel_cases modelId with ⟨-, -, -, hbad⟩ | hnone |
      ⟨version, family, extra, numbers, suffix, -, -, -, -, hok⟩
    · exact hbad
    · rw [hnone] at h
      cases h
    · rw [hok] at h
      cases h
  · rintro ⟨version, rest, hmatch, hbad⟩
    cases hnumbers : version.mapM parseInt with
    | error e => exact ⟨e, classifyModel_of_version hmatch hnumbers⟩
    | ok numbers =>
      have hversion := (version_readable_iff hmatch.isVersion).1 ⟨numbers, hnumbers⟩
      rcases hbad with ⟨part, hpart, hnot⟩ |
        ⟨family, extra, htail, rfl, hallowed, token, htoken, hdigit, hnot⟩
      · exact absurd (hversion part hpart) hnot
      · rw [classifyModel_of_reads ⟨hmatch, htail⟩ hnumbers, if_pos hallowed]
        cases hsuffix : suffixNumbers extra with
        | error e => exact ⟨e, rfl⟩
        | ok suffix =>
          exact absurd (suffixNumbers_ok_iff.1 ⟨suffix, hsuffix⟩ token htoken hdigit) hnot

/-- The error of the parser is a `ValueError`. -/
theorem kind_of_classifyModel {modelId : String} {e : Exception}
    (h : classifyModel modelId = .error e) : e.kind = .valueError := by
  rcases classifyModel_cases modelId with ⟨e', he, hkind, -⟩ | hnone |
    ⟨version, family, extra, numbers, suffix, -, -, -, -, hok⟩
  · rw [he] at h
    cases h
    exact hkind
  · rw [hnone] at h
    cases h
  · rw [hok] at h
    cases h

/-- The parser keeps the id, as one of the family. -/
def Accepted (family modelId : String) : Prop :=
  ∃ version extra, Reads modelId version family extra ∧ extraAllowed extra = true ∧
    AllReadable version extra

theorem accepted_iff {family modelId : String} :
    (∃ m, classifyModel modelId = .ok (some m) ∧ m.family = family) ↔ Accepted family modelId := by
  constructor
  · rintro ⟨m, h, rfl⟩
    obtain ⟨version, extra, hreads, hallowed, hnumbers, hsuffix, -, -⟩ := classifyModel_eq_ok_iff.1 h
    exact ⟨version, extra, hreads, hallowed,
      (version_readable_iff hreads.matched.isVersion).1 ⟨_, hnumbers⟩,
      suffixNumbers_ok_iff.1 ⟨_, hsuffix⟩⟩
  · rintro ⟨version, extra, hreads, hallowed, hversion, htokens⟩
    obtain ⟨numbers, hnumbers⟩ := (version_readable_iff hreads.matched.isVersion).2 hversion
    obtain ⟨suffix, hsuffix⟩ := suffixNumbers_ok_iff.2 htokens
    exact ⟨⟨numbers, family, isPreview extra, extra.isEmpty, suffix⟩, classifyModel_eq_ok_iff.2
      ⟨version, extra, hreads, hallowed, hnumbers, hsuffix, rfl, rfl⟩, rfl⟩

/-- The id is one of the family, whether its numbers can be read or not. -/
def OfFamily (family modelId : String) : Prop :=
  ∃ version extra, Reads modelId version family extra ∧ extraAllowed extra = true

theorem accepted_iff_ofFamily {family modelId : String} (h : ¬Unreadable modelId) :
    Accepted family modelId ↔ OfFamily family modelId := by
  constructor
  · rintro ⟨version, extra, hreads, hallowed, -⟩
    exact ⟨version, extra, hreads, hallowed⟩
  · rintro ⟨version, extra, hreads, hallowed⟩
    refine ⟨version, extra, hreads, hallowed, ?_, ?_⟩
    · intro part hpart
      by_contra hnot
      exact h ⟨version, _, hreads.matched, Or.inl ⟨part, hpart, hnot⟩⟩
    · intro token htoken hdigit
      by_contra hnot
      exact h ⟨version, _, hreads.matched,
        Or.inr ⟨family, extra, hreads.tail, rfl, hallowed, token, htoken, hdigit, hnot⟩⟩

/-! ## The key of a model -/

theorem modelKey_eq_ok_iff {family modelId : String} {key : ModelKey} :
    modelKey family modelId = .ok (some key) ↔
      ∃ m, classifyModel modelId = .ok (some m) ∧ m.family = family ∧ m.key = key := by
  rw [modelKey]
  constructor
  · intro h
    split at h
    · cases h
    · cases h
    · next m hm =>
      split at h
      · next hfamily =>
        cases h
        exact ⟨m, hm, hfamily, rfl⟩
      · cases h
  · rintro ⟨m, hm, rfl, rfl⟩
    rw [hm]
    exact if_pos rfl

/-- An unreadable id raises whatever family is asked for. -/
theorem modelKey_eq_error_iff {family modelId : String} {e : Exception} :
    modelKey family modelId = .error e ↔ classifyModel modelId = .error e := by
  rw [modelKey]
  cases hclassify : classifyModel modelId with
  | error e' => simp
  | ok parsed =>
    cases parsed with
    | none => simp
    | some m =>
      by_cases hfamily : m.family = family
      · simp [hfamily]
      · simp [hfamily]

/-- The parser raises on the unreadable ids, and knows the others of the family. -/
theorem describes_modelKey (family : String) :
    Library.Describes (modelKey family) Unreadable (OfFamily family) := by
  constructor
  · intro modelId
    rw [← classifyModel_error_iff]
    exact exists_congr fun e => modelKey_eq_error_iff
  · intro modelId hreadable
    rw [← accepted_iff_ofFamily hreadable, ← accepted_iff]
    constructor
    · rintro ⟨key, hkey⟩
      obtain ⟨m, hm, hfamily, -⟩ := modelKey_eq_ok_iff.1 hkey
      exact ⟨m, hm, hfamily⟩
    · rintro ⟨m, hm, hfamily⟩
      exact ⟨m.key, modelKey_eq_ok_iff.2 ⟨m, hm, hfamily, rfl⟩⟩

end AgentCluster.Shared
