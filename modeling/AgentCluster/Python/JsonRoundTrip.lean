import AgentCluster.Python.JsonScan

/-!
# Reading back what was written

`raw_decode` inverts `dumps` on JSON values: `decode (encode v ++ rest) = some (v, rest)`, where a
number must not be followed by more of a number (`decode_encode`). It follows that `encode` is
injective on JSON values (`encode_injective`).

Sorting the keys keeps a value a JSON value (`isJson_sortKeys`), so text written with `sort_keys`
reads back as the value with its keys sorted, and two values are written alike only if they are the
same with their keys sorted (`dumpsSorted_eq_iff`).
-/

set_option autoImplicit false

namespace AgentCluster.Python

namespace Json

/-! ## Strings -/

theorem hexVal_digitChar {d : Nat} (h : d < 16) : hexVal d.digitChar = some d := by
  have hall : ∀ d, d < 16 → hexVal d.digitChar = some d := by decide
  exact hall d h

theorem scanHex4_digits {n : Nat} (h : n < 65536) (s : List Char) :
    scanHex4 ((n / 4096 % 16).digitChar :: (n / 256 % 16).digitChar ::
      (n / 16 % 16).digitChar :: (n % 16).digitChar :: s) = some (n, s) := by
  have hlt : ∀ k, k % 16 < 16 := fun k => Nat.mod_lt _ (by decide)
  simp only [scanHex4, hexVal_digitChar (hlt _), Option.some.injEq, Prod.mk.injEq, and_true]
  omega

theorem charOfCode_toNat (c : Char) : charOfCode c.toNat = c := by
  have hv : c.toNat.isValidChar := c.valid
  rw [charOfCode, if_pos hv, Char.ofNat_toNat]

theorem toNat_not_surrogate (c : Char) : c.toNat < 0xd800 ∨ 0xdfff < c.toNat ∧ c.toNat < 0x110000 := by
  have hv : c.toNat.isValidChar := c.valid
  exact hv

theorem scanChar_unicodeEscape {c : Char} (h : c.toNat < 0x10000) (s : List Char) :
    scanChar (unicodeEscape c.toNat ++ s) = some (c, s) := by
  have hsur := toNat_not_surrogate c
  have hhigh : ¬ (0xd800 ≤ c.toNat ∧ c.toNat < 0xdc00) := by omega
  simp only [unicodeEscape, List.cons_append, List.nil_append, scanChar, scanEscape,
    scanUnicodeEscape, if_true, scanHex4_digits h, Option.bind_some, if_neg hhigh,
    charOfCode_toNat]

/-- Two escaped surrogates read as one character. -/
theorem scanChar_pair {hi lo : Nat} (hhi : 0xd800 ≤ hi ∧ hi < 0xdc00)
    (hlo : 0xdc00 ≤ lo ∧ lo < 0xe000) (s : List Char) :
    scanChar (unicodeEscape hi ++ (unicodeEscape lo ++ s)) =
      some (charOfCode (0x10000 + (hi - 0xd800) * 0x400 + (lo - 0xdc00)), s) := by
  have h1 : hi < 65536 := by omega
  have h2 : lo < 65536 := by omega
  simp only [unicodeEscape, List.cons_append, List.nil_append, scanChar, scanEscape,
    scanUnicodeEscape, if_true, scanHex4_digits h1, scanHex4_digits h2, Option.bind_some,
    if_pos hhi, if_pos hlo, dropWord, Option.map_some]

theorem scanChar_surrogates {c : Char} (h : 0x10000 ≤ c.toNat) (s : List Char) :
    scanChar (unicodeEscape (0xd800 + (c.toNat - 0x10000) / 0x400) ++
      (unicodeEscape (0xdc00 + (c.toNat - 0x10000) % 0x400) ++ s)) = some (c, s) := by
  have hmax : c.toNat < 0x110000 := by
    have := toNat_not_surrogate c
    omega
  have hhi : 0xd800 ≤ 0xd800 + (c.toNat - 0x10000) / 0x400 ∧
      0xd800 + (c.toNat - 0x10000) / 0x400 < 0xdc00 := by
    omega
  have hlo : 0xdc00 ≤ 0xdc00 + (c.toNat - 0x10000) % 0x400 ∧
      0xdc00 + (c.toNat - 0x10000) % 0x400 < 0xe000 := by
    omega
  rw [scanChar_pair hhi hlo, Nat.add_sub_cancel_left, Nat.add_sub_cancel_left]
  have hjoin : 0x10000 + (c.toNat - 0x10000) / 0x400 * 0x400 + (c.toNat - 0x10000) % 0x400 =
      c.toNat := by
    omega
  rw [hjoin, charOfCode_toNat]

/-- An escaped character reads back as itself. -/
theorem scanChar_escapeChar (c : Char) (s : List Char) :
    scanChar (escapeChar c ++ s) = some (c, s) := by
  unfold escapeChar
  split_ifs with h1 h2 h3 h4 h5 h6 h7 h8 h9
  · subst h1; rfl
  · subst h2; rfl
  · subst h3; rfl
  · subst h4; rfl
  · subst h5; rfl
  · subst h6; rfl
  · subst h7; rfl
  · have hctrl : ¬ c.toNat < 0x20 := by omega
    simp only [List.cons_append, List.nil_append, scanChar, if_neg h2, if_neg hctrl]
  · exact scanChar_unicodeEscape h9 s
  · rw [List.append_assoc]
    exact scanChar_surrogates (by omega) s

theorem after_quote_escapeChar (c : Char) (s : List Char) :
    after '"' (escapeChar c ++ s) = none := by
  unfold escapeChar unicodeEscape
  split_ifs with h1 <;> simp_all [after]

theorem scanString_flatMap (cs s : List Char) {n : Nat} (hn : cs.length < n) :
    scanString n (cs.flatMap escapeChar ++ '"' :: s) = some (cs, s) := by
  induction cs generalizing n with
  | nil =>
    obtain ⟨m, rfl⟩ : ∃ m, n = m + 1 := ⟨n - 1, by simp at hn; omega⟩
    rfl
  | cons c cs ih =>
    simp only [List.length_cons] at hn
    obtain ⟨m, rfl⟩ : ∃ m, n = m + 1 := ⟨n - 1, by omega⟩
    rw [List.flatMap_cons, List.append_assoc, scanString, after_quote_escapeChar]
    simp only [scanChar_escapeChar, Option.bind_some, ih (n := m) (by omega), Option.map_some]

theorem length_le_flatMap_escapeChar (cs : List Char) :
    cs.length ≤ (cs.flatMap escapeChar).length := by
  induction cs with
  | nil => simp
  | cons c cs ih =>
    have hpos : 0 < (escapeChar c).length := by
      unfold escapeChar unicodeEscape
      split_ifs <;> simp
    simp only [List.flatMap_cons, List.length_append, List.length_cons]
    omega

/-- A string literal reads back, after its opening quote. -/
theorem scanString_encodeString (k : String) (s : List Char) {n : Nat}
    (hn : (encodeString k ++ s).length ≤ n) :
    scanString n (k.toList.flatMap escapeChar ++ '"' :: s) = some (k.toList, s) := by
  have hlen := length_le_flatMap_escapeChar k.toList
  simp only [encodeString, List.cons_append, List.length_cons, List.length_append] at hn
  exact scanString_flatMap _ _ (by omega)

theorem encodeString_append (k : String) (s : List Char) :
    encodeString k ++ s = '"' :: (k.toList.flatMap escapeChar ++ '"' :: s) := by
  simp [encodeString]

/-! ## Numbers -/

/-- What follows does not continue a number. -/
def NumberEnd (s : List Char) : Prop :=
  ∀ c t, s = c :: t → c.isDigit = false ∧ c ≠ '.' ∧ c ≠ 'e' ∧ c ≠ 'E'

theorem numberEnd_nil : NumberEnd [] := by
  intro c t h
  cases h

theorem numberEnd_cons {c : Char} (s : List Char)
    (h : c.isDigit = false ∧ c ≠ '.' ∧ c ≠ 'e' ∧ c ≠ 'E') : NumberEnd (c :: s) := by
  intro c' t h'
  cases h'
  exact h

theorem span_digits {ds s : List Char} (hd : ∀ c ∈ ds, c.isDigit = true)
    (hs : ∀ c t, s = c :: t → c.isDigit = false) :
    (ds ++ s).takeWhile Char.isDigit = ds ∧ (ds ++ s).dropWhile Char.isDigit = s := by
  induction ds with
  | nil =>
    cases s with
    | nil => exact ⟨rfl, rfl⟩
    | cons c t => simp [hs c t rfl]
  | cons c ds ih =>
    have hc : c.isDigit = true := hd c List.mem_cons_self
    obtain ⟨htake, hdrop⟩ := ih fun x hx => hd x (List.mem_cons_of_mem _ hx)
    simp [hc, htake, hdrop]

theorem after_eq_none {c : Char} {s : List Char} (h : ∀ d t, s = d :: t → d ≠ c) :
    after c s = none := by
  cases s with
  | nil => rfl
  | cons d t => simp [after, h d t rfl]

theorem ne_of_isDigit {c d : Char} (hc : c.isDigit = true) (hd : d.isDigit = false) : c ≠ d := by
  rintro rfl
  rw [hc] at hd
  exact Bool.noConfusion hd

/-- The exponent part of a rendered literal. -/
def renderExp : Option (Bool × List Char) → List Char
  | none => []
  | some (neg, ds) => 'e' :: (if neg then '-' else '+') :: ds

/-- The fraction part of a rendered literal. -/
def renderFrac (ds : List Char) : List Char := if ds.isEmpty then [] else '.' :: ds

theorem render_eq (d : DecimalLiteral) :
    d.render = (if d.neg then ['-'] else []) ++ (d.whole ++ (renderFrac d.frac ++ renderExp d.exp)) := by
  simp only [DecimalLiteral.render, renderFrac, List.append_assoc]
  cases d.exp <;> rfl

theorem scanExp_render {e : Option (Bool × List Char)} {s : List Char}
    (he : ∀ neg ds, e = some (neg, ds) → ds ≠ [] ∧ ∀ c ∈ ds, c.isDigit = true)
    (hs : NumberEnd s) : scanExp (renderExp e ++ s) = (e, s) := by
  cases e with
  | none =>
    cases s with
    | nil => rfl
    | cons c t =>
      obtain ⟨-, -, he, hE⟩ := hs c t rfl
      simp [renderExp, scanExp, he, hE]
  | some p =>
    obtain ⟨neg, ds⟩ := p
    obtain ⟨hne, hd⟩ := he neg ds rfl
    obtain ⟨htake, hdrop⟩ := span_digits hd fun c t h => (hs c t h).1
    cases neg <;>
      simp [renderExp, scanExp, takeSign, htake, hdrop, hne]

theorem scanFrac_render {ds s : List Char} (hd : ∀ c ∈ ds, c.isDigit = true)
    (hs : ∀ c t, s = c :: t → c.isDigit = false ∧ c ≠ '.') :
    scanFrac (renderFrac ds ++ s) = (ds, s) := by
  cases ds with
  | nil =>
    have hafter : after '.' s = none := after_eq_none fun c t h => (hs c t h).2
    simp [renderFrac, scanFrac, hafter]
  | cons c ds =>
    obtain ⟨htake, hdrop⟩ := span_digits hd fun c t h => (hs c t h).1
    simp only [List.cons_append] at htake hdrop
    simp [renderFrac, scanFrac, after, htake, hdrop]

theorem scanWhole_render {d : DecimalLiteral} (h : d.WellFormed) {s : List Char}
    (hs : ∀ c t, s = c :: t → c.isDigit = false) :
    scanWhole (d.whole ++ s) = some (d.whole, s) := by
  rcases h.whole_head with hw | ⟨c, ds, hw, hne⟩
  · rw [hw]
    rfl
  · obtain ⟨htake, hdrop⟩ := span_digits h.whole_digits hs
    unfold scanWhole
    rw [htake, hdrop, hw]
    simp [after, hne]

/-- The first character of the digits before the point. -/
theorem whole_cons {d : DecimalLiteral} (h : d.WellFormed) :
    ∃ c ds, d.whole = c :: ds ∧ c.isDigit = true := by
  rcases h.whole_head with hw | ⟨c, ds, hw, -⟩
  · exact ⟨'0', [], hw, rfl⟩
  · exact ⟨c, ds, hw, h.whole_digits c (by rw [hw]; exact List.mem_cons_self)⟩

theorem expHead {e : Option (Bool × List Char)} {s : List Char} (hs : NumberEnd s) :
    ∀ c t, renderExp e ++ s = c :: t → c.isDigit = false ∧ c ≠ '.' := by
  intro c t h
  cases e with
  | none => exact ⟨(hs c t h).1, (hs c t h).2.1⟩
  | some p =>
    simp only [renderExp, List.cons_append, List.cons.injEq] at h
    rw [← h.1]
    exact ⟨rfl, by decide⟩

theorem fracHead {ds : List Char} {e : Option (Bool × List Char)} {s : List Char}
    (hs : NumberEnd s) :
    ∀ c t, renderFrac ds ++ (renderExp e ++ s) = c :: t → c.isDigit = false := by
  intro c t h
  cases ds with
  | nil => exact (expHead hs c t h).1
  | cons d ds =>
    simp only [renderFrac, List.isEmpty_cons, Bool.false_eq_true, if_false, List.cons_append,
      List.cons.injEq] at h
    rw [← h.1]
    rfl

/-- A rendered literal reads back. -/
theorem scanNumber_render {d : DecimalLiteral} (h : d.WellFormed) {s : List Char}
    (hs : NumberEnd s) : scanNumber (d.render ++ s) = some (d, s) := by
  have hwhole := scanWhole_render h (@fracHead d.frac d.exp s hs)
  have hfrac := scanFrac_render h.frac_digits (expHead (e := d.exp) hs)
  have hexp := scanExp_render h.exp_digits hs
  have hminus : scanMinus (d.render ++ s) =
      (d.neg, d.whole ++ (renderFrac d.frac ++ (renderExp d.exp ++ s))) := by
    rw [render_eq]
    cases hneg : d.neg with
    | true => simp [scanMinus, after]
    | false =>
      obtain ⟨c, ds, hw, hc⟩ := whole_cons h
      have hne : c ≠ '-' := ne_of_isDigit hc rfl
      simp [scanMinus, after, hw, hne]
  simp only [scanNumber, hminus, hwhole, Option.map_some, hfrac, hexp]

/-- The first two characters of a rendered literal: a digit, or a minus sign and a digit. -/
theorem render_head {d : DecimalLiteral} (h : d.WellFormed) :
    ∃ c t, c.isDigit = true ∧ (d.render = c :: t ∨ d.render = '-' :: c :: t) := by
  obtain ⟨c, ds, hw, hc⟩ := whole_cons h
  rw [render_eq, hw]
  cases d.neg with
  | true => exact ⟨c, _, hc, Or.inr rfl⟩
  | false => exact ⟨c, _, hc, Or.inl rfl⟩

/-- No constant starts like a number. -/
theorem constants_render {d : DecimalLiteral} (h : d.WellFormed) (s : List Char) :
    (constants.findSome? fun p => (dropWord p.1 (d.render ++ s)).map fun r => (p.2, r)) = none := by
  obtain ⟨c, t, hc, hd | hd⟩ := render_head h
  · have hne : ∀ x : Char, x.isDigit = false → ¬ x = c := by
      intro x hx hxc
      rw [hxc, hc] at hx
      exact Bool.noConfusion hx
    simp [constants, hd, dropWord, hne 'n' rfl, hne 't' rfl, hne 'f' rfl, hne 'N' rfl, hne 'I' rfl,
      hne '-' rfl]
  · have hne : ¬ 'I' = c := by
      intro hI
      rw [← hI] at hc
      exact Bool.noConfusion hc
    simp [constants, hd, dropWord, hne]

theorem scanAtom_render {d : DecimalLiteral} (h : d.WellFormed) {s : List Char}
    (hs : NumberEnd s) : scanAtom (d.render ++ s) = some (numberValue d, s) := by
  unfold scanAtom
  rw [constants_render h s, scanNumber_render h hs]
  rfl

theorem scanOnce_of_atom_head {n : Nat} {c : Char} {t : List Char} (h1 : c ≠ '"') (h2 : c ≠ '{')
    (h3 : c ≠ '[') : scanOnce (n + 1) (c :: t) = scanAtom (c :: t) := by
  simp only [scanOnce, if_neg h1, if_neg h2, if_neg h3]

theorem scanOnce_render {d : DecimalLiteral} (h : d.WellFormed) {s : List Char}
    (hs : NumberEnd s) (n : Nat) :
    scanOnce (n + 1) (d.render ++ s) = some (numberValue d, s) := by
  rw [← scanAtom_render h hs]
  obtain ⟨c, t, hc, hd | hd⟩ := render_head h
  · rw [hd, List.cons_append]
    exact scanOnce_of_atom_head (ne_of_isDigit hc rfl) (ne_of_isDigit hc rfl)
      (ne_of_isDigit hc rfl)
  · rw [hd, List.cons_append]
    exact scanOnce_of_atom_head (by decide) (by decide) (by decide)

theorem numberValue_ofInt (i : Int) : numberValue (DecimalLiteral.ofInt i) = .int i := by
  have hval : (DecimalLiteral.ofInt i).toInt = i := by
    simp only [DecimalLiteral.ofInt, DecimalLiteral.toInt, digitsValue_digits, decide_eq_true_eq]
    split <;> omega
  have hfloat : (DecimalLiteral.ofInt i).isFloat = false := rfl
  rw [numberValue, hfloat, hval]
  rfl

theorem scanOnce_encodeFloat (x : Binary64) {s : List Char} (hs : NumberEnd s) (n : Nat) :
    scanOnce (n + 1) (encodeFloat x ++ s) = some (.float x, s) := by
  cases x with
  | nan => rfl
  | inf neg => cases neg <;> rfl
  | finite neg m q h =>
    obtain ⟨hwf, hfloat⟩ := wellFormed_shortestLiteral (.finite neg m q h)
    have hval := toBinary64_shortestLiteral (x := .finite neg m q h) rfl
    show scanOnce (n + 1) ((shortestLiteral (.finite neg m q h)).render ++ s) = _
    rw [scanOnce_render hwf hs n, numberValue, hfloat, hval]
    rfl

/-! ## Values -/

/-- What may follow the text of a value: anything, unless the value is a number. -/
def Ends (v : Value) (s : List Char) : Prop :=
  match v with
  | .int _ => NumberEnd s
  | .float _ => NumberEnd s
  | _ => True

theorem Ends.of_numberEnd {s : List Char} (h : NumberEnd s) (v : Value) : Ends v s := by
  cases v <;> first | exact h | exact trivial

/-- No value starts with whitespace or a closing bracket. -/
theorem encode_head (v : Value) :
    ∃ c t, encode v = c :: t ∧ isWs c = false ∧ c ≠ ']' ∧ c ≠ '}' := by
  -- A number starts with a digit or its sign.
  have hnum : ∀ d : DecimalLiteral, d.WellFormed →
      ∃ c t, d.render = c :: t ∧ isWs c = false ∧ c ≠ ']' ∧ c ≠ '}' := by
    intro d hd
    obtain ⟨c, t, hc, h | h⟩ := render_head hd
    · refine ⟨c, t, h, ?_, ne_of_isDigit hc rfl, ne_of_isDigit hc rfl⟩
      have hne : ∀ x : Char, x.isDigit = false → (c == x) = false := fun x hx =>
        beq_false_of_ne (ne_of_isDigit hc hx)
      simp [isWs, hne ' ' rfl, hne '\t' rfl, hne '\n' rfl, hne '\r' rfl]
    · exact ⟨'-', c :: t, h, rfl, by decide, by decide⟩
  cases v with
  | none => exact ⟨'n', _, by rw [encode], rfl, by decide, by decide⟩
  | bool b =>
    cases b with
    | true => exact ⟨'t', _, by rw [encode], rfl, by decide, by decide⟩
    | false => exact ⟨'f', _, by rw [encode], rfl, by decide, by decide⟩
  | int n =>
    rw [encode]
    exact hnum _ (wellFormed_ofInt n)
  | float x =>
    rw [encode]
    cases x with
    | nan => exact ⟨'N', _, rfl, rfl, by decide, by decide⟩
    | inf neg =>
      cases neg with
      | true => exact ⟨'-', _, rfl, rfl, by decide, by decide⟩
      | false => exact ⟨'I', _, rfl, rfl, by decide, by decide⟩
    | finite neg m q h => exact hnum _ (wellFormed_shortestLiteral (.finite neg m q h)).1
  | str s => exact ⟨'"', _, by rw [encode, encodeString], rfl, by decide, by decide⟩
  | list xs => exact ⟨'[', _, by rw [encode], rfl, by decide, by decide⟩
  | dict d => exact ⟨'{', _, by rw [encode], rfl, by decide, by decide⟩
  | tuple xs => exact ⟨'[', _, by rw [encode], rfl, by decide, by decide⟩
  | object s r h => exact ⟨'"', _, by rw [encode, encodeString], rfl, by decide, by decide⟩

theorem skipWs_of_head {c : Char} (h : isWs c = false) (t : List Char) :
    skipWs (c :: t) = c :: t := by
  simp [skipWs, h]

theorem skipWs_encode (v : Value) (s : List Char) :
    skipWs (encode v ++ s) = encode v ++ s := by
  obtain ⟨c, t, hc, hws, -, -⟩ := encode_head v
  rw [hc]
  exact skipWs_of_head hws (t ++ s)

theorem after_encode {c : Char} (hc : c = ']' ∨ c = '}') (v : Value) (s : List Char) :
    after c (encode v ++ s) = none := by
  obtain ⟨d, t, hd, -, h1, h2⟩ := encode_head v
  rw [hd]
  rcases hc with rfl | rfl
  · simp [after, h1]
  · simp [after, h2]

theorem scanSep_close {c : Char} (hc : isWs c = false) (s : List Char) :
    scanSep c (c :: s) = some (true, s) := by
  simp [scanSep, skipWs_of_head hc, after]

theorem scanSep_comma {c : Char} (hc : c ≠ ',') (v : List Char) :
    scanSep c (',' :: ' ' :: v) = some (false, skipWs v) := by
  have hws : skipWs (',' :: ' ' :: v) = ',' :: ' ' :: v := skipWs_of_head rfl _
  have hsp : skipWs (' ' :: v) = skipWs v := rfl
  simp [scanSep, hws, after, hc.symm, hsp]

theorem numberEnd_items (xs : List Value) {c : Char} (hc : c = ']' ∨ c = '}') (s : List Char) :
    NumberEnd (encodeItems [',', ' '] xs ++ c :: s) := by
  cases xs with
  | nil => rcases hc with rfl | rfl <;> exact numberEnd_cons s (by decide)
  | cons x xs => exact numberEnd_cons _ (by decide)

theorem numberEnd_members (d : Dict) (s : List Char) :
    NumberEnd (encodeMembers [',', ' '] d ++ '}' :: s) := by
  cases d with
  | nil => exact numberEnd_cons s (by decide)
  | cons kv d => exact numberEnd_cons _ (by decide)

/-- A value reads back with enough fuel for its text. -/
def ReadsBack (v : Value) : Prop :=
  ∀ n s, Ends v s → 2 * (encode v ++ s).length < n → scanOnce n (encode v ++ s) = some (v, s)

/-- The items of a list read back, by induction on the items after the first. -/
theorem scanItems_encode (xs : List Value) {x : Value} (hx : ReadsBack x)
    (hxs : ∀ y ∈ xs, ReadsBack y) {n : Nat} {s : List Char}
    (hn : 2 * (encode x ++ (encodeItems [',', ' '] xs ++ ']' :: s)).length + 1 < n) :
    scanItems n (encode x ++ (encodeItems [',', ' '] xs ++ ']' :: s)) = some (x :: xs, s) := by
  induction xs generalizing x n with
  | nil =>
    -- Fuel for one item and for the closing bracket.
    obtain ⟨m, rfl⟩ : ∃ m, n = m + 1 := ⟨n - 1, by omega⟩
    have hend : NumberEnd (encodeItems [',', ' '] [] ++ ']' :: s) :=
      numberEnd_items [] (Or.inl rfl) s
    have hread := hx m _ (Ends.of_numberEnd hend x) (by omega)
    rw [scanItems, hread]
    simp only [Option.bind_some, encodeItems, List.nil_append, scanSep_close (c := ']') rfl, if_true]
  | cons y ys ih =>
    obtain ⟨m, rfl⟩ : ∃ m, n = m + 1 := ⟨n - 1, by omega⟩
    have hend : NumberEnd (encodeItems [',', ' '] (y :: ys) ++ ']' :: s) :=
      numberEnd_items (y :: ys) (Or.inl rfl) s
    have hread := hx m _ (Ends.of_numberEnd hend x) (by omega)
    -- The next item stands behind the separator, as the induction hypothesis reads it.
    have htail : encodeItems [',', ' '] (y :: ys) ++ ']' :: s =
        ',' :: ' ' :: (encode y ++ (encodeItems [',', ' '] ys ++ ']' :: s)) := by
      simp [encodeItems]
    have hys := ih (x := y) (hxs y List.mem_cons_self)
      (fun z hz => hxs z (List.mem_cons_of_mem _ hz)) (n := m) (by
        simp only [htail, List.length_append, List.length_cons] at hn ⊢
        omega)
    rw [scanItems, hread]
    simp only [Option.bind_some, htail, scanSep_comma (c := ']') (by decide), skipWs_encode,
      Bool.false_eq_true, if_false, hys, Option.map_some]

theorem scanKey_encode (k : String) (v : Value) {n : Nat} {s : List Char}
    (hn : (encodeString k ++ (':' :: ' ' :: (encode v ++ s))).length ≤ n) :
    scanKey n (encodeString k ++ (':' :: ' ' :: (encode v ++ s))) = some (k, encode v ++ s) := by
  have hstr := scanString_encodeString k (':' :: ' ' :: (encode v ++ s)) hn
  have hcolon : skipWs (':' :: ' ' :: (encode v ++ s)) = ':' :: ' ' :: (encode v ++ s) :=
    skipWs_of_head rfl _
  have hsp : skipWs (' ' :: (encode v ++ s)) = skipWs (encode v ++ s) := rfl
  rw [encodeString_append]
  simp only [scanKey, Option.bind_some, hstr, hcolon, after, if_true, Option.map_some,
    hsp, skipWs_encode, String.ofList_toList]

/-- The members of a dict read back, by induction on the members after the first. -/
theorem scanMembers_encode (d : Dict) {k : String} {v : Value} (hv : ReadsBack v)
    (hd : ∀ kv ∈ d, ReadsBack kv.2) {n : Nat} {s : List Char}
    (hn : 2 * (encodeMembers [] ((k, v) :: d) ++ '}' :: s).length < n) :
    scanMembers n (encodeMembers [] ((k, v) :: d) ++ '}' :: s) = some ((k, v) :: d, s) := by
  have hshape : ∀ (k : String) (v : Value) (d : Dict),
      encodeMembers [] ((k, v) :: d) ++ '}' :: s =
        encodeString k ++ (':' :: ' ' :: (encode v ++ (encodeMembers [',', ' '] d ++ '}' :: s))) := by
    intro k v d
    simp [encodeMembers]
  induction d generalizing k v n with
  | nil =>
    obtain ⟨m, rfl⟩ : ∃ m, n = m + 1 := ⟨n - 1, by omega⟩
    rw [hshape] at hn ⊢
    have hkey := scanKey_encode k v (n := m) (s := encodeMembers [',', ' '] [] ++ '}' :: s)
      (by omega)
    have hread := hv m _ (Ends.of_numberEnd (numberEnd_members [] s) v) (by
      simp only [List.length_append, List.length_cons] at hn ⊢
      omega)
    rw [scanMembers, hkey]
    simp only [Option.bind_some, hread]
    simp only [encodeMembers, List.nil_append, scanSep_close (c := '}') rfl, Option.bind_some,
      if_true]
  | cons kv d ih =>
    obtain ⟨k', v'⟩ := kv
    obtain ⟨m, rfl⟩ : ∃ m, n = m + 1 := ⟨n - 1, by omega⟩
    rw [hshape] at hn ⊢
    have hkey := scanKey_encode k v (n := m)
      (s := encodeMembers [',', ' '] ((k', v') :: d) ++ '}' :: s) (by omega)
    have hread := hv m _ (Ends.of_numberEnd (numberEnd_members ((k', v') :: d) s) v) (by
      simp only [List.length_append, List.length_cons] at hn ⊢
      omega)
    -- The same members without the leading separator, as the induction hypothesis reads them.
    have htail : encodeMembers [',', ' '] ((k', v') :: d) ++ '}' :: s =
        ',' :: ' ' :: (encodeMembers [] ((k', v') :: d) ++ '}' :: s) := by
      simp [encodeMembers]
    have hskip : skipWs (encodeMembers [] ((k', v') :: d) ++ '}' :: s) =
        encodeMembers [] ((k', v') :: d) ++ '}' :: s := by
      rw [hshape, encodeString_append]
      exact skipWs_of_head rfl _
    have hrest := ih (k := k') (v := v') (hd (k', v') List.mem_cons_self)
      (fun kv hkv => hd kv (List.mem_cons_of_mem _ hkv)) (n := m) (by
        simp only [htail, List.length_append, List.length_cons] at hn ⊢
        omega)
    rw [scanMembers, hkey]
    simp only [Option.bind_some, hread]
    rw [htail]
    simp only [scanSep_comma (c := '}') (by decide), Option.bind_some, hskip,
      Bool.false_eq_true, if_false, hrest, Option.map_some]

theorem readsBack_list {xs : List Value} (h : ∀ x ∈ xs, ReadsBack x) : ReadsBack (.list xs) := by
  intro n s _ hn
  obtain ⟨m, rfl⟩ : ∃ m, n = m + 1 := ⟨n - 1, by omega⟩
  rw [encode] at hn ⊢
  cases xs with
  | nil => rfl
  | cons x xs =>
    have hshape : encodeItems [] (x :: xs) ++ [']'] ++ s =
        encode x ++ (encodeItems [',', ' '] xs ++ ']' :: s) := by
      simp [encodeItems]
    rw [List.cons_append, hshape] at hn ⊢
    rw [List.forall_mem_cons] at h
    have hitems := scanItems_encode xs h.1 h.2 (n := m) (s := s) (by
      simp only [List.length_cons] at hn
      omega)
    simp [scanOnce, skipWs_encode, after_encode (Or.inl rfl), hitems]

theorem readsBack_dict {d : Dict} (hnodup : (d.map Prod.fst).Nodup)
    (h : ∀ kv ∈ d, ReadsBack kv.2) : ReadsBack (.dict d) := by
  intro n s _ hn
  obtain ⟨m, rfl⟩ : ∃ m, n = m + 1 := ⟨n - 1, by omega⟩
  rw [encode] at hn ⊢
  cases d with
  | nil => rfl
  | cons kv d =>
    obtain ⟨k, v⟩ := kv
    have hshape : encodeMembers [] ((k, v) :: d) ++ ['}'] ++ s =
        encodeMembers [] ((k, v) :: d) ++ '}' :: s := by
      simp
    rw [List.cons_append, hshape] at hn ⊢
    have hv : ReadsBack v := h (k, v) List.mem_cons_self
    have hd : ∀ kv ∈ d, ReadsBack kv.2 := fun kv hkv => h kv (List.mem_cons_of_mem _ hkv)
    have hmembers := scanMembers_encode d (k := k) hv hd (n := m) (s := s) (by
      simp only [List.length_cons] at hn
      omega)
    -- The scanner looks for `}` behind the brace and finds the quote of the first key.
    obtain ⟨t, ht⟩ : ∃ t, encodeMembers [] ((k, v) :: d) ++ '}' :: s = '"' :: t := by
      rw [encodeMembers, List.nil_append, List.append_assoc, encodeString_append]
      exact ⟨_, rfl⟩
    have hskip : skipWs ('"' :: t) = '"' :: t := skipWs_of_head rfl t
    rw [ht] at hmembers ⊢
    simp [scanOnce, hskip, after, hmembers, PyDict.ofPairs_of_nodup hnodup]

/-- Every JSON value reads back, by induction on the value. -/
theorem readsBack (v : Value) (h : v.isJson = true) : ReadsBack v := by
  -- On the value: an atom is read in one step, a list and a dict by their own loops.
  induction v using Value.induct with
  | none =>
    intro n s _ hn
    obtain ⟨m, rfl⟩ : ∃ m, n = m + 1 := ⟨n - 1, by omega⟩
    rw [encode]
    rfl
  | bool b =>
    intro n s _ hn
    obtain ⟨m, rfl⟩ : ∃ m, n = m + 1 := ⟨n - 1, by omega⟩
    cases b <;> rw [encode] <;> rfl
  | int i =>
    intro n s hend hn
    obtain ⟨m, rfl⟩ : ∃ m, n = m + 1 := ⟨n - 1, by omega⟩
    rw [encode, scanOnce_render (wellFormed_ofInt i) hend m, numberValue_ofInt]
  | float x =>
    intro n s hend hn
    obtain ⟨m, rfl⟩ : ∃ m, n = m + 1 := ⟨n - 1, by omega⟩
    rw [encode]
    exact scanOnce_encodeFloat x hend m
  | str t =>
    intro n s _ hn
    obtain ⟨m, rfl⟩ : ∃ m, n = m + 1 := ⟨n - 1, by omega⟩
    rw [encode] at hn ⊢
    have hstr := scanString_encodeString t s (n := m) (by omega)
    rw [encodeString_append]
    simp only [scanOnce, if_true, hstr, Option.map_some, String.ofList_toList]
  -- Not JSON.
  | object s r hash => simp [Value.isJson] at h
  | tuple xs => simp [Value.isJson] at h
  | list xs ih =>
    rw [Value.isJson_list_iff] at h
    exact readsBack_list fun x hx => ih x hx (h x hx)
  | dict d ih =>
    rw [Value.isJson_dict_iff] at h
    exact readsBack_dict h.1 fun kv hkv => ih kv hkv (h.2 kv hkv)

/-- `raw_decode` inverts `dumps`. -/
theorem decode_encode {v : Value} (h : v.isJson = true) {s : List Char} (hs : Ends v s) :
    decode (encode v ++ s) = some (v, s) :=
  readsBack v h _ s hs (Nat.lt_succ_self _)

/-- A text that was dumped loads as what it was dumped from. -/
theorem loads_dumps {v : Value} (h : v.isJson = true) : loads (dumps v) = some v := by
  have hend : Ends v [] := Ends.of_numberEnd numberEnd_nil v
  have hdecode := decode_encode h hend
  have hskip := skipWs_encode v []
  rw [List.append_nil] at hdecode hskip
  rw [loads, dumps, String.toList_ofList, hskip, hdecode]
  rfl

/-- The text of a JSON value determines the value. -/
theorem encode_injective {v w : Value} (hv : v.isJson = true) (hw : w.isJson = true)
    (h : encode v = encode w) : v = w := by
  have hreadv := decode_encode hv (Ends.of_numberEnd numberEnd_nil v)
  have hreadw := decode_encode hw (Ends.of_numberEnd numberEnd_nil w)
  rw [h, hreadw] at hreadv
  simpa using hreadv.symm

theorem writableList_iff {strict : Bool} (xs : List Value) :
    writableList strict xs = true ↔ ∀ x ∈ xs, writable strict x = true := by
  induction xs with
  | nil => simp [writableList]
  | cons x xs ih => simp [writableList, ih]

theorem writableDict_iff {strict : Bool} (d : Dict) :
    writableDict strict d = true ↔ ∀ kv ∈ d, writable strict kv.2 = true := by
  induction d with
  | nil => simp [writableDict]
  | cons kv d ih => simp [writableDict, ih]

/-- JSON values need no `default`. -/
theorem serializable_of_isJson {v : Value} (h : v.isJson = true) (hw : writable false v = true) :
    serializable v = true := by
  rw [serializable]
  induction v using Value.induct with
  | list xs ih =>
    rw [Value.isJson_list_iff] at h
    rw [writable, writableList_iff] at hw ⊢
    exact fun x hx => ih x hx (h x hx) (hw x hx)
  | dict d ih =>
    rw [Value.isJson_dict_iff] at h
    rw [writable, writableDict_iff] at hw ⊢
    exact fun kv hkv => ih kv hkv (h.2 kv hkv) (hw kv hkv)
  | object s r hash => cases h
  | tuple xs => cases h
  | int n => exact hw
  | _ => rfl

/-! ## Sorted keys -/

theorem sortKeysList_eq_map (xs : List Value) : sortKeysList xs = xs.map sortKeys := by
  induction xs with
  | nil => rfl
  | cons x xs ih => rw [sortKeysList, ih, List.map_cons]

theorem sortKeysDict_eq_map (d : Dict) :
    sortKeysDict d = d.map fun kv => (kv.1, sortKeys kv.2) := by
  induction d with
  | nil => rfl
  | cons kv d ih => rw [sortKeysDict, ih, List.map_cons]

theorem keys_sortKeysDict (d : Dict) : PyDict.keys (sortKeysDict d) = PyDict.keys d := by
  rw [sortKeysDict_eq_map]
  simp [PyDict.keys]

/-- A dict with its items in key order, at every depth. -/
def sortedDict (d : Dict) : Dict := (sortKeysDict d).insertionSort keyLe

theorem sortKeys_dict (d : Dict) : sortKeys (.dict d) = .dict (sortedDict d) := by
  rw [sortKeys, sortedDict]

theorem mem_sortedDict {d : Dict} {kv : String × Value} :
    kv ∈ sortedDict d ↔ ∃ kv' ∈ d, (kv'.1, sortKeys kv'.2) = kv := by
  rw [sortedDict, (List.perm_insertionSort keyLe _).mem_iff, sortKeysDict_eq_map, List.mem_map]

theorem perm_sortedDict (d : Dict) :
    (sortedDict d).Perm (d.map fun kv => (kv.1, sortKeys kv.2)) := by
  rw [← sortKeysDict_eq_map]
  exact List.perm_insertionSort keyLe _

theorem keys_sortedDict_nodup {d : Dict} (h : (PyDict.keys d).Nodup) :
    (PyDict.keys (sortedDict d)).Nodup := by
  refine ((perm_sortedDict d).map Prod.fst).nodup_iff.2 ?_
  rw [← sortKeysDict_eq_map]
  show (PyDict.keys (sortKeysDict d)).Nodup
  rw [keys_sortKeysDict]
  exact h

/-- Sorting the keys keeps a JSON value a JSON value. -/
theorem isJson_sortKeys {v : Value} (h : v.isJson = true) : (sortKeys v).isJson = true := by
  induction v using Value.induct with
  | none => exact h
  | bool b => exact h
  | int n => exact h
  | float x => exact h
  | str s => exact h
  | object s r hash => exact h
  | tuple xs => cases h
  | list xs ih =>
    rw [Value.isJson_list_iff] at h
    rw [sortKeys, sortKeysList_eq_map, Value.isJson_list_iff]
    intro y hy
    obtain ⟨x, hx, rfl⟩ := List.mem_map.1 hy
    exact ih x hx (h x hx)
  | dict d ih =>
    rw [Value.isJson_dict_iff] at h
    rw [sortKeys, Value.isJson_dict_iff]
    rw [← sortedDict]
    constructor
    · exact keys_sortedDict_nodup h.1
    · intro kv hkv
      obtain ⟨kv', hkv', rfl⟩ := mem_sortedDict.1 hkv
      exact ih kv' hkv' (h.2 kv' hkv')

/-- Sorted texts agree exactly when the values agree up to the order of their keys. -/
theorem dumpsSorted_eq_iff {v w : Value} (hv : v.isJson = true) (hw : w.isJson = true) :
    dumpsSorted v = dumpsSorted w ↔ sortKeys v = sortKeys w := by
  constructor
  · intro h
    exact encode_injective (isJson_sortKeys hv) (isJson_sortKeys hw) (String.ofList_injective h)
  · intro h
    rw [dumpsSorted, dumpsSorted, h]

/-- Sorting moves items and does not change what is found under a key. -/
theorem lookup_sortedDict {d : Dict} (h : (PyDict.keys d).Nodup) {key : String} {v : Value}
    (hv : d.lookup key = some v) : (sortedDict d).lookup key = some (sortKeys v) := by
  have hmem : (key, sortKeys v) ∈ sortedDict d :=
    mem_sortedDict.2 ⟨(key, v), PyDict.mem_of_lookup hv, rfl⟩
  exact PyDict.lookup_of_mem (keys_sortedDict_nodup h) hmem

theorem get_sortedDict {d : Dict} (h : (PyDict.keys d).Nodup) (key : String) :
    (sortedDict d).get key = sortKeys (d.get key) := by
  rw [Dict.get, Dict.getD, Dict.get, Dict.getD]
  cases hv : d.lookup key with
  | some v =>
    rw [lookup_sortedDict h hv]
    rfl
  | none =>
    have hkey : key ∉ (sortedDict d).keys := by
      intro hmem
      obtain ⟨kv, hkv, rfl⟩ := List.mem_map.1 hmem
      obtain ⟨kv', hkv', rfl⟩ := mem_sortedDict.1 hkv
      rw [PyDict.lookup_of_mem h hkv'] at hv
      cases hv
    rw [PyDict.lookup_eq_none hkey]
    rfl

/-- Sorting keys does not matter to a comparison with a scalar. -/
theorem pyEq_sortKeys {v w : Value} (hw : w.isScalar = true) :
    (sortKeys v).pyEq w = v.pyEq w := by
  cases v with
  | list xs => cases w <;> first | rfl | cases hw
  | dict d => cases w <;> first | rfl | cases hw
  | tuple xs => cases w <;> first | rfl | cases hw
  | _ => rfl

theorem eq_str_of_sortKeys {v : Value} {s : String} (h : sortKeys v = .str s) : v = .str s := by
  cases v <;> first | exact h | (rw [sortKeys] at h; cases h)

theorem sortKeys_str (s : String) : sortKeys (.str s) = .str s := rfl

theorem map_sortKeys_of_strings {d : Dict} (h : ∀ kv ∈ d, ∃ s, kv.2 = .str s) :
    (d.map fun kv => (kv.1, sortKeys kv.2)) = d := by
  refine (List.map_congr_left ?_).trans (List.map_id d)
  intro kv hkv
  obtain ⟨s, hs⟩ := h kv hkv
  show (kv.1, sortKeys kv.2) = kv
  rw [hs, sortKeys_str, ← hs]

/-- Sorting a dict of strings only reorders it. -/
theorem perm_sortedDict_of_strings {d : Dict} (h : ∀ kv ∈ d, ∃ s, kv.2 = .str s) :
    (sortedDict d).Perm d := by
  have hperm := perm_sortedDict d
  rwa [map_sortKeys_of_strings h] at hperm

/-- A dict of strings is, up to order, every dict with the same sorted text. -/
theorem perm_of_sortedDict_eq {d e : Dict} (he : ∀ kv ∈ e, ∃ s, kv.2 = .str s)
    (h : sortedDict d = sortedDict e) : d.Perm e := by
  have hperm : (d.map fun kv => (kv.1, sortKeys kv.2)).Perm e := by
    apply (perm_sortedDict d).symm.trans
    rw [h]
    exact perm_sortedDict_of_strings he
  have hd : ∀ kv ∈ d, ∃ s, kv.2 = .str s := by
    intro kv hkv
    obtain ⟨s, hs⟩ := he _ (hperm.subset (List.mem_map.2 ⟨kv, hkv, rfl⟩))
    exact ⟨s, eq_str_of_sortKeys hs⟩
  rwa [map_sortKeys_of_strings hd] at hperm

theorem jsonEq_self_of_scalar {v : Value} (h : v.isScalar = true) (hfin : v.isFinite = true) :
    v.jsonEq v = true := by
  cases v with
  | bool b => cases b <;> rfl
  | int n => exact (Magnitude.ofInt_eq_ofInt n n).trans (beq_self_eq_true n)
  | float x =>
    cases x with
    | finite neg m q hc =>
      simp [Value.jsonEq, Value.eqWith, Value.jsonEqAtom, Value.pyEqAtom, Value.magnitude?,
        Magnitude.eq, Binary64.magnitude]
    | _ => cases hfin
  | str s => exact beq_self_eq_true s
  | _ => cases h

/-- Sorting the keys of a JSON value leaves an equal JSON value. -/
theorem jsonEq_sortKeys {v : Value} (h : v.isJson = true) (hfin : v.isFinite = true) :
    (sortKeys v).jsonEq v = true := by
  induction v using Value.induct with
  | list xs ih =>
    rw [Value.isJson_list_iff] at h
    rw [Value.isFinite, Value.isFiniteList_iff] at hfin
    rw [sortKeys, sortKeysList_eq_map, Value.jsonEq, Value.eqWith]
    exact Value.eqWithList_eq_true fun x hx => ih x hx (h x hx) (hfin x hx)
  | dict d ih =>
    rw [Value.isJson_dict_iff] at h
    rw [Value.isFinite, Value.isFiniteDict_iff] at hfin
    rw [sortKeys_dict, Value.jsonEq, Value.eqWith, Bool.and_eq_true, Value.eqWithDict_iff]
    constructor
    · rw [sortedDict, List.length_insertionSort, sortKeysDict_eq_map, List.length_map]
      exact beq_self_eq_true _
    · intro kv hkv
      obtain ⟨kv', hkv', rfl⟩ := mem_sortedDict.1 hkv
      exact ⟨kv'.2, PyDict.lookup_of_mem h.1 hkv', ih kv' hkv' (h.2 kv' hkv') (hfin kv' hkv')⟩
  | none => rfl
  | object s r hash => cases h
  | tuple xs => cases h
  | bool b => exact jsonEq_self_of_scalar rfl hfin
  | int n => exact jsonEq_self_of_scalar rfl hfin
  | float x => exact jsonEq_self_of_scalar rfl hfin
  | str s => exact jsonEq_self_of_scalar rfl hfin

end Json

end AgentCluster.Python
