import AgentCluster.Python.Json

/-!
# Properties of the JSON decoder

* Every scanner that succeeds has consumed a nonempty prefix of its input (`Consumes`).
* With more fuel than characters the fuel does not matter (`scanOnce_fuel`).
* A text that no JSON text continues through, a `Barrier`, cannot be crossed: decoding `x ++ B`
  gives what decoding `x` gives, with `B` left over (`decode_barrier`).
* Whatever is decoded is a JSON value (`isJson_decode`).
-/

set_option autoImplicit false

namespace AgentCluster.Python

namespace Json

/-! ## Consumption -/

/-- `r` is what is left of `s` after a nonempty prefix. -/
def Consumes (s r : List Char) : Prop := ∃ c pre, s = c :: (pre ++ r)

theorem consumes_cons (c : Char) (s : List Char) : Consumes (c :: s) s := ⟨c, [], rfl⟩

theorem Consumes.length_lt {s r : List Char} (h : Consumes s r) : r.length < s.length := by
  obtain ⟨c, pre, rfl⟩ := h
  simp only [List.length_cons, List.length_append]
  omega

theorem Consumes.append {s r pre : List Char} (h : Consumes s (pre ++ r)) : Consumes s r := by
  obtain ⟨c, pre', rfl⟩ := h
  exact ⟨c, pre' ++ pre, by rw [List.append_assoc]⟩

theorem Consumes.trans {s r t : List Char} (h : Consumes s r) (h' : Consumes r t) :
    Consumes s t := by
  obtain ⟨c, pre, rfl⟩ := h'
  exact @Consumes.append s t (c :: pre) h

theorem Consumes.suffix {s r : List Char} (h : Consumes s r) : r <:+ s := by
  obtain ⟨c, pre, rfl⟩ := h
  exact ⟨c :: pre, rfl⟩

theorem Consumes.dropWhile {s r : List Char} (h : Consumes s r) (p : Char → Bool) :
    Consumes s (r.dropWhile p) := by
  have hsplit : r = r.takeWhile p ++ r.dropWhile p := (List.takeWhile_append_dropWhile).symm
  rw [hsplit] at h
  exact h.append

theorem Consumes.skipWs {s r : List Char} (h : Consumes s r) : Consumes s (skipWs r) :=
  h.dropWhile isWs

theorem Consumes.of_skipWs {s r : List Char} (h : Consumes (Json.skipWs s) r) : Consumes s r := by
  obtain ⟨c, pre, hs⟩ := h
  cases hw : s.takeWhile isWs with
  | nil =>
    have hsplit : s.takeWhile isWs ++ s.dropWhile isWs = s := List.takeWhile_append_dropWhile
    rw [hw, List.nil_append] at hsplit
    rw [← hsplit]
    exact ⟨c, pre, hs⟩
  | cons d w =>
    have hsplit : s.takeWhile isWs ++ s.dropWhile isWs = s := List.takeWhile_append_dropWhile
    refine ⟨d, w ++ c :: pre, ?_⟩
    have hs' : s.dropWhile isWs = c :: (pre ++ r) := hs
    rw [← hsplit, hw, hs']
    simp

theorem after_consumes {c : Char} {s r : List Char} (h : after c s = some r) : Consumes s r := by
  cases s with
  | nil => simp [after] at h
  | cons d s =>
    simp only [after] at h
    split at h
    · simp only [Option.some.injEq] at h
      subst h
      exact consumes_cons d s
    · simp at h

theorem scanHex4_consumes {s r : List Char} {u : Nat} (h : scanHex4 s = some (u, r)) :
    Consumes s r := by
  unfold scanHex4 at h
  split at h
  · rename_i a b c d s'
    split at h
    · simp only [Option.some.injEq, Prod.mk.injEq] at h
      obtain ⟨-, rfl⟩ := h
      exact ⟨a, [b, c, d], rfl⟩
    · simp at h
  · simp at h

theorem eq_append_of_dropWord {w s r : List Char} (h : dropWord w s = some r) : s = w ++ r := by
  induction w generalizing s with
  | nil =>
    simp only [dropWord, Option.some.injEq] at h
    rw [h, List.nil_append]
  | cons c w ih =>
    cases s with
    | nil => simp [dropWord] at h
    | cons d s =>
      simp only [dropWord] at h
      split at h
      · rename_i hcd
        rw [ih h, hcd, List.cons_append]
      · simp at h

theorem scanUnicodeEscape_consumes {s r : List Char} {c : Char}
    (h : scanUnicodeEscape s = some (c, r)) : Consumes s r := by
  simp only [scanUnicodeEscape, Option.bind_eq_some_iff, Prod.exists] at h
  obtain ⟨u, t, hu, h⟩ := h
  have ht : Consumes s t := scanHex4_consumes hu
  split at h
  · split at h
    · rename_i t' hdrop
      simp only [Option.map_eq_some_iff, Prod.exists] at h
      obtain ⟨lo, t'', hlo, h⟩ := h
      split at h
      · simp only [Prod.mk.injEq] at h
        obtain ⟨-, rfl⟩ := h
        rw [eq_append_of_dropWord hdrop] at ht
        exact ht.append.trans (scanHex4_consumes hlo)
      · simp only [Prod.mk.injEq] at h
        obtain ⟨-, rfl⟩ := h
        exact ht
    · simp only [Option.some.injEq, Prod.mk.injEq] at h
      obtain ⟨-, rfl⟩ := h
      exact ht
  · simp only [Option.some.injEq, Prod.mk.injEq] at h
    obtain ⟨-, rfl⟩ := h
    exact ht

theorem scanChar_consumes {s r : List Char} {c : Char} (h : scanChar s = some (c, r)) :
    Consumes s r := by
  cases s with
  | nil => simp [scanChar] at h
  | cons d s =>
    simp only [scanChar] at h
    split at h
    · cases s with
      | nil => simp [scanEscape] at h
      | cons e s =>
        simp only [scanEscape] at h
        split at h
        · exact ((consumes_cons d (e :: s)).trans (consumes_cons e s)).trans
            (scanUnicodeEscape_consumes h)
        · simp only [Option.map_eq_some_iff, Prod.mk.injEq] at h
          obtain ⟨x, -, -, rfl⟩ := h
          exact ⟨d, [e], rfl⟩
    · split at h
      · simp at h
      · simp only [Option.some.injEq, Prod.mk.injEq] at h
        obtain ⟨-, rfl⟩ := h
        exact consumes_cons _ _

theorem scanString_consumes {n : Nat} {s cs r : List Char}
    (h : scanString n s = some (cs, r)) : Consumes s r := by
  induction n generalizing s cs r with
  | zero => simp [scanString] at h
  | succ n ih =>
    simp only [scanString] at h
    split at h
    · rename_i t ht
      simp only [Option.some.injEq, Prod.mk.injEq] at h
      obtain ⟨-, rfl⟩ := h
      exact after_consumes ht
    · simp only [Option.bind_eq_some_iff, Option.map_eq_some_iff, Prod.exists, Prod.mk.injEq] at h
      obtain ⟨c, t, hc, cs', t', ht, -, rfl⟩ := h
      exact (scanChar_consumes hc).trans (ih ht)

theorem scanWhole_consumes {s w r : List Char} (h : scanWhole s = some (w, r)) :
    Consumes s r := by
  unfold scanWhole at h
  split at h
  · rename_i t ht
    simp only [Option.some.injEq, Prod.mk.injEq] at h
    obtain ⟨-, rfl⟩ := h
    exact after_consumes ht
  · split at h
    · simp at h
    · rename_i hne
      simp only [Option.some.injEq, Prod.mk.injEq] at h
      obtain ⟨-, rfl⟩ := h
      have hsplit : s = s.takeWhile Char.isDigit ++ s.dropWhile Char.isDigit :=
        (List.takeWhile_append_dropWhile).symm
      cases hw : s.takeWhile Char.isDigit with
      | nil => simp [hw] at hne
      | cons c w => exact ⟨c, w, by rw [hw] at hsplit; exact hsplit⟩

theorem Consumes.eq_append {s r : List Char} (h : Consumes s r) : ∃ pre, s = pre ++ r := by
  obtain ⟨c, pre, rfl⟩ := h
  exact ⟨c :: pre, rfl⟩

theorem scanFrac_append (s : List Char) : ∃ pre, s = pre ++ (scanFrac s).2 := by
  unfold scanFrac
  split
  · rename_i t ht
    split
    · exact ⟨[], rfl⟩
    · exact ((after_consumes ht).dropWhile _).eq_append
  · exact ⟨[], rfl⟩

theorem takeSign_append (s : List Char) : ∃ pre, s = pre ++ (takeSign s).2 := by
  unfold takeSign
  split
  · exact ⟨['-'], rfl⟩
  · exact ⟨['+'], rfl⟩
  · exact ⟨[], rfl⟩

theorem scanExp_append (s : List Char) : ∃ pre, s = pre ++ (scanExp s).2 := by
  cases s with
  | nil => exact ⟨[], rfl⟩
  | cons c s =>
    simp only [scanExp]
    split
    · split
      · exact ⟨[], rfl⟩
      · obtain ⟨pre, hpre⟩ := takeSign_append s
        refine ⟨c :: (pre ++ (takeSign s).2.takeWhile Char.isDigit), ?_⟩
        simp only [List.cons_append, List.append_assoc, List.takeWhile_append_dropWhile]
        rw [← hpre]
    · exact ⟨[], rfl⟩

theorem scanMinus_append (s : List Char) : ∃ pre, s = pre ++ (scanMinus s).2 := by
  unfold scanMinus
  split
  · rename_i t ht
    exact (after_consumes ht).eq_append
  · exact ⟨[], rfl⟩

theorem Consumes.prepend {s r pre : List Char} (h : Consumes s r) : Consumes (pre ++ s) r := by
  cases pre with
  | nil => exact h
  | cons d pre =>
    obtain ⟨c, pre', rfl⟩ := h
    exact ⟨d, pre ++ c :: pre', by simp⟩

theorem scanNumber_consumes {s r : List Char} {d : DecimalLiteral}
    (h : scanNumber s = some (d, r)) : Consumes s r := by
  simp only [scanNumber, Option.map_eq_some_iff, Prod.exists, Prod.mk.injEq] at h
  obtain ⟨w, t, hw, -, rfl⟩ := h
  obtain ⟨pre, hpre⟩ := scanMinus_append s
  obtain ⟨f, hf⟩ := scanFrac_append t
  obtain ⟨e, he⟩ := scanExp_append (scanFrac t).2
  have hwhole : Consumes (scanMinus s).2 t := scanWhole_consumes hw
  rw [hf] at hwhole
  have hfrac := hwhole.append
  rw [he] at hfrac
  rw [hpre]
  exact hfrac.append.prepend

theorem scanAtom_consumes {s r : List Char} {v : Value} (h : scanAtom s = some (v, r)) :
    Consumes s r := by
  unfold scanAtom at h
  split at h
  · rename_i p hp
    simp only [Option.some.injEq] at h
    subst h
    obtain ⟨⟨w, u⟩, hmem, hw⟩ := List.exists_of_findSome?_eq_some hp
    simp only [Option.map_eq_some_iff, Prod.mk.injEq] at hw
    obtain ⟨t, ht, rfl, rfl⟩ := hw
    have hs := eq_append_of_dropWord ht
    have hne : w ≠ [] := by
      intro h0
      subst h0
      simp [constants] at hmem
    cases w with
    | nil => exact absurd rfl hne
    | cons c w => exact ⟨c, w, hs⟩
  · simp only [Option.map_eq_some_iff, Prod.exists, Prod.mk.injEq] at h
    obtain ⟨d, t, hd, -, rfl⟩ := h
    exact scanNumber_consumes hd

theorem scanKey_consumes {n : Nat} {s r : List Char} {k : String}
    (h : scanKey n s = some (k, r)) : Consumes s r := by
  simp only [scanKey, Option.bind_eq_some_iff, Option.map_eq_some_iff, Prod.exists,
    Prod.mk.injEq] at h
  obtain ⟨s', hs', cs, t, hcs, t', ht', -, rfl⟩ := h
  have hstr := (after_consumes hs').trans (scanString_consumes hcs)
  exact (hstr.trans (after_consumes ht').of_skipWs).skipWs

theorem scanSep_consumes {c : Char} {s r : List Char} {done : Bool}
    (h : scanSep c s = some (done, r)) : Consumes s r := by
  unfold scanSep at h
  split at h
  · rename_i t ht
    simp only [Option.some.injEq, Prod.mk.injEq] at h
    obtain ⟨-, rfl⟩ := h
    exact (after_consumes ht).of_skipWs
  · simp only [Option.map_eq_some_iff, Prod.mk.injEq] at h
    obtain ⟨t, ht, -, rfl⟩ := h
    exact (after_consumes ht).of_skipWs.skipWs

/-- All three recursive scanners consume, by induction on the fuel. -/
theorem scan_consumes (n : Nat) :
    (∀ s v r, scanOnce n s = some (v, r) → Consumes s r) ∧
    (∀ s kvs r, scanMembers n s = some (kvs, r) → Consumes s r) ∧
    (∀ s xs r, scanItems n s = some (xs, r) → Consumes s r) := by
  -- The three functions call each other with less fuel, so they are proved together.
  induction n with
  | zero => simp [scanOnce, scanMembers, scanItems]
  | succ n ih =>
    obtain ⟨ihOnce, ihMembers, ihItems⟩ := ih
    refine ⟨?_, ?_, ?_⟩
    · intro s v r h
      cases s with
      | nil => simp [scanOnce] at h
      | cons c s =>
        simp only [scanOnce] at h
        split at h
        · simp only [Option.map_eq_some_iff, Prod.exists, Prod.mk.injEq] at h
          obtain ⟨cs, t, ht, -, rfl⟩ := h
          exact (consumes_cons _ _).trans (scanString_consumes ht)
        · split at h
          · split at h
            · rename_i t ht
              simp only [Option.some.injEq, Prod.mk.injEq] at h
              obtain ⟨-, rfl⟩ := h
              exact (consumes_cons _ _).trans (after_consumes ht).of_skipWs
            · simp only [Option.map_eq_some_iff, Prod.exists, Prod.mk.injEq] at h
              obtain ⟨kvs, t, ht, -, rfl⟩ := h
              exact (consumes_cons _ _).trans (ihMembers _ _ _ ht).of_skipWs
          · split at h
            · split at h
              · rename_i t ht
                simp only [Option.some.injEq, Prod.mk.injEq] at h
                obtain ⟨-, rfl⟩ := h
                exact (consumes_cons _ _).trans (after_consumes ht).of_skipWs
              · simp only [Option.map_eq_some_iff, Prod.exists, Prod.mk.injEq] at h
                obtain ⟨xs, t, ht, -, rfl⟩ := h
                exact (consumes_cons _ _).trans (ihItems _ _ _ ht).of_skipWs
            · exact scanAtom_consumes h
    · intro s kvs r h
      simp only [scanMembers, Option.bind_eq_some_iff, Prod.exists] at h
      obtain ⟨k, t, hk, v, t', hv, done, t'', hsep, h⟩ := h
      have hcons := ((scanKey_consumes hk).trans (ihOnce _ _ _ hv)).trans (scanSep_consumes hsep)
      split at h
      · simp only [Option.some.injEq, Prod.mk.injEq] at h
        obtain ⟨-, rfl⟩ := h
        exact hcons
      · simp only [Option.map_eq_some_iff, Prod.exists, Prod.mk.injEq] at h
        obtain ⟨kvs', t₃, ht, -, rfl⟩ := h
        exact hcons.trans (ihMembers _ _ _ ht)
    · intro s xs r h
      simp only [scanItems, Option.bind_eq_some_iff, Prod.exists] at h
      obtain ⟨v, t, hv, done, t', hsep, h⟩ := h
      have hcons := (ihOnce _ _ _ hv).trans (scanSep_consumes hsep)
      split at h
      · simp only [Option.some.injEq, Prod.mk.injEq] at h
        obtain ⟨-, rfl⟩ := h
        exact hcons
      · simp only [Option.map_eq_some_iff, Prod.exists, Prod.mk.injEq] at h
        obtain ⟨xs', t'', ht, -, rfl⟩ := h
        exact hcons.trans (ihItems _ _ _ ht)

theorem scanOnce_consumes {n : Nat} {s r : List Char} {v : Value}
    (h : scanOnce n s = some (v, r)) : Consumes s r :=
  (scan_consumes n).1 s v r h

/-- A decoded value ends after it starts. -/
theorem decode_consumes {s r : List Char} {v : Value} (h : decode s = some (v, r)) :
    Consumes s r :=
  scanOnce_consumes h

/-! ## Fuel -/

theorem scanString_fuel {n : Nat} {s : List Char} (h : s.length < n) :
    scanString (n + 1) s = scanString n s := by
  induction n generalizing s with
  | zero => omega
  | succ n ih =>
    rw [scanString, scanString]
    cases after '"' s with
    | some r => rfl
    | none =>
      refine Option.bind_congr ?_
      rintro ⟨c, r⟩ hc
      have hlt := (scanChar_consumes hc).length_lt
      simp only
      rw [ih (by omega)]

theorem scanKey_fuel {n : Nat} {s : List Char} (h : s.length < n + 1) :
    scanKey (n + 1) s = scanKey n s := by
  unfold scanKey
  refine Option.bind_congr ?_
  intro s' hs'
  have hlt := (after_consumes hs').length_lt
  rw [scanString_fuel (by omega)]

/-- One more unit of fuel changes nothing once there is more than twice as much fuel as text. An
array's item starts where the array's item list starts, so the list needs one unit more. -/
theorem scan_fuel_succ (n : Nat) :
    (∀ s : List Char, 2 * s.length < n → scanOnce (n + 1) s = scanOnce n s) ∧
    (∀ s : List Char, 2 * s.length < n → scanMembers (n + 1) s = scanMembers n s) ∧
    (∀ s : List Char, 2 * s.length + 1 < n → scanItems (n + 1) s = scanItems n s) := by
  -- Each call leaves at least one character behind, and two steps of fuel go with it.
  induction n with
  | zero => exact ⟨fun s h => by omega, fun s h => by omega, fun s h => by omega⟩
  | succ n ih =>
    obtain ⟨ihOnce, ihMembers, ihItems⟩ := ih
    refine ⟨?_, ?_, ?_⟩
    · intro s h
      cases s with
      | nil => rfl
      | cons c t =>
        have hlen : (skipWs t).length < (c :: t).length := (consumes_cons c t).skipWs.length_lt
        simp only [scanOnce]
        rw [ihMembers _ (by omega), ihItems _ (by omega)]
        simp only [List.length_cons] at h
        rw [scanString_fuel (by omega)]
    · intro s h
      unfold scanMembers
      rw [scanKey_fuel (by omega)]
      refine Option.bind_congr ?_
      rintro ⟨k, r⟩ hk
      have hkey := scanKey_consumes hk
      have hlt := hkey.length_lt
      simp only
      rw [ihOnce r (by omega)]
      refine Option.bind_congr ?_
      rintro ⟨v, r'⟩ hv
      refine Option.bind_congr ?_
      rintro ⟨done, r''⟩ hsep
      have hlt' := ((hkey.trans (scanOnce_consumes hv)).trans (scanSep_consumes hsep)).length_lt
      simp only
      rw [ihMembers r'' (by omega)]
    · intro s h
      unfold scanItems
      rw [ihOnce s (by omega)]
      refine Option.bind_congr ?_
      rintro ⟨v, r⟩ hv
      refine Option.bind_congr ?_
      rintro ⟨done, r'⟩ hsep
      have hlt := ((scanOnce_consumes hv).trans (scanSep_consumes hsep)).length_lt
      simp only
      rw [ihItems r' (by omega)]

/-- With more than twice as much fuel as text, the fuel does not matter. -/
theorem scanOnce_fuel {n : Nat} {s : List Char} (h : 2 * s.length < n) :
    scanOnce n s = decode s := by
  obtain ⟨k, rfl⟩ : ∃ k, n = 2 * s.length + 1 + k := ⟨n - (2 * s.length + 1), by omega⟩
  induction k with
  | zero => rfl
  | succ k ih =>
    have hlt : 2 * s.length < 2 * s.length + 1 + k := by omega
    rw [← ih hlt]
    exact (scan_fuel_succ _).1 s hlt

/-! ## Barriers -/

/-- Characters that can begin a token. -/
def startsToken (c : Char) : Bool :=
  c.isDigit || ['"', '{', '}', '[', ']', ',', ':', '-', 'n', 't', 'f', 'N', 'I'].contains c

/-- A text no JSON text continues through: a newline, which no string literal contains, and then,
after any whitespace, a character that begins no token. -/
structure Barrier (B : List Char) : Prop where
  newline : ∃ t, B = '\n' :: t
  stop : ∃ c t, skipWs B = c :: t ∧ startsToken c = false

/-- A scanner does on `x ++ B` what it does on `x`. -/
abbrev leave {α : Type} (B : List Char) : Option (α × List Char) → Option (α × List Char) :=
  Option.map fun p => (p.1, p.2 ++ B)

/-- `s` is `x` followed by `B`, or both are past their whitespace and `x` is used up. -/
inductive Extends (B : List Char) : List Char → List Char → Prop
  | append (x : List Char) : Extends B x (x ++ B)
  | skipped : Extends B [] (skipWs B)

section Barrier

variable {B : List Char} (hB : Barrier B)

include hB

/-- Either both texts start with the same character, or the shorter one is used up and the longer
one goes on with a character that begins no token. -/
theorem Extends.cases_head {x s : List Char} (h : Extends B x s) :
    (∃ c y, x = c :: y ∧ s = c :: (y ++ B)) ∨
      (x = [] ∧ ∃ c t, s = c :: t ∧ startsToken c = false) := by
  cases h with
  | append =>
    cases x with
    | nil =>
      obtain ⟨t, ht⟩ := hB.newline
      exact Or.inr ⟨rfl, '\n', t, ht, rfl⟩
    | cons c y => exact Or.inl ⟨c, y, rfl, rfl⟩
  | skipped =>
    obtain ⟨c, t, ht, hc⟩ := hB.stop
    exact Or.inr ⟨rfl, c, t, ht, hc⟩

omit hB in
/-- Skipping whitespace keeps the two texts together. -/
theorem extends_skipWs (x : List Char) : Extends B (skipWs x) (skipWs (x ++ B)) := by
  unfold skipWs
  rw [List.dropWhile_append]
  split
  · rename_i hnil
    rw [List.isEmpty_iff.1 hnil]
    exact Extends.skipped
  · exact Extends.append _

theorem after_append {c : Char} (hc : c ≠ '\n') (x : List Char) :
    after c (x ++ B) = (after c x).map (· ++ B) := by
  cases x with
  | nil =>
    obtain ⟨t, rfl⟩ := hB.newline
    simp [after, hc.symm]
  | cons d x =>
    simp only [List.cons_append, after]
    split <;> rfl

theorem after_extends {c : Char} (hc : startsToken c = true) {x s : List Char}
    (h : Extends B x s) : after c s = (after c x).map (· ++ B) := by
  rcases h.cases_head hB with ⟨d, y, rfl, rfl⟩ | ⟨rfl, d, t, rfl, hd⟩
  · by_cases hdc : d = c
    · simp [after, hdc]
    · simp [after, hdc]
  · have hdc : d ≠ c := by
      intro hdc
      rw [hdc, hc] at hd
      exact Bool.noConfusion hd
    simp [after, hdc]

theorem scanHex4_append (x : List Char) : scanHex4 (x ++ B) = leave B (scanHex4 x) := by
  obtain ⟨t, rfl⟩ := hB.newline
  have hnl : hexVal '\n' = none := by decide
  rcases x with _ | ⟨a, _ | ⟨b, _ | ⟨c, _ | ⟨d, y⟩⟩⟩⟩
  · rcases t with _ | ⟨b, _ | ⟨c, _ | ⟨d, t⟩⟩⟩ <;> simp [scanHex4, hnl]
  · rcases t with _ | ⟨b, _ | ⟨c, t⟩⟩ <;> simp [scanHex4, hnl]
  · rcases t with _ | ⟨b, t⟩ <;> simp [scanHex4, hnl]
  · simp [scanHex4, hnl]
  · simp only [List.cons_append, scanHex4]
    split <;> rfl

theorem dropWord_append {w : List Char} (hw : '\n' ∉ w) (x : List Char) :
    dropWord w (x ++ B) = (dropWord w x).map (· ++ B) := by
  obtain ⟨t, rfl⟩ := hB.newline
  induction w generalizing x with
  | nil => rfl
  | cons c w ih =>
    simp only [List.mem_cons, not_or] at hw
    cases x with
    | nil =>
      have hne : ¬ c = '\n' := fun h => hw.1 h.symm
      simp [dropWord, hne]
    | cons d x =>
      simp only [List.cons_append, dropWord]
      split
      · exact ih hw.2 x
      · rfl

theorem scanUnicodeEscape_append (x : List Char) :
    scanUnicodeEscape (x ++ B) = leave B (scanUnicodeEscape x) := by
  unfold scanUnicodeEscape
  rw [scanHex4_append hB]
  cases hx : scanHex4 x with
  | none => rfl
  | some p =>
    obtain ⟨u, r⟩ := p
    have hdrop := dropWord_append hB (w := ['\\', 'u']) (by decide) r
    simp only [leave, Option.map_some, Option.bind_some, hdrop]
    split
    · cases hr : dropWord ['\\', 'u'] r with
      | none => rfl
      | some r' =>
        simp only [Option.map_some, scanHex4_append hB]
        cases hlo : scanHex4 r' with
        | none => rfl
        | some q =>
          simp only [leave, Option.map_some, Option.some.injEq]
          split
          · simp only
          · simp only
    · simp only [Option.map_some]

theorem scanChar_append (x : List Char) : scanChar (x ++ B) = leave B (scanChar x) := by
  obtain ⟨t, ht⟩ := hB.newline
  cases x with
  | nil =>
    subst ht
    rfl
  | cons c x =>
    simp only [List.cons_append, scanChar]
    split
    · cases x with
      | nil =>
        subst ht
        rfl
      | cons e x =>
        simp only [List.cons_append, scanEscape]
        split
        · exact scanUnicodeEscape_append hB x
        · simp only [leave, Option.map_map]
          rfl
    · split <;> rfl

theorem scanString_append (n : Nat) (x : List Char) :
    scanString n (x ++ B) = leave B (scanString n x) := by
  induction n generalizing x with
  | zero => rfl
  | succ n ih =>
    rw [scanString, scanString, after_append hB (by decide)]
    cases after '"' x with
    | some r => rfl
    | none =>
      simp only [Option.map_none, scanChar_append hB]
      cases scanChar x with
      | none => rfl
      | some p =>
        simp only [leave, Option.map_some, Option.bind_some, ih, Option.map_map]
        rfl

theorem takeWhile_isDigit_append (x : List Char) :
    (x ++ B).takeWhile Char.isDigit = x.takeWhile Char.isDigit := by
  obtain ⟨t, rfl⟩ := hB.newline
  rw [List.takeWhile_append]
  split
  · rename_i hlen
    have hall : x.takeWhile Char.isDigit = x :=
      (List.takeWhile_prefix _).eq_of_length hlen
    rw [hall]
    simp
  · rfl

theorem dropWhile_isDigit_append (x : List Char) :
    (x ++ B).dropWhile Char.isDigit = x.dropWhile Char.isDigit ++ B := by
  obtain ⟨t, rfl⟩ := hB.newline
  rw [List.dropWhile_append]
  split
  · rename_i hnil
    rw [List.isEmpty_iff.1 hnil]
    rfl
  · rfl

theorem scanMinus_barrier (x : List Char) :
    scanMinus (x ++ B) = ((scanMinus x).1, (scanMinus x).2 ++ B) := by
  unfold scanMinus
  rw [after_append hB (by decide)]
  cases after '-' x <;> rfl

theorem scanWhole_barrier (x : List Char) : scanWhole (x ++ B) = leave B (scanWhole x) := by
  unfold scanWhole
  rw [after_append hB (by decide), takeWhile_isDigit_append hB, dropWhile_isDigit_append hB]
  cases after '0' x with
  | some r => rfl
  | none =>
    simp only [Option.map_none]
    split <;> rfl

theorem scanFrac_barrier (x : List Char) :
    scanFrac (x ++ B) = ((scanFrac x).1, (scanFrac x).2 ++ B) := by
  unfold scanFrac
  rw [after_append hB (by decide)]
  cases after '.' x with
  | none => rfl
  | some r =>
    simp only [Option.map_some, takeWhile_isDigit_append hB, dropWhile_isDigit_append hB]
    split <;> rfl

theorem takeSign_barrier (x : List Char) :
    takeSign (x ++ B) = ((takeSign x).1, (takeSign x).2 ++ B) := by
  obtain ⟨t, rfl⟩ := hB.newline
  cases x with
  | nil => rfl
  | cons c x =>
    unfold takeSign
    split <;> simp_all

theorem scanExp_barrier (x : List Char) :
    scanExp (x ++ B) = ((scanExp x).1, (scanExp x).2 ++ B) := by
  cases x with
  | nil =>
    obtain ⟨t, rfl⟩ := hB.newline
    rfl
  | cons c x =>
    simp only [List.cons_append, scanExp, takeSign_barrier hB, takeWhile_isDigit_append hB,
      dropWhile_isDigit_append hB]
    split
    · split <;> rfl
    · rfl

theorem scanNumber_barrier (x : List Char) : scanNumber (x ++ B) = leave B (scanNumber x) := by
  simp only [scanNumber, scanMinus_barrier hB, scanWhole_barrier hB, leave, Option.map_map]
  refine Option.map_congr ?_
  rintro ⟨w, r⟩ -
  simp only [Function.comp_apply, scanFrac_barrier hB, scanExp_barrier hB]

omit hB in
theorem newline_not_mem_constants {w : List Char} {v : Value} (h : (w, v) ∈ constants) :
    '\n' ∉ w := by
  simp only [constants, List.mem_cons, Prod.mk.injEq, List.not_mem_nil, or_false] at h
  rcases h with ⟨rfl, -⟩ | ⟨rfl, -⟩ | ⟨rfl, -⟩ | ⟨rfl, -⟩ | ⟨rfl, -⟩ | ⟨rfl, -⟩ <;> decide

theorem scanTable_barrier (x : List Char) (l : List (List Char × Value))
    (hl : ∀ p ∈ l, '\n' ∉ p.1) :
    (l.findSome? fun p => (dropWord p.1 (x ++ B)).map fun r => (p.2, r)) =
      leave B (l.findSome? fun p => (dropWord p.1 x).map fun r => (p.2, r)) := by
  induction l with
  | nil => rfl
  | cons p l ih =>
    have hp : '\n' ∉ p.1 := hl p List.mem_cons_self
    rw [List.findSome?_cons, List.findSome?_cons, dropWord_append hB hp]
    cases dropWord p.1 x with
    | none => exact ih fun q hq => hl q (List.mem_cons_of_mem _ hq)
    | some r => rfl

theorem scanAtom_barrier (x : List Char) : scanAtom (x ++ B) = leave B (scanAtom x) := by
  unfold scanAtom
  rw [scanTable_barrier hB x constants fun p hp => newline_not_mem_constants hp,
    scanNumber_barrier hB]
  cases constants.findSome? fun p => (dropWord p.1 x).map fun r => (p.2, r) with
  | some r => rfl
  | none =>
    simp only [leave, Option.map_none, Option.map_map]
    rfl

omit hB in
/-- A character that begins no token begins no value. -/
theorem scanOnce_of_not_startsToken (n : Nat) {c : Char} (hc : startsToken c = false)
    (t : List Char) : scanOnce n (c :: t) = none := by
  simp only [startsToken, Bool.or_eq_false_iff, List.contains_eq_mem, List.mem_cons,
    List.not_mem_nil, or_false, decide_eq_false_iff_not, not_or] at hc
  obtain ⟨hdigit, hquote, hopen, -, hlist, -, -, -, hminus, hn, ht, hf, hN, hI⟩ := hc
  cases n with
  | zero => rfl
  | succ n =>
    have hzero : c ≠ '0' := by
      rintro rfl
      exact absurd hdigit (by decide)
    simp only [scanOnce, if_neg hquote, if_neg hopen, if_neg hlist, scanAtom, constants, dropWord,
      List.findSome?_cons, List.findSome?_nil, if_neg (Ne.symm hn), if_neg (Ne.symm ht),
      if_neg (Ne.symm hf), if_neg (Ne.symm hN), if_neg (Ne.symm hI), if_neg (Ne.symm hminus),
      Option.map_none, scanNumber, scanMinus, after, if_neg hminus, scanWhole, if_neg hzero,
      List.takeWhile_cons, hdigit]
    rfl

theorem scanKey_barrier (n : Nat) {x s : List Char} (h : Extends B x s) :
    (scanKey n x = none ∧ scanKey n s = none) ∨
      ∃ k r, scanKey n x = some (k, skipWs r) ∧ scanKey n s = some (k, skipWs (r ++ B)) := by
  unfold scanKey
  rw [after_extends hB rfl h]
  cases after '"' x with
  | none => exact Or.inl ⟨rfl, rfl⟩
  | some y =>
    simp only [Option.map_some, Option.bind_some, scanString_append hB]
    cases scanString n y with
    | none => exact Or.inl ⟨rfl, rfl⟩
    | some p =>
      obtain ⟨cs, r⟩ := p
      simp only [leave, Option.map_some, Option.bind_some,
        after_extends hB (c := ':') rfl (extends_skipWs r)]
      cases after ':' (skipWs r) with
      | none => exact Or.inl ⟨rfl, rfl⟩
      | some r' => exact Or.inr ⟨String.ofList cs, r', rfl, rfl⟩

theorem scanSep_barrier {c : Char} (hc : startsToken c = true) (x : List Char) :
    (scanSep c x = none ∧ scanSep c (x ++ B) = none) ∨
      (∃ r, scanSep c x = some (true, r) ∧ scanSep c (x ++ B) = some (true, r ++ B)) ∨
      ∃ r, scanSep c x = some (false, skipWs r) ∧
        scanSep c (x ++ B) = some (false, skipWs (r ++ B)) := by
  unfold scanSep
  rw [after_extends hB hc (extends_skipWs x), after_extends hB (c := ',') rfl (extends_skipWs x)]
  cases after c (skipWs x) with
  | some r => exact Or.inr (Or.inl ⟨r, rfl, rfl⟩)
  | none =>
    cases after ',' (skipWs x) with
    | none => exact Or.inl ⟨rfl, rfl⟩
    | some r => exact Or.inr (Or.inr ⟨r, rfl, rfl⟩)

/-- No scanner crosses a barrier, by induction on the fuel. -/
theorem scan_barrier (n : Nat) :
    (∀ x s, Extends B x s → scanOnce n s = leave B (scanOnce n x)) ∧
    (∀ x s, Extends B x s → scanMembers n s = leave B (scanMembers n x)) ∧
    (∀ x s, Extends B x s → scanItems n s = leave B (scanItems n x)) := by
  -- Together again; a scan that stops short of the barrier does the same with more text behind it.
  induction n with
  | zero => exact ⟨fun _ _ _ => rfl, fun _ _ _ => rfl, fun _ _ _ => rfl⟩
  | succ n ih =>
    obtain ⟨ihOnce, ihMembers, ihItems⟩ := ih
    refine ⟨?_, ?_, ?_⟩
    · intro x s h
      rcases h.cases_head hB with ⟨c, y, rfl, rfl⟩ | ⟨rfl, c, t, rfl, hc⟩
      · simp only [scanOnce]
        split
        · rw [scanString_append hB]
          simp only [leave, Option.map_map]
          rfl
        · split
          · rw [after_extends hB rfl (extends_skipWs y), ihMembers _ _ (extends_skipWs y)]
            cases after '}' (skipWs y) with
            | some r => rfl
            | none =>
              simp only [leave, Option.map_none, Option.map_map]
              rfl
          · split
            · rw [after_extends hB rfl (extends_skipWs y), ihItems _ _ (extends_skipWs y)]
              cases after ']' (skipWs y) with
              | some r => rfl
              | none =>
                simp only [leave, Option.map_none, Option.map_map]
                rfl
            · exact scanAtom_barrier hB (c :: y)
      -- At the barrier itself no token starts.
      · rw [scanOnce_of_not_startsToken (n + 1) hc t]
        rfl
    · intro x s h
      simp only [scanMembers]
      rcases scanKey_barrier hB n h with ⟨hx, hs⟩ | ⟨k, r, hx, hs⟩
      · rw [hx, hs]
        rfl
      · rw [hx, hs]
        simp only [Option.bind_some, ihOnce _ _ (extends_skipWs r)]
        cases scanOnce n (skipWs r) with
        | none => rfl
        | some p =>
          obtain ⟨v, r'⟩ := p
          simp only [leave, Option.map_some, Option.bind_some]
          rcases scanSep_barrier hB (c := '}') rfl r' with ⟨hx', hs'⟩ | ⟨t, hx', hs'⟩ | ⟨t, hx', hs'⟩
          · rw [hx', hs']
            rfl
          · rw [hx', hs']
            rfl
          · rw [hx', hs']
            simp only [Option.bind_some, Bool.false_eq_true, if_false,
              ihMembers _ _ (extends_skipWs t), leave, Option.map_map]
            rfl
    · intro x s h
      simp only [scanItems, ihOnce _ _ h]
      cases scanOnce n x with
      | none => rfl
      | some p =>
        obtain ⟨v, r⟩ := p
        simp only [leave, Option.map_some, Option.bind_some]
        rcases scanSep_barrier hB (c := ']') rfl r with ⟨hx, hs⟩ | ⟨t, hx, hs⟩ | ⟨t, hx, hs⟩
        · rw [hx, hs]
          rfl
        · rw [hx, hs]
          rfl
        · rw [hx, hs]
          simp only [Option.bind_some, Bool.false_eq_true, if_false,
            ihItems _ _ (extends_skipWs t), leave, Option.map_map]
          rfl

/-- Decoding stops at a barrier: it gives on `x ++ B` what it gives on `x`. -/
theorem decode_barrier (x : List Char) : decode (x ++ B) = leave B (decode x) := by
  have hlen : 2 * x.length < 2 * (x ++ B).length + 1 := by
    simp only [List.length_append]
    omega
  rw [← scanOnce_fuel hlen]
  exact (scan_barrier hB _).1 x (x ++ B) (Extends.append x)

end Barrier

/-! ## What is decoded -/

theorem isJson_numberValue (d : DecimalLiteral) : (numberValue d).isJson = true := by
  unfold numberValue
  split <;> rfl

theorem isJson_scanAtom {s r : List Char} {v : Value} (h : scanAtom s = some (v, r)) :
    v.isJson = true := by
  unfold scanAtom at h
  split at h
  · rename_i p hp
    simp only [Option.some.injEq] at h
    subst h
    obtain ⟨⟨w, u⟩, hmem, hw⟩ := List.exists_of_findSome?_eq_some hp
    simp only [Option.map_eq_some_iff, Prod.mk.injEq] at hw
    obtain ⟨t, -, rfl, -⟩ := hw
    simp only [constants, List.mem_cons, Prod.mk.injEq, List.not_mem_nil, or_false] at hmem
    rcases hmem with ⟨-, rfl⟩ | ⟨-, rfl⟩ | ⟨-, rfl⟩ | ⟨-, rfl⟩ | ⟨-, rfl⟩ | ⟨-, rfl⟩ <;> rfl
  · simp only [Option.map_eq_some_iff, Prod.mk.injEq] at h
    obtain ⟨p, -, rfl, -⟩ := h
    exact isJson_numberValue p.1

/-- The recursive scanners build JSON values, by induction on the fuel. -/
theorem scan_isJson (n : Nat) :
    (∀ s v r, scanOnce n s = some (v, r) → v.isJson = true) ∧
    (∀ s kvs r, scanMembers n s = some (kvs, r) → ∀ kv ∈ kvs, kv.2.isJson = true) ∧
    (∀ s xs r, scanItems n s = some (xs, r) → ∀ x ∈ xs, x.isJson = true) := by
  -- Dicts read from text keep the last value of each key, so their keys are distinct.
  induction n with
  | zero => simp [scanOnce, scanMembers, scanItems]
  | succ n ih =>
    obtain ⟨ihOnce, ihMembers, ihItems⟩ := ih
    refine ⟨?_, ?_, ?_⟩
    · intro s v r h
      cases s with
      | nil => simp [scanOnce] at h
      | cons c s =>
        simp only [scanOnce] at h
        split at h
        · simp only [Option.map_eq_some_iff, Prod.mk.injEq] at h
          obtain ⟨p, -, rfl, -⟩ := h
          rfl
        · split at h
          · split at h
            · simp only [Option.some.injEq, Prod.mk.injEq] at h
              obtain ⟨rfl, -⟩ := h
              rfl
            · simp only [Option.map_eq_some_iff, Prod.exists, Prod.mk.injEq] at h
              obtain ⟨kvs, t, ht, rfl, -⟩ := h
              refine (Value.isJson_dict_iff _).2 ⟨PyDict.nodup_keys_ofPairs kvs, ?_⟩
              exact fun kv hkv => ihMembers _ _ _ ht kv (PyDict.mem_ofPairs hkv)
          · split at h
            · split at h
              · simp only [Option.some.injEq, Prod.mk.injEq] at h
                obtain ⟨rfl, -⟩ := h
                rfl
              · simp only [Option.map_eq_some_iff, Prod.exists, Prod.mk.injEq] at h
                obtain ⟨xs, t, ht, rfl, -⟩ := h
                exact (Value.isJson_list_iff _).2 (ihItems _ _ _ ht)
            · exact isJson_scanAtom h
    · intro s kvs r h
      simp only [scanMembers, Option.bind_eq_some_iff, Prod.exists] at h
      obtain ⟨k, t, -, v, t', hv, done, t'', -, h⟩ := h
      have hval : v.isJson = true := ihOnce _ _ _ hv
      split at h
      · simp only [Option.some.injEq, Prod.mk.injEq] at h
        obtain ⟨rfl, -⟩ := h
        simpa using hval
      · simp only [Option.map_eq_some_iff, Prod.exists, Prod.mk.injEq] at h
        obtain ⟨kvs', t₃, ht, rfl, -⟩ := h
        exact List.forall_mem_cons.2 ⟨hval, ihMembers _ _ _ ht⟩
    · intro s xs r h
      simp only [scanItems, Option.bind_eq_some_iff, Prod.exists] at h
      obtain ⟨v, t, hv, done, t', -, h⟩ := h
      have hval : v.isJson = true := ihOnce _ _ _ hv
      split at h
      · simp only [Option.some.injEq, Prod.mk.injEq] at h
        obtain ⟨rfl, -⟩ := h
        simpa using hval
      · simp only [Option.map_eq_some_iff, Prod.exists, Prod.mk.injEq] at h
        obtain ⟨xs', t'', ht, rfl, -⟩ := h
        exact List.forall_mem_cons.2 ⟨hval, ihItems _ _ _ ht⟩

/-- Whatever is decoded is a JSON value. -/
theorem isJson_decode {s r : List Char} {v : Value} (h : decode s = some (v, r)) :
    v.isJson = true :=
  (scan_isJson _).1 s v r h

end Json

end AgentCluster.Python
