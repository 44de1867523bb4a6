import Mathlib.Data.List.TakeWhile

/-!
# Leftmost greedy scanning

A scanner looks for items embedded in a list. It moves to the next opening symbol, tries a decoder
there, continues after the item if one was decoded, and otherwise one symbol further on. The decoder
is a parameter; the only thing assumed of it is that a decoded item is not empty (`Shrinks`).

A suffix that no decoding crosses (`Blocks`) splits a scan in two (`scan_append`).
-/

set_option autoImplicit false

namespace AgentCluster.Library.Scan

universe u v

variable {α : Type u} {β : Type v}

/-- The scan, for at most `n` opening symbols. -/
def scanFor (opens : α → Bool) (dec : List α → Option (β × List α)) : Nat → List α → List β
  | 0, _ => []
  | n + 1, s =>
      match s.dropWhile fun c => !opens c with
      | [] => []
      | c :: r =>
          match dec (c :: r) with
          | some (b, rest) => b :: scanFor opens dec n rest
          | none => scanFor opens dec n r

/-- The items a scan of `s` finds. -/
def scan (opens : α → Bool) (dec : List α → Option (β × List α)) (s : List α) : List β :=
  scanFor opens dec (s.length + 1) s

/-- What is left after an item is shorter than before. -/
def Shrinks (dec : List α → Option (β × List α)) : Prop :=
  ∀ s b rest, dec s = some (b, rest) → rest.length < s.length

/-- No item reaches into `B`, and decoding does not look at it. -/
def Blocks (dec : List α → Option (β × List α)) (B : List α) : Prop :=
  ∀ s, dec (s ++ B) = (dec s).map fun p => (p.1, p.2 ++ B)

/-- What a scan finds was decoded somewhere. -/
theorem exists_of_mem_scanFor {opens : α → Bool} {dec : List α → Option (β × List α)} {n : Nat}
    {s : List α} {b : β} (h : b ∈ scanFor opens dec n s) : ∃ t rest, dec t = some (b, rest) := by
  -- on the fuel: each round decodes at one opening symbol
  induction n generalizing s with
  | zero => cases h
  | succ n ih =>
    rw [scanFor] at h
    cases hs : s.dropWhile fun c => !opens c with
    | nil => rw [hs] at h; cases h
    | cons c r =>
      rw [hs] at h
      cases hd : dec (c :: r) with
      | none =>
        simp only [hd] at h
        exact ih h
      | some p =>
        simp only [hd] at h
        rcases List.mem_cons.1 h with rfl | h
        · exact ⟨c :: r, p.2, hd⟩
        · exact ih h

theorem exists_of_mem_scan {opens : α → Bool} {dec : List α → Option (β × List α)} {s : List α}
    {b : β} (h : b ∈ scan opens dec s) : ∃ t rest, dec t = some (b, rest) :=
  exists_of_mem_scanFor h

section Equations

variable {opens : α → Bool} {dec : List α → Option (β × List α)} (hdec : Shrinks dec)

include hdec

theorem scanFor_succ {n : Nat} {s : List α} (h : s.length < n) :
    scanFor opens dec (n + 1) s = scanFor opens dec n s := by
  -- on the fuel; the rest of the text is shorter after every round
  induction n generalizing s with
  | zero => omega
  | succ n ih =>
    have hdrop := (List.dropWhile_suffix (l := s) fun c => !opens c).length_le
    rw [scanFor, scanFor]
    cases hs : s.dropWhile fun c => !opens c with
    | nil => rfl
    | cons c r =>
      rw [hs, List.length_cons] at hdrop
      cases hd : dec (c :: r) with
      | none =>
        -- nothing decoded: one symbol further on
        simp only [hd]
        exact ih (by omega)
      | some p =>
        -- an item: what is left after it is shorter by `Shrinks`
        have hlt := hdec (c :: r) p.1 p.2 hd
        rw [List.length_cons] at hlt
        simp only [hd]
        rw [ih (by omega)]

/-- Fuel beyond the length of the text changes nothing. -/
theorem scanFor_eq_scan {n : Nat} {s : List α} (h : s.length < n) :
    scanFor opens dec n s = scan opens dec s := by
  obtain ⟨k, rfl⟩ : ∃ k, n = s.length + 1 + k := ⟨n - (s.length + 1), by omega⟩
  induction k with
  | zero => rfl
  | succ k ih =>
    have hk : s.length < s.length + 1 + k := by omega
    rw [← ih hk]
    exact scanFor_succ hdec hk

theorem scan_cons_of_not_opens {c : α} (hc : opens c = false) (s : List α) :
    scan opens dec (c :: s) = scan opens dec s := by
  have hdrop : ((c :: s).dropWhile fun c => !opens c) = s.dropWhile fun c => !opens c := by
    simp [hc]
  rw [← scanFor_eq_scan hdec (n := s.length + 2) (s := s) (by omega)]
  show scanFor opens dec (s.length + 1 + 1) (c :: s) = _
  rw [scanFor, hdrop, scanFor]

theorem scan_cons_of_none {c : α} (hc : opens c = true) {s : List α} (h : dec (c :: s) = none) :
    scan opens dec (c :: s) = scan opens dec s := by
  rw [scan, List.length_cons, scanFor]
  simp only [List.dropWhile_cons, hc, Bool.not_true, Bool.false_eq_true, if_false, h]
  exact scanFor_eq_scan hdec (by omega)

theorem scan_cons_of_some {c : α} (hc : opens c = true) {s rest : List α} {b : β}
    (h : dec (c :: s) = some (b, rest)) :
    scan opens dec (c :: s) = b :: scan opens dec rest := by
  have hlt := hdec _ _ _ h
  rw [scan, List.length_cons, scanFor]
  simp only [List.dropWhile_cons, hc, Bool.not_true, Bool.false_eq_true, if_false, h]
  rw [List.length_cons] at hlt
  rw [scanFor_eq_scan hdec (by omega)]

/-- Text without an opening symbol holds no item and does not disturb what follows. -/
theorem scan_append_of_not_opens {x : List α} (hx : ∀ c ∈ x, opens c = false) (s : List α) :
    scan opens dec (x ++ s) = scan opens dec s := by
  induction x with
  | nil => rfl
  | cons c x ih =>
    rw [List.cons_append, scan_cons_of_not_opens hdec (hx c List.mem_cons_self)]
    exact ih fun d hd => hx d (List.mem_cons_of_mem c hd)

/-- A suffix that no item reaches into is scanned on its own. -/
theorem scan_append {B : List α} (hB : Blocks dec B) (x : List α) :
    scan opens dec (x ++ B) = scan opens dec x ++ scan opens dec B := by
  -- on the length of `x`: an item may take any number of its symbols
  obtain ⟨n, hn⟩ : ∃ n, x.length ≤ n := ⟨_, Nat.le_refl _⟩
  induction n generalizing x with
  | zero =>
    have hx : x = [] := List.eq_nil_of_length_eq_zero (by omega)
    subst hx
    rfl
  | succ n ih =>
    cases x with
    | nil => rfl
    | cons c x =>
      rw [List.length_cons] at hn
      cases hc : opens c with
      | false =>
        rw [List.cons_append, scan_cons_of_not_opens hdec hc, scan_cons_of_not_opens hdec hc]
        exact ih x (by omega)
      | true =>
        -- the decoder sees `c :: x` only, so it does there what it does in front of `B`
        have hblock := hB (c :: x)
        rw [List.cons_append] at hblock ⊢
        cases hd : dec (c :: x) with
        | none =>
          rw [hd] at hblock
          rw [scan_cons_of_none hdec hc hd, scan_cons_of_none hdec hc hblock]
          exact ih x (by omega)
        | some p =>
          obtain ⟨b, rest⟩ := p
          rw [hd] at hblock
          have hlt := hdec _ _ _ hd
          rw [List.length_cons] at hlt
          rw [scan_cons_of_some hdec hc hd, scan_cons_of_some hdec hc hblock, ih rest (by omega),
            List.cons_append]

end Equations

end AgentCluster.Library.Scan
