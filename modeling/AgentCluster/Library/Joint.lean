import Mathlib.Data.List.DropRight

/-!
# Joints

Two texts that are written one after the other, with a separator that should stand between them
exactly once. The separators at a joint are those that end the first text and those that start the
second (`JoinsOnce`).
-/

set_option autoImplicit false

namespace AgentCluster.Library

universe u

variable {α : Type u} [BEq α]

/-- How many separators start the text. -/
def leading (sep : α) (s : List α) : Nat := (s.takeWhile (· == sep)).length

/-- How many separators end the text. -/
def trailing (sep : α) (s : List α) : Nat := (s.rtakeWhile (· == sep)).length

/-- There is exactly one separator where `t` follows `s`. -/
def JoinsOnce (sep : α) (s t : List α) : Prop := trailing sep s + leading sep t = 1

section Lemmas

variable [LawfulBEq α] {sep : α} {s t : List α}

theorem leading_cons_self (sep : α) (s : List α) : leading sep (sep :: s) = leading sep s + 1 := by
  rw [leading, leading, List.takeWhile_cons, if_pos (beq_self_eq_true sep), List.length_cons]

theorem leading_eq_zero_iff : leading sep s = 0 ↔ s.head? ≠ some sep := by
  rw [leading, List.length_eq_zero_iff]
  cases s with
  | nil => simp
  | cons a s => simp [List.takeWhile_cons]

theorem trailing_eq_zero_iff : trailing sep s = 0 ↔ s.getLast? ≠ some sep := by
  rw [← List.head?_reverse, ← leading_eq_zero_iff, leading, trailing, List.rtakeWhile,
    List.length_reverse]

theorem trailing_concat_self (s : List α) (sep : α) :
    trailing sep (s ++ [sep]) = trailing sep s + 1 := by
  rw [trailing, trailing, List.rtakeWhile_concat_pos (· == sep) s sep (beq_self_eq_true sep),
    List.length_append, List.length_singleton]

/-- What follows a text that does not start with the separator is not looked at. -/
theorem leading_append (hne : s ≠ []) (h : leading sep s = 0) (t : List α) :
    leading sep (s ++ t) = 0 := by
  rw [leading_eq_zero_iff] at h ⊢
  rwa [List.head?_append_of_ne_nil _ hne]

theorem trailing_append (hne : t ≠ []) (h : trailing sep t = 0) (s : List α) :
    trailing sep (s ++ t) = 0 := by
  rw [trailing_eq_zero_iff] at h ⊢
  rwa [List.getLast?_append_of_ne_nil _ hne]

theorem trailing_rdropWhile (sep : α) (s : List α) : trailing sep (s.rdropWhile (· == sep)) = 0 := by
  rw [trailing_eq_zero_iff]
  intro h
  obtain ⟨hne, heq⟩ := List.mem_getLast?_eq_getLast h
  have hkept := List.rdropWhile_last_not (· == sep) s hne
  rw [← heq] at hkept
  exact hkept (beq_self_eq_true sep)

theorem leading_dropWhile (sep : α) (s : List α) : leading sep (s.dropWhile (· == sep)) = 0 := by
  rw [leading_eq_zero_iff]
  intro h
  have hkept := List.head?_dropWhile_not (· == sep) s
  rw [h] at hkept
  have hfalse : (sep == sep) = false := hkept
  rw [beq_self_eq_true] at hfalse
  cases hfalse

theorem leading_of_isPrefix (hpre : t <+: s) (h : leading sep s = 0) : leading sep t = 0 := by
  obtain ⟨rest, rfl⟩ := hpre
  cases t with
  | nil => rfl
  | cons a t => rwa [leading_eq_zero_iff] at h ⊢

end Lemmas

section Middle

variable [LawfulBEq α] {sep : α} {base body tail : List α}

/-- A text that starts with the separator and holds more than it joins once on both sides. -/
theorem joinsOnce_middle (hbase : trailing sep base = 0) (hne : body ≠ [])
    (hbody : leading sep body = 0) (hend : trailing sep body = 0) (htail : leading sep tail = 1) :
    JoinsOnce sep base (sep :: body ++ tail) ∧ JoinsOnce sep (base ++ sep :: body) tail := by
  constructor
  · rw [JoinsOnce, hbase, List.cons_append, leading_cons_self, leading_append hne hbody]
  · rw [JoinsOnce, htail, ← List.singleton_append, ← List.append_assoc, trailing_append hne hend]

/-- The separator alone joins on neither side: it stands beside the one of what follows. -/
theorem not_joinsOnce_separator (hbase : trailing sep base = 0) (htail : leading sep tail = 1) :
    ¬JoinsOnce sep base (sep :: tail) ∧ ¬JoinsOnce sep (base ++ [sep]) tail := by
  constructor
  · rw [JoinsOnce, hbase, leading_cons_self, htail]
    decide
  · rw [JoinsOnce, trailing_concat_self, hbase, htail]
    decide

end Middle

end AgentCluster.Library
