import Mathlib.Data.List.Basic

/-!
# Base64

The standard encoding with padding, and a decoder that is not strict: it skips characters outside the
alphabet and stops at the padding that completes a group. What is encoded decodes to itself
(`decode_encode`).
-/

set_option autoImplicit false

namespace AgentCluster.Library.Base64

/-- The characters for the values 0 to 63. -/
def alphabet : List Char :=
  "ABCDEFGHIJKLMNOPQRSTUVWXYZabcdefghijklmnopqrstuvwxyz0123456789+/".toList

/-- The character for six bits. -/
def charOf (n : Nat) : Char := alphabet.getD n 'A'

/-- The six bits of a character, if it is in the alphabet. -/
def valueOf (c : Char) : Option Nat := alphabet.findIdx? (· == c)

/-- Three bytes as four characters; a shorter last group is padded. -/
def encode : List UInt8 → List Char
  | [] => []
  | [a] => [charOf (a.toNat / 4), charOf (a.toNat % 4 * 16), '=', '=']
  | [a, b] =>
      [charOf (a.toNat / 4), charOf (a.toNat % 4 * 16 + b.toNat / 16), charOf (b.toNat % 16 * 4), '=']
  | a :: b :: c :: rest =>
      charOf (a.toNat / 4) :: charOf (a.toNat % 4 * 16 + b.toNat / 16) ::
        charOf (b.toNat % 16 * 4 + c.toNat / 64) :: charOf (c.toNat % 64) :: encode rest

/-- The decoder after `quad` characters of a group, which left the bits `left`, and `pads` padding
characters. -/
def decodeFrom (quad left pads : Nat) : List Char → Option (List UInt8)
  | [] => if quad = 0 then some [] else none
  | c :: rest =>
      if c = '=' then
        if 2 ≤ quad ∧ 4 ≤ quad + (pads + 1) then some []
        else decodeFrom quad left (if 2 ≤ quad then pads + 1 else pads) rest
      else
        match valueOf c with
        | none => decodeFrom quad left pads rest
        | some v =>
            match quad with
            | 0 => decodeFrom 1 v 0 rest
            | 1 => (decodeFrom 2 (v % 16) 0 rest).map (UInt8.ofNat (left * 4 + v / 16) :: ·)
            | 2 => (decodeFrom 3 (v % 4) 0 rest).map (UInt8.ofNat (left * 16 + v / 4) :: ·)
            | _ => (decodeFrom 0 0 0 rest).map (UInt8.ofNat (left * 64 + v) :: ·)

/-- The decoder; `none` is an incomplete last group. -/
def decode (s : List Char) : Option (List UInt8) := decodeFrom 0 0 0 s

theorem charOf_spec : ∀ n < 64, charOf n ≠ '=' ∧ valueOf (charOf n) = some n := by
  decide +kernel

theorem charOf_ascii : ∀ n < 64, (charOf n).toNat < 128 := by
  decide +kernel

section Decode

variable {left pads v : Nat} {a : UInt8} {rest : List Char}

theorem decodeFrom_first (hv : v < 64) :
    decodeFrom 0 left pads (charOf v :: rest) = decodeFrom 1 v 0 rest := by
  obtain ⟨hpad, hvalue⟩ := charOf_spec v hv
  simp only [decodeFrom, if_neg hpad, hvalue]

theorem decodeFrom_second (hv : v < 64) (h : left * 4 + v / 16 = a.toNat) :
    decodeFrom 1 left pads (charOf v :: rest) = (decodeFrom 2 (v % 16) 0 rest).map (a :: ·) := by
  obtain ⟨hpad, hvalue⟩ := charOf_spec v hv
  rw [decodeFrom, if_neg hpad, hvalue]
  simp only [h, UInt8.ofNat_toNat]

theorem decodeFrom_third (hv : v < 64) (h : left * 16 + v / 4 = a.toNat) :
    decodeFrom 2 left pads (charOf v :: rest) = (decodeFrom 3 (v % 4) 0 rest).map (a :: ·) := by
  obtain ⟨hpad, hvalue⟩ := charOf_spec v hv
  rw [decodeFrom, if_neg hpad, hvalue]
  simp only [h, UInt8.ofNat_toNat]

theorem decodeFrom_fourth (hv : v < 64) (h : left * 64 + v = a.toNat) :
    decodeFrom 3 left pads (charOf v :: rest) = (decodeFrom 0 0 0 rest).map (a :: ·) := by
  obtain ⟨hpad, hvalue⟩ := charOf_spec v hv
  rw [decodeFrom, if_neg hpad, hvalue]
  simp only [h, UInt8.ofNat_toNat]

end Decode

/-- What is encoded decodes to itself. -/
theorem decode_encode (bytes : List UInt8) : decode (encode bytes) = some bytes := by
  unfold decode
  fun_induction encode bytes with
  | case1 => rfl
  | case2 a =>
    have ha := a.toNat_lt
    rw [decodeFrom_first (by omega), decodeFrom_second (a := a) (by omega) (by omega)]
    rfl
  | case3 a b =>
    have ha := a.toNat_lt
    have hb := b.toNat_lt
    rw [decodeFrom_first (by omega), decodeFrom_second (a := a) (by omega) (by omega),
      decodeFrom_third (a := b) (by omega) (by omega)]
    rfl
  | case4 a b c rest ih =>
    have ha := a.toNat_lt
    have hb := b.toNat_lt
    have hc := c.toNat_lt
    rw [decodeFrom_first (by omega), decodeFrom_second (a := a) (by omega) (by omega),
      decodeFrom_third (a := b) (by omega) (by omega),
      decodeFrom_fourth (a := c) (by omega) (by omega), ih]
    rfl

/-- The encoded text is made of the characters of the alphabet and of pads. -/
theorem eq_charOf_of_mem_encode (bytes : List UInt8) :
    ∀ c ∈ encode bytes, c = '=' ∨ ∃ n < 64, c = charOf n := by
  fun_induction encode bytes with
  | case1 => exact fun c hc => absurd hc List.not_mem_nil
  | case2 a =>
    -- A partial group: two characters and two pads.
    have ha := a.toNat_lt
    intro c hc
    simp only [List.mem_cons, List.not_mem_nil, or_false] at hc
    rcases hc with rfl | rfl | rfl | rfl
    · exact Or.inr ⟨_, by omega, rfl⟩
    · exact Or.inr ⟨_, by omega, rfl⟩
    · exact Or.inl rfl
    · exact Or.inl rfl
  | case3 a b =>
    -- Three characters and one pad.
    have ha := a.toNat_lt
    have hb := b.toNat_lt
    intro c hc
    simp only [List.mem_cons, List.not_mem_nil, or_false] at hc
    rcases hc with rfl | rfl | rfl | rfl
    · exact Or.inr ⟨_, by omega, rfl⟩
    · exact Or.inr ⟨_, by omega, rfl⟩
    · exact Or.inr ⟨_, by omega, rfl⟩
    · exact Or.inl rfl
  | case4 a b c rest ih =>
    have ha := a.toNat_lt
    have hb := b.toNat_lt
    have hc := c.toNat_lt
    intro d hd
    simp only [List.mem_cons] at hd
    rcases hd with rfl | rfl | rfl | rfl | hd
    · exact Or.inr ⟨_, by omega, rfl⟩
    · exact Or.inr ⟨_, by omega, rfl⟩
    · exact Or.inr ⟨_, by omega, rfl⟩
    · exact Or.inr ⟨_, by omega, rfl⟩
    · exact ih d hd

/-- The encoded text is ASCII. -/
theorem encode_ascii (bytes : List UInt8) : ∀ c ∈ encode bytes, c.toNat < 128 := by
  intro c hc
  rcases eq_charOf_of_mem_encode bytes c hc with rfl | ⟨n, hn, rfl⟩
  · decide
  · exact charOf_ascii n hn

end AgentCluster.Library.Base64
