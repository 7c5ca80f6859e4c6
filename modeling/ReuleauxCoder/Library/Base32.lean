import Mathlib

/-!
# Base32

Bytes written in an alphabet of 32 letters: the bits of the bytes, most significant
first, in groups of five, the last group filled with zeros.  As every byte has eight
bits, the number of groups tells the number of bytes, so the letters tell the bytes even
without the padding that makes their number a multiple of eight.
-/

namespace Base32

open List

abbrev Byte := Fin 256

/-! ## Bits -/

/-- The bits of a byte, the most significant one first. -/
def bits (byte : Byte) : List Bool :=
  [byte.val.testBit 7, byte.val.testBit 6, byte.val.testBit 5, byte.val.testBit 4,
    byte.val.testBit 3, byte.val.testBit 2, byte.val.testBit 1, byte.val.testBit 0]

@[simp]
theorem length_bits (byte : Byte) : (bits byte).length = 8 := rfl

theorem bits_injective : Function.Injective bits := by
  intro left right heq
  simp only [bits, List.cons.injEq, and_true] at heq
  apply Fin.ext
  apply Nat.eq_of_testBit_eq
  intro index
  rcases Nat.lt_or_ge index 8 with hlow | hhigh
  · interval_cases index <;> tauto
  · have hbit : ∀ byte : Byte, byte.val.testBit index = false := by
      intro byte
      apply Nat.testBit_lt_two_pow
      calc byte.val < 2 ^ 8 := byte.isLt
        _ ≤ 2 ^ index := Nat.pow_le_pow_right (by decide) hhigh
    rw [hbit, hbit]

theorem length_flatMap_bits (bytes : List Byte) :
    (bytes.flatMap bits).length = 8 * bytes.length := by
  induction bytes with
  | nil => rfl
  | cons byte rest ih =>
      rw [flatMap_cons, length_append, length_bits, ih, length_cons]
      omega

theorem flatMap_bits_injective :
    Function.Injective fun bytes : List Byte => bytes.flatMap bits := by
  intro left
  induction left with
  | nil =>
      intro right heq
      have hlength := congrArg List.length heq
      simp only [length_flatMap_bits, length_nil] at hlength
      exact (length_eq_zero_iff.mp (by omega)).symm
  | cons byte rest ih =>
      intro right heq
      cases right with
      | nil =>
          have hlength := congrArg List.length heq
          simp only [length_flatMap_bits, length_cons, length_nil] at hlength
          omega
      | cons other more =>
          simp only [flatMap_cons] at heq
          obtain ⟨hbits, hrest⟩ := append_inj heq rfl
          rw [bits_injective hbits, ih hrest]

/-! ## Groups of five -/

/-- The number that five bits stand for. -/
def digit (a b c d e : Bool) : Fin 32 :=
  Fin.ofNat 32 (16 * a.toNat + 8 * b.toNat + 4 * c.toNat + 2 * d.toNat + e.toNat)

theorem testBit_digit : ∀ a b c d e : Bool,
    (digit a b c d e).val.testBit 4 = a ∧ (digit a b c d e).val.testBit 3 = b ∧
      (digit a b c d e).val.testBit 2 = c ∧ (digit a b c d e).val.testBit 1 = d ∧
        (digit a b c d e).val.testBit 0 = e := by
  decide

theorem digit_inj {a b c d e a' b' c' d' e' : Bool}
    (hdigit : digit a b c d e = digit a' b' c' d' e') :
    a = a' ∧ b = b' ∧ c = c' ∧ d = d' ∧ e = e' := by
  have hleft := testBit_digit a b c d e
  rw [hdigit] at hleft
  have hright := testBit_digit a' b' c' d' e'
  exact ⟨hleft.1.symm.trans hright.1, hleft.2.1.symm.trans hright.2.1,
    hleft.2.2.1.symm.trans hright.2.2.1, hleft.2.2.2.1.symm.trans hright.2.2.2.1,
    hleft.2.2.2.2.symm.trans hright.2.2.2.2⟩

def groups : List Bool → List (Fin 32)
  | a :: b :: c :: d :: e :: rest => digit a b c d e :: groups rest
  | [a, b, c, d] => [digit a b c d false]
  | [a, b, c] => [digit a b c false false]
  | [a, b] => [digit a b false false false]
  | [a] => [digit a false false false false]
  | [] => []

theorem length_groups (stream : List Bool) : (groups stream).length = (stream.length + 4) / 5 := by
  fun_induction groups stream with
  | case1 a b c d e rest ih =>
      simp only [length_cons, ih]
      omega
  | case2 | case3 | case4 | case5 | case6 => simp

/-- Groups tell the bits, when the number of bits is known. -/
theorem groups_inj {left right : List Bool} (hlength : left.length = right.length)
    (hgroups : groups left = groups right) : left = right := by
  fun_induction groups left generalizing right with
  | case1 a b c d e rest ih =>
      match right with
      | a' :: b' :: c' :: d' :: e' :: rest' =>
          rw [groups, List.cons.injEq] at hgroups
          obtain ⟨rfl, rfl, rfl, rfl, rfl⟩ := digit_inj hgroups.1
          simp only [length_cons, Nat.add_right_cancel_iff] at hlength
          rw [ih hlength hgroups.2]
      | [] | [_] | [_, _] | [_, _, _] | [_, _, _, _] => simp at hlength
  | case2 a b c d =>
      obtain ⟨a', b', c', d', rfl⟩ := length_eq_four.mp hlength.symm
      obtain ⟨rfl, rfl, rfl, rfl, -⟩ := digit_inj (List.cons.inj hgroups).1
      rfl
  | case3 a b c =>
      obtain ⟨a', b', c', rfl⟩ := length_eq_three.mp hlength.symm
      obtain ⟨rfl, rfl, rfl, -⟩ := digit_inj (List.cons.inj hgroups).1
      rfl
  | case4 a b =>
      obtain ⟨a', b', rfl⟩ := length_eq_two.mp hlength.symm
      obtain ⟨rfl, rfl, -⟩ := digit_inj (List.cons.inj hgroups).1
      rfl
  | case5 a =>
      obtain ⟨a', rfl⟩ := length_eq_one_iff.mp hlength.symm
      obtain ⟨rfl, -⟩ := digit_inj (List.cons.inj hgroups).1
      rfl
  | case6 => exact (length_eq_zero_iff.mp hlength.symm).symm

/-! ## Letters -/

def digits (bytes : List Byte) : List (Fin 32) :=
  groups (bytes.flatMap bits)

theorem digits_injective : Function.Injective digits := by
  intro left right heq
  have hlength := congrArg List.length heq
  simp only [digits, length_groups, length_flatMap_bits] at hlength
  apply flatMap_bits_injective
  apply groups_inj _ heq
  rw [length_flatMap_bits, length_flatMap_bits]
  omega

section Letters

variable {α : Type*} (alphabet : Fin 32 → α) (padding : α)

/-- The letters, filled up to a multiple of eight. -/
def encode (bytes : List Byte) : List α :=
  (digits bytes).map alphabet ++
    List.replicate ((8 - (digits bytes).length % 8) % 8) padding

variable {alphabet padding} [DecidableEq α]

theorem rdropWhile_append_replicate {letters : List α} (hletters : padding ∉ letters)
    (count : ℕ) :
    (letters ++ List.replicate count padding).rdropWhile (· = padding) = letters := by
  induction count with
  | zero =>
      rw [replicate_zero, append_nil, rdropWhile_eq_self_iff]
      intro hne hlast
      have hpadding : letters.getLast hne = padding := by simpa using hlast
      exact hletters (hpadding ▸ getLast_mem hne)
  | succ count ih =>
      rw [replicate_succ', ← append_assoc, rdropWhile_concat_pos _ _ _ (by simp),
        ih]

/-- Without the padding, the letters are left. -/
theorem rdropWhile_encode (hpadding : ∀ value, alphabet value ≠ padding) (bytes : List Byte) :
    (encode alphabet padding bytes).rdropWhile (· = padding) = (digits bytes).map alphabet := by
  apply rdropWhile_append_replicate
  intro hmem
  obtain ⟨value, -, hvalue⟩ := mem_map.mp hmem
  exact hpadding value hvalue

end Letters

end Base32
