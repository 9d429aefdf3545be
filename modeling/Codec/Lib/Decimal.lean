import Mathlib.Algebra.Group.Nat.Defs
import Mathlib.Data.List.Nodup

set_option autoImplicit false

namespace Codec.Lib

def digitOf (byte : UInt8) : Char := Char.ofNat byte.toNat

def digitText (value : Nat) : List UInt8 := (Nat.toDigits 10 value).map fun char => UInt8.ofNat char.toNat

theorem digit_byte (char : Char) (digit : char.isDigit = true) :
    digitOf (UInt8.ofNat char.toNat) = char ∧ UInt8.ofNat char.toNat ≠ 45 := by
  simp only [Char.isDigit, Bool.and_eq_true, decide_eq_true_eq, ge_iff_le] at digit
  have low : 48 ≤ char.toNat := UInt32.le_iff_toNat_le.mp digit.1
  have high : char.toNat ≤ 57 := UInt32.le_iff_toNat_le.mp digit.2
  have byte : (UInt8.ofNat char.toNat).toNat = char.toNat := by
    rw [UInt8.toNat_ofNat']
    omega
  constructor
  · rw [digitOf, byte, Char.ofNat_toNat]
  · intro minus
    rw [minus] at byte
    change 45 = char.toNat at byte
    omega

theorem digit_text_back (value : Nat) : (digitText value).map digitOf = Nat.toDigits 10 value := by
  rw [digitText, List.map_map]
  refine (List.map_congr_left fun char there => ?_).trans (List.map_id _)
  exact (digit_byte char (Nat.isDigit_of_mem_toDigits (by decide) (by decide) there)).1

theorem digit_text_injective (left right : Nat) (same : digitText left = digitText right) : left = right := by
  have digits := congrArg (List.map digitOf) same
  rw [digit_text_back, digit_text_back] at digits
  have numbers := congrArg (Nat.ofDigitChars 10 · 0) digits
  simpa only [Nat.ofDigitChars_ten_toDigits] using numbers

theorem digit_text_unsigned (value : Nat) (rest : List UInt8) : digitText value ≠ 45 :: rest := by
  intro signed
  have there : (45 : UInt8) ∈ digitText _ := signed ▸ List.mem_cons_self
  obtain ⟨char, digit, minus⟩ := List.mem_map.mp there
  exact (digit_byte char (Nat.isDigit_of_mem_toDigits (by decide) (by decide) digit)).2 minus

theorem digit_text_low (value : Nat) (byte : UInt8) (member : byte ∈ digitText value) : 48 ≤ byte.toNat := by
  obtain ⟨char, inside, same⟩ := List.mem_map.mp member
  have digit := Nat.isDigit_of_mem_toDigits (by decide) (by decide) inside
  obtain ⟨low, high⟩ := Char.isDigit_iff_toNat.mp digit
  rw [← same, UInt8.toNat_ofNat_of_lt' (Nat.lt_of_le_of_lt high (by decide))]
  exact low

theorem digit_text_length (value : Nat) : (digitText value).length = (Nat.toDigits 10 value).length := List.length_map _

theorem digit_text_short (small large : Nat) (below : small ≤ large) : (digitText small).length ≤ (digitText large).length := by
  rw [digit_text_length, digit_text_length]
  have positive : 0 < (Nat.toDigits 10 large).length := Nat.length_toDigits_pos
  have bound := (Nat.length_toDigits_le_iff (by decide) positive).mp (Nat.le_refl _)
  exact (Nat.length_toDigits_le_iff (by decide) positive).mpr (Nat.lt_of_le_of_lt below bound)

theorem digit_text_cut (value drop : Nat) (some : drop < (digitText value).length) :
    digitText (value / 10 ^ drop) = (digitText value).take ((digitText value).length - drop) := by
  induction drop generalizing value with
  | zero => rw [Nat.pow_zero, Nat.div_one, Nat.sub_zero, List.take_length]
  | succ drop ih =>
    have large : 10 ≤ value := by
      by_contra small
      rw [digit_text_length, Nat.toDigits_of_lt_base (Nat.lt_of_not_le small), List.length_singleton] at some
      omega
    have last : ∃ byte, digitText value = digitText (value / 10) ++ [byte] := by
      rw [digitText, Nat.toDigits_of_base_le (by decide) large, List.map_append]
      exact ⟨_, rfl⟩
    obtain ⟨byte, split⟩ := last
    rw [split, List.length_append, List.length_singleton] at some ⊢
    have inner := ih _ (Nat.lt_of_succ_lt_succ some)
    rw [Nat.add_sub_add_right, List.take_append_of_le_length (Nat.sub_le _ _), ← inner, Nat.div_div_eq_div_mul, Nat.pow_succ']

end Codec.Lib
