import Codec.Net.Check

set_option autoImplicit false

namespace Codec.Net

open Codec.Ems

-- The sum of ping_chksum and ra_ping_chksum on a little-endian machine. It is
-- within an ems_int: no IP packet is longer than 65535 bytes.
def wordSum : Str → Nat
  | low :: high :: rest => low.toNat + 256 * high.toNat + wordSum rest
  | [last] => last.toNat
  | [] => 0

def pingChksum (packet : Str) : UInt16 :=
  let sum := wordSum packet / 65536 + wordSum packet % 65536
  ~~~UInt16.ofNat (sum + sum / 65536)

-- The packet of ping_st_into_ping with what gettimeofday stores; icmp_id is
-- not swapped, and the fill goes on behind the 64 bytes that are sent.
def icmpEcho (echo : Echo) (time : Str) : Str :=
  let fill := (List.range' 8 48).map UInt8.ofNat
  let ident := [UInt8.ofNat echo.ident, UInt8.ofNat (echo.ident / 256)]
  let body := (ident ++ [UInt8.ofNat (echo.seq / 256), UInt8.ofNat echo.seq] ++ time ++ fill).take 60
  let sum := (pingChksum ([8, 0, 0, 0] ++ body)).toNat
  [8, 0, UInt8.ofNat sum, UInt8.ofNat (sum / 256)] ++ body

theorem word_sum_le (packet : Str) : wordSum packet ≤ 65535 * packet.length := by
  induction packet using wordSum.induct with
  | case1 low high rest ih =>
    have first := low.toNat_lt
    have second := high.toNat_lt
    simp only [wordSum, List.length_cons]
    omega
  | case2 last =>
    have first := last.toNat_lt
    simp only [wordSum, List.length_singleton]
    omega
  | case3 => exact Nat.zero_le _

theorem word_sum_append (first second : Str) (even : first.length % 2 = 0) :
    wordSum (first ++ second) = wordSum first + wordSum second := by
  induction first using wordSum.induct with
  | case1 low high rest ih =>
    simp only [List.length_cons] at even
    simp only [List.cons_append, wordSum, ih (by omega)]
    omega
  | case2 last => cases even
  | case3 => simp [wordSum]

theorem chksum_spec (packet : Str) (short : packet.length ≤ 65535) :
    (wordSum packet + (pingChksum packet).toNat) % 65535 = 0 ∧ ((pingChksum packet).toNat = 65535 ↔ wordSum packet = 0) := by
  have bound := word_sum_le packet
  have whole := Nat.div_add_mod (wordSum packet) 65536
  have low := Nat.mod_lt (wordSum packet) (y := 65536) (by decide)
  rw [pingChksum, UInt16.toNat_not, UInt16.toNat_ofNat', UInt16.size]
  generalize wordSum packet / 65536 = high, wordSum packet % 65536 = rest at whole low ⊢
  rcases Nat.lt_or_ge (high + rest) 65536 with none | carry
  · rw [Nat.div_eq_of_lt none, Nat.add_zero, Nat.mod_eq_of_lt none]
    omega
  · have one : (high + rest) / 65536 = 1 := by omega
    have kept : (high + rest + 1) % 2 ^ 16 = high + rest - 65535 := by omega
    rw [one, kept]
    omega

theorem chksum_zero (packet : Str) (short : packet.length ≤ 65535) :
    pingChksum packet = 0 ↔ 0 < wordSum packet ∧ wordSum packet % 65535 = 0 := by
  have sum := chksum_spec _ short
  have bound := (pingChksum packet).toNat_lt
  rw [← UInt16.toNat_inj, UInt16.toNat_zero]
  omega

-- A receiver finds the sum in order, and with another word in the packet only
-- where the two are 0 and 65535.
theorem echo_verifies (echo : Echo) (time before after : Str) (low high one two : UInt8)
    (packet : icmpEcho echo time = before ++ ([low, high] ++ after)) (even : before.length % 2 = 0) :
    pingChksum (icmpEcho echo time) = 0 ∧ (pingChksum (before ++ ([one, two] ++ after)) = 0 →
      (one.toNat + 256 * two.toNat) % 65535 = (low.toNat + 256 * high.toNat) % 65535) := by
  have sealed : (icmpEcho echo time).length ≤ 64 ∧ pingChksum (icmpEcho echo time) = 0 := by
    unfold icmpEcho
    dsimp only
    generalize hbody : List.take 60 _ = body
    have bound : body.length ≤ 60 := by
      rw [← hbody]
      exact List.length_take_le 60 _
    have sum := chksum_spec ([8, 0, 0, 0] ++ body) (by simp; omega)
    have total := (pingChksum ([8, 0, 0, 0] ++ body)).toNat_lt
    refine ⟨by simp; omega, (chksum_zero _ (by simp; omega)).mpr ?_⟩
    generalize (pingChksum _).toNat = check at sum total ⊢
    have eight : UInt8.toNat 8 = 8 := rfl
    simp only [List.cons_append, List.nil_append, wordSum, UInt8.toNat_ofNat', UInt8.toNat_zero, eight] at sum ⊢
    omega
  refine ⟨sealed.2, ?_⟩
  rw [packet] at sealed
  obtain ⟨size, zero⟩ := sealed
  simp only [List.length_append, List.length_cons] at size
  rw [chksum_zero _ (by simp; omega), word_sum_append _ _ even] at zero ⊢
  simp only [List.cons_append, List.nil_append, wordSum] at zero ⊢
  omega

def sampleEcho : Str := icmpEcho ⟨7, 1⟩ [1, 2, 3, 4, 5, 6, 7, 8, 9, 10, 11, 12, 13, 14, 15, 16]

theorem echo_verifies_sample : pingChksum sampleEcho = 0 ∧
    (pingChksum (sampleEcho.take 8 ++ ([7, 7] ++ sampleEcho.drop 10)) = 0 → (7 + 256 * 7) % 65535 = (1 + 256 * 2) % 65535) :=
  echo_verifies _ _ _ _ 1 2 7 7 (by decide) rfl

end Codec.Net
