import Codec.Lib.Decimal
import Codec.Wireless.Server

set_option autoImplicit false

namespace Codec.Wireless

open Codec.Lib List
open Codec.Fw (emsAtoi isSpace digitsFrom decimalDigit)
open Codec.Ssid (emsItoa)

section Numbers

theorem decimal_digit (char : Char) (digit : char.isDigit = true) :
    decimalDigit (UInt8.ofNat char.toNat) = some (char.toNat - 48) ∧ isSpace (UInt8.ofNat char.toNat) = false ∧
      UInt8.ofNat char.toNat ≠ 45 ∧ UInt8.ofNat char.toNat ≠ 43 := by
  simp only [Char.isDigit, Bool.and_eq_true, decide_eq_true_eq, ge_iff_le] at digit
  have low : 48 ≤ char.toNat := UInt32.le_iff_toNat_le.mp digit.1
  have high : char.toNat ≤ 57 := UInt32.le_iff_toNat_le.mp digit.2
  generalize char.toNat = value at low high
  have cases : ∀ value < 58, 48 ≤ value → decimalDigit (UInt8.ofNat value) = some (value - 48) ∧
      isSpace (UInt8.ofNat value) = false ∧ UInt8.ofNat value ≠ 45 ∧ UInt8.ofNat value ≠ 43 := by decide
  exact cases _ (by omega) low

theorem digits_from_text (chars : List Char) (digits : ∀ char ∈ chars, char.isDigit = true) (sum : Nat) :
    digitsFrom 10 decimalDigit (chars.map fun char => UInt8.ofNat char.toNat) sum = (Nat.ofDigitChars 10 chars sum, []) := by
  induction chars generalizing sum with
  | nil => rfl
  | cons char rest ih =>
    rw [map_cons, digitsFrom, (decimal_digit char (digits char mem_cons_self)).1, Nat.ofDigitChars_cons, Nat.mul_comm]
    exact ih (fun other there => digits _ (mem_cons_of_mem _ there)) _

theorem atoi_digits (number : Nat) (small : number < 2 ^ 31) : emsAtoi (digitText number) = number := by
  have digits : ∀ char ∈ Nat.toDigits 10 number, char.isDigit = true :=
    fun char there => Nat.isDigit_of_mem_toDigits (by decide) (by decide) there
  have value := digits_from_text _ digits 0
  rw [Nat.ofDigitChars_ten_toDigits] at value
  rw [emsAtoi, digitText]
  cases text : Nat.toDigits 10 _ with
  | nil => exact absurd text (ne_nil_of_length_pos Nat.length_toDigits_pos)
  | cons char rest =>
    rw [text] at value
    obtain ⟨_, solid, minus, plus⟩ := decimal_digit char (digits char (text ▸ mem_cons_self))
    rw [map_cons] at value ⊢
    rw [dropWhile_cons_of_neg (by rw [solid]; exact Bool.false_ne_true)]
    dsimp only
    rw [if_neg minus, if_neg plus, value]
    rw [Int.bmod_def]
    split <;> omega

theorem itoa_digits (number : Nat) : emsItoa number = digitText number := by
  have plain : ¬ (number : Int) < 0 := by omega
  rw [emsItoa, if_neg plain]
  rfl

end Numbers

theorem create_id (id : Nat) (small : id < 2 ^ 31) : ifaceId (emsUciCreateSsid id) = some (id : Int) := by
  have text : jsonText (emsUciCreateSsid id) emsIfaceId = emsItoa id := rfl
  have filled : emsItoa id ≠ [] := by
    rw [itoa_digits, digitText]
    exact fun empty => ne_nil_of_length_pos (l := Nat.toDigits 10 id) Nat.length_toDigits_pos (map_eq_nil_iff.mp empty)
  rw [ifaceId, text]
  rw [if_neg filled, itoa_digits, atoi_digits id small]

theorem update_id (id : Nat) (jobj : ServerSsid) (obj : Json) : ifaceId (ssidUpdate id jobj obj) = ifaceId obj := by
  rw [ifaceId, ifaceId, jsonText, jsonText, update_other id jobj obj _ ruled_keys_free.2]

def touchFrom : Nat → List ServerSsid → Json → Json
  | _, [], obj => obj
  | i, jobj :: rest, obj =>
    touchFrom (i + 1) rest (if ifaceId obj = some ((i + 1 : Nat) : Int) then ssidUpdate (i + 1) jobj obj else obj)

def newFrom (ids : List (Option Int)) : Nat → List ServerSsid → List Json
  | _, [] => []
  | i, jobj :: rest =>
    if some ((i + 1 : Nat) : Int) ∈ ids then newFrom ids (i + 1) rest
    else ssidUpdate (i + 1) jobj (emsUciCreateSsid (i + 1)) :: newFrom ids (i + 1) rest

def Numbered (low high : Nat) (ids : List (Option Int)) : Prop :=
  ids.Pairwise fun first second => ∀ id : Nat, low < id → id ≤ high → first = some (id : Int) → second ≠ some (id : Int)

theorem touch_other (i : Nat) (server : List ServerSsid) (obj : Json)
    (other : ∀ j < server.length, ifaceId obj ≠ some ((i + j + 1 : Nat) : Int)) : touchFrom i server obj = obj := by
  induction server generalizing i with
  | nil => rfl
  | cons jobj rest ih =>
    rw [touchFrom, if_neg (other 0 (Nat.zero_lt_succ _))]
    refine ih _ fun j below => ?_
    have next := other _ (Nat.succ_lt_succ below)
    rwa [show i + (j + 1) + 1 = i + 1 + j + 1 by omega] at next

theorem touch_at (i j : Nat) (server : List ServerSsid) (jobj : ServerSsid) (obj : Json) (given : server[j]? = some jobj)
    (here : ifaceId obj = some ((i + j + 1 : Nat) : Int)) : touchFrom i server obj = ssidUpdate (i + j + 1) jobj obj := by
  induction server generalizing i j with
  | nil => exact nomatch given
  | cons first rest ih =>
    rw [touchFrom]
    cases j with
    | zero =>
      have same : first = jobj := Option.some.inj given
      rw [if_pos here, same]
      refine touch_other _ rest _ fun j _ => ?_
      rw [update_id, here, ne_eq, Option.some_inj]
      omega
    | succ j =>
      have other : ifaceId obj ≠ some ((i + 1 : Nat) : Int) := by
        rw [here, ne_eq, Option.some_inj]
        omega
      rw [if_neg other, ih _ j given (by rw [here]; congr 2; omega)]
      congr 1
      omega

theorem new_seen (ids : List (Option Int)) (i id : Nat) (server : List ServerSsid) (seen : id ≤ i) :
    newFrom (ids ++ [some (id : Int)]) i server = newFrom ids i server := by
  induction server generalizing i with
  | nil => rfl
  | cons jobj rest ih =>
    have other : some ((i + 1 : Nat) : Int) ≠ some (id : Int) := by
      rw [ne_eq, Option.some_inj]
      omega
    have same : some ((i + 1 : Nat) : Int) ∈ ids ++ [some (id : Int)] ↔ some ((i + 1 : Nat) : Int) ∈ ids := by
      rw [mem_append, mem_singleton, or_iff_left other]
    rw [newFrom, newFrom, ih _ (by omega)]
    simp only [same]

theorem found_modified (cfg : List Json) (id : Nat) (change : Json → Json) (unique : Numbered (id - 1) id (cfg.map ifaceId))
    (positive : 0 < id) : (emsUciFindSsid cfg id).elim (some (id : Int) ∉ cfg.map ifaceId)
      (fun p => cfg.modify p change = cfg.map (fun obj => if ifaceId obj = some (id : Int) then change obj else obj) ∧
        some (id : Int) ∈ cfg.map ifaceId) := by
  rw [emsUciFindSsid]
  induction cfg with
  | nil => exact not_mem_nil
  | cons obj rest ih =>
    obtain ⟨apart, later⟩ := pairwise_cons.mp unique
    rw [findIdx?_cons]
    by_cases here : ifaceId obj = some (id : Int)
    · rw [decide_eq_true here, if_pos rfl, Option.elim_some, modify_zero_cons, map_cons, if_pos here]
      have rest_same : rest.map (fun obj => if ifaceId obj = some (id : Int) then change obj else obj) = rest := by
        refine (map_congr_left fun other there => ?_).trans (map_id _)
        exact if_neg (apart _ (mem_map_of_mem there) id (by omega) (Nat.le_refl _) here)
      rw [rest_same, map_cons, here]
      exact ⟨rfl, mem_cons_self⟩
    · have rest_case := ih later
      rw [decide_eq_false here, if_neg Bool.false_ne_true, map_cons, map_cons, if_neg here, mem_cons,
        or_iff_right (Ne.symm here)]
      cases found : rest.findIdx? fun obj => decide (ifaceId obj = some _) with
      | none =>
        rw [found] at rest_case
        exact rest_case
      | some p =>
        rw [found] at rest_case
        exact ⟨congrArg _ rest_case.1, rest_case.2⟩

theorem update_eq (i : Nat) (server : List ServerSsid) (cfg : List Json) (small : i + server.length < 2 ^ 31)
    (unique : Numbered i (i + server.length) (cfg.map ifaceId)) :
    clWirelessCfgUpdate i server cfg = cfg.map (touchFrom i server) ++ newFrom (cfg.map ifaceId) i server := by
  induction server generalizing i cfg with
  | nil =>
    rw [clWirelessCfgUpdate, newFrom, append_nil]
    exact (map_id _).symm
  | cons jobj rest ih =>
    rw [length_cons] at small unique
    have one : Numbered _ (i + 1) _ := Pairwise.imp (fun apart id low high => apart id (by omega) (by omega)) unique
    have found := found_modified cfg (i + 1) (ssidUpdate (i + 1) jobj) one (Nat.succ_pos _)
    have others : Numbered (i + 1) (i + 1 + rest.length) _ :=
      Pairwise.imp (fun apart id low high => apart id (by omega) (by omega)) unique
    rw [clWirelessCfgUpdate, newFrom]
    cases place : emsUciFindSsid cfg _ with
    | some p =>
      rw [place] at found
      obtain ⟨changed, there⟩ := found
      have ids : (cfg.map fun obj => if ifaceId obj = some ((i + 1 : Nat) : Int) then ssidUpdate (i + 1) jobj obj else obj).map ifaceId =
          cfg.map ifaceId := by
        rw [map_map]
        refine map_congr_left fun obj _ => ?_
        rw [Function.comp_apply]
        split
        · exact update_id _ _ _
        · rfl
      dsimp only
      rw [if_pos there, changed, ih _ _ (by omega) (ids ▸ others), ids, map_map]
      rfl
    | none =>
      rw [place, Option.elim_none] at found
      have number : ifaceId (ssidUpdate (i + 1) jobj (emsUciCreateSsid (i + 1))) = some ((i + 1 : Nat) : Int) := by
        rw [update_id, create_id _ (by omega)]
      have still : Numbered (i + 1) (i + 1 + rest.length)
          ((cfg ++ [ssidUpdate (i + 1) jobj (emsUciCreateSsid (i + 1))]).map ifaceId) := by
        rw [map_append, map_singleton, number]
        refine pairwise_append.mpr ⟨others, pairwise_singleton _ _, fun first _ second there id low _ _ same => ?_⟩
        rw [mem_singleton.mp there, Option.some_inj] at same
        omega
      have plain : touchFrom (i + 1) rest (ssidUpdate (i + 1) jobj (emsUciCreateSsid (i + 1))) =
          ssidUpdate (i + 1) jobj (emsUciCreateSsid (i + 1)) := by
        refine touch_other _ _ _ fun j _ => ?_
        rw [number, ne_eq, Option.some_inj]
        omega
      have untouched : cfg.map (touchFrom i (jobj :: rest)) = cfg.map (touchFrom (i + 1) rest) := by
        refine map_congr_left fun obj there => ?_
        have absent : ifaceId obj ≠ some _ := fun same => found (same ▸ mem_map_of_mem there)
        rw [touchFrom, if_neg absent]
      rw [if_neg found, ih _ _ (by omega) still, map_append, map_append, map_singleton,
        map_singleton, number, new_seen _ _ _ _ (Nat.le_refl _), plain, untouched, append_assoc]
      rfl

end Codec.Wireless
