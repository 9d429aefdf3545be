import Codec.Ems.Text
import Codec.Portal.Requests
import Codec.Ems.BufferSim

set_option autoImplicit false

namespace Codec.Portal

open Codec.Ems List

variable (s d : List UInt8) (size : Nat)

def store (mem : List UInt8) (pos : Nat) (bytes : List UInt8) : Option (List UInt8) :=
  if pos + bytes.length ≤ mem.length then some (overwrite mem pos bytes) else none

def snprintf (mem : List UInt8) (pos size : Nat) (text : Str) : Option (List UInt8) :=
  if size = 0 then some mem else store mem pos (text.take (size - 1) ++ [0])

def hexByte (byte : UInt8) : Str := [hexDigit (byte / 16), hexDigit (byte % 16)]

def bin2strLoop : List UInt8 → Nat → Nat → List UInt8 → Option (List UInt8)
  | mem, _, _, [] => some mem
  | mem, pos, size, byte :: rest =>
    if size = 0 then some mem
    else (snprintf mem pos size (hexByte byte)).bind fun mem => bin2strLoop mem (pos + 2) (size - 2) rest

def radiusLoop : List UInt8 → Nat → Nat → Str → Option (List UInt8 × Nat)
  | mem, pos, _, [] => some (mem, pos)
  | mem, pos, i, char :: rest =>
    (store mem pos [char]).bind fun mem =>
      if i % 2 = 0 then radiusLoop mem (pos + 1) (i + 1) rest
      else (store mem (pos + 1) [58]).bind fun mem => radiusLoop mem (pos + 2) (i + 1) rest

def macToRadius (buff : List UInt8) (mac : Str) : Option (List UInt8) :=
  (radiusLoop buff 0 0 mac).bind fun (mem, pos) => if pos = 0 then none else store mem (pos - 1) [0]

def ptlLoop : List UInt8 → Nat → Str → Option (List UInt8)
  | mem, _, [] => some mem
  | mem, pos, char :: rest =>
    if char = 58 then ptlLoop mem pos rest
    else (store mem pos [char]).bind fun mem => ptlLoop mem (pos + 1) rest

def macRoom : Nat := 32

-- radius_mac_to_ptl clears its buffer. A text without a NUL in the buffer is
-- read past the end by the caller.
def macToPtl (mac : Str) : Option Str :=
  (ptlLoop (List.replicate macRoom 0) 0 mac).bind fun mem => if 0 ∈ mem then some (cString mem) else none

theorem overwrite_twice (mem first rest : List UInt8) (pos next : Nat) (inside : pos ≤ next) (meets : next ≤ pos + first.length)
    (covers : pos + first.length ≤ next + rest.length) (fits : pos + first.length ≤ mem.length) :
    overwrite (overwrite mem pos first) next rest = overwrite mem pos (first.take (next - pos) ++ rest) := by
  have length : (mem.take pos).length = pos := by
    rw [length_take]
    omega
  have front : (overwrite mem pos first).take next = mem.take pos ++ first.take (next - pos) := by
    rw [overwrite, append_assoc, take_append, length, take_of_length_le (by omega),
      take_append_of_le_length (by omega)]
  have back : (overwrite mem pos first).drop (next + rest.length) = mem.drop (next + rest.length) := by
    rw [overwrite, drop_append, drop_eq_nil_of_le (by rw [length_append, length]; omega), nil_append,
      drop_drop, length_append, length]
    congr 1
    omega
  have shorter : (first.take (next - pos)).length = next - pos := by
    rw [length_take]
    omega
  rw [overwrite, front, back, overwrite, length_append, shorter, append_assoc, append_assoc, append_assoc,
    append_assoc, show pos + (next - pos + rest.length) = next + rest.length by omega]

theorem store_append (mem first rest : List UInt8) (pos : Nat) :
    ((store mem pos first).bind fun mem => store mem (pos + first.length) rest) = store mem pos (first ++ rest) := by
  by_cases fits : pos + first.length ≤ mem.length
  · have size := overwrite_length mem pos _ fits
    have joined := overwrite_twice mem _ rest pos (pos + first.length) (by omega) (by omega) (by omega) fits
    rw [Nat.add_sub_cancel_left, take_length] at joined
    simp only [store, if_pos fits, Option.bind_some, size, joined, length_append, Nat.add_assoc]
  · rw [store, if_neg fits, Option.bind_none, store, if_neg (by rw [length_append]; omega)]

variable (val : List UInt8) (text : Str) (mem : List UInt8)

theorem store_nil (pos : Nat) (inside : pos ≤ mem.length) : store mem pos [] = some mem := by simp [store, overwrite, inside]

theorem store_some (mem bytes after : List UInt8) (pos : Nat) (stored : store mem pos bytes = some after) :
    pos + bytes.length ≤ mem.length ∧ after = overwrite mem pos bytes ∧ after.length = mem.length := by
  rw [store, Option.ite_none_right_eq_some] at stored
  obtain ⟨fits, same⟩ := stored
  cases same
  exact ⟨fits, rfl, overwrite_length mem pos _ fits⟩

def colonsFrom : Nat → Str → Str
  | _, [] => []
  | i, char :: rest => (if i % 2 = 0 then [char] else [char, 58]) ++ colonsFrom (i + 1) rest

theorem colons_from_even (i : Nat) (even : i % 2 = 0) : colonsFrom i text = colons text := by
  induction text using colons.induct generalizing i with
  | case1 first second rest ih =>
    have odd : ¬(i + 1) % 2 = 0 := by omega
    simp [colonsFrom, colons, even, odd, ih (i + 1 + 1) (by omega)]
  | case2 rest single =>
    cases rest with
    | nil => rfl
    | cons char more =>
      cases more with
      | nil => simp [colonsFrom, colons, even]
      | cons other later => exact absurd rfl (single char _ _)

theorem radius_loop_store (pos i : Nat) (inside : pos ≤ mem.length) :
    radiusLoop mem pos i text = (store mem pos (colonsFrom i text)).map fun mem => (mem, pos + (colonsFrom i text).length) := by
  induction text generalizing mem pos i with
  | nil => simp [radiusLoop, colonsFrom, store_nil mem pos inside]
  | cons char rest ih =>
    let turn := if i % 2 = 0 then [char] else [char, 58]
    have step : radiusLoop mem pos i (char :: rest) =
        (store mem pos turn).bind fun mem => radiusLoop mem (pos + turn.length) (i + 1) rest := by
      by_cases even : i % 2 = 0
      · simp [turn, radiusLoop, even]
      · have two := store_append mem [char] [58] pos
        simp only [turn, if_neg even, radiusLoop]
        simp only [length_cons, length_nil, cons_append, nil_append] at two
        rw [← two, Option.bind_assoc]
        rfl
    have whole : colonsFrom i (char :: rest) = turn ++ colonsFrom _ rest := rfl
    rw [step, whole, ← store_append, Option.map_bind]
    apply Option.bind_congr
    intro after stored
    obtain ⟨fits, _, size⟩ := store_some mem turn _ pos stored
    rw [ih _ _ _ (by omega)]
    simp [Nat.add_assoc]

theorem ptl_loop_store (pos : Nat) (inside : pos ≤ mem.length) :
    ptlLoop mem pos text = store mem pos (text.filter (· ≠ 58)) := by
  induction text generalizing mem pos with
  | nil => rw [ptlLoop, filter_nil, store_nil mem pos inside]
  | cons char rest ih =>
    rw [ptlLoop]
    by_cases colon : char = 58
    · rw [if_pos colon, ih mem pos inside, filter_cons_of_neg (by simpa using colon)]
    · have split := store_append mem [char] (rest.filter (· ≠ 58)) pos
      rw [if_neg colon, filter_cons_of_pos (by simpa using colon)]
      rw [singleton_append] at split
      rw [← split]
      apply Option.bind_congr
      intro after stored
      obtain ⟨fits, _, size⟩ := store_some mem _ _ pos stored
      exact ih _ _ (by simp only [length_singleton] at fits; omega)

theorem store_fits (mem bytes : List UInt8) (pos : Nat) (fits : pos + bytes.length ≤ mem.length) :
    store mem pos bytes = some (overwrite mem pos bytes) := if_pos fits

theorem hex_text_length : (val.flatMap hexByte).length = 2 * val.length := by
  induction val with
  | nil => rfl
  | cons byte rest ih =>
    simp only [flatMap_cons, length_append, ih, hexByte, length_cons, length_nil]
    omega

theorem hex_digit_range (nibble : UInt8) (small : nibble < 16) : 48 ≤ hexDigit nibble ∧ hexDigit nibble ≠ 58 := by
  have bound : nibble.toNat < 16 := small
  rw [hexDigit, UInt8.le_iff_toNat_le]
  split
  · rename_i digit
    have less : nibble.toNat < 10 := digit
    constructor
    · rw [UInt8.toNat_add]
      simp
      omega
    · intro colon
      have same := congrArg UInt8.toNat colon
      rw [UInt8.toNat_add] at same
      simp at same
      omega
  · constructor
    · rw [UInt8.toNat_add]
      simp
      omega
    · intro colon
      have same := congrArg UInt8.toNat colon
      rw [UInt8.toNat_add] at same
      simp at same
      omega

theorem hex_text_range : ∀ char ∈ val.flatMap hexByte, 48 ≤ char ∧ char ≠ 58 := by
  intro char there
  obtain ⟨byte, _, digit⟩ := mem_flatMap.mp there
  simp only [hexByte, mem_cons, not_mem_nil, or_false] at digit
  have bound := byte.toNat_lt
  obtain rfl | rfl := digit
  · exact hex_digit_range _ (by rw [UInt8.lt_iff_toNat_lt, UInt8.toNat_div]; simp; omega)
  · exact hex_digit_range _ (by rw [UInt8.lt_iff_toNat_lt, UInt8.toNat_mod]; simp; omega)

theorem bin2str_loop_spec (pos size : Nat) (some_ : val ≠ []) (room : 0 < size) (inside : pos + size ≤ mem.length) :
    bin2strLoop mem pos size val = some (overwrite mem pos ((val.flatMap hexByte).take (size - 1) ++ [0])) := by
  induction val generalizing mem pos size with
  | nil => exact absurd rfl some_
  | cons byte rest ih =>
    have digits : (hexByte byte).length = 2 := rfl
    have printed : snprintf mem pos size (hexByte byte) =
        some (overwrite mem pos ((hexByte byte).take (size - 1) ++ [0])) := by
      rw [snprintf, if_neg (by omega), store_fits]
      simp only [length_append, length_take, length_singleton, digits]
      omega
    rw [bin2strLoop, if_neg (by omega), printed, Option.bind_some, flatMap_cons]
    by_cases last : rest = []
    · rw [last, bin2strLoop, flatMap_nil, append_nil]
    · by_cases short : size ≤ 2
      · obtain ⟨next, more, same⟩ := exists_cons_of_ne_nil last
        rw [same, bin2strLoop, if_pos (by omega), take_append_of_le_length (by rw [digits]; omega)]
      · have whole : (hexByte byte).take (size - 1) = hexByte byte := take_of_length_le (by rw [digits]; omega)
        have written : pos + (hexByte byte ++ [0]).length ≤ mem.length := by
          simp only [length_append, length_singleton, digits]
          omega
        have size_ := overwrite_length mem pos _ written
        rw [whole, ih _ _ _ last (by omega) (by rw [size_]; omega),
          overwrite_twice _ _ _ _ _ (by omega) (by simp [digits]) (by simp [digits]; omega) written,
          Nat.add_sub_cancel_left, take_append_of_le_length (by rw [digits]), take_of_length_le (by rw [digits]),
          take_append, whole, digits, append_assoc, show size - 2 - 1 = size - 1 - 2 by omega]

theorem c_string_append (text mem : List UInt8) (clean : 0 ∉ text) : cString (text ++ mem) = text ++ cString mem :=
  cstr_append text mem clean

theorem c_string_nul : cString (0 :: mem) = [] := by simp [cString]

theorem c_string_over (mem text : List UInt8) (clean : 0 ∉ text) : cString (overwrite mem 0 (text ++ [0])) = text := by
  rw [overwrite, take_zero, nil_append, append_assoc, c_string_append text _ clean, singleton_append,
    c_string_nul, append_nil]

theorem c_string_clean : 0 ∉ cString mem := zero_not_mem_cstr mem

theorem bin2str_text (mac val : List UInt8) (size : mac.length = macRoom) :
    ∃ after, bin2strLoop mac 0 macRoom val = some after ∧ cString after = emsBin2str val (cString mac) := by
  by_cases nothing : val = []
  · exact ⟨mac, by rw [nothing, bin2strLoop], by rw [nothing]; rfl⟩
  · refine ⟨_, bin2str_loop_spec val mac 0 _ nothing (by decide) (by omega), ?_⟩
    rw [c_string_over, emsBin2str, if_neg nothing]
    · rfl
    · intro zero
      exact absurd (hex_text_range val 0 (mem_of_mem_take zero)).1 (by decide)

theorem colons_nil : colons text = [] ↔ text = [] := by
  match text with
  | [] => simp [colons]
  | [_] => simp [colons]
  | _ :: _ :: _ => simp [colons]

theorem colons_clean (clean : 0 ∉ text) : 0 ∉ colons text := by
  induction text using colons.induct with
  | case1 first second rest ih => simp_all [colons]
  | case2 rest single =>
    rw [colons]
    · exact clean
    · exact single

theorem mac_to_radius_text (buff mac : List UInt8) (size : buff.length = macRoom) (clean : 0 ∉ mac) :
    (macToRadius buff mac).map cString = ptlMacToRadius (some mac) := by
  have stored := radius_loop_store mac buff 0 0 (Nat.zero_le _)
  rw [colons_from_even mac 0 rfl, Nat.zero_add] at stored
  rw [macToRadius, stored, ptlMacToRadius, Option.bind_some]
  by_cases empty : mac = []
  · simp [empty, colons, store_nil]
  · have some_ : (colons mac).length ≠ 0 := fun none => empty ((colons_nil mac).mp (length_eq_zero_iff.mp none))
    by_cases long : (colons mac).length > 32
    · have outside : store buff 0 (colons mac) = none := if_neg (by rw [size, macRoom]; omega)
      simp [outside, long]
    · have fits : 0 + (colons mac).length ≤ buff.length := by rw [size, macRoom]; omega
      have written := overwrite_length buff 0 _ fits
      have back := store_fits _ [0] ((colons mac).length - 1) (by
        rw [written, size, macRoom, length_singleton]
        omega)
      have twice := overwrite_twice buff _ [0] 0 ((colons mac).length - 1) (Nat.zero_le _) (by omega)
        (by rw [length_singleton]; omega) fits
      rw [if_neg (by simp only [empty, false_or]; exact long), store_fits buff _ 0 fits]
      simp only [Option.map_some, Option.bind_some, if_neg some_, back, twice]
      rw [Nat.sub_zero, ← dropLast_eq_take, c_string_over]
      exact fun zero => colons_clean mac clean ((dropLast_subset _) zero)

theorem mac_to_ptl_text (mac : Str) (clean : 0 ∉ mac) : macToPtl mac = radiusMacToPtl (some mac) := by
  have kept : 0 ∉ mac.filter (· ≠ 58) := fun zero => clean (mem_of_mem_filter zero)
  rw [macToPtl, ptl_loop_store _ _ _ (Nat.zero_le _), radiusMacToPtl, Option.bind_some, store]
  simp only [length_replicate, Nat.zero_add, macRoom]
  by_cases fits : (mac.filter (· ≠ 58)).length ≤ 32
  · have text : overwrite (replicate 32 0) 0 (mac.filter (· ≠ 58)) =
        mac.filter (· ≠ 58) ++ replicate (32 - (mac.filter (· ≠ 58)).length) 0 := by
      rw [overwrite, take_zero, nil_append, Nat.zero_add, drop_replicate]
    rw [if_pos fits, Option.bind_some, text]
    by_cases full : (mac.filter (· ≠ 58)).length > 31
    · rw [if_pos full, if_neg]
      simp only [mem_append, kept, mem_replicate, false_or, not_and]
      omega
    · obtain ⟨spare, same⟩ := Nat.exists_eq_add_of_lt (show (mac.filter (· ≠ 58)).length < 32 by omega)
      have nul : replicate (32 - (mac.filter (· ≠ 58)).length) (0 : UInt8) = 0 :: replicate spare 0 := by
        rw [← replicate_succ]
        congr 1
        omega
      have there : (0 : UInt8) ∈ mac.filter (· ≠ 58) ++ 0 :: replicate spare 0 :=
        mem_append_right _ mem_cons_self
      rw [if_neg full, nul, if_pos there, c_string_append _ _ kept, c_string_nul, append_nil]
  · rw [if_neg fits, if_pos (by omega), Option.bind_none]

theorem colons_length : (colons text).length = text.length + text.length / 2 := by
  induction text using colons.induct with
  | case1 first second rest ih =>
    simp only [colons, length_cons, ih]
    omega
  | case2 rest single =>
    match rest with
    | [] => rfl
    | [_] => simp [colons]
    | first :: second :: more => exact absurd rfl (single _ _ more)

theorem colons_filter : (colons text).filter (· ≠ 58) = text.filter (· ≠ 58) := by
  induction text using colons.induct with
  | case1 first second rest ih =>
    rw [colons, filter_cons, filter_cons, filter_cons_of_neg (by simp), ih, filter_cons, filter_cons]
  | case2 rest single => rw [colons]; exact single

theorem colons_append (text more : Str) (even : text.length % 2 = 0) : colons (text ++ more) = colons text ++ colons more := by
  induction text using colons.induct with
  | case1 first second rest ih =>
    simp only [length_cons] at even
    simp [colons, ih (by omega)]
  | case2 rest single =>
    match rest with
    | [] => rfl
    | [_] => simp at even
    | first :: second :: rest => exact absurd rfl (single _ _ rest)

theorem colons_back (some_ : text ≠ []) : (colons text).dropLast.filter (· ≠ 58) =
    if text.length % 2 = 0 then text.filter (· ≠ 58) else text.dropLast.filter (· ≠ 58) := by
  have positive := length_pos_iff.mpr some_
  by_cases even : text.length % 2 = 0
  · obtain ⟨front, pair, split, two⟩ : ∃ front pair, text = front ++ pair ∧ pair.length = 2 :=
      ⟨_, _, (take_append_drop (text.length - 2) text).symm, by rw [length_drop]; omega⟩
    obtain ⟨first, second, same⟩ := length_eq_two.mp two
    rw [if_pos even, ← colons_filter text, split, colons_append _ pair (by rw [split, length_append] at even; omega), same,
      show colons [first, second] = [first, second] ++ [58] from rfl, ← append_assoc, dropLast_concat,
      filter_append _ [58]]
    simp
  · have last := dropLast_append_getLast some_
    have shorter : text.dropLast.length % 2 = 0 := by rw [length_dropLast]; omega
    have split := colons_append _ [text.getLast some_] shorter
    rw [last] at split
    rw [if_neg even, split, show colons [text.getLast _] = [text.getLast _] from rfl, dropLast_concat, colons_filter]

structure MacShape (text : Str) : Prop where
  plain : 58 ∉ text
  even : text.length % 2 = 0
  some : 2 ≤ text.length
  short : text.length ≤ 20

theorem radius_back_iff :
    (∃ radius, ptlMacToRadius (some text) = some radius ∧ radiusMacToPtl (some radius) = some text) ↔ MacShape text := by
  have length := colons_length text
  constructor
  · rintro ⟨radius, made, back⟩
    simp only [ptlMacToRadius, radiusMacToPtl, Option.bind_some, Option.ite_none_left_eq_some, Option.some.injEq, not_or] at made back
    obtain ⟨⟨some_, fits⟩, same⟩ := made
    have positive := length_pos_iff.mpr some_
    have plain : 58 ∉ text := by
      rw [← back.2]
      simp
    have kept := back.2
    rw [← same, colons_back text some_] at kept
    by_cases even : text.length % 2 = 0
    · exact ⟨plain, even, by omega, by omega⟩
    · have bound := length_filter_le (fun char => decide (char ≠ 58)) text.dropLast
      rw [if_neg even] at kept
      rw [kept, length_dropLast] at bound
      omega
  · rintro ⟨plain, even, many, short⟩
    have some_ : text ≠ [] := ne_nil_of_length_pos (by omega)
    have all : text.filter (· ≠ 58) = text := filter_eq_self.mpr (fun char there => by
      have other : char ≠ 58 := fun colon => plain (colon ▸ there)
      simpa using other)
    refine ⟨(colons text).dropLast, ?_, ?_⟩
    · simp only [ptlMacToRadius, Option.bind_some]
      rw [if_neg (by simp only [some_, false_or]; omega)]
    · simp only [radiusMacToPtl, Option.bind_some]
      rw [colons_back text some_, if_pos even, all, if_neg (by omega)]

-- Where ptl_evt_req_auth takes the mac from: a USERMAC attribute, or the line
-- that ems_usermac reads from arp, which may be missing.
inductive MacSource where
  | usermac (val : List UInt8)
  | arp (line : Option (List UInt8))
  deriving DecidableEq, Repr

-- The static `mac` of ptl_evt_req_auth behind it.
def MacSource.userMac (mac : List UInt8) : MacSource → Option (List UInt8)
  | .usermac val => bin2strLoop mac 0 macRoom val
  | .arp line => (line.bind fun line => macToPtl (cString line)).bind fun text => snprintf mac 0 macRoom text

def MacSound (mac buff : List UInt8) (source : MacSource) : Prop :=
  ∃ after, source.userMac mac = some after ∧
    ((∃ line, source = .arp line) ∧ cString after = [] ∨
      ∃ radius, macToRadius buff (cString after) = some radius ∧ macToPtl (cString radius) = some (cString after))

def MacSource.Fits (mac : List UInt8) : MacSource → Prop
  | .usermac val => if val = [] then MacShape (cString mac) else val.length ≤ 10
  | .arp none => False
  | .arp (some line) => (cString line).filter (· ≠ 58) = [] ∨ MacShape ((cString line).filter (· ≠ 58))

theorem radius_back_memory (buff : List UInt8) (text : Str) (size : buff.length = macRoom) (clean : 0 ∉ text) :
    (∃ radius, macToRadius buff text = some radius ∧ macToPtl (cString radius) = some text) ↔ MacShape text := by
  rw [← radius_back_iff, ← mac_to_radius_text buff text size clean]
  constructor
  · rintro ⟨radius, made, back⟩
    rw [mac_to_ptl_text _ (c_string_clean _)] at back
    exact ⟨cString _, by rw [made]; rfl, back⟩
  · rintro ⟨text, made, back⟩
    obtain ⟨radius, stored, same⟩ := Option.map_eq_some_iff.mp made
    rw [← same, ← mac_to_ptl_text _ (c_string_clean _)] at back
    exact ⟨radius, stored, back⟩

theorem hex_text_shape (some_ : val ≠ []) (old : Str) : MacShape (emsBin2str val old) ↔ val.length ≤ 10 := by
  have positive := length_pos_iff.mpr some_
  have text : emsBin2str val old = (val.flatMap hexByte).take 31 := if_neg some_
  have length : (emsBin2str val old).length = min 31 (2 * val.length) := by rw [text, length_take, hex_text_length]
  constructor
  · intro shape
    have short := shape.short
    omega
  · intro short
    refine ⟨?_, by omega, by omega, by omega⟩
    rw [text]
    intro colon
    exact (hex_text_range val 58 (mem_of_mem_take colon)).2 rfl

theorem usermac_sound (mac buff val : List UInt8) (macSize : mac.length = macRoom) (buffSize : buff.length = macRoom) :
    MacSound mac buff (.usermac val) ↔ (MacSource.usermac val).Fits mac := by
  obtain ⟨after, made, text⟩ := bin2str_text mac val macSize
  have back := radius_back_memory buff _ buffSize (c_string_clean after)
  rw [text] at back
  simp only [MacSound, MacSource.userMac, made, Option.some.injEq, exists_eq_left', text, back, reduceCtorEq, exists_false,
    false_and, false_or, MacSource.Fits]
  by_cases empty : val = []
  · rw [if_pos empty, empty]
    rfl
  · rw [if_neg empty, hex_text_shape val empty]

theorem arp_sound (mac buff : List UInt8) (line : Option (List UInt8)) (macSize : mac.length = macRoom)
    (buffSize : buff.length = macRoom) : MacSound mac buff (.arp line) ↔ (MacSource.arp line).Fits mac := by
  cases line with
  | none => simp [MacSound, MacSource.userMac, MacSource.Fits]
  | some line =>
    have converted := mac_to_ptl_text _ (c_string_clean line)
    have clean : 0 ∉ (cString line).filter (· ≠ 58) := fun zero => c_string_clean line (mem_of_mem_filter zero)
    simp only [MacSound, MacSource.userMac, MacSource.Fits, Option.bind_some, converted, radiusMacToPtl]
    by_cases long : ((cString line).filter (· ≠ 58)).length > 31
    · have none : (cString line).filter (· ≠ 58) ≠ [] := ne_nil_of_length_pos (by omega)
      have shape : ¬MacShape ((cString line).filter (· ≠ 58)) := fun shape => by
        have short := shape.short
        omega
      simp only [if_pos long, Option.bind_none, reduceCtorEq, false_and, exists_false, none, shape, or_self]
    · have printed : snprintf mac 0 macRoom ((cString line).filter (· ≠ 58)) =
          some (overwrite mac 0 ((cString line).filter (· ≠ 58) ++ [0])) := by
        rw [snprintf, if_neg (by decide), take_of_length_le (by rw [macRoom]; omega), store_fits]
        simp only [length_append, length_singleton, macSize, macRoom]
        omega
      have back := radius_back_memory buff _ buffSize clean
      have source (all : Option _) : ∃ line, MacSource.arp all = .arp line := ⟨all, rfl⟩
      simp only [if_neg long, Option.bind_some, printed, Option.some.injEq, exists_eq_left', c_string_over mac _ clean, back,
        source, true_and]

theorem mac_sound_iff (mac buff : List UInt8) (source : MacSource) (macSize : mac.length = macRoom)
    (buffSize : buff.length = macRoom) : MacSound mac buff source ↔ source.Fits mac := by
  cases source with
  | usermac val => exact usermac_sound mac buff val macSize buffSize
  | arp line => exact arp_sound mac buff line macSize buffSize

theorem mac_sound_sample : MacSound (List.replicate 32 0) (List.replicate 32 0) (.usermac [0x00, 0x1a, 0x2b, 0x3c, 0x4d, 0x5e]) :=
  (mac_sound_iff _ _ _ length_replicate length_replicate).mpr (by simp [MacSource.Fits])

-- Before the first USERMAC or arp text the static buffer is empty.
theorem empty_usermac_steps_back : ¬MacSound (List.replicate 32 0) (List.replicate 32 0) (.usermac []) := by
  rintro ⟨after, made, ⟨⟨_, other⟩, _⟩ | ⟨radius, stored, _⟩⟩
  · cases other
  · cases made
    have outside : macToRadius (replicate 32 0) (cString (replicate 32 0)) = none := by decide
    rw [outside] at stored
    cases stored

-- The loop of ems_bin2str with the number of bytes it reports. The length is
-- what is left of `s`.
def bin2strTurns : List UInt8 → Nat → Nat → List UInt8 → Option (List UInt8 × Nat)
  | mem, _, _, [] => some (mem, 0)
  | mem, pos, size, byte :: rest =>
    if size = 0 then some (mem, 0)
    else
      (snprintf mem pos size (hexByte byte)).bind fun mem =>
        (bin2strTurns mem (pos + 2) (size - 2) rest).map fun (mem, count) => (mem, count + 1)

def bin2str (d_l : Nat) : Option (List UInt8 × Nat) := bin2strTurns d 0 d_l s

-- ems_str2bin with room for d_l bytes: strlen(s) / 2 is cut to an ems_int.
def str2bin (s : Str) (d_l : Nat) : List UInt8 := ((emsStr2bin s).take (cint (s.length / 2)).toNat).take d_l

-- Into the `size` bytes at d, which may hold anything, and back.
def HexRight : Prop :=
  ∃ after count, bin2str s d size = some (after, count) ∧ after.length = d.length ∧ after.drop size = d.drop size ∧ 0 ∈ after ∧
    (∀ room, count ≤ room → str2bin (cString after) room = s.take count) ∧ (2 * s.length < size → count = s.length)

-- Where nothing is written, d keeps the text it had.
def HexFits : Prop :=
  (s ≠ [] ∧ 2 * s.length < size) ∨ ((s = [] ∨ size = 0) ∧ 0 ∈ d ∧ cint ((cString d).length / 2) ≤ 0)

theorem bin2str_turns (mem : List UInt8) (pos size : Nat) (val : List UInt8) :
    bin2strTurns mem pos size val = (bin2strLoop mem pos size val).map fun mem => (mem, min val.length ((size + 1) / 2)) := by
  induction val generalizing mem pos size with
  | nil => simp [bin2strTurns, bin2strLoop]
  | cons byte rest ih =>
    rw [bin2strTurns, bin2strLoop]
    by_cases full : size = 0
    · simp [full]
    · rw [if_neg full, if_neg full, Option.map_bind]
      apply Option.bind_congr
      intro after stored
      rw [ih _ _ _, Function.comp_apply, Option.map_map]
      congr 1
      funext last
      simp only [Function.comp_apply, length_cons, Prod.mk.injEq, true_and]
      omega

theorem hex_value_digit (nibble : UInt8) (small : nibble < 16) : hexValue (hexDigit nibble) = some nibble := by
  have all : ∀ n : Fin 16, hexValue (hexDigit (UInt8.ofNat n)) = some (UInt8.ofNat n) := by decide
  have bound : nibble.toNat < 16 := small
  have value := all ⟨nibble.toNat, bound⟩
  rwa [UInt8.ofNat_toNat] at value

theorem strtol_hex (byte : UInt8) : strtol16 (hexDigit (byte / 16)) (hexDigit (byte % 16)) = byte := by
  have high : byte / 16 < 16 := by
    have bound := byte.toNat_lt
    rw [UInt8.lt_iff_toNat_lt, UInt8.toNat_div]
    simp
    omega
  have low : byte % 16 < 16 := by
    rw [UInt8.lt_iff_toNat_lt, UInt8.toNat_mod]
    simp
    omega
  rw [strtol16, hex_value_digit _ high, hex_value_digit _ low]
  apply UInt8.toNat_inj.mp
  have bound := byte.toNat_lt
  simp
  omega

theorem str2bin_hex (val : List UInt8) : emsStr2bin (val.flatMap hexByte) = val := by
  induction val with
  | nil => rfl
  | cons byte rest ih =>
    rw [flatMap_cons, hexByte, cons_append, cons_append, nil_append, emsStr2bin, strtol_hex, ih]

theorem str2bin_length (text : Str) : (emsStr2bin text).length = text.length / 2 := by
  induction text using emsStr2bin.induct with
  | case1 first second rest ih =>
    simp only [emsStr2bin, length_cons, ih]
    omega
  | case2 text other =>
    match text with
    | [] => rfl
    | [_] => simp [emsStr2bin]
    | first :: second :: rest => exact absurd rfl (other _ _ rest)

theorem str2bin_few (text : Str) (room : Nat) : (str2bin text room).length ≤ text.length / 2 := by
  rw [str2bin, ← str2bin_length text]
  exact (length_take_le' _ _).trans (length_take_le' _ _)

theorem bin2str_nothing (nothing : s = [] ∨ size = 0) : bin2str s d size = some (d, 0) := by
  cases s with
  | nil => rfl
  | cons byte rest =>
    have full := nothing.resolve_left (cons_ne_nil byte rest)
    rw [bin2str, bin2strTurns, if_pos full]

theorem bin2str_written (some_ : s ≠ []) (room : 0 < size) (inside : size ≤ d.length) :
    bin2str s d size = some (overwrite d 0 ((s.flatMap hexByte).take (size - 1) ++ [0]), min s.length ((size + 1) / 2)) := by
  rw [bin2str, bin2str_turns, bin2str_loop_spec s d 0 size some_ room (by omega), Option.map_some]

theorem unread_iff (text : Str) : (∀ room, str2bin text room = []) ↔ cint (text.length / 2) ≤ 0 := by
  have length := str2bin_length text
  constructor
  · intro none
    have all := none text.length
    have short : ((emsStr2bin text).take (cint (text.length / 2)).toNat).length ≤ text.length :=
      (length_take_le' _ _).trans (by omega)
    rw [str2bin, take_of_length_le short, take_eq_nil_iff] at all
    obtain count | empty := all
    · exact Int.toNat_eq_zero.mp count
    · rw [empty, length_nil] at length
      rw [show ((text.length : Int) / 2) = 0 by omega]
      decide
  · intro low room
    rw [str2bin, Int.toNat_of_nonpos low, take_zero, take_nil]

theorem hex_right_unwritten (nothing : s = [] ∨ size = 0) :
    HexRight s d size ↔ HexFits s d size := by
  have written : ¬(s ≠ [] ∧ 2 * s.length < size) := by
    rintro ⟨some_, room⟩
    have full := nothing.resolve_left some_
    omega
  have counts : 2 * s.length < size → 0 = s.length := by
    intro room
    obtain empty | full := nothing
    · rw [empty, length_nil]
    · omega
  simp only [HexRight, HexFits, bin2str_nothing s d size _, Option.some.injEq, Prod.mk.injEq, written, false_or, nothing,
    true_and]
  rw [← unread_iff]
  constructor
  · rintro ⟨after, count, ⟨rfl, rfl⟩, -, -, ended, back, -⟩
    exact ⟨ended, fun room => back room (Nat.zero_le _)⟩
  · rintro ⟨ended, back⟩
    exact ⟨d, 0, ⟨rfl, rfl⟩, rfl, rfl, ended, fun room _ => back room, counts⟩

theorem hex_right_written (word : size < 2 ^ 31) (inside : size ≤ d.length) (some_ : s ≠ [])
    (room : 0 < size) : HexRight s d size ↔ HexFits s d size := by
  have fits : HexFits s d size ↔ 2 * s.length < size := by
    have none : ¬(s = [] ∨ size = 0) := fun nothing => nothing.elim some_ (Nat.ne_of_gt room)
    rw [HexFits, and_iff_right some_, or_iff_left fun old => none old.1]
  have digits := hex_text_length s
  have clean : 0 ∉ (s.flatMap hexByte).take (size - 1) := by
    intro zero
    exact absurd (hex_text_range s 0 (mem_of_mem_take zero)).1 (by decide)
  have length : (((s.flatMap hexByte).take (size - 1)) ++ [0]).length = min (size - 1) (2 * s.length) + 1 := by
    rw [length_append, length_take, digits, length_singleton]
  have made := bin2str_written s d size some_ room inside
  have text := c_string_over d _ clean
  rw [fits]
  constructor
  · rintro ⟨after, count, same, -, -, -, back, -⟩
    by_contra short
    rw [made, Option.some.injEq, Prod.mk.injEq] at same
    have read := back _ (Nat.le_refl _)
    rw [← same.1, text] at read
    have few := str2bin_few ((s.flatMap hexByte).take (size - 1)) count
    rw [read, length_take, length_take, digits, ← same.2] at few
    clear word
    omega
  · intro whole
    have all : (s.flatMap _).take (size - 1) = s.flatMap hexByte := take_of_length_le (by omega)
    refine ⟨_, _, made, ?_, ?_, ?_, ?_, ?_⟩
    · exact overwrite_length d 0 _ (by omega)
    · rw [overwrite, take_zero, nil_append, drop_append, drop_eq_nil_of_le (by omega), nil_append,
        drop_drop]
      congr 1
      omega
    · rw [overwrite]
      simp
    · intro room_ enough
      have small : (s.length : Int) < 2 ^ 31 := by
        have bound : s.length < 2 ^ 31 := by omega
        exact_mod_cast bound
      have count : cint ((s.flatMap hexByte).length / 2) = s.length := by
        rw [digits, show ((2 * s.length : Nat) : Int) / 2 = s.length by omega]
        exact cint_small _ (by omega) small
      rw [text, all, str2bin, str2bin_hex, count, Int.toNat_natCast, take_length, take_of_length_le (by omega),
        take_of_length_le (by omega)]
    · omega

-- Wrong are all sizes up to twice the bytes: the last byte counted has one digit
-- or none. No byte, or no room, leaves d without a terminator of its own.
theorem hex_right_iff (s d : List UInt8) (size : Nat) (word : size < 2 ^ 31) (inside : size ≤ d.length) :
    HexRight s d size ↔ HexFits s d size := by
  by_cases nothing : s = [] ∨ size = 0
  · exact hex_right_unwritten s d size nothing
  · obtain ⟨some_, room⟩ := not_or.mp nothing
    exact hex_right_written s d size word inside some_ (Nat.pos_of_ne_zero room)

theorem hex_right_sample : HexRight [0x00, 0xff] (List.replicate 5 7) 5 :=
  (hex_right_iff _ _ _ (by decide) (by decide)).mpr (.inl ⟨by decide, by decide⟩)

theorem half_byte_counted : ¬ ∀ s d size, size ≤ d.length → HexRight s d size := by
  intro right
  obtain ⟨after, count, made, -, -, -, back, -⟩ := right _ [0, 0] 2 (by decide)
  have half : bin2str [0xab] [0, 0] 2 = some ([97, 0], 1) := by decide
  rw [half, Option.some.injEq, Prod.mk.injEq] at made
  rw [← made.1, ← made.2] at back
  exact absurd (back 1 (Nat.le_refl 1)) (by decide)

end Codec.Portal
