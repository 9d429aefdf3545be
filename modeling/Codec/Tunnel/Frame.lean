import Codec.Ems.Buffer

set_option autoImplicit false

namespace Codec.Tunnel

open Codec.Ems

def sizeTunnelHl : Nat := 8

def msgTypeTunnel : UInt16 := 0x0001

def msgTypeWeb : UInt16 := 0x0002

def phRst : UInt16 := 0x8000

def msgWebDown : UInt16 := msgTypeWeb ||| phRst

-- EMS_OK, EMS_ERR, EMS_CONTINUE, EMS_BUFFER_INSUFFICIENT and EMS_SLOW_DOWN.
inductive Ret where
  | ok | err | cont | insufficient | slowDown
  deriving DecidableEq, Repr

-- ems_tunnel_pkg with its value; `len` on the wire is the value's length.
structure Pkg where
  flgty : UInt16
  id : UInt32
  val : Str
  deriving DecidableEq, Repr

def Pkg.isWeb (pkg : Pkg) : Bool := pkg.flgty &&& 0x0fff = msgTypeWeb

def Pkg.isTunnel (pkg : Pkg) : Bool := pkg.flgty &&& 0x0fff = msgTypeTunnel

def Pkg.isRst (pkg : Pkg) : Bool := pkg.flgty &&& phRst ≠ 0

def htons (word : Nat) : Str := [UInt8.ofNat (word / 256), UInt8.ofNat word]

def htonl (word : Nat) : Str := htons (word / 65536) ++ htons word

def ntohs : Str → Nat
  | high :: low :: _ => high.toNat * 256 + low.toNat
  | _ => 0

def ntohl (bytes : Str) : Nat := ntohs bytes * 65536 + ntohs (bytes.drop 2)

def Pkg.header (pkg : Pkg) : Str := htons pkg.flgty.toNat ++ htons pkg.val.length ++ htonl pkg.id.toNat

def Pkg.bytes (pkg : Pkg) : Str := pkg.header ++ pkg.val

-- The room tunnel_packmsg makes for a frame; none when it refuses. memcpy
-- within a buffer moves as memmove does here, and realloc succeeds.
def packRoom (buf : Buffer) (len : Nat) : Option Buffer :=
  if buf.left ≤ sizeTunnelHl + len then
    if buf.size ≥ 524288 then none else some (buf.increase 2048)
  else some buf

structure Packed where
  ret : Ret
  buf : Buffer
  deriving DecidableEq, Repr

-- tunnel_packmsg on the output buffer. Header and value are stored at wr
-- without a check, and what ems_buffer_seek_wr answers is dropped: what goes
-- beyond the buffer's end is not modelled, the frame is then not appended.
def tunnelPackmsg (buf : Buffer) (pkg : Pkg) : Packed :=
  match packRoom buf pkg.val.length with
  | none => ⟨.err, buf⟩
  | some room =>
    let stored := room.poke room.wr (pkg.bytes.take room.left)
    let next := (stored.seekWr (sizeTunnelHl + pkg.val.length : Nat) .cur).getD stored
    ⟨if 262144 < room.len then .slowDown else .ok, next⟩

def Fits (buf : Buffer) (len : Nat) : Prop := ∀ room ∈ packRoom buf len, sizeTunnelHl + len ≤ room.left

instance (buf : Buffer) (len : Nat) : Decidable (Fits buf len) := by
  unfold Fits
  cases packRoom buf len <;> infer_instance

theorem ntohs_htons (word : Nat) (rest : Str) : ntohs (htons word ++ rest) = word % 65536 := by
  simp only [htons, List.cons_append, ntohs, UInt8.toNat_ofNat']
  omega

theorem ntohl_htonl (word : Nat) (rest : Str) : ntohl (htonl word ++ rest) = word % 4294967296 := by
  have low : (htonl word ++ rest).drop 2 = htons word ++ rest := rfl
  rw [ntohl, low, htonl, List.append_assoc, ntohs_htons, ntohs_htons]
  omega

variable (room : Buffer) (bytes : Str) (buf : Buffer) (pkg : Pkg)

@[simp] theorem header_length : pkg.header.length = sizeTunnelHl := rfl

@[simp] theorem bytes_length : pkg.bytes.length = sizeTunnelHl + pkg.val.length := by
  rw [Pkg.bytes, List.length_append, header_length]

theorem content_increase (inc : Nat) : (buf.increase inc).content = buf.content := by
  rw [← Buffer.content_refresh buf]
  dsimp only [Buffer.increase]
  split
  · rfl
  · exact congrArg (List.drop _) (List.take_append_of_le_length buf.refresh.bounded)

theorem pack_room_content (buf room : Buffer) (len : Nat) (made : packRoom buf len = some room) :
    room.content = buf.content := by
  unfold packRoom at made
  split at made
  · split at made
    · cases made
    · cases made
      exact content_increase buf 2048
  · cases made
    rfl

theorem poke_left : (room.poke room.wr (bytes.take room.left)).left = room.left := by
  have inside := room.bounded
  have size := overwrite_length room.mem room.wr (bytes.take room.left) (by
    rw [List.length_take]
    simp only [Buffer.left]
    omega)
  exact congrArg (· - room.wr) size

theorem poke_content : (room.poke room.wr (bytes.take room.left)).content = room.content := by
  have whole : (room.mem.take room.wr).length = room.wr := by rw [List.length_take, Nat.min_eq_left room.bounded]
  simp only [Buffer.content, Buffer.poke, overwrite, List.append_assoc]
  rw [List.take_append_of_le_length (by omega), List.take_of_length_le (by omega)]

theorem store_fits (fits : bytes.length ≤ room.left) :
    ∃ next, (room.poke room.wr (bytes.take room.left)).seekWr bytes.length .cur = some next ∧
      next.content = room.content ++ bytes := by
  have all : bytes.take _ = bytes := List.take_of_length_le fits
  have left := poke_left room bytes
  dsimp only [Buffer.seekWr]
  rw [dif_neg (by omega)]
  refine ⟨_, rfl, ?_⟩
  have window := Buffer.overwrite_window _ bytes _ _ room.ordered room.bounded
  have position : ((room.wr : Int) + bytes.length).toNat = room.wr + bytes.length := by omega
  simpa only [Buffer.content, Buffer.poke, all, position] using window

theorem store_overflows (len : Nat) (overflow : room.left < len) :
    (room.poke room.wr (bytes.take room.left)).seekWr len .cur = none := by
  have left := poke_left room bytes
  dsimp only [Buffer.seekWr]
  rw [dif_pos (by omega)]

theorem packmsg_ret : (tunnelPackmsg buf pkg).ret = .err ↔ packRoom buf pkg.val.length = none := by
  unfold tunnelPackmsg
  cases packRoom buf _ with
  | none => simp
  | some room =>
    dsimp only
    split <;> simp

theorem packmsg_content (fits : Fits buf pkg.val.length)
    (taken : packRoom buf pkg.val.length ≠ none) : (tunnelPackmsg buf pkg).buf.content = buf.content ++ pkg.bytes := by
  obtain ⟨room, made⟩ := Option.ne_none_iff_exists'.mp taken
  have enough : pkg.bytes.length ≤ room.left := by
    rw [bytes_length]
    exact fits room made
  obtain ⟨next, stored, content⟩ := store_fits room _ enough
  rw [bytes_length] at stored
  rw [tunnelPackmsg, made]
  dsimp only
  rw [stored, Option.getD_some, content, pack_room_content buf room _ made]

theorem packmsg_lost (unfit : ¬ Fits buf pkg.val.length) :
    (tunnelPackmsg buf pkg).ret ≠ .err ∧ (tunnelPackmsg buf pkg).buf.content = buf.content := by
  unfold Fits at unfit
  push Not at unfit
  obtain ⟨room, made, short⟩ := unfit
  have stored := store_overflows room pkg.bytes _ short
  constructor
  · rw [Ne, packmsg_ret, made]
    exact Option.some_ne_none room
  · rw [tunnelPackmsg, made]
    dsimp only
    rw [stored, Option.getD_none, poke_content, pack_room_content buf room _ made]

theorem increase_left (inc : Nat) : inc ≤ (buf.increase inc).left := by
  dsimp only [Buffer.increase]
  split
  · rename_i enough
    exact Nat.le_of_lt enough
  · have inside := buf.refresh.bounded
    simp only [Buffer.left, List.length_append, List.length_replicate]
    omega

theorem fits_of_short (len : Nat) (short : len ≤ 2040) : Fits buf len := by
  intro room made
  unfold packRoom at made
  split at made
  · split at made
    · cases made
    · cases made
      have made := increase_left buf 2048
      simp only [sizeTunnelHl]
      omega
  · cases made
    omega

theorem store_numbers (fits : bytes.length ≤ room.left) :
    ∃ next, (room.poke room.wr (bytes.take room.left)).seekWr bytes.length .cur = some next ∧
      next.rd = room.rd ∧ next.wr = room.wr + bytes.length ∧ next.size = room.size := by
  have left := poke_left room bytes
  have inside := room.bounded
  have size : (overwrite room.mem room.wr (bytes.take room.left)).length = room.mem.length := by
    apply overwrite_length
    rw [List.length_take]
    simp only [Buffer.left]
    omega
  dsimp only [Buffer.seekWr]
  rw [dif_neg (by omega)]
  refine ⟨_, rfl, rfl, ?_, size⟩
  simp only [Buffer.poke]
  omega

theorem increase_numbers (start : buf.rd = 0) (inc : Nat) (low : buf.left ≤ inc) :
    (buf.increase inc).rd = 0 ∧ (buf.increase inc).wr = buf.wr ∧ (buf.increase inc).size = buf.size + inc := by
  have same : buf.refresh = buf := if_neg (by simp [Buffer.trash, start])
  dsimp only [Buffer.increase]
  rw [if_neg (by rw [same]; omega)]
  simp only [Buffer.size, same, List.length_append, List.length_replicate]
  exact ⟨start, trivial, trivial⟩

theorem packmsg_numbers (start : buf.rd = 0) (short : pkg.val.length ≤ 1024) (taken : packRoom buf pkg.val.length ≠ none) :
    (tunnelPackmsg buf pkg).buf.rd = 0 ∧ (tunnelPackmsg buf pkg).buf.wr = buf.wr + (8 + pkg.val.length) ∧
      (tunnelPackmsg buf pkg).buf.size = if buf.left ≤ 8 + pkg.val.length then buf.size + 2048 else buf.size := by
  obtain ⟨room, made⟩ := Option.ne_none_iff_exists'.mp taken
  have numbers : room.rd = 0 ∧ room.wr = buf.wr ∧
      room.size = if buf.left ≤ 8 + pkg.val.length then buf.size + 2048 else buf.size := by
    rw [packRoom, sizeTunnelHl] at made
    by_cases low : buf.left ≤ 8 + pkg.val.length
    · rw [if_pos low] at made ⊢
      by_cases large : buf.size ≥ 524288
      · rw [if_pos large] at made
        cases made
      · rw [if_neg large] at made
        cases made
        exact increase_numbers buf start 2048 (by omega)
    · rw [if_neg low] at made ⊢
      cases made
      exact ⟨start, rfl, rfl⟩
  have fits : pkg.bytes.length ≤ room.left := by
    rw [bytes_length]
    exact fits_of_short buf _ (by omega) room made
  obtain ⟨next, stored, rd, wr, size⟩ := store_numbers room _ fits
  rw [bytes_length] at stored wr
  rw [tunnelPackmsg, made]
  dsimp only
  rw [stored, Option.getD_some, rd, wr, size, numbers.1, numbers.2.1, numbers.2.2]
  exact ⟨rfl, rfl, rfl⟩

theorem packmsg_fast (taken : packRoom buf pkg.val.length ≠ none) (low : buf.len ≤ 262144) :
    (tunnelPackmsg buf pkg).ret = .ok := by
  obtain ⟨room, made⟩ := Option.ne_none_iff_exists'.mp taken
  have same : room.len = buf.len := by rw [← Buffer.content_length, ← Buffer.content_length, pack_room_content buf room _ made]
  rw [tunnelPackmsg, made]
  exact if_neg (by omega)

theorem write_numbers (src : Str) (fits : src.length ≤ buf.left) :
    (buf.write src).rd = buf.rd ∧ (buf.write src).wr = buf.wr + src.length ∧ (buf.write src).size = buf.size := by
  have all : src.take _ = src := List.take_of_length_le fits
  have inside := buf.bounded
  refine ⟨rfl, ?_, ?_⟩
  · dsimp only [Buffer.write]
    rw [all]
  · dsimp only [Buffer.write, Buffer.size]
    rw [all]
    apply overwrite_length
    simp only [Buffer.left] at fits
    omega

end Codec.Tunnel
