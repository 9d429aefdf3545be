import Mathlib.Data.List.Basic
import Mathlib.Tactic.Ring

set_option autoImplicit false

namespace Codec.Ems

open List

-- C strings and raw bytes alike. A string carries no NUL, so strcmp is
-- equality and str_len is the length.
abbrev Str := List UInt8

-- ems_buffer: `head` is index 0 of `mem`, `tail` its length. The order of the
-- three pointers is part of the type, as every operation below keeps it.
structure Buffer where
  mem : List UInt8
  rd : Nat
  wr : Nat
  ordered : rd ≤ wr
  bounded : wr ≤ mem.length
  deriving DecidableEq, Repr

variable (buf : Buffer)

inductive Seek where
  | set | cur | tail
  deriving DecidableEq, Repr

def overwrite (mem : List UInt8) (start : Nat) (bytes : List UInt8) : List UInt8 :=
  mem.take start ++ bytes ++ mem.drop (start + bytes.length)

theorem overwrite_length (mem : List UInt8) (start : Nat) (bytes : List UInt8)
    (fits : start + bytes.length ≤ mem.length) : (overwrite mem start bytes).length = mem.length := by
  simp only [overwrite, length_append, length_take, length_drop]
  omega

namespace Buffer

def size : Nat := buf.mem.length
def left : Nat := buf.mem.length - buf.wr
def len : Nat := buf.wr - buf.rd
def trash : Nat := buf.rd

def content : List UInt8 := (buf.mem.take buf.wr).drop buf.rd

theorem none_read : 0 ≤ 0 := Nat.le_refl 0

def init (sz : Nat) : Buffer where
  mem := List.replicate sz 0
  rd := 0
  wr := 0
  ordered := none_read
  bounded := Nat.zero_le _

-- EMS_ERR leaves the buffer alone and is none here.
def seekRd (off : Int) (pos : Seek) : Option Buffer :=
  match pos with
  | .set =>
    if bad : off < 0 ∨ off > buf.len + buf.trash then none
    else some { buf with rd := off.toNat, ordered := by have := buf.ordered; simp only [len, trash] at bad; omega }
  | .cur =>
    if bad : off > buf.len ∨ off < -buf.trash then none
    else some { buf with rd := (buf.rd + off).toNat, ordered := by have := buf.ordered; simp only [len] at bad; omega }
  | .tail =>
    if bad : off > 0 ∨ off < -(buf.len + buf.trash) then none
    else some { buf with rd := (buf.wr + off).toNat, ordered := by omega }

def seekWr (off : Int) (pos : Seek) : Option Buffer :=
  match pos with
  | .set =>
    if bad : off < 0 ∨ off > buf.len + buf.left then none
    else some { buf with
      wr := (buf.rd + off).toNat
      ordered := by omega
      bounded := by have := buf.ordered; have := buf.bounded; simp only [len, left] at bad; omega }
  | .cur =>
    if bad : off < -buf.len ∨ off > buf.left then none
    else some { buf with
      wr := (buf.wr + off).toNat
      ordered := by have := buf.ordered; simp only [len] at bad; omega
      bounded := by have := buf.bounded; simp only [left] at bad; omega }
  | .tail =>
    if bad : off > 0 ∨ off < -(buf.len + buf.left) then none
    else some { buf with
      wr := (buf.mem.length + off).toNat
      ordered := by have := buf.ordered; have := buf.bounded; simp only [len, left] at bad; omega
      bounded := by omega }

def refresh : Buffer :=
  if buf.trash > 0 then
    { mem := overwrite buf.mem 0 buf.content
      rd := 0
      wr := buf.len
      ordered := Nat.zero_le _
      bounded := by
        have inside := buf.bounded
        simp only [overwrite, content, len, List.length_append, List.length_take, List.length_drop]
        omega }
  else buf

def prefetch (len : Nat) : List UInt8 := buf.content.take len

def write (src : List UInt8) : Buffer where
  mem := overwrite buf.mem buf.wr (src.take buf.left)
  rd := buf.rd
  wr := buf.wr + (src.take buf.left).length
  ordered := by have := buf.ordered; omega
  bounded := by
    have inside := buf.bounded
    simp only [overwrite, left, List.length_append, List.length_take, List.length_drop]
    omega

def poke (start : Nat) (bytes : List UInt8) : Buffer :=
  { buf with
    mem := overwrite buf.mem start bytes
    bounded := by
      have inside := buf.bounded
      simp only [overwrite, List.length_append, List.length_take, List.length_drop]
      omega }

def clear : Buffer := { buf with rd := 0, wr := 0, ordered := Nat.le_refl 0, bounded := Nat.zero_le _ }

def increase (inc : Nat) : Buffer :=
  let fresh := buf.refresh
  if fresh.left > inc then fresh
  else { fresh with
    mem := fresh.mem ++ List.replicate inc 0
    bounded := by have := fresh.bounded; simp only [List.length_append]; omega }

theorem len_le_size : buf.len ≤ buf.size := by
  have := buf.bounded
  simp only [len, size]
  omega

@[simp] theorem content_length : buf.content.length = buf.len := by
  have := buf.bounded
  simp only [content, len, length_drop, length_take]
  omega

@[simp] theorem content_init (sz : Nat) : (init sz).content = [] := by simp [content, init]

@[simp] theorem content_clear : buf.clear.content = [] := by simp [content, clear]

theorem overwrite_window (mem bytes : List UInt8) (rd wr : Nat) (ordered : rd ≤ wr) (inside : wr ≤ mem.length) :
    ((overwrite mem wr bytes).take (wr + bytes.length)).drop rd = (mem.take wr).drop rd ++ bytes := by
  have length : (mem.take wr ++ bytes).length = wr + bytes.length := by
    rw [length_append, length_take, Nat.min_eq_left inside]
  rw [overwrite, ← length, take_left' rfl, drop_append_of_le_length]
  rw [length_take, Nat.min_eq_left inside]
  exact ordered

@[simp] theorem content_write (src : List UInt8) : (buf.write src).content = buf.content ++ src.take buf.left :=
  overwrite_window _ _ _ _ buf.ordered buf.bounded

@[simp] theorem content_refresh : buf.refresh.content = buf.content := by
  unfold refresh
  split
  · have window := overwrite_window buf.mem buf.content 0 0 (Nat.le_refl 0) (Nat.zero_le _)
    simp only [Nat.zero_add, drop_zero, take_zero, nil_append, content_length] at window
    simpa only [content, drop_zero] using window
  · rfl

theorem seek_rd_cur_content (buf next : Buffer) (off : Nat) (moved : buf.seekRd off .cur = some next) :
    next.content = buf.content.drop off := by
  simp only [seekRd] at moved
  split at moved
  · simp at moved
  · have same := Option.some.inj moved
    rw [← same]
    have position : ((buf.rd : Int) + off).toNat = buf.rd + off := by omega
    simp only [content, position, drop_drop]

theorem seek_rd_cur_some (off : Nat) (fits : off ≤ buf.len) : (buf.seekRd off .cur).isSome := by
  simp only [seekRd]
  rw [dif_neg (by omega)]
  rfl

end Buffer

theorem content_drop : buf.mem.drop buf.rd = buf.content ++ buf.mem.drop buf.wr := by
  have inside := buf.bounded
  have ordered := buf.ordered
  have whole : (buf.mem.take buf.wr).length = buf.wr := by rw [length_take, Nat.min_eq_left inside]
  calc
    buf.mem.drop _ = (buf.mem.take _ ++ buf.mem.drop _).drop _ := by rw [take_append_drop]
    _ = buf.content ++ buf.mem.drop _ := drop_append_of_le_length (by omega)

end Codec.Ems
