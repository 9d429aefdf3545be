import Codec.Ems.Buffer

set_option autoImplicit false

namespace Codec.Ems

-- ems_int: what does not fit in its 32 bits wraps.
def cint (n : Int) : Int := n.bmod (2 ^ 32)

-- abs of a pointer difference, which is cut to an ems_int first.
def cabs (n : Int) : Int := cint (|cint n|)

abbrev Memcpy := List UInt8 → Nat → Nat → Nat → List UInt8

-- What memcpy promises, and only when the two regions are apart.
def Documented (memcpy : Memcpy) : Prop :=
  ∀ mem dest src len, dest + len ≤ src ∨ src + len ≤ dest → dest + len ≤ mem.length → src + len ≤ mem.length →
    memcpy mem dest src len = overwrite mem dest ((mem.drop src).take len)

def memmove : Memcpy := fun mem dest src len => overwrite mem dest ((mem.drop src).take len)

inductive Whence where
  | seek (pos : Seek)
  | other
  deriving DecidableEq, Repr

-- ems_buffer as the code has it: the block behind `head`, and the other three
-- pointers as distances from `head`.
structure RawBuffer where
  mem : List UInt8
  tail : Int
  rd : Int
  wr : Int
  deriving DecidableEq, Repr

abbrev Grant := Option (Nat → UInt8)

abbrev WriteSrc := { bytes : Str // bytes.length < 2 ^ 31 }

inductive BufferOp where
  | init (sz : UInt32) (grant : Grant)
  | increase (inc : UInt32) (grant : Grant)
  | write (src : WriteSrc)
  | read (len : Int)
  | prefetch (len : Int)
  | seekRd (off : Int) (pos : Whence)
  | seekWr (off : Int) (pos : Whence)
  | refresh
  | clear
  | fill (bytes : Str)

structure BufReply where
  ret : Int
  dest : Str
  deriving DecidableEq, Repr

def replyOk : BufReply := ⟨0, []⟩
def replyErr : BufReply := ⟨-1, []⟩

namespace RawBuffer

def null : RawBuffer := ⟨[], 0, 0, 0⟩

section Macros

variable (raw : RawBuffer)

def size : Int := cabs raw.tail
def left : Int := cabs (raw.tail - raw.wr)
def len : Int := cabs (raw.wr - raw.rd)
def trash : Int := cabs raw.rd

def content : Str := (raw.mem.take raw.wr.toNat).drop raw.rd.toNat

end Macros

def init (sz : UInt32) : Grant → BufReply × RawBuffer
  | some junk => (replyOk, ⟨(List.range sz.toNat).map junk, sz.toNat, 0, 0⟩)
  | none => (replyErr, null)

section Calls

variable (memcpy : Memcpy) (raw : RawBuffer)

def seekRd (off : Int) : Whence → Option RawBuffer
  | .seek .set => if off < 0 ∨ off > cint (raw.len + raw.trash) then none else some { raw with rd := off }
  | .seek .cur => if off > raw.len ∨ off < -raw.trash then none else some { raw with rd := raw.rd + off }
  | .seek .tail =>
    if off > 0 ∨ off < -cint (raw.len + raw.trash) then none else some { raw with rd := raw.wr + off }
  | .other => none

-- The default case asserts and still ends in EMS_OK.
def seekWr (off : Int) : Whence → Option RawBuffer
  | .seek .set => if off < 0 ∨ off > cint (raw.len + raw.left) then none else some { raw with wr := raw.rd + off }
  | .seek .cur => if off < -raw.len ∨ off > raw.left then none else some { raw with wr := raw.wr + off }
  | .seek .tail =>
    if off > 0 ∨ off < -cint (raw.len + raw.left) then none else some { raw with wr := raw.tail + off }
  | .other => some raw

def refresh : RawBuffer :=
  if raw.trash > 0 then
    { raw with mem := memcpy raw.mem 0 raw.rd.toNat raw.len.toNat, rd := 0, wr := raw.len }
  else raw

def fetch (len : Int) (drain : Bool) : BufReply × RawBuffer :=
  if len > 0 then
    let len := if raw.len < len then raw.len else len
    (⟨len, (raw.mem.drop raw.rd.toNat).take len.toNat⟩,
      if drain then (raw.seekRd len (.seek .cur)).getD raw else raw)
  else (replyErr, raw)

def fill (bytes : Str) : RawBuffer := { raw with mem := overwrite raw.mem raw.wr.toNat (bytes.take raw.left.toNat) }

def write (src : WriteSrc) : BufReply × RawBuffer :=
  let len : Int := if (src.val.length : Int) > raw.left then raw.left else src.val.length
  let stored := raw.fill (src.val.take len.toNat)
  (⟨len, []⟩, (stored.seekWr len (.seek .cur)).getD stored)

def clear : RawBuffer := { raw with rd := 0, wr := 0 }

-- realloc: the old bytes as far as they fit, and whatever stood behind them.
def realloc (mem : List UInt8) (total : Nat) (junk : Nat → UInt8) : List UInt8 :=
  mem.take total ++ (List.range (total - mem.length)).map junk

-- `total` is an ems_uint, and so is the comparison with `inc`. Asked for no
-- bytes at all realloc gives the block back.
def increase (inc : UInt32) (grant : Grant) : BufReply × RawBuffer :=
  let fresh := raw.refresh memcpy
  if fresh.left % 2 ^ 32 > inc.toNat then (replyOk, fresh)
  else
    let total := ((fresh.size + inc.toNat) % 2 ^ 32).toNat
    if total = 0 then (replyErr, { fresh with mem := [] })
    else match grant with
      | some junk => (replyOk, ⟨realloc fresh.mem total junk, total, 0, fresh.len % 2 ^ 32⟩)
      | none => (replyErr, fresh)

def replied : Option RawBuffer → BufReply × RawBuffer
  | some moved => (replyOk, moved)
  | none => (replyErr, raw)

def call : BufferOp → BufReply × RawBuffer
  | .init sz grant => init sz grant
  | .increase inc grant => raw.increase memcpy inc grant
  | .write src => raw.write src
  | .read len => raw.fetch len true
  | .prefetch len => raw.fetch len false
  | .seekRd off pos => raw.replied (raw.seekRd off pos)
  | .seekWr off pos => raw.replied (raw.seekWr off pos)
  | .refresh => (replyOk, raw.refresh memcpy)
  | .clear => (replyOk, raw.clear)
  | .fill bytes => (replyOk, raw.fill bytes)

end Calls

end RawBuffer

end Codec.Ems
