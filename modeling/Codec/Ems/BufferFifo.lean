import Codec.Ems.BufferSim
import Codec.Lib.Runs

set_option autoImplicit false

namespace Codec.Ems

open Codec.Lib

structure Fifo where
  written : Str
  consumed : Nat
  kept : Nat
  room : Str
  inside : consumed ≤ written.length
  older : kept ≤ consumed

namespace Fifo

def empty (room : Str) : Fifo := ⟨[], 0, 0, room, Buffer.none_read, Buffer.none_read⟩

section Calls

variable (fifo : Fifo)

def readable : Str := fifo.written.drop fifo.consumed

def memory : Str := fifo.written.drop (fifo.consumed - fifo.kept) ++ fifo.room

def moveRd (shift : Int) : Option Fifo :=
  if fits : -(fifo.kept : Int) ≤ shift ∧ shift ≤ fifo.readable.length then
    some { fifo with
      consumed := (fifo.consumed + shift).toNat
      kept := (fifo.kept + shift).toNat
      inside := by have := fifo.inside; simp only [readable, List.length_drop] at fits; omega
      older := by have := fifo.older; omega }
  else none

def moveWr (shift : Int) : Option Fifo :=
  if fits : -(fifo.readable.length : Int) ≤ shift ∧ shift ≤ fifo.room.length then
    some { fifo with
      written := (fifo.written ++ fifo.room).take (fifo.written.length + shift).toNat
      room := (fifo.written ++ fifo.room).drop (fifo.written.length + shift).toNat
      inside := by
        have := fifo.inside
        simp only [readable, List.length_drop, List.length_take, List.length_append] at fits ⊢
        omega }
  else none

def rdShift (off : Int) : Seek → Int
  | .set => off - fifo.kept
  | .cur => off
  | .tail => fifo.readable.length + off

def wrShift (off : Int) : Seek → Int
  | .set => off - fifo.readable.length
  | .cur => off
  | .tail => fifo.room.length + off

def append (bytes : Str) : Fifo :=
  { fifo with
    written := fifo.written ++ bytes
    room := fifo.room.drop bytes.length
    inside := by have := fifo.inside; simp only [List.length_append]; omega }

def compact : Fifo := { fifo with kept := 0, room := fifo.memory.drop fifo.readable.length, older := Nat.zero_le _ }

def fetch (len : Int) (drain : Bool) : BufReply × Fifo :=
  if len > 0 then
    let taken := min len.toNat fifo.readable.length
    (⟨taken, fifo.readable.take taken⟩, if drain then (fifo.moveRd taken).getD fifo else fifo)
  else (replyErr, fifo)

def replied : Option Fifo → BufReply × Fifo
  | some moved => (replyOk, moved)
  | none => (replyErr, fifo)

def call : BufferOp → BufReply × Fifo
  | .init sz (some junk) => (replyOk, empty ((List.range sz.toNat).map junk))
  | .init _ none => (replyErr, empty [])
  | .increase inc grant =>
    let fresh := fifo.compact
    if fresh.room.length > inc.toNat then (replyOk, fresh)
    else match grant with
      | some junk => (replyOk, { fresh with room := fresh.room ++ (List.range inc.toNat).map junk })
      | none => (replyErr, fresh)
  | .write src => (⟨(src.val.take fifo.room.length).length, []⟩, fifo.append (src.val.take fifo.room.length))
  | .read len => fifo.fetch len true
  | .prefetch len => fifo.fetch len false
  | .seekRd off (.seek pos) => fifo.replied (fifo.moveRd (fifo.rdShift off pos))
  | .seekRd _ .other => (replyErr, fifo)
  | .seekWr off (.seek pos) => fifo.replied (fifo.moveWr (fifo.wrShift off pos))
  | .seekWr _ .other => (replyOk, fifo)
  | .refresh => (replyOk, fifo.compact)
  | .clear => (replyOk, empty fifo.memory)
  | .fill bytes => (replyOk, { fifo with room := overwrite fifo.room 0 (bytes.take fifo.room.length) })

end Calls

end Fifo

structure Holds (buf : Buffer) (fifo : Fifo) : Prop where
  mem : buf.mem = fifo.memory
  rd : buf.rd = fifo.kept
  wr : buf.wr = fifo.kept + fifo.readable.length

namespace Holds

variable {buf : Buffer} {fifo : Fifo} (holds : Holds buf fifo)

include holds

theorem len : buf.len = fifo.readable.length := by rw [Buffer.len, holds.wr, holds.rd, Nat.add_sub_cancel_left]

theorem unread_length : (fifo.written.drop (fifo.consumed - fifo.kept)).length = buf.wr := by
  have inside := fifo.inside
  have older := fifo.older
  rw [holds.wr, Fifo.readable, List.length_drop, List.length_drop]
  omega

theorem left : buf.left = fifo.room.length := by
  rw [Buffer.left, holds.mem, Fifo.memory, List.length_append, holds.unread_length, Nat.add_sub_cancel_left]

theorem content : buf.content = fifo.readable := by
  have older := fifo.older
  rw [Buffer.content, holds.mem, Fifo.memory, List.take_left' holds.unread_length, List.drop_drop, holds.rd, Fifo.readable]
  congr 1
  omega

theorem moved_rd (shift : Int) (low : -(fifo.kept : Int) ≤ shift) (high : shift ≤ fifo.readable.length) (rd : Nat)
    (place : (rd : Int) = buf.rd + shift) (ordered : rd ≤ buf.wr) :
    Option.Rel Holds (some { buf with rd := rd, ordered := ordered }) (fifo.moveRd shift) := by
  have inside := fifo.inside
  have older := fifo.older
  have read := holds.rd
  rw [Fifo.moveRd, dif_pos ⟨low, high⟩]
  refine .some ⟨?_, ?_, ?_⟩
  · have same : (fifo.consumed + shift).toNat - (fifo.kept + shift).toNat = fifo.consumed - fifo.kept := by omega
    rw [Fifo.memory]
    simp only [same]
    exact holds.mem
  · simp only
    omega
  · have wr := holds.wr
    simp only [Fifo.readable, List.length_drop] at high wr ⊢
    omega

omit holds in
theorem refused_rd (shift : Int) (outside : ¬(-(fifo.kept : Int) ≤ shift ∧ shift ≤ fifo.readable.length)) :
    Option.Rel Holds none (fifo.moveRd shift) := by
  rw [Fifo.moveRd, dif_neg outside]
  exact .none

theorem seek_rd (off : Int) (pos : Seek) : Option.Rel Holds (buf.seekRd off pos) (fifo.moveRd (fifo.rdShift off pos)) := by
  have len := holds.len
  have read := holds.rd
  have wr := holds.wr
  have trash : buf.trash = buf.rd := rfl
  cases pos with
  | set =>
    rw [Buffer.seekRd, Fifo.rdShift]
    split
    · exact refused_rd _ (by omega)
    · exact holds.moved_rd _ (by omega) (by omega) _ (by omega) _
  | cur =>
    rw [Buffer.seekRd, Fifo.rdShift]
    split
    · exact refused_rd _ (by omega)
    · exact holds.moved_rd _ (by omega) (by omega) _ (by omega) _
  | tail =>
    rw [Buffer.seekRd, Fifo.rdShift]
    split
    · exact refused_rd _ (by omega)
    · exact holds.moved_rd _ (by omega) (by omega) _ (by omega) _

theorem moved_wr (shift : Int) (low : -(fifo.readable.length : Int) ≤ shift) (high : shift ≤ fifo.room.length) (wr : Nat)
    (place : (wr : Int) = buf.wr + shift) (ordered : buf.rd ≤ wr) (bounded : wr ≤ buf.mem.length) :
    Option.Rel Holds (some { buf with wr := wr, ordered := ordered, bounded := bounded }) (fifo.moveWr shift) := by
  have inside := fifo.inside
  have wrote := holds.wr
  rw [Fifo.moveWr, dif_pos ⟨low, high⟩]
  simp only [Fifo.readable, List.length_drop] at low wrote
  refine .some ⟨?_, holds.rd, ?_⟩
  · have cut : fifo.consumed - fifo.kept ≤ ((fifo.written ++ fifo.room).take (fifo.written.length + shift).toNat).length := by
      rw [List.length_take, List.length_append]
      omega
    rw [Fifo.memory, ← List.drop_append_of_le_length cut, List.take_append_drop,
      List.drop_append_of_le_length (by omega)]
    exact holds.mem
  · simp only [Fifo.readable, List.length_drop, List.length_take, List.length_append]
    omega

omit holds in
theorem refused_wr (shift : Int) (outside : ¬(-(fifo.readable.length : Int) ≤ shift ∧ shift ≤ fifo.room.length)) :
    Option.Rel Holds none (fifo.moveWr shift) := by
  rw [Fifo.moveWr, dif_neg outside]
  exact .none

theorem seek_wr (off : Int) (pos : Seek) : Option.Rel Holds (buf.seekWr off pos) (fifo.moveWr (fifo.wrShift off pos)) := by
  have len := holds.len
  have left := holds.left
  have read := holds.rd
  have wr := holds.wr
  have bounded := buf.bounded
  have free : buf.wr + buf.left = buf.mem.length := by rw [Buffer.left]; omega
  cases pos with
  | set =>
    rw [Buffer.seekWr, Fifo.wrShift]
    split
    · exact refused_wr _ (by omega)
    · exact holds.moved_wr _ (by omega) (by omega) _ (by omega) _ _
  | cur =>
    rw [Buffer.seekWr, Fifo.wrShift]
    split
    · exact refused_wr _ (by omega)
    · exact holds.moved_wr _ (by omega) (by omega) _ (by omega) _ _
  | tail =>
    rw [Buffer.seekWr, Fifo.wrShift]
    split
    · exact refused_wr _ (by omega)
    · exact holds.moved_wr _ (by omega) (by omega) _ (by omega) _ _

theorem write (src : Str) : Holds (buf.write src) (fifo.append (src.take fifo.room.length)) := by
  have inside := fifo.inside
  rw [← holds.left]
  refine ⟨?_, holds.rd, ?_⟩
  · rw [Fifo.memory, Fifo.append, Buffer.write]
    simp only
    rw [overwrite, holds.mem, Fifo.memory, List.take_left' holds.unread_length, ← holds.unread_length,
      List.drop_append, List.drop_append_of_le_length (by omega)]
    simp
    omega
  · have wr := holds.wr
    simp only [Buffer.write, Fifo.append, Fifo.readable, List.length_drop, List.length_append] at wr ⊢
    omega

theorem fill (bytes : Str) : Holds (buf.poke buf.wr (bytes.take buf.left))
    { fifo with room := overwrite fifo.room 0 (bytes.take fifo.room.length) } := by
  rw [← holds.left]
  refine ⟨?_, holds.rd, holds.wr⟩
  rw [Fifo.memory, Buffer.poke]
  simp only
  rw [overwrite, holds.mem, Fifo.memory, List.take_left' holds.unread_length, ← holds.unread_length, List.drop_append]
  simp [overwrite]
  omega

theorem refresh : Holds buf.refresh fifo.compact := by
  have read := holds.rd
  have mem : buf.refresh.mem = fifo.compact.memory := by
    rw [Fifo.memory, Fifo.compact]
    simp only [Nat.sub_zero]
    rw [Buffer.refresh]
    split
    · simp only [overwrite, List.take_zero, List.nil_append, Nat.zero_add, holds.content, holds.mem, Fifo.readable]
    · rename_i unread
      have all : fifo.kept = 0 := by rw [Buffer.trash] at unread; omega
      rw [holds.mem, Fifo.memory, all, Nat.sub_zero, Fifo.readable, List.drop_left' rfl]
  refine ⟨mem, (Buffer.refresh_pointers buf).1, ?_⟩
  rw [(Buffer.refresh_pointers buf).2, holds.len]
  exact (Nat.zero_add _).symm

theorem clear : Holds buf.clear (Fifo.empty fifo.memory) := ⟨holds.mem, rfl, rfl⟩

theorem append_room (bytes : Str) : Holds (buf.grow bytes) { fifo with room := fifo.room ++ bytes } := by
  refine ⟨?_, holds.rd, holds.wr⟩
  rw [Buffer.grow, Fifo.memory]
  simp only
  rw [holds.mem, Fifo.memory, List.append_assoc]

theorem replied (moved : Option Buffer) (image : Option Fifo) (same : Option.Rel Holds moved image) :
    (buf.replied moved).1 = (fifo.replied image).1 ∧ Holds (buf.replied moved).2 (fifo.replied image).2 := by
  cases same with
  | none => exact ⟨rfl, holds⟩
  | some next => exact ⟨rfl, next⟩

theorem getD (moved : Option Buffer) (image : Option Fifo) (same : Option.Rel Holds moved image) :
    Holds (moved.getD buf) (image.getD fifo) := by
  cases same with
  | none => exact holds
  | some next => exact next

theorem fetch (len : Int) (drain : Bool) :
    (buf.fetch len drain).1 = (fifo.fetch len drain).1 ∧ Holds (buf.fetch len drain).2 (fifo.fetch len drain).2 := by
  rw [Buffer.fetch, Fifo.fetch, holds.len]
  by_cases some : len > 0
  · rw [if_pos some, if_pos some]
    refine ⟨by simp only [Buffer.prefetch, holds.content], ?_⟩
    cases drain with
    | false => exact holds
    | true => exact holds.getD _ _ (holds.seek_rd _ .cur)
  · rw [if_neg some, if_neg some]
    exact ⟨rfl, holds⟩

theorem call (op : BufferOp) : (buf.call op).1 = (fifo.call op).1 ∧ Holds (buf.call op).2 (fifo.call op).2 := by
  cases op with
  | init sz grant =>
    cases grant with
    | none => exact ⟨rfl, rfl, rfl, rfl⟩
    | some junk => exact ⟨rfl, rfl, rfl, rfl⟩
  | increase inc grant =>
    have fresh := holds.refresh
    simp only [Buffer.call, Fifo.call, fresh.left]
    split
    · exact ⟨rfl, fresh⟩
    · cases grant with
      | none => exact ⟨rfl, fresh⟩
      | some junk => exact ⟨rfl, fresh.append_room _⟩
  | write src => exact ⟨by rw [Buffer.call, Fifo.call, holds.left], holds.write _⟩
  | read len => exact holds.fetch len true
  | prefetch len => exact holds.fetch len _
  | seekRd off pos =>
    cases pos with
    | other => exact ⟨rfl, holds⟩
    | seek pos => exact holds.replied _ _ (holds.seek_rd off pos)
  | seekWr off pos =>
    cases pos with
    | other => exact ⟨rfl, holds⟩
    | seek pos => exact holds.replied _ _ (holds.seek_wr off pos)
  | refresh => exact ⟨rfl, holds.refresh⟩
  | clear => exact ⟨rfl, holds.clear⟩
  | fill bytes => exact ⟨rfl, holds.fill _⟩

end Holds

namespace Buffer

section Sizes

variable (buf : Buffer)

theorem seek_rd_size (off : Int) (pos : Seek) (next : Buffer) (moved : buf.seekRd off pos = some next) :
    next.size = buf.size := by
  cases pos <;>
  · rw [seekRd] at moved
    split at moved
    · cases moved
    · cases moved
      rfl

theorem seek_wr_size (off : Int) (pos : Seek) (next : Buffer) (moved : buf.seekWr off pos = some next) :
    next.size = buf.size := by
  cases pos <;>
  · rw [seekWr] at moved
    split at moved
    · cases moved
    · cases moved
      rfl

theorem replied_size (moved : Option Buffer) (same : ∀ next, moved = some next → next.size = buf.size) :
    (buf.replied moved).2.size = buf.size := by
  cases moved with
  | none => rfl
  | some next => exact same next rfl

theorem getD_size (moved : Option Buffer) (same : ∀ next, moved = some next → next.size = buf.size) :
    (moved.getD buf).size = buf.size := by
  cases moved with
  | none => rfl
  | some next => exact same next rfl

theorem fetch_size (len : Int) (drain : Bool) : (buf.fetch len drain).2.size = buf.size := by
  rw [fetch]
  split
  · cases drain with
    | false => rfl
    | true => exact getD_size buf _ (seek_rd_size buf _ .cur)
  · rfl

theorem write_size (src : Str) : (buf.write src).size = buf.size := overwrite_length _ _ _ (take_left_fits buf src)

theorem grow_size (bytes : Str) : (buf.grow bytes).size = buf.size + bytes.length := List.length_append

theorem call_size (small : buf.size < 2 ^ 31) (op : BufferOp) (fine : buf.raw.Fine op) : (buf.call op).2.size < 2 ^ 31 := by
  cases op with
  | init sz grant =>
    cases grant with
    | none => exact Nat.two_pow_pos 31
    | some junk =>
      have fits := fine rfl
      simp only [call, ofMem, size, List.length_map, List.length_range]
      exact fits
  | increase inc grant =>
    have same := refresh_size buf
    simp only [call]
    split
    · exact same.trans_lt small
    · rename_i roomy
      cases grant with
      | none => exact same.trans_lt small
      | some junk =>
        have grows : buf.raw.Growable inc (some junk) := by
          refine fine.2.resolve_left fun room => roomy ?_
          rw [RawBuffer.Roomy, raw_size buf small, raw_len buf small] at room
          rw [refresh_left]
          omega
        have fits := grows.2 rfl
        rw [raw_size buf small] at fits
        simp only [grow_size, List.length_map, List.length_range]
        omega
  | write src => exact (write_size buf _).trans_lt small
  | read len => exact (fetch_size buf len true).trans_lt small
  | prefetch len => exact (fetch_size buf len _).trans_lt small
  | seekRd off pos =>
    cases pos with
    | other => exact small
    | seek pos => exact (replied_size buf _ (seek_rd_size buf off pos)).trans_lt small
  | seekWr off pos =>
    cases pos with
    | other => exact small
    | seek pos => exact (replied_size buf _ (seek_wr_size buf off pos)).trans_lt small
  | refresh => exact (refresh_size buf).trans_lt small
  | clear => exact small
  | fill bytes => exact (poke_size buf _ _ (take_left_fits buf _)).trans_lt small

end Sizes

end Buffer

section Runs

variable (memcpy : Memcpy)

abbrev RawBuffer.step (raw : RawBuffer) (op : BufferOp) : RawBuffer := after (RawBuffer.call memcpy) raw op

def BufferOp.resizes : BufferOp → Bool
  | .refresh | .increase _ _ => true
  | _ => false

structure AsFifo (ops : List BufferOp) : Prop where
  ordered : let raw := run (RawBuffer.step memcpy) RawBuffer.null ops
    0 ≤ raw.rd ∧ raw.rd ≤ raw.wr ∧ raw.wr ≤ raw.tail ∧ raw.tail = raw.mem.length
  readable : (run (RawBuffer.step memcpy) RawBuffer.null ops).content =
    (run (after Fifo.call) (Fifo.empty []) ops).readable
  answers : replies (RawBuffer.call memcpy) RawBuffer.null ops = replies Fifo.call (Fifo.empty []) ops
  resized : ∀ before op behind, ops = before ++ op :: behind → op.resizes = true →
    let raw := run (RawBuffer.step memcpy) RawBuffer.null before
    (raw.step memcpy op).content = raw.content

def Stands (raw : RawBuffer) (fifo : Fifo) : Prop := ∃ buf : Buffer, raw = buf.raw ∧ buf.size < 2 ^ 31 ∧ Holds buf fifo

theorem Buffer.raw_content (buf : Buffer) : buf.raw.content = buf.content := rfl

theorem resizes_readable (fifo : Fifo) (op : BufferOp) (resizes : op.resizes = true) :
    (after Fifo.call fifo op).readable = fifo.readable := by
  cases op with
  | refresh => rfl
  | increase inc grant =>
    simp only [after, Fifo.call]
    split
    · rfl
    · cases grant <;> rfl
  | _ => cases resizes

theorem stands_call (documented : Documented memcpy) (raw : RawBuffer) (fifo : Fifo) (op : BufferOp)
    (stands : Stands raw fifo) (fine : raw.Fine op) :
    (raw.call memcpy op).1 = (fifo.call op).1 ∧ Stands (raw.step memcpy op) (after Fifo.call fifo op) := by
  obtain ⟨buf, same, small, holds⟩ := stands
  subst same
  have called := buf.raw_call _ documented small op fine
  have image := holds.call op
  rw [RawBuffer.step, after, called]
  exact ⟨image.1, _, rfl, buf.call_size small op fine, image.2⟩

theorem stands_run (documented : Documented memcpy) (ops : List BufferOp)
    (fine : AllSteps (RawBuffer.step memcpy) RawBuffer.Fine RawBuffer.null ops) :
    replies (RawBuffer.call memcpy) RawBuffer.null ops = replies Fifo.call (Fifo.empty []) ops ∧
      Stands (run (RawBuffer.step memcpy) RawBuffer.null ops) (run (after Fifo.call) (Fifo.empty []) ops) :=
  run_simulates _ _ _ _ (stands_call _ documented) _ _ ops
    ⟨Buffer.ofMem [], rfl, by decide, rfl, rfl, rfl⟩ fine

theorem buffer_refines_fifo (documented : Documented memcpy) (ops : List BufferOp)
    (fine : AllSteps (RawBuffer.step memcpy) RawBuffer.Fine RawBuffer.null ops) : AsFifo memcpy ops := by
  obtain ⟨answers, buf, same, small, holds⟩ := stands_run _ documented ops fine
  refine ⟨?_, ?_, answers, ?_⟩
  · have ordered := buf.ordered
    have bounded := buf.bounded
    rw [same]
    change (0 : Int) ≤ buf.rd ∧ (buf.rd : Int) ≤ buf.wr ∧ (buf.wr : Int) ≤ buf.mem.length ∧ _
    exact ⟨by omega, by omega, by omega, rfl⟩
  · rw [same]
    exact holds.content
  · intro before op behind split resizes
    rw [split, all_steps_append] at fine
    obtain ⟨first, here, _⟩ := fine
    obtain ⟨_, was⟩ := stands_run _ documented _ first
    obtain ⟨_, next⟩ := stands_call _ documented _ _ op was here
    obtain ⟨old, same, _, holds⟩ := was
    obtain ⟨new, changed, _, held⟩ := next
    simp only
    rw [changed, same, Buffer.raw_content, Buffer.raw_content, held.content, holds.content]
    exact resizes_readable _ op resizes

theorem memmove_documented : Documented memmove := fun _ _ _ _ _ _ _ => rfl

theorem buffer_refines_fifo_sample :
    AsFifo memmove [.init 8 (some fun _ => 0), .write ⟨[1, 2, 3, 4], by decide⟩, .read 3, .increase 9 none, .refresh,
      .increase 9 (some fun _ => 7), .seekWr 1 (.seek .cur)] :=
  buffer_refines_fifo _ memmove_documented _ (by decide +kernel)

def memcpyDown (mem : List UInt8) (dest src : Nat) : Nat → List UInt8
  | 0 => mem
  | len + 1 => memcpyDown (mem.set (dest + len) (mem.getD (src + len) 0)) dest src len

theorem memcpy_down_get (mem : List UInt8) (dest src len place : Nat) (apart : dest + len ≤ src ∨ src + len ≤ dest)
    (room : dest + len ≤ mem.length) (bytes : src + len ≤ mem.length) :
    (memcpyDown mem dest src len)[place]? = if dest ≤ place ∧ place < dest + len then mem[src + (place - dest)]? else mem[place]? := by
  induction len generalizing mem with
  | zero => rw [memcpyDown, if_neg (by omega)]
  | succ len ih =>
    have value : mem.getD (src + len) 0 = mem[src + len] := by
      rw [List.getD_eq_getElem?_getD, List.getElem?_eq_getElem _, Option.getD_some]
    rw [memcpyDown, ih _ (by omega) (by rw [List.length_set]; omega) (by rw [List.length_set]; omega)]
    by_cases early : dest ≤ place ∧ place < dest + len
    · rw [if_pos early, if_pos (by omega), List.getElem?_set_ne (by omega)]
    · rw [if_neg early]
      by_cases last : place = dest + len
      · rw [if_pos (by omega), last, List.getElem?_set_self (by omega), value, Nat.add_sub_cancel_left,
          List.getElem?_eq_getElem _]
      · rw [if_neg (by omega), List.getElem?_set_ne (Ne.symm last)]

theorem memcpy_down_documented : Documented memcpyDown := by
  intro mem dest src len apart room bytes
  apply List.ext_getElem?
  intro place
  rw [memcpy_down_get mem dest src len _ apart room bytes, overwrite]
  by_cases early : place < dest
  · rw [if_neg (by omega), List.append_assoc, List.getElem?_append_left (by rw [List.length_take]; omega),
      List.getElem?_take_of_lt early]
  · by_cases inner : place < dest + len
    · rw [if_pos (by omega), List.getElem?_append_left (by simp; omega),
        List.getElem?_append_right (by rw [List.length_take]; omega), List.length_take, Nat.min_eq_left (by omega),
        List.getElem?_take_of_lt (by omega), List.getElem?_drop]
    · have copied : ((mem.drop src).take len).length = len := by
        rw [List.length_take, List.length_drop]
        omega
      rw [if_neg (by omega), List.getElem?_append_right (by simp; omega), copied, List.getElem?_drop, List.length_append,
        copied, List.length_take, Nat.min_eq_left (by omega)]
      congr 1
      omega

-- Sixteen bytes, and a request for so many more that the sum is fifteen; three
-- bytes, of which the last two move down by one.
theorem buffer_not_fifo : (¬ ∀ ops, AsFifo memmove ops) ∧ ¬ ∀ memcpy, Documented memcpy → ∀ ops, AsFifo memcpy ops := by
  constructor
  · intro claim
    have ordered := (claim [.init 16 (some fun _ => 0), .write ⟨List.replicate 16 1, by decide⟩,
      .increase 0xffffffff (some fun _ => 0)]).ordered
    revert ordered
    decide +kernel
  · intro claim
    have readable := (claim _ memcpy_down_documented
      [.init 4 (some fun _ => 0), .write ⟨[1, 2, 3], by decide⟩, .read 1, .refresh]).readable
    revert readable
    decide +kernel

end Runs

end Codec.Ems
