import Codec.Ems.BufferMachine
import Mathlib.Tactic.Linarith

set_option autoImplicit false

namespace Codec.Ems

theorem cint_small (n : Int) (low : -2 ^ 31 ≤ n) (high : n < 2 ^ 31) : cint n = n :=
  Int.bmod_eq_of_le (by simpa using low) (by simpa using high)

theorem cabs_nat (n : Nat) (small : n < 2 ^ 31) : cabs n = n := by
  have fits : (n : Int) < 2 ^ 31 := by exact_mod_cast small
  rw [cabs, cint_small n (by omega) fits, abs_of_nonneg (Int.natCast_nonneg n), cint_small n (by omega) fits]

def RawBuffer.Apart (raw : RawBuffer) : Prop := raw.trash = 0 ∨ raw.len ≤ raw.trash

instance (raw : RawBuffer) : Decidable raw.Apart := inferInstanceAs (Decidable (_ ∨ _))

def RawBuffer.Roomy (raw : RawBuffer) (inc : UInt32) : Prop := (inc.toNat : Int) < raw.size - raw.len

def RawBuffer.Growable (raw : RawBuffer) (inc : UInt32) (grant : Grant) : Prop :=
  (raw.size + inc.toNat) % 2 ^ 32 ≠ 0 ∧ (grant.isSome = true → raw.size + inc.toNat < 2 ^ 31)

def RawBuffer.Fine (raw : RawBuffer) : BufferOp → Prop
  | .init sz grant => grant.isSome = true → sz.toNat < 2 ^ 31
  | .increase inc grant => raw.Apart ∧ (raw.Roomy inc ∨ raw.Growable inc grant)
  | .refresh => raw.Apart
  | _ => True

instance (raw : RawBuffer) (op : BufferOp) : Decidable (raw.Fine op) := by
  cases op <;> unfold RawBuffer.Fine RawBuffer.Roomy RawBuffer.Growable <;> infer_instance

namespace Buffer

theorem mem_bounded (mem : List UInt8) : 0 ≤ mem.length := Nat.zero_le _

def ofMem (mem : List UInt8) : Buffer := ⟨mem, 0, 0, none_read, mem_bounded mem⟩

def grow (buf : Buffer) (bytes : List UInt8) : Buffer :=
  { buf with mem := buf.mem ++ bytes, bounded := by have := buf.bounded; simp only [List.length_append]; omega }

def raw (buf : Buffer) : RawBuffer := ⟨buf.mem, buf.mem.length, buf.rd, buf.wr⟩

section Calls

variable (buf : Buffer)

def fetch (len : Int) (drain : Bool) : BufReply × Buffer :=
  if len > 0 then
    let taken := min len.toNat buf.len
    (⟨taken, buf.prefetch taken⟩, if drain then (buf.seekRd taken .cur).getD buf else buf)
  else (replyErr, buf)

def replied : Option Buffer → BufReply × Buffer
  | some moved => (replyOk, moved)
  | none => (replyErr, buf)

def call : BufferOp → BufReply × Buffer
  | .init sz (some junk) => (replyOk, ofMem ((List.range sz.toNat).map junk))
  | .init _ none => (replyErr, ofMem [])
  | .increase inc grant =>
    let fresh := buf.refresh
    if fresh.left > inc.toNat then (replyOk, fresh)
    else match grant with
      | some junk => (replyOk, fresh.grow ((List.range inc.toNat).map junk))
      | none => (replyErr, fresh)
  | .write src => (⟨(src.val.take buf.left).length, []⟩, buf.write src.val)
  | .read len => buf.fetch len true
  | .prefetch len => buf.fetch len false
  | .seekRd off (.seek pos) => buf.replied (buf.seekRd off pos)
  | .seekRd _ .other => (replyErr, buf)
  | .seekWr off (.seek pos) => buf.replied (buf.seekWr off pos)
  | .seekWr _ .other => (replyOk, buf)
  | .refresh => (replyOk, buf.refresh)
  | .clear => (replyOk, buf.clear)
  | .fill bytes => (replyOk, buf.poke buf.wr (bytes.take buf.left))

end Calls

section Measures

variable (buf : Buffer) (small : buf.size < 2 ^ 31)

include small

theorem raw_size : buf.raw.size = buf.size := cabs_nat _ small

theorem raw_left : buf.raw.left = buf.left := by
  have bounded := buf.bounded
  have distance : (buf.mem.length : Int) - buf.wr = (buf.left : Nat) := by rw [left]; omega
  rw [RawBuffer.left, raw, distance]
  exact cabs_nat _ (by rw [left]; rw [size] at small; omega)

theorem raw_len : buf.raw.len = buf.len := by
  have ordered := buf.ordered
  have bounded := buf.bounded
  have distance : (buf.wr : Int) - buf.rd = (buf.len : Nat) := by rw [len]; omega
  rw [RawBuffer.len, raw, distance]
  exact cabs_nat _ (by rw [len]; rw [size] at small; omega)

theorem raw_trash : buf.raw.trash = buf.trash := by
  have ordered := buf.ordered
  have bounded := buf.bounded
  exact cabs_nat _ (by rw [size] at small; omega)

end Measures

section Sizes

variable (buf : Buffer)

theorem refresh_size : buf.refresh.size = buf.size := by
  rw [refresh]
  split
  · apply overwrite_length
    have bounded := buf.bounded
    rw [content_length, len]
    omega
  · rfl

theorem refresh_pointers : buf.refresh.rd = 0 ∧ buf.refresh.wr = buf.len := by
  rw [refresh]
  split
  · exact ⟨rfl, rfl⟩
  · rename_i unread
    simp only [trash] at unread
    rw [len]
    omega

theorem refresh_left : buf.refresh.left = buf.size - buf.len := by
  rw [left, (refresh_pointers buf).2]
  exact congrArg (· - buf.len) (refresh_size buf)

theorem realloc_more (mem : List UInt8) (inc : Nat) (junk : Nat → UInt8) :
    RawBuffer.realloc mem (mem.length + inc) junk = mem ++ (List.range inc).map junk := by
  rw [RawBuffer.realloc, List.take_of_length_le (Nat.le_add_right _ _), Nat.add_sub_cancel_left]

theorem poke_size (start : Nat) (bytes : Str) (fits : start + bytes.length ≤ buf.mem.length) :
    (buf.poke start bytes).size = buf.size :=
  overwrite_length _ _ _ fits

theorem take_left_fits (src : Str) : buf.wr + (src.take buf.left).length ≤ buf.mem.length := by
  have bounded := buf.bounded
  rw [List.length_take, left]
  omega

theorem take_taken (src : Str) : (src.take (src.take buf.left).length).take buf.left = src.take buf.left := by
  rw [List.length_take, List.take_take, ← Nat.min_assoc, Nat.min_self, ← List.take_take, List.take_length]

theorem raw_replied (moved : Option Buffer) :
    buf.raw.replied (moved.map raw) = ((buf.replied moved).1, (buf.replied moved).2.raw) := by
  cases moved <;> rfl

end Sizes

section Simulation

variable (memcpy : Memcpy) (documented : Documented memcpy) (buf : Buffer) (small : buf.size < 2 ^ 31)

include small

theorem raw_seek_rd (off : Int) (pos : Seek) : buf.raw.seekRd off (.seek pos) = (buf.seekRd off pos).map raw := by
  have ordered := buf.ordered
  have bounded := buf.bounded
  have sum : cint ((buf.len : Int) + buf.trash) = buf.len + buf.trash := by
    apply cint_small <;> simp only [len, trash, size] at small ⊢ <;> omega
  cases pos with
  | set =>
    rw [RawBuffer.seekRd, raw_len buf small, raw_trash buf small, sum, seekRd]
    split
    · rfl
    · simp only [raw, Option.map_some, RawBuffer.mk.injEq, Option.some.injEq, true_and, and_true]
      omega
  | cur =>
    rw [RawBuffer.seekRd, raw_len buf small, raw_trash buf small, seekRd]
    split
    · rfl
    · rename_i fine
      simp only [raw, trash, len, Option.map_some, RawBuffer.mk.injEq, Option.some.injEq, true_and, and_true] at fine ⊢
      omega
  | tail =>
    rw [RawBuffer.seekRd, raw_len buf small, raw_trash buf small, sum, seekRd]
    split
    · rfl
    · rename_i fine
      simp only [raw, trash, len, Option.map_some, RawBuffer.mk.injEq, Option.some.injEq, true_and, and_true] at fine ⊢
      omega

theorem raw_seek_wr (off : Int) (pos : Seek) : buf.raw.seekWr off (.seek pos) = (buf.seekWr off pos).map raw := by
  have bounded := buf.bounded
  have sum : cint ((buf.len : Int) + buf.left) = buf.len + buf.left := by
    apply cint_small <;> simp only [len, left, size] at small ⊢ <;> omega
  cases pos with
  | set =>
    rw [RawBuffer.seekWr, raw_len buf small, raw_left buf small, sum, seekWr]
    split
    · rfl
    · simp only [raw, Option.map_some, RawBuffer.mk.injEq, Option.some.injEq, true_and]
      omega
  | cur =>
    rw [RawBuffer.seekWr, raw_len buf small, raw_left buf small, seekWr]
    split
    · rfl
    · rename_i fine
      simp only [raw, left, len, Option.map_some, RawBuffer.mk.injEq, Option.some.injEq, true_and] at fine ⊢
      omega
  | tail =>
    rw [RawBuffer.seekWr, raw_len buf small, raw_left buf small, sum, seekWr]
    split
    · rfl
    · rename_i fine
      simp only [raw, left, len, Option.map_some, RawBuffer.mk.injEq, Option.some.injEq, true_and] at fine ⊢
      omega

theorem raw_refresh_moved (moved : memcpy buf.mem 0 buf.rd buf.len = overwrite buf.mem 0 ((buf.mem.drop buf.rd).take buf.len)) :
    buf.raw.refresh memcpy = buf.refresh.raw := by
  have inside : (buf.mem.drop buf.rd).take buf.len = buf.content := by
    rw [content, List.drop_take]
    rfl
  have kept : (overwrite buf.mem 0 buf.content).length = buf.mem.length := by
    apply overwrite_length
    have bounded := buf.bounded
    rw [content_length, len]
    omega
  rw [RawBuffer.refresh, raw_trash buf small, raw_len buf small, refresh]
  by_cases consumed : buf.trash > 0
  · rw [if_pos consumed, if_pos (by exact_mod_cast consumed)]
    simp only [raw, Int.toNat_natCast, RawBuffer.mk.injEq, Nat.cast_zero, and_true]
    exact ⟨by rw [moved, inside], by rw [kept]⟩
  · rw [if_neg consumed, if_neg (by exact_mod_cast consumed)]

include documented in
theorem raw_refresh (apart : buf.raw.Apart) : buf.raw.refresh memcpy = buf.refresh.raw := by
  have bounded := buf.bounded
  have ordered := buf.ordered
  by_cases consumed : buf.trash > 0
  · apply raw_refresh_moved memcpy buf small
    rw [RawBuffer.Apart, raw_trash buf small, raw_len buf small] at apart
    apply documented
    · left
      simp only [trash] at apart consumed
      omega
    · rw [len]
      omega
    · rw [len]
      omega
  · rw [RawBuffer.refresh, raw_trash buf small, refresh, if_neg consumed, if_neg (by exact_mod_cast consumed)]

theorem raw_fill (bytes : Str) : buf.raw.fill bytes = (buf.poke buf.wr (bytes.take buf.left)).raw := by
  have kept := poke_size buf _ _ (take_left_fits buf bytes)
  rw [RawBuffer.fill, raw_left buf small]
  simp only [raw, poke, Int.toNat_natCast, RawBuffer.mk.injEq, true_and, and_true]
  exact_mod_cast kept.symm

theorem raw_write (src : WriteSrc) : buf.raw.write src = (⟨(src.val.take buf.left).length, []⟩, (buf.write src.val).raw) := by
  have count : (if (src.val.length : Int) > buf.left then (buf.left : Int) else src.val.length) =
      ((src.val.take buf.left).length : Nat) := by
    rw [List.length_take]
    split <;> omega
  have stored := raw_fill buf small (src.val.take (src.val.take buf.left).length)
  rw [take_taken buf _] at stored
  have same := poke_size buf _ _ (take_left_fits buf src.val)
  have moved := raw_seek_wr (buf.poke buf.wr (src.val.take buf.left)) (by omega) (src.val.take buf.left).length .cur
  have left : (src.val.take buf.left).length ≤ (buf.poke buf.wr (src.val.take buf.left)).left := by
    have fits := take_left_fits buf src.val
    have room : (buf.poke _ _).left = buf.size - buf.wr := congrArg (· - buf.wr) same
    rw [room, size]
    omega
  rw [RawBuffer.write, raw_left buf small, count]
  simp only [Int.toNat_natCast]
  rw [stored, moved, seekWr, dif_neg (by omega)]
  simp only [Option.map_some, Option.getD_some, raw, write, poke, Prod.mk.injEq, RawBuffer.mk.injEq, true_and]
  omega

theorem raw_fetch (len : Int) (drain : Bool) :
    buf.raw.fetch len drain = ((buf.fetch len drain).1, (buf.fetch len drain).2.raw) := by
  rw [RawBuffer.fetch, raw_len buf small, fetch]
  by_cases some : len > 0
  · have count : (if (buf.len : Int) < len then (buf.len : Int) else len) = (min len.toNat buf.len : Nat) := by
      split <;> omega
    have bytes : (buf.raw.mem.drop buf.raw.rd.toNat).take (min len.toNat buf.len) = buf.prefetch (min len.toNat buf.len) := by
      have cut : min _ (buf.wr - buf.rd) = min len.toNat buf.len := Nat.min_eq_left (Nat.min_le_right _ _)
      rw [prefetch, content, List.drop_take, List.take_take, cut]
      rfl
    rw [if_pos some, if_pos some, count]
    simp only [Int.toNat_natCast]
    rw [bytes, raw_seek_rd buf small]
    cases drain with
    | false => rfl
    | true =>
      cases buf.seekRd _ .cur with
      | none => rfl
      | some moved => rfl
  · rw [if_neg some, if_neg some]

include documented in
theorem raw_increase (inc : UInt32) (grant : Grant) (fine : buf.raw.Fine (.increase inc grant)) :
    buf.raw.increase memcpy inc grant = ((buf.call (.increase inc grant)).1, (buf.call (.increase inc grant)).2.raw) := by
  have shrunk : buf.refresh.size < 2 ^ 31 := by rw [refresh_size]; exact small
  have most := inc.toNat_lt
  have whole : (buf.refresh.left : Int) % 2 ^ 32 = buf.refresh.left := by
    have bound : buf.refresh.left ≤ buf.refresh.size := Nat.sub_le _ _
    omega
  rw [RawBuffer.increase, raw_refresh memcpy documented buf small fine.1]
  simp only [call, raw_left buf.refresh shrunk, raw_size buf.refresh shrunk, raw_len buf.refresh shrunk, whole]
  by_cases roomy : buf.refresh.left > inc.toNat
  · rw [if_pos (by exact_mod_cast roomy), if_pos roomy]
  · have grows : buf.raw.Growable inc grant := by
      refine fine.2.resolve_left fun room => roomy ?_
      rw [RawBuffer.Roomy, raw_size buf small, raw_len buf small] at room
      have := buf.len_le_size
      rw [refresh_left]
      omega
    rw [RawBuffer.Growable, raw_size buf small] at grows
    rw [if_neg (by exact_mod_cast roomy), if_neg roomy, refresh_size, if_neg (by omega)]
    cases grant with
    | none => rfl
    | some junk =>
      have fits := grows.2 rfl
      have length : buf.refresh.mem.length = buf.size := refresh_size buf
      have total : (((buf.size : Int) + inc.toNat) % 2 ^ 32).toNat = buf.refresh.mem.length + inc.toNat := by omega
      have unread : (buf.refresh.len : Int) % 2 ^ 32 = buf.refresh.wr := by
        have bound := buf.refresh.len_le_size
        have pointers := refresh_pointers buf
        rw [len] at bound ⊢
        omega
      rw [total, unread]
      simp only [raw, realloc_more, grow, (refresh_pointers buf).1, List.length_append, List.length_map,
        List.length_range, Nat.cast_zero]

include documented in
theorem raw_call (op : BufferOp) (fine : buf.raw.Fine op) :
    buf.raw.call memcpy op = ((buf.call op).1, (buf.call op).2.raw) := by
  cases op with
  | init sz grant =>
    cases grant with
    | none => rfl
    | some junk => simp only [RawBuffer.call, RawBuffer.init, call, raw, ofMem, List.length_map, List.length_range, Nat.cast_zero]
  | increase inc grant => exact raw_increase memcpy documented buf small inc grant fine
  | write src => exact raw_write buf small src
  | read len => exact raw_fetch buf small len true
  | prefetch len => exact raw_fetch buf small len false
  | seekRd off pos =>
    cases pos with
    | other => rfl
    | seek pos =>
      rw [RawBuffer.call, raw_seek_rd buf small, raw_replied]
      rfl
  | seekWr off pos =>
    cases pos with
    | other => rfl
    | seek pos =>
      rw [RawBuffer.call, raw_seek_wr buf small, raw_replied]
      rfl
  | refresh => exact congrArg (Prod.mk replyOk) (raw_refresh memcpy documented buf small fine)
  | clear => rfl
  | fill bytes => exact congrArg (Prod.mk replyOk) (raw_fill buf small bytes)

end Simulation

end Buffer

end Codec.Ems
