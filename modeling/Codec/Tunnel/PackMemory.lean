import Codec.Ems.BufferMachine
import Codec.Tunnel.Frame

set_option autoImplicit false

namespace Codec.Tunnel.Memory

open Codec.Ems

-- What tunnel_packmsg is given; val is NULL where it is none. ems_assert bounds
-- the length.
structure PackArgs where
  ty : UInt16
  id : UInt32
  len : Nat
  val : Option Str
  short : len ≤ 2048
  whole : ∀ bytes, val = some bytes → bytes.length = len

namespace PackArgs

variable (args : PackArgs)

def bytes : Str := args.val.getD []

-- htons(len) if there is a value, else htons(0): both are the length of it.
def stored : Pkg := ⟨args.ty, args.id, args.bytes⟩

end PackArgs

section Buffer

variable (buf : Buffer)

-- ems_buffer_refresh; none where memcpy is given regions that overlap.
def refreshed : Option Buffer := if 0 < buf.trash ∧ buf.trash < buf.len then none else some buf.refresh

def grown (fresh : Buffer) (inc : Nat) (junk : Nat → UInt8) : Buffer :=
  { fresh with
    mem := fresh.mem ++ (List.range inc).map junk
    bounded := by have := fresh.bounded; simp only [List.length_append]; omega }

def increased (inc : Nat) (grant : Grant) : Option Buffer :=
  (refreshed buf).map fun fresh =>
    if fresh.left > inc then fresh
    else match grant with
      | some junk => grown fresh inc junk
      | none => fresh

end Buffer

section Pack

variable (buf : Buffer) (args : PackArgs) (grant : Grant)

-- The stores at wr and the move of wr; none where a store is behind the tail.
def storePkg (room : Buffer) : Option Packed :=
  let bytes := args.stored.bytes
  if room.left < bytes.length then none
  else
    let stored := room.poke room.wr bytes
    some ⟨if 262144 < room.len then .slowDown else .ok, (stored.seekWr (sizeTunnelHl + args.len : Nat) .cur).getD stored⟩

def tunnelPackmsg : Option Packed :=
  if buf.left ≤ sizeTunnelHl + args.len then
    if buf.size ≥ 524288 then some ⟨.err, buf⟩
    else (increased buf 2048 grant).bind (storePkg args)
  else storePkg args buf

def WholeFrame (frame : Str) : Prop :=
  ∃ pkg : Pkg, frame = pkg.bytes ∧ pkg.flgty = args.ty ∧ pkg.id = args.id ∧ pkg.val.length = args.len ∧
    ∀ val, args.val = some val → pkg.val = val

def Appended (packed : Packed) : Prop := packed.ret ≠ .err ∧ ∃ frame, WholeFrame args frame ∧ packed.buf.content = buf.content ++ frame

def Atomic (result : Option Packed) : Prop :=
  ∃ packed, result = some packed ∧ (Appended buf args packed ∨ (packed.ret = .err ∧ packed.buf.content = buf.content))

def roomFor : Nat :=
  let free := buf.size - buf.len
  if free ≤ 2048 ∧ grant.isSome then free + 2048 else free

def Refused : Prop := buf.left ≤ sizeTunnelHl + args.len ∧ 524288 ≤ buf.size

def PackFits : Prop :=
  sizeTunnelHl + args.len < buf.left ∨ ((buf.trash = 0 ∨ buf.len ≤ buf.trash) ∧ sizeTunnelHl + args.len ≤ roomFor buf grant)

end Pack

section Store

variable (room : Buffer) (args : PackArgs)

theorem store_ret (packed : Packed) (done : storePkg args room = some packed) : packed.ret ≠ .err := by
  unfold storePkg at done
  dsimp only at done
  split at done
  · exact nomatch done
  · obtain rfl := Option.some.inj done
    dsimp only
    split <;> decide

theorem bytes_given (val : Str) (given : args.val = some val) : args.bytes = val := by
  rw [PackArgs.bytes, given, Option.getD_some]

theorem stored_length (given : args.val = none → args.len = 0) : args.stored.val.length = args.len := by
  show args.bytes.length = args.len
  cases value : args.val with
  | some val =>
    rw [bytes_given args val value]
    exact args.whole val value
  | none => rw [PackArgs.bytes, value, Option.getD_none, given value, List.length_nil]

theorem store_appends (given : args.val = none → args.len = 0) (fits : sizeTunnelHl + args.len ≤ room.left) :
    ∃ packed, storePkg args room = some packed ∧ Appended room args packed := by
  have length : args.stored.bytes.length = sizeTunnelHl + args.len := by rw [bytes_length, stored_length args given]
  obtain ⟨next, moved, content⟩ := store_fits room args.stored.bytes (by omega)
  rw [List.take_of_length_le (by omega), length] at moved
  have done : storePkg args room = some ⟨if 262144 < room.len then .slowDown else .ok, next⟩ := by
    rw [storePkg]
    dsimp only
    rw [if_neg (by omega), moved, Option.getD_some]
  refine ⟨_, done, store_ret room args _ done, args.stored.bytes, ⟨args.stored, rfl, rfl, rfl, stored_length args given, ?_⟩, content⟩
  intro val same
  exact bytes_given args val same

theorem store_short (packed : Packed) (done : storePkg args room = some packed) (unfit : room.left < sizeTunnelHl + args.len) :
    packed.buf.content = room.content := by
  unfold storePkg at done
  dsimp only at done
  split at done
  · exact nomatch done
  · have all : args.stored.bytes.take room.left = args.stored.bytes := List.take_of_length_le (by omega)
    have moved := store_overflows room args.stored.bytes _ unfit
    have content := poke_content room args.stored.bytes
    rw [all] at moved content
    obtain rfl := Option.some.inj done
    rw [moved]
    exact content

theorem frame_length (frame : Str) (whole : WholeFrame args frame) : frame.length = sizeTunnelHl + args.len := by
  obtain ⟨pkg, rfl, -, -, same, -⟩ := whole
  rw [bytes_length, same]

theorem header_len (pkg : Pkg) (small : pkg.val.length ≤ 2048) : ntohs (pkg.header.drop 2) = pkg.val.length := by
  have word : pkg.header.drop 2 = htons _ ++ htonl _ := rfl
  rw [word, ntohs_htons]
  omega

theorem seek_content (buf : Buffer) (off : Nat) (fits : off ≤ buf.left) :
    ∃ next, buf.seekWr off .cur = some next ∧ next.content = (buf.mem.take (buf.wr + off)).drop buf.rd := by
  dsimp only [Buffer.seekWr]
  rw [dif_neg (by omega)]
  refine ⟨_, rfl, ?_⟩
  have position : ((buf.wr : Int) + off).toNat = buf.wr + off := by omega
  simp only [Buffer.content, position]

theorem store_empty (packed : Packed) (done : storePkg args room = some packed) (none : args.val = none) (some : args.len ≠ 0)
    (fits : sizeTunnelHl + args.len ≤ room.left) : ¬ Appended room args packed := by
  rintro ⟨-, frame, ⟨pkg, rfl, -, -, same, -⟩, content⟩
  have empty : args.stored.val = [] := by
    show args.val.getD [] = []
    rw [none, Option.getD_none]
  have bare : args.stored.bytes = args.stored.header := by rw [Pkg.bytes, empty, List.append_nil]
  have window := Buffer.overwrite_window _ args.stored.header _ _ room.ordered room.bounded
  have ordered := room.ordered
  have left : (room.poke room.wr args.stored.header).left = room.left := by
    have moved := poke_left room args.stored.header
    rwa [List.take_of_length_le (by rw [header_length]; omega)] at moved
  obtain ⟨next, moved, behind⟩ := seek_content (room.poke room.wr args.stored.header) (sizeTunnelHl + args.len) (by omega)
  unfold storePkg at done
  dsimp only at done
  rw [bare, if_neg (by rw [header_length]; omega), moved] at done
  obtain rfl := Option.some.inj done
  have first := congrArg (List.take (room.len + sizeTunnelHl)) (behind.symm.trans content)
  have reached : min (room.rd + (room.len + sizeTunnelHl)) (room.wr + (sizeTunnelHl + args.len)) = room.wr + args.stored.header.length := by
    rw [Buffer.len, header_length]
    omega
  have front : (room.content ++ pkg.bytes).take (room.len + sizeTunnelHl) = room.content ++ pkg.header := by
    rw [← Buffer.content_length, ← header_length pkg, List.take_length_add_append, Pkg.bytes, List.take_left' rfl]
  have stored : (((overwrite room.mem room.wr args.stored.header).take (room.wr + (sizeTunnelHl + args.len))).drop room.rd).take
      (room.len + sizeTunnelHl) = room.content ++ args.stored.header := by
    rw [List.take_drop, List.take_take, reached]
    exact window
  have same_header : args.stored.header = pkg.header := List.append_cancel_left (stored.symm.trans (first.trans front))
  have lens := congrArg (fun header => ntohs (List.drop 2 header)) same_header
  have short := args.short
  rw [header_len _ (by rw [empty]; exact Nat.zero_le _), header_len _ (by omega), empty, same] at lens
  exact some lens.symm

end Store

section Room

variable (buf : Buffer)

theorem refreshed_size (fresh : Buffer) (done : refreshed buf = some fresh) :
    fresh.content = buf.content ∧ fresh.left = buf.size - buf.len := by
  unfold refreshed at done
  split at done
  · exact nomatch done
  · obtain rfl := Option.some.inj done
    refine ⟨Buffer.content_refresh buf, ?_⟩
    have inside := buf.bounded
    unfold Buffer.refresh
    split
    · have size : (overwrite _ 0 _).length = buf.mem.length :=
        overwrite_length _ 0 buf.content (by rw [Buffer.content_length, Buffer.len]; omega)
      rw [Buffer.left, size, Buffer.size]
    · rename_i clean
      rw [Buffer.trash] at clean
      rw [Buffer.left, Buffer.size, Buffer.len]
      omega

theorem increased_some (grant : Grant) (apart : buf.trash = 0 ∨ buf.len ≤ buf.trash) :
    ∃ room, increased buf 2048 grant = some room ∧ room.content = buf.content ∧ room.left = roomFor buf grant := by
  have clear : refreshed buf = some _ := if_neg (by omega)
  obtain ⟨content, left⟩ := refreshed_size buf _ clear
  unfold increased roomFor
  rw [clear, Option.map_some]
  refine ⟨_, rfl, ?_⟩
  by_cases enough : buf.refresh.left > 2048
  · rw [if_pos enough, if_neg (by omega)]
    exact ⟨content, left⟩
  rw [if_neg enough]
  cases grant with
  | none =>
    rw [if_neg (by simp)]
    exact ⟨content, left⟩
  | some junk =>
    rw [if_pos ⟨by omega, rfl⟩]
    have inside := buf.refresh.bounded
    constructor
    · rw [← content]
      exact congrArg (List.drop _) (List.take_append_of_le_length inside)
    · rw [← left]
      simp only [grown, Buffer.left, List.length_append, List.length_map, List.length_range]
      omega

theorem increased_none (grant : Grant) (across : ¬ (buf.trash = 0 ∨ buf.len ≤ buf.trash)) : increased buf 2048 grant = none := by
  rw [increased, refreshed, if_pos (by omega)]
  rfl

end Room

section Calls

variable (buf : Buffer) (args : PackArgs) (grant : Grant)

theorem appended_congr (room : Buffer) (packed : Packed) (same : room.content = buf.content) :
    Appended room args packed ↔ Appended buf args packed := by
  unfold Appended
  rw [same]

theorem store_atomic (room : Buffer) (same : room.content = buf.content) :
    Atomic buf args (storePkg args room) ↔ (args.val = none → args.len = 0) ∧ sizeTunnelHl + args.len ≤ room.left := by
  constructor
  · rintro ⟨packed, done, (⟨ret, frame, whole, content⟩ | ⟨err, -⟩)⟩
    · have fits : sizeTunnelHl + args.len ≤ room.left := by
        by_contra unfit
        have short := store_short room args _ done (by omega)
        have length := congrArg List.length (short.symm.trans content)
        rw [same, List.length_append, frame_length args _ whole, sizeTunnelHl] at length
        omega
      refine ⟨fun none => ?_, fits⟩
      by_contra some
      exact store_empty room args _ done none some fits ((appended_congr buf args room _ same).mpr ⟨ret, frame, whole, content⟩)
    · exact absurd err (store_ret room args _ done)
  · rintro ⟨given, fits⟩
    obtain ⟨packed, done, appended⟩ := store_appends room args given fits
    exact ⟨packed, done, .inl ((appended_congr buf args room _ same).mp appended)⟩

theorem packmsg_atomic_iff : Atomic buf args (tunnelPackmsg buf args grant) ↔
      Refused buf args ∨ ((args.val = none → args.len = 0) ∧ PackFits buf args grant) := by
  unfold tunnelPackmsg Refused PackFits
  by_cases low : buf.left ≤ sizeTunnelHl + args.len
  · rw [if_pos low]
    by_cases large : buf.size ≥ 524288
    · rw [if_pos large]
      exact iff_of_true ⟨_, rfl, .inr ⟨rfl, rfl⟩⟩ (.inl ⟨low, large⟩)
    rw [if_neg large]
    by_cases apart : buf.trash = 0 ∨ buf.len ≤ buf.trash
    · obtain ⟨room, made, content, left⟩ := increased_some buf _ apart
      rw [made, Option.bind_some, store_atomic buf args room content, left]
      constructor
      · rintro ⟨given, fits⟩
        exact .inr ⟨given, .inr ⟨apart, fits⟩⟩
      · rintro (⟨-, huge⟩ | ⟨given, strict | ⟨-, fits⟩⟩)
        · exact absurd huge large
        · omega
        · exact ⟨given, fits⟩
    · rw [increased_none buf _ apart]
      refine iff_of_false (fun ⟨_, done, _⟩ => nomatch done) ?_
      rintro (⟨-, huge⟩ | ⟨-, strict | ⟨clear, -⟩⟩)
      · exact large huge
      · omega
      · exact apart clear
  · rw [if_neg low, store_atomic buf args buf rfl]
    constructor
    · rintro ⟨given, -⟩
      exact .inr ⟨given, .inl (by omega)⟩
    · rintro (⟨full, -⟩ | ⟨given, -⟩)
      · exact absurd full low
      · exact ⟨given, by omega⟩

-- A value is given when len > 0: without one the header says 0, and the write
-- position moves on by len all the same.
theorem packmsg_agrees (junk : Nat → UInt8) (packed : Packed) (given : args.val = none → args.len = 0)
    (done : tunnelPackmsg buf args (some junk) = some packed) :
    packed.buf.content = (Tunnel.tunnelPackmsg buf args.stored).buf.content := by
  have length := stored_length args given
  have agrees (room old : Buffer) (same : room.content = buf.content) (left : room.left = old.left)
      (made : packRoom buf args.len = some old) (stored : storePkg args room = some packed) :
      packed.buf.content = (Tunnel.tunnelPackmsg buf args.stored).buf.content := by
    have fits : sizeTunnelHl + args.len ≤ room.left := by
      by_contra unfit
      rw [storePkg, if_pos (by rw [bytes_length, length]; omega)] at stored
      cases stored
    have enough : Fits buf args.stored.val.length := by
      intro other here
      rw [length, made] at here
      obtain rfl := Option.some.inj here
      omega
    have taken : packRoom buf args.stored.val.length ≠ none := by
      rw [length, made]
      exact Option.some_ne_none old
    obtain ⟨next, moved, content⟩ := store_fits room _ (by rw [bytes_length, length]; exact fits)
    rw [List.take_of_length_le (by rw [bytes_length, length]; exact fits), bytes_length, length] at moved
    rw [storePkg, if_neg (by rw [bytes_length, length]; omega)] at stored
    obtain rfl := Option.some.inj stored
    rw [packmsg_content buf _ enough taken, moved, Option.getD_some, content, same]
  unfold tunnelPackmsg at done
  by_cases low : buf.left ≤ sizeTunnelHl + args.len
  · rw [if_pos low] at done
    by_cases large : buf.size ≥ 524288
    · rw [if_pos large] at done
      obtain rfl := Option.some.inj done
      rw [Tunnel.tunnelPackmsg, length, packRoom, if_pos low, if_pos large]
    rw [if_neg large] at done
    obtain ⟨room, made, stored⟩ := Option.bind_eq_some_iff.mp done
    have apart : buf.trash = 0 ∨ buf.len ≤ buf.trash := by
      by_contra across
      rw [increased_none buf _ across] at made
      cases made
    obtain ⟨other, same, content, left⟩ := increased_some buf _ apart
    obtain rfl := Option.some.inj (made.symm.trans same)
    refine agrees room _ content ?_ (by rw [packRoom, if_pos low, if_neg large]) stored
    have fresh := (refreshed_size buf _ (if_neg (by omega))).2
    have inside := buf.refresh.bounded
    rw [left, roomFor]
    dsimp only [Buffer.increase]
    by_cases enough : buf.refresh.left > 2048
    · rw [if_pos enough, if_neg (by omega), fresh]
    · rw [if_neg enough, if_pos ⟨by omega, rfl⟩, ← fresh]
      simp only [Buffer.left, List.length_append, List.length_replicate]
      omega
  · rw [if_neg low] at done
    exact agrees buf buf rfl rfl (by rw [packRoom, if_neg low]) done

theorem packmsg_agrees_sample :
    let args : PackArgs := ⟨msgWebDown, 1, 1, some [9], by decide, by simp⟩
    ∃ packed, tunnelPackmsg (Buffer.init 16) args (some fun _ => 0) = some packed ∧
      packed.buf.content = (Tunnel.tunnelPackmsg (Buffer.init 16) args.stored).buf.content :=
  ⟨_, rfl, packmsg_agrees _ _ (fun _ => 0) _ (by simp) rfl⟩

theorem header_behind_tail : ¬ ∀ buf args grant, Atomic buf args (tunnelPackmsg buf args grant) := by
  intro claim
  obtain ⟨packed, done, -⟩ := claim _ _ none
  have outside : tunnelPackmsg ⟨[1, 2, 3, 4], 0, 4, by decide, by decide⟩ ⟨msgWebDown, 1, 0, none, by decide, nofun⟩ none = none := by
    decide
  rw [outside] at done
  exact nomatch done

end Calls

end Codec.Tunnel.Memory
