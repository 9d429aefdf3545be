import Codec.Tunnel.Frame
import Codec.Http.Header

set_option autoImplicit false

namespace Codec.Ctrl

open Codec.Ems
open Codec.Tunnel (Ret Packed htonl content_increase poke_content poke_left store_overflows)

variable (input : Buffer) (len : Nat)

def sizeRequest : Nat := 8

def sizeResponse : Nat := 12

def intsize : Nat := 4

-- A C string whose frame an ems_int can count.
structure Context where
  text : Str
  clean : (0 : UInt8) ∉ text
  counts : text.length + 20 < 2147483648

def alignLen : Nat := if len % intsize = 0 then len else (len / intsize + 1) * intsize

def contextLen : Option Context → Nat
  | none => 0
  | some ctx => ctx.text.length

-- What putmem stores. putword stores an unsigned long: behind the word it
-- clears as many bytes as a long has more than four.
def putMem (spill : Nat) (ctx : Context) : Str :=
  htonl ctx.text.length ++ ctx.text ++ (List.replicate spill 0).drop ctx.text.length

def body (spill : Nat) : Option Context → Str
  | none => []
  | some ctx => putMem spill ctx

def total (size : Nat) : Option Context → Nat
  | none => size
  | some ctx => size + intsize + alignLen ctx.text.length

def msgRoom (alloc : Bool) (buf : Buffer) (need : Nat) : Ret × Buffer :=
  if buf.left < need then
    if alloc || decide (need < buf.refresh.left) then (.ok, buf.increase need) else (.err, buf.refresh)
  else (.ok, buf)

section Pack

variable (alloc : Bool) (spill : Nat)

-- ems_pack_req and ems_pack_rsp differ in the header. What ems_buffer_seek_wr
-- answers is dropped; what is stored behind the buffer's end is not modelled.
def packMsg (size : Nat) (header : Nat → Str) (ctx : Option Context) (buf : Buffer) : Packed :=
  match msgRoom alloc buf (contextLen ctx + size) with
  | (.ok, room) =>
    let stored := room.poke room.wr ((header (total size ctx) ++ body spill ctx).take room.left)
    ⟨.ok, (stored.seekWr (total size ctx : Nat) .cur).getD stored⟩
  | (_, room) => ⟨.err, room⟩

def requestHeader (tag : UInt32) (len : Nat) : Str := htonl tag.toNat ++ htonl len

def responseHeader (tag st : UInt32) (len : Nat) : Str := htonl (tag ||| 0x80000000).toNat ++ htonl len ++ htonl st.toNat

def emsPackReq (tag : UInt32) (ctx : Option Context) (buf : Buffer) : Packed :=
  packMsg alloc spill sizeRequest (requestHeader tag) ctx buf

def emsPackRsp (tag st : UInt32) (ctx : Option Context) (buf : Buffer) : Packed :=
  packMsg alloc spill sizeResponse (responseHeader tag st) ctx buf

end Pack

def image (header : Nat → Str) (size : Nat) : Option Context → Str
  | none => header size
  | some ctx => header (total size (some ctx)) ++ htonl ctx.text.length ++ ctx.text

theorem align_len : len ≤ alignLen len ∧ alignLen len < len + 4 ∧ alignLen len % 4 = 0 := by
  have padded : alignLen len = if len % 4 = 0 then len else (len / 4 + 1) * 4 := rfl
  rw [padded]
  split <;> omega

@[simp] theorem htonl_length (word : Nat) : (htonl word).length = 4 := rfl

theorem image_length (header : Nat → Str) (size : Nat) (ctx : Option Context)
    (headed : ∀ len, (header len).length = size) : (image header size ctx).length ≤ total size ctx := by
  cases ctx with
  | none => exact Nat.le_of_eq (headed size)
  | some ctx =>
    have aligned := align_len ctx.text.length
    simp only [image, total, intsize, List.length_append, htonl_length, headed]
    omega

theorem stored_image (spill : Nat) (header : Nat → Str) (size : Nat) (ctx : Option Context) :
    ∃ more, header (total size ctx) ++ body spill ctx = image header size ctx ++ more := by
  cases ctx with
  | none => exact ⟨[], rfl⟩
  | some ctx =>
    refine ⟨(List.replicate spill 0).drop ctx.text.length, ?_⟩
    simp only [body, putMem, image, List.append_assoc]

theorem store_moved (room : Buffer) (bytes : Str) (len : Nat) (fits : len ≤ room.left) :
    ∃ next, (room.poke room.wr (bytes.take room.left)).seekWr len .cur = some next ∧ next.content = room.content ++
        (bytes.take room.left ++ room.mem.drop (room.wr + (bytes.take room.left).length)).take len := by
  have left := poke_left room bytes
  have inside := room.bounded
  have prefixed : (room.mem.take room.wr).length = room.wr := by rw [List.length_take, Nat.min_eq_left inside]
  dsimp only [Buffer.seekWr]
  rw [dif_neg (by omega)]
  refine ⟨_, rfl, ?_⟩
  have position : ((room.wr : Int) + len).toNat = room.wr + len := by omega
  simp only [Buffer.content, Buffer.poke, overwrite, position, List.append_assoc]
  rw [List.take_append, prefixed, Nat.add_sub_cancel_left, List.take_of_length_le (by omega),
    List.drop_append_of_le_length (by rw [prefixed]; exact room.ordered)]

theorem room_content (alloc : Bool) (buf : Buffer) (need : Nat) : (msgRoom alloc buf need).2.content = buf.content := by
  dsimp only [msgRoom]
  split
  · split
    · exact content_increase buf need
    · exact Buffer.content_refresh buf
  · rfl

section Outcome

variable (alloc : Bool) (spill size : Nat) (header : Nat → Str) (ctx : Option Context) (buf : Buffer)

theorem pack_refused (refused : (msgRoom alloc buf (contextLen ctx + size)).1 ≠ .ok) :
    (packMsg alloc spill size header ctx buf).ret = .err ∧
      (packMsg alloc spill size header ctx buf).buf.content = buf.content := by
  have content := room_content alloc buf (contextLen ctx + size)
  unfold packMsg
  generalize msgRoom _ buf _ = made at refused content
  obtain ⟨ret, room⟩ := made
  cases ret with
  | ok => exact absurd rfl refused
  | _ => exact ⟨rfl, content⟩

theorem pack_short (room : Buffer) (made : msgRoom alloc buf (contextLen ctx + size) = (.ok, room))
    (short : room.left < total size ctx) : (packMsg alloc spill size header ctx buf).ret = .ok ∧
      (packMsg alloc spill size header ctx buf).buf.content = buf.content := by
  have content := room_content alloc buf (contextLen ctx + size)
  unfold packMsg
  rw [made] at content ⊢
  dsimp only
  rw [store_overflows room _ _ short, Option.getD_none, poke_content]
  exact ⟨rfl, content⟩

theorem pack_fits (room : Buffer) (made : msgRoom alloc buf (contextLen ctx + size) = (.ok, room))
    (fits : total size ctx ≤ room.left) (headed : ∀ len, (header len).length = size) :
    (packMsg alloc spill size header ctx buf).ret = .ok ∧ ∃ pad, (image header size ctx ++ pad).length = total size ctx ∧
        (packMsg alloc spill size header ctx buf).buf.content = buf.content ++ (image header size ctx ++ pad) := by
  have content := room_content alloc buf (contextLen ctx + size)
  obtain ⟨more, stored⟩ := stored_image _ _ size ctx
  obtain ⟨next, moved, after⟩ := store_moved room _ _ fits
  have short := image_length _ size ctx headed
  unfold packMsg
  rw [made] at content ⊢
  dsimp only
  rw [moved, Option.getD_some, after]
  refine ⟨rfl, ?_⟩
  generalize bytes : header _ ++ body _ ctx = all at stored after ⊢
  generalize behind : room.mem.drop _ = rest at after ⊢
  have whole : (all.take room.left ++ rest).length = room.left := by
    rw [← behind, List.length_append, List.length_drop, List.length_take]
    simp only [Buffer.left]
    omega
  have front : all.take room.left = image header size ctx ++ more.take (room.left - (image header size ctx).length) := by
    rw [stored, List.take_append, List.take_of_length_le (by omega)]
  refine ⟨(more.take (room.left - (image header size ctx).length) ++ rest).take
    (total size ctx - (image header size ctx).length), ?_, ?_⟩
  · rw [front, List.append_assoc, List.length_append] at whole
    rw [List.length_append, List.length_take]
    omega
  · rw [content, front, List.append_assoc, List.take_append, List.take_of_length_le short]

end Outcome

open Codec.Http (msgIsWeb)
open Codec.Tunnel (ntohl)

-- What one call of ctrl_cmd_process does: `handled` has the tag and the text
-- ctrl_cmd_handle is called for, `declared` the length a header states, and
-- `extent` how far from the request's start bytes are looked at.
structure Processed where
  ret : Ret
  isWeb : Bool
  buf : Buffer
  handled : Option (UInt32 × Option Str)
  declared : Option Nat
  extent : Nat
  deriving DecidableEq, Repr

def declaredLen : Nat := ntohl ((input.prefetch sizeRequest).drop intsize)

def innerLen : Nat := ntohl (input.mem.drop (input.rd + sizeRequest))

def consume : Buffer := ((input.seekRd len .cur).getD input).refresh

-- ctrl_cmd_process_one. The length word is compared without a sign, and the
-- byte behind the text is set to NUL for the parser and restored.
def ctrlCmdProcessOne (tag : UInt32) (len : Nat) : Processed :=
  if sizeRequest + intsize ≤ len then
    if len < innerLen input then ⟨.err, false, input, none, some len, sizeRequest + intsize⟩
    else
      let text := cstr ((input.mem.drop (input.rd + sizeRequest + intsize)).take (innerLen input))
      ⟨.ok, false, consume input len, some (tag, some text), some len, sizeRequest + intsize + innerLen input + 1⟩
  else ⟨.ok, false, consume input len, some (tag, none), some len, sizeRequest⟩

-- The redirection to the management page answers EMS_OK.
def ctrlCmdProcess (isWeb : Bool) (input : Buffer) : Processed :=
  if isWeb then ⟨.cont, true, input.clear, none, none, 0⟩
  else if msgIsWeb (input.mem.drop input.rd) then ⟨.ok, true, input.clear, none, none, 0⟩
  else if input.len < sizeRequest then ⟨.cont, false, input, none, none, 0⟩
  else if input.size ≤ declaredLen input then ⟨.insufficient, false, input, none, some (declaredLen input), sizeRequest⟩
  else if input.len < declaredLen input then ⟨.cont, false, input, none, some (declaredLen input), sizeRequest⟩
  else ctrlCmdProcessOne input (UInt32.ofNat (ntohl (input.prefetch sizeRequest))) (declaredLen input)

def Processed.Sane (step : Processed) (before : Nat) : Prop :=
  (∀ len ∈ step.declared, step.extent ≤ len) ∧ (step.ret = .ok → step.buf.len < before)

def Sane (isWeb : Bool) (input : Buffer) : Prop := (ctrlCmdProcess isWeb input).Sane input.len

def WellDeclared : Prop :=
  sizeRequest ≤ declaredLen input ∧
    (sizeRequest + intsize ≤ declaredLen input → declaredLen input < innerLen input ∨
      sizeRequest + intsize + innerLen input + 1 ≤ declaredLen input)

instance (input : Buffer) : Decidable (WellDeclared input) := inferInstanceAs (Decidable (_ ∧ (_ → _ ∨ _)))

theorem consume_content (there : len ≤ input.len) :
    (consume input len).content = input.content.drop len := by
  obtain ⟨next, moved⟩ := Option.isSome_iff_exists.mp (input.seek_rd_cur_some len there)
  rw [consume, moved, Option.getD_some, Buffer.content_refresh, input.seek_rd_cur_content next len moved]

theorem consume_len (there : len ≤ input.len) : (consume input len).len = input.len - len := by
  rw [← Buffer.content_length, consume_content _ len there, List.length_drop, Buffer.content_length]

theorem sane_done (isWeb : Bool) (buf : Buffer) (handled : Option (UInt32 × Option Str)) (len extent before : Nat) :
    Processed.Sane ⟨.ok, isWeb, buf, handled, some len, extent⟩ before ↔ extent ≤ len ∧ buf.len < before := by
  simp [Processed.Sane]

theorem sane_other (ret : Ret) (isWeb : Bool) (buf : Buffer) (handled : Option (UInt32 × Option Str))
    (len extent before : Nat) (other : ret ≠ .ok) :
    Processed.Sane ⟨ret, isWeb, buf, handled, some len, extent⟩ before ↔ extent ≤ len := by
  simp [Processed.Sane, other]

theorem process_one_sane (tag : UInt32) (there : declaredLen input ≤ input.len) :
    (ctrlCmdProcessOne input tag (declaredLen input)).Sane input.len ↔ WellDeclared input := by
  have left := consume_len _ _ there
  unfold WellDeclared ctrlCmdProcessOne
  by_cases whole : sizeRequest + intsize ≤ declaredLen input
  · have more : sizeRequest ≤ declaredLen _ := Nat.le_trans (Nat.le_add_right _ _) whole
    rw [if_pos whole]
    by_cases large : declaredLen input < innerLen input
    · rw [if_pos large, sane_other .err _ _ _ _ _ _ (nomatch ·)]
      exact ⟨fun _ => ⟨more, fun _ => .inl large⟩, fun _ => whole⟩
    · rw [if_neg large]
      rw [sane_done, left]
      constructor
      · exact fun inside => ⟨more, fun _ => .inr inside.1⟩
      · rintro ⟨_, inside⟩
        exact ⟨(inside whole).resolve_left large, by omega⟩
  · rw [if_neg whole, sane_done, left]
    constructor
    · exact fun inside => ⟨inside.1, fun bad => absurd bad whole⟩
    · rintro ⟨inside, _⟩
      have some : 0 < declaredLen _ := Nat.lt_of_lt_of_le (by decide) inside
      exact ⟨inside, by omega⟩

def Decodable : Prop :=
  if msgIsWeb (input.mem.drop input.rd) = true then 0 < input.len
  else sizeRequest ≤ input.len → declaredLen input < input.size → declaredLen input ≤ input.len → WellDeclared input

instance (input : Buffer) : Decidable (Decodable input) :=
  inferInstanceAs (Decidable (ite (msgIsWeb (input.mem.drop input.rd) = true) _ (_ → _ → _ → _)))

theorem decoder_sane : Sane false input ↔ Decodable input := by
  have small := Buffer.len_le_size input
  have cleared : input.clear.len = 0 := rfl
  unfold Sane Decodable ctrlCmdProcess
  rw [if_neg (Bool.false_ne_true)]
  by_cases web : msgIsWeb (input.mem.drop input.rd) = true
  · rw [if_pos web, if_pos web]
    simp [Processed.Sane, cleared]
  · rw [if_neg web, if_neg web]
    by_cases short : input.len < sizeRequest
    · rw [if_pos short]
      exact ⟨fun _ enough => absurd enough (by omega), fun _ => ⟨fun _ bad => (nomatch bad), (nomatch ·)⟩⟩
    · rw [if_neg short]
      by_cases large : input.size ≤ declaredLen input
      · rw [if_pos large, sane_other .insufficient _ _ _ _ _ _ (nomatch ·)]
        exact ⟨fun _ _ fits => absurd fits (by omega), fun _ => by omega⟩
      · rw [if_neg large]
        by_cases more : input.len < declaredLen input
        · rw [if_pos more, sane_other .cont _ _ _ _ _ _ (nomatch ·)]
          exact ⟨fun _ _ _ there => absurd there (by omega), fun _ => by omega⟩
        · rw [if_neg more, process_one_sane _ _ (by omega)]
          exact ⟨fun well _ _ _ => well, fun well => well (by omega) (by omega) (by omega)⟩

theorem web_decoder_sane : Sane true input := ⟨fun _ bad => (nomatch bad), (nomatch ·)⟩

end Codec.Ctrl
