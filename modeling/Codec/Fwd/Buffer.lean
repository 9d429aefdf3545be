import Codec.Ems.Buffer
import Codec.Fwd.Cm

set_option autoImplicit false

namespace Codec.Fwd.Memory

open List

open Codec.Ems (Buffer overwrite overwrite_length)

-- fwd_buffer_pack_cb: whether it answers FWD_OK, and what it has then left in
-- the room it was told of. A text ends with a NUL.
structure PackCb where
  run : Nat → Bool × List UInt8
  inside (room : Nat) : (run room).2.length ≤ room
  ended (room : Nat) : (run room).1 = true → 0 ∈ (run room).2

-- What strlen sees of it.
def PackCb.text (cb : PackCb) (room : Nat) : List UInt8 := (cb.run room).2.takeWhile (· ≠ 0)

inductive PackRet
  | ok
  | full
deriving DecidableEq

def packLen (text : List UInt8) : Nat := if text = [] then sizeofFwdRequest else sizeofFwdRequest + 4 + text.length

section Pack

variable (buf : Buffer) (tag : UInt32) (st : Int)

-- fwd_buffer_pack from the store of *len on, with the text at v. The word is
-- in the order of the host at first; the header goes to the old wr.
def packText (text : List UInt8) : Buffer :=
  let counted := buf.poke (buf.wr + sizeofFwdRequest) (htonl text.length).reverse
  let moved := (counted.seekWr (packLen text) .cur).getD counted
  let headed := moved.poke buf.wr (htons (packLen text) ++ htons fwdVersion ++ htons tag.toNat ++ htons (statusWord st))
  if text = [] then headed else headed.poke (buf.wr + sizeofFwdRequest) (htonl text.length)

def fwdBufferPack : Option PackCb → PackRet × Buffer
  | none => if buf.left ≤ sizeofFwdRequest + 4 then (.full, buf) else (.ok, packText buf tag st [])
  | some cb =>
    let room := buf.left - (sizeofFwdRequest + 4)
    if buf.left ≤ sizeofFwdRequest + 4 then (.full, buf)
    else
      let filled := buf.poke (buf.wr + (sizeofFwdRequest + 4)) (cb.run room).2
      if (cb.run room).1 then (.ok, packText filled tag st (cb.text room)) else (.full, filled)

end Pack

structure Request where
  len : Nat
  ver : Nat
  cmd : Nat
  rsv : Nat
deriving DecidableEq

inductive UnpackRet
  | cont
  | err
  | ok
deriving DecidableEq

-- What fwd_buffer_unpack answers and stores, and how far behind rd it has read.
structure Unpacking where
  ret : UnpackRet
  header : Option Request
  lVal : Nat
  val : Option (List UInt8)
  readTo : Nat
  buf : Buffer

def fwdBufferDrain (buf : Buffer) (count : Nat) : Buffer := (buf.seekRd count .cur).getD buf

def requestOf (data : List UInt8) : Request := ⟨requestLen data, ntohs (data.drop 2), requestCmd data, ntohs (data.drop 6)⟩

-- grant is what dt_malloc answers for the value.
def fwdBufferUnpack (buf : Buffer) (grant : Bool) : Unpacking :=
  let data := buf.content
  let header := some (requestOf data)
  if buf.len < sizeofFwdRequest then ⟨.cont, none, 0, none, 0, buf⟩
  else if buf.len < requestLen data then ⟨.cont, none, 0, none, 2, buf⟩
  else if requestLen data < sizeofFwdRequest + 4 then ⟨.ok, header, 0, none, sizeofFwdRequest, fwdBufferDrain buf (requestLen data)⟩
  else if requestLen data - (sizeofFwdRequest + 4) < requestVal data then ⟨.err, header, 0, none, sizeofFwdRequest + 4, buf⟩
  else if grant then
    ⟨.ok, header, requestVal data, some ((data.drop (sizeofFwdRequest + 4)).take (requestVal data)), sizeofFwdRequest + 4 + requestVal data,
      fwdBufferDrain buf (requestLen data)⟩
  else ⟨.err, header, 0, none, sizeofFwdRequest + 4, buf⟩

inductive CodecCall
  | pack (buf : Buffer) (tag : UInt32) (st : Int) (cb : Option PackCb)
  | unpack (buf : Buffer) (grant : Bool)

def packed (buf : Buffer) : Option PackCb → List UInt8
  | none => []
  | some cb => cb.text (buf.left - (sizeofFwdRequest + 4))

def takes (buf : Buffer) : Option PackCb → Prop
  | none => sizeofFwdRequest + 4 < buf.left
  | some cb => sizeofFwdRequest + 4 < buf.left ∧ (cb.run (buf.left - (sizeofFwdRequest + 4))).1 = true

def Delivers (tag : UInt32) (st : Int) (text message : List UInt8) : Prop :=
  ∀ (buf : Buffer) (rest : List UInt8), buf.content = message ++ rest →
    (fwdBufferUnpack buf true).ret = .ok ∧
      (∃ header, (fwdBufferUnpack buf true).header = some header ∧ header.cmd = tag.toNat ∧ header.rsv = statusWord st) ∧
      (fwdBufferUnpack buf true).val = (if text = [] then none else some text) ∧ (fwdBufferUnpack buf true).lVal = text.length ∧
      (fwdBufferUnpack buf true).buf.content = rest

def Right : CodecCall → Prop
  | .pack buf tag st cb =>
    (fwdBufferPack buf tag st cb).2.size = buf.size ∧
      (((fwdBufferPack buf tag st cb).1 = .ok ∧ ∃ message, (fwdBufferPack buf tag st cb).2.content = buf.content ++ message ∧
          Delivers tag st (packed buf cb) message) ∨
        ((fwdBufferPack buf tag st cb).1 = .full ∧ (fwdBufferPack buf tag st cb).2.content = buf.content ∧
          (fwdBufferPack buf tag st cb).2.left = buf.left))
  | .unpack buf grant =>
    let got := fwdBufferUnpack buf grant
    if got.ret = .ok then
      ∃ count, sizeofFwdRequest ≤ count ∧ count ≤ buf.len ∧ got.buf.content = buf.content.drop count ∧ got.readTo ≤ requestLen buf.content
    else got.buf = buf

def Meets : CodecCall → Prop
  | .pack buf tag _ cb => takes buf cb → tag.toNat < 65536 ∧ packLen (packed buf cb) < 65536
  | .unpack buf _ => sizeofFwdRequest ≤ buf.len → requestLen buf.content ≤ buf.len → sizeofFwdRequest ≤ requestLen buf.content

section Words

theorem ntohs_htons (word : Nat) (rest : List UInt8) : ntohs (htons word ++ rest) = word % 65536 := by
  have high : (UInt8.ofNat _).toNat = word / 256 % 256 := UInt8.toNat_ofNat'
  have low : (UInt8.ofNat word).toNat = word % 256 := UInt8.toNat_ofNat'
  show (UInt8.ofNat _).toNat * 256 + (UInt8.ofNat word).toNat = word % 65536
  rw [high, low]
  omega

theorem htons_drop (word : Nat) (rest : List UInt8) (count : Nat) : (htons word ++ rest).drop (count + 2) = rest.drop count := rfl

theorem status_small (st : Int) : statusWord st < 65536 := by
  rw [statusWord]
  omega

variable (tag : UInt32) (st : Int) (text rest : List UInt8)

theorem message_words : fwdMessage tag.toNat (statusWord st) text ++ rest =
    htons (packLen text) ++ (htons fwdVersion ++ (htons tag.toNat ++ (htons (statusWord st) ++ ((if text = [] then [] else htonl text.length ++ text) ++ rest)))) := by
  unfold fwdMessage packLen
  by_cases empty : text = []
  · rw [if_pos empty, if_pos empty, if_pos empty]
    simp only [fwdRequest, append_assoc, nil_append]
  · rw [if_neg empty, if_neg empty, if_neg empty]
    simp only [append_assoc]

theorem message_length : (fwdMessage tag.toNat (statusWord st) text).length = packLen text := by
  unfold fwdMessage packLen
  split
  · rfl
  · simp only [length_append]
    rfl

theorem message_request : requestOf (fwdMessage tag.toNat (statusWord st) text ++ rest) =
    ⟨packLen text % 65536, fwdVersion, tag.toNat % 65536, statusWord st⟩ := by
  rw [message_words, requestOf, requestLen, requestCmd, ntohs_htons]
  rw [htons_drop _ _ 0, drop_zero, ntohs_htons, htons_drop _ _ 2, htons_drop _ _ 0, drop_zero, ntohs_htons, htons_drop _ _ 4, htons_drop _ _ 2,
    htons_drop _ _ 0, drop_zero, ntohs_htons, Nat.mod_eq_of_lt (status_small st)]
  rfl

theorem message_len : requestLen (fwdMessage tag.toNat (statusWord st) text ++ rest) = packLen text % 65536 :=
  congrArg Request.len (message_request tag st text rest)

theorem message_val (some : text ≠ []) (short : text.length < 65536) :
    requestVal (fwdMessage tag.toNat (statusWord st) text ++ rest) = text.length ∧
      (fwdMessage tag.toNat (statusWord st) text ++ rest).drop (sizeofFwdRequest + 4) = text ++ rest := by
  rw [message_words, if_neg some]
  refine ⟨?_, rfl⟩
  have high : ∀ tail, ntohs ((htons (packLen text) ++ (htons fwdVersion ++ (htons tag.toNat ++ (htons (statusWord st) ++
      (htonl _ ++ tail))))).drop 8) = text.length / 65536 % 65536 := fun tail => by
    rw [htonl, append_assoc]
    exact ntohs_htons _ _
  have low : ∀ tail, ntohs ((htons (packLen text) ++ (htons fwdVersion ++ (htons tag.toNat ++ (htons (statusWord st) ++
      (htonl _ ++ tail))))).drop 10) = text.length % 65536 := fun tail => by
    rw [htonl, append_assoc]
    exact ntohs_htons _ _
  rw [requestVal, append_assoc, high, low]
  omega

end Words

section Stores

theorem overwrite_part (before old bytes behind : List UInt8) (start : Nat) (place : before.length = start) (same : old.length = bytes.length) :
    overwrite (before ++ (old ++ behind)) start bytes = before ++ (bytes ++ behind) := by
  subst place
  rw [overwrite, take_left' rfl, ← same, ← append_assoc _ old _, ← length_append, drop_left' rfl, append_assoc]

theorem overwrite_second (before first old bytes behind : List UInt8) (start : Nat) (place : before.length + first.length = start)
    (same : old.length = bytes.length) :
    overwrite (before ++ (first ++ (old ++ behind))) start bytes = before ++ (first ++ (bytes ++ behind)) := by
  rw [← append_assoc _, overwrite_part _ old _ _ _ (by rw [length_append, place]) same, append_assoc]

variable (buf : Buffer) (tag : UInt32) (st : Int) (text : List UInt8)

def requestBytes : List UInt8 := htons (packLen text) ++ htons fwdVersion ++ htons tag.toNat ++ htons (statusWord st)

theorem message_parts : fwdMessage tag.toNat (statusWord st) text = requestBytes tag st text ++ if text = [] then [] else htonl text.length ++ text := by
  unfold fwdMessage requestBytes packLen
  by_cases empty : text = []
  · rw [if_pos empty, if_pos empty, if_pos empty, append_nil]
    rfl
  · rw [if_neg empty, if_neg empty, if_neg empty, append_assoc _ _ text]

theorem mem_parts (room : sizeofFwdRequest + 4 < buf.left) : ∃ before head word behind, buf.mem = before ++ (head ++ (word ++ behind)) ∧
    before = buf.mem.take buf.wr ∧ before.length = buf.wr ∧ head.length = sizeofFwdRequest ∧ word.length = 4 ∧
      behind = buf.mem.drop (buf.wr + (sizeofFwdRequest + 4)) := by
  have inside := buf.bounded
  simp only [Buffer.left, sizeofFwdRequest] at room ⊢
  refine ⟨buf.mem.take _, (buf.mem.drop buf.wr).take 8, (buf.mem.drop (buf.wr + 8)).take 4, buf.mem.drop _, ?_, rfl, ?_, ?_, ?_, rfl⟩
  · have last : (buf.mem.drop (buf.wr + 8)).take 4 ++ buf.mem.drop (buf.wr + 12) = buf.mem.drop (buf.wr + 8) := by
      have parts := take_append_drop 4 (buf.mem.drop (buf.wr + 8))
      rwa [drop_drop] at parts
    have rest : (buf.mem.drop buf.wr).take 8 ++ buf.mem.drop (buf.wr + 8) = buf.mem.drop buf.wr := by
      have parts := take_append_drop 8 (buf.mem.drop buf.wr)
      rwa [drop_drop] at parts
    rw [last, rest, take_append_drop]
  · rw [length_take, Nat.min_eq_left inside]
  · rw [length_take, length_drop]
    omega
  · rw [length_take, length_drop]
    omega

theorem poke_sought (start : Nat) (bytes : List UInt8) (count : Nat) (inside : start + bytes.length ≤ buf.size) (fits : count ≤ buf.left) :
    ∃ next, (buf.poke start bytes).seekWr count .cur = some next ∧ next.mem = overwrite buf.mem start bytes ∧ next.rd = buf.rd ∧
      next.wr = buf.wr + count := by
  have left : (buf.poke _ _).left = buf.left := congrArg (· - buf.wr) (overwrite_length _ _ _ inside)
  dsimp only [Buffer.seekWr]
  rw [dif_neg (by omega)]
  refine ⟨_, rfl, rfl, rfl, ?_⟩
  show ((buf.wr : Int) + count).toNat = _
  omega

theorem pack_text_content (room : sizeofFwdRequest + 4 < buf.left) (fits : text.length ≤ buf.left - (sizeofFwdRequest + 4))
    (written : (buf.mem.drop (buf.wr + (sizeofFwdRequest + 4))).take text.length = text) :
    (packText buf tag st text).content = buf.content ++ fwdMessage tag.toNat (statusWord st) text ∧ (packText buf tag st text).size = buf.size := by
  obtain ⟨before, head, word, behind, parts, front, start, eight, four, back⟩ := mem_parts buf room
  rw [← back] at written
  have ordered := buf.ordered
  have content : buf.content = before.drop buf.rd := by rw [Buffer.content, ← front]
  have header : (requestBytes tag st text).length = sizeofFwdRequest := rfl
  have host : (htonl text.length).reverse.length = 4 := rfl
  have net : (htonl text.length).length = 4 := rfl
  have enough : packLen text ≤ buf.left := by
    unfold packLen
    split <;> omega
  have size : buf.size = buf.wr + (sizeofFwdRequest + (4 + behind.length)) := by
    rw [Buffer.size, parts, length_append, length_append, length_append, start, eight, four]
  obtain ⟨next, sought, mem, rd, wr⟩ := poke_sought buf (buf.wr + sizeofFwdRequest) (htonl text.length).reverse _ (by omega) enough
  rw [parts, overwrite_second _ head word _ _ _ (by rw [start, eight]) (four.trans host.symm)] at mem
  have headed : overwrite next.mem buf.wr (requestBytes tag st text) =
      before ++ (requestBytes tag st text ++ ((htonl text.length).reverse ++ behind)) := by
    rw [mem]
    exact overwrite_part _ head _ _ _ start (eight.trans header.symm)
  have length : ∀ word, word.length = 4 → (before ++ (requestBytes tag st text ++ (word ++ behind))).length = buf.size := fun word four => by
    rw [length_append, length_append, length_append, start, header, four, size]
  rw [message_parts]
  unfold packText
  dsimp only
  rw [sought, Option.getD_some]
  by_cases empty : text = []
  · rw [if_pos empty, if_pos empty, append_nil]
    have total : packLen text = sizeofFwdRequest := if_pos empty
    constructor
    · show ((overwrite _ _ (requestBytes tag st text)).take next.wr).drop next.rd = _
      rw [headed, wr, rd, total, ← append_assoc _, take_left' (by rw [length_append, start, header]),
        drop_append_of_le_length (by omega), content]
    · show (overwrite _ _ (requestBytes tag st text)).length = _
      rw [headed]
      exact length _ host
  · rw [if_neg empty, if_neg empty]
    have total : packLen text = sizeofFwdRequest + 4 + text.length := if_neg empty
    have last : overwrite (overwrite next.mem buf.wr (requestBytes tag st text)) (buf.wr + sizeofFwdRequest) (htonl text.length) =
        before ++ (requestBytes tag st text ++ (htonl text.length ++ behind)) := by
      rw [headed]
      exact overwrite_second _ _ _ _ _ _ (by rw [start, header]) (host.trans net.symm)
    constructor
    · show ((overwrite (overwrite _ _ (requestBytes tag st text)) _ _).take next.wr).drop next.rd = _
      have split : before ++ (requestBytes tag st text ++ (htonl text.length ++ behind)) =
          (before ++ (requestBytes tag st text ++ htonl text.length)) ++ behind := by
        simp only [append_assoc]
      have place : (before ++ (requestBytes tag st text ++ htonl text.length)).length = buf.wr + (sizeofFwdRequest + 4) := by
        rw [length_append, length_append, start, header, net]
      rw [last, wr, rd, total, split, ← Nat.add_assoc _, ← place, take_length_add_append, written, append_assoc _,
        drop_append_of_le_length (by omega), content]
      simp only [append_assoc]
    · show (overwrite (overwrite _ _ (requestBytes tag st text)) _ _).length = _
      rw [last]
      exact length _ net

end Stores

section Calls

variable (buf : Buffer) (tag : UInt32) (st : Int) (text : List UInt8)

theorem poke_behind (start : Nat) (bytes : List UInt8) (behind : buf.wr ≤ start) (inside : start + bytes.length ≤ buf.size) :
    (buf.poke start bytes).content = buf.content ∧ (buf.poke start bytes).size = buf.size ∧
      ((buf.poke start bytes).mem.drop start).take bytes.length = bytes := by
  rw [Buffer.size] at inside
  have front : (buf.mem.take start).length = start := by
    rw [length_take]
    omega
  refine ⟨?_, overwrite_length _ _ _ inside, ?_⟩
  · show ((overwrite _ _ _).take buf.wr).drop _ = _
    rw [overwrite, append_assoc, take_append_of_le_length (by omega), take_take, Nat.min_eq_left behind]
    rfl
  · show ((overwrite _ _ _).drop _).take _ = bytes
    rw [overwrite, append_assoc, drop_left' front, take_left' rfl]

theorem filled_spec (cb : PackCb) (room : sizeofFwdRequest + 4 < buf.left) :
    (buf.poke (buf.wr + (sizeofFwdRequest + 4)) (cb.run (buf.left - (sizeofFwdRequest + 4))).2).content = buf.content ∧
      (buf.poke (buf.wr + (sizeofFwdRequest + 4)) (cb.run (buf.left - (sizeofFwdRequest + 4))).2).size = buf.size ∧
      (cb.text (buf.left - (sizeofFwdRequest + 4))).length ≤ buf.left - (sizeofFwdRequest + 4) ∧
      ((buf.poke (buf.wr + (sizeofFwdRequest + 4)) (cb.run (buf.left - (sizeofFwdRequest + 4))).2).mem.drop (buf.wr + (sizeofFwdRequest + 4))).take
        (cb.text (buf.left - (sizeofFwdRequest + 4))).length = cb.text (buf.left - (sizeofFwdRequest + 4)) := by
  have short := cb.inside (buf.left - (sizeofFwdRequest + 4))
  have inside : buf.wr + (sizeofFwdRequest + 4) + (cb.run (buf.left - (sizeofFwdRequest + 4))).2.length ≤ buf.size := by
    simp only [Buffer.left, Buffer.size, sizeofFwdRequest] at *
    omega
  obtain ⟨content, size, written⟩ := poke_behind buf _ _ (Nat.le_add_right _ _) inside
  have front : cb.text _ <+: (cb.run (buf.left - (sizeofFwdRequest + 4))).2 := takeWhile_prefix _
  refine ⟨content, size, front.length_le.trans short, ?_⟩
  have cut := congrArg (take (cb.text (buf.left - (sizeofFwdRequest + 4))).length) written
  rw [take_take, Nat.min_eq_left front.length_le] at cut
  exact cut.trans (prefix_iff_eq_take.mp front).symm

theorem pack_spec (cb : Option PackCb) : (fwdBufferPack buf tag st cb).2.size = buf.size ∧
      (takes buf cb → (fwdBufferPack buf tag st cb).1 = .ok ∧
        (fwdBufferPack buf tag st cb).2.content = buf.content ++ fwdMessage tag.toNat (statusWord st) (packed buf cb)) ∧
      (¬ takes buf cb → (fwdBufferPack buf tag st cb).1 = .full ∧ (fwdBufferPack buf tag st cb).2.content = buf.content ∧
        (fwdBufferPack buf tag st cb).2.left = buf.left) := by
  cases cb with
  | none =>
    unfold fwdBufferPack takes
    by_cases room : sizeofFwdRequest + 4 < buf.left
    · rw [if_neg (Nat.not_le_of_lt room)]
      obtain ⟨content, size⟩ := pack_text_content buf tag st [] room (Nat.zero_le _) rfl
      exact ⟨size, fun _ => ⟨rfl, content⟩, fun not => absurd room not⟩
    · rw [if_pos (Nat.le_of_not_lt room)]
      exact ⟨rfl, fun some => absurd some room, fun _ => ⟨rfl, rfl, rfl⟩⟩
  | some cb =>
    unfold fwdBufferPack takes
    dsimp only
    by_cases room : sizeofFwdRequest + 4 < buf.left
    · rw [if_neg (Nat.not_le_of_lt room)]
      obtain ⟨content, size, short, written⟩ := filled_spec buf cb room
      have left : (buf.poke _ _).left = buf.left := congrArg (· - buf.wr) size
      by_cases ok : (cb.run (buf.left - (sizeofFwdRequest + 4))).1 = true
      · rw [if_pos ok]
        obtain ⟨appended, same⟩ := pack_text_content _ tag st
          _ (by rw [left]; exact room) (by rw [left]; exact short) written
        refine ⟨same.trans size, fun _ => ⟨rfl, appended.trans ?_⟩, fun not => absurd ⟨room, ok⟩ not⟩
        rw [content]
        rfl
      · rw [if_neg ok]
        exact ⟨size, fun some => absurd some.2 ok, fun _ => ⟨rfl, content, left⟩⟩
    · rw [if_pos (Nat.le_of_not_lt room)]
      exact ⟨rfl, fun some => absurd some.1 room, fun _ => ⟨rfl, rfl, rfl⟩⟩

theorem drain_content (count : Nat) (fits : count ≤ buf.len) : (fwdBufferDrain buf count).content = buf.content.drop count := by
  obtain ⟨next, moved⟩ := Option.isSome_iff_exists.mp (Buffer.seek_rd_cur_some buf _ fits)
  rw [fwdBufferDrain, moved, Option.getD_some, Buffer.seek_rd_cur_content buf next _ moved]

theorem holds_bytes (bytes : List UInt8) : ∃ buf : Buffer, buf.content = bytes := by
  refine ⟨⟨bytes, 0, bytes.length, Nat.zero_le _, Nat.le_refl _⟩, ?_⟩
  rw [Buffer.content, take_length, drop_zero]

theorem least_pack_len : sizeofFwdRequest ≤ packLen text := by
  unfold packLen
  split <;> omega

theorem delivers_small
    (delivers : Delivers tag st text (fwdMessage tag.toNat (statusWord st) text)) : tag.toNat < 65536 ∧ packLen text < 65536 := by
  have length := message_length tag st text
  have least := least_pack_len text
  obtain ⟨buf, alone⟩ := holds_bytes _
  obtain ⟨ok, ⟨header, stored, cmd, _⟩, _, _, rest⟩ := delivers buf [] alone
  have len := Buffer.content_length buf
  rw [alone, append_nil, length] at len
  have request := message_request tag st text []
  have declared := message_len tag st text []
  rw [fwdBufferUnpack, alone] at ok stored rest
  rw [if_neg (by omega), declared, if_neg (by omega)] at ok stored rest
  have taken : (fwdBufferDrain buf (packLen text % 65536)).content = [] ∧ requestOf (fwdMessage tag.toNat (statusWord st) text ++ []) = header := by
    split at rest
    · rename_i short
      rw [if_pos short] at stored
      exact ⟨rest, Option.some.inj stored⟩
    · rename_i long
      rw [if_neg long] at stored ok
      split at ok
      · exact nomatch ok
      · rename_i inside
        rw [if_neg inside] at stored rest
        exact ⟨rest, Option.some.inj stored⟩
  obtain ⟨empty, same⟩ := taken
  constructor
  · rw [request] at same
    rw [← same] at cmd
    have small : tag.toNat % 65536 = tag.toNat := cmd
    omega
  · rw [drain_content buf _ (by omega), alone, append_nil] at empty
    have all := drop_eq_nil_iff.mp empty
    rw [length] at all
    omega

theorem small_delivers (tagged : tag.toNat < 65536) (small : packLen text < 65536) :
    Delivers tag st text (fwdMessage tag.toNat (statusWord st) text) := by
  intro buf rest content
  have length := message_length tag st text
  have least := least_pack_len text
  have len := Buffer.content_length buf
  rw [content, length_append, length] at len
  have request := message_request tag st text rest
  have declared := message_len tag st text rest
  rw [Nat.mod_eq_of_lt small] at request declared
  rw [Nat.mod_eq_of_lt tagged] at request
  have drained : (fwdBufferDrain buf (packLen text)).content = rest := by
    rw [drain_content buf _ (by omega), content, ← length, drop_left' rfl]
  rw [fwdBufferUnpack, content]
  rw [if_neg (by omega), declared, if_neg (by omega), request]
  by_cases empty : text = []
  · have total : packLen text = sizeofFwdRequest := if_pos empty
    rw [if_pos (by omega), if_pos empty, empty]
    exact ⟨rfl, ⟨_, rfl, rfl, rfl⟩, rfl, rfl, empty ▸ drained⟩
  · have total : packLen text = sizeofFwdRequest + 4 + text.length := if_neg empty
    obtain ⟨val, behind⟩ := message_val tag st text rest empty (by omega)
    rw [if_neg (by omega), val, if_neg (by omega), if_pos rfl, behind, if_neg empty, take_left' rfl]
    exact ⟨rfl, ⟨_, rfl, rfl, rfl⟩, rfl, rfl, drained⟩

theorem delivers_iff :
    Delivers tag st text (fwdMessage tag.toNat (statusWord st) text) ↔ tag.toNat < 65536 ∧ packLen text < 65536 :=
  ⟨delivers_small tag st text, fun small => small_delivers tag st text small.1 small.2⟩

theorem unpack_right (grant : Bool) : Right (.unpack buf grant) ↔ Meets (.unpack buf grant) := by
  unfold Right Meets fwdBufferUnpack
  dsimp only
  by_cases part : buf.len < sizeofFwdRequest
  · rw [if_pos part]
    exact ⟨fun _ whole => absurd part (Nat.not_lt_of_le whole), fun _ => rfl⟩
  rw [if_neg part]
  by_cases cut : buf.len < requestLen buf.content
  · rw [if_pos cut]
    exact ⟨fun _ _ whole => absurd cut (Nat.not_lt_of_le whole), fun _ => rfl⟩
  rw [if_neg cut]
  by_cases headed : requestLen buf.content < sizeofFwdRequest + 4
  · rw [if_pos headed]
    rw [if_pos rfl]
    constructor
    · rintro ⟨_, _, _, _, within⟩ _ _
      exact within
    · intro least
      exact ⟨_, least (Nat.le_of_not_lt part) (Nat.le_of_not_lt cut), Nat.le_of_not_lt cut, drain_content buf _ (Nat.le_of_not_lt cut),
        least (Nat.le_of_not_lt part) (Nat.le_of_not_lt cut)⟩
  have long : sizeofFwdRequest ≤ requestLen buf.content := by omega
  rw [if_neg headed]
  by_cases beyond : requestLen buf.content - (sizeofFwdRequest + 4) < requestVal buf.content
  · rw [if_pos beyond]
    exact ⟨fun _ _ _ => long, fun _ => rfl⟩
  rw [if_neg beyond]
  cases grant with
  | false => exact ⟨fun _ _ _ => long, fun _ => rfl⟩
  | true =>
    rw [if_pos rfl]
    dsimp only
    rw [if_pos rfl]
    refine ⟨fun _ _ _ => long, fun _ => ⟨_, long, Nat.le_of_not_lt cut, drain_content buf _ (Nat.le_of_not_lt cut), ?_⟩⟩
    omega

theorem codec_right_iff (call : CodecCall) : Right call ↔ Meets call := by
  cases call with
  | unpack buf grant => exact unpack_right buf _
  | pack buf tag st cb =>
    obtain ⟨size, ok, full⟩ := pack_spec buf tag st cb
    unfold Right Meets
    dsimp only
    by_cases room : takes buf cb
    · obtain ⟨done, content⟩ := ok room
      rw [← delivers_iff tag st _]
      constructor
      · rintro ⟨_, ⟨_, message, appended, delivers⟩ | ⟨none, _⟩⟩ _
        · rw [content] at appended
          exact append_cancel_left appended ▸ delivers
        · exact nomatch done.symm.trans none
      · exact fun delivers => ⟨size, .inl ⟨done, _, content, delivers room⟩⟩
    · exact ⟨fun _ some => absurd some room, fun _ => ⟨size, .inr (full room)⟩⟩

theorem zero_length_unpacks : ¬ Right (.unpack ⟨List.replicate 8 0, 0, 8, by decide, by decide⟩ true) ∧
      (fwdBufferUnpack ⟨List.replicate 8 0, 0, 8, by decide, by decide⟩ true).ret = .ok ∧
      (fwdBufferUnpack ⟨List.replicate 8 0, 0, 8, by decide, by decide⟩ true).buf.content = List.replicate 8 0 := by
  refine ⟨fun right => ?_, by decide, by decide⟩
  have least := (unpack_right _ _).mp right (by decide) (by decide)
  exact absurd least (by decide)

end Calls

end Codec.Fwd.Memory
