import Codec.Ctrl.RoundTrip

set_option autoImplicit false

namespace Codec.Ctrl

open Codec.Ems
open Codec.Tunnel (htonl ntohl store_fits increase_left content_increase)

-- cmd_recv_n on a blocking socket; none where the stream ends too early.
def cmdRecvN (len : Nat) (buf : Buffer) (stream : Str) : Option (Buffer × Str) :=
  if stream.length < len then none
  else
    let stored := buf.poke buf.wr ((stream.take len).take buf.left)
    some ((stored.seekWr len .cur).getD stored, stream.drop len)

-- cmd_recv: what is left to read is an ems_int.
def cmdRecv (buf : Buffer) (stream : Str) : Option (Buffer × Str) :=
  match cmdRecvN sizeResponse buf stream with
  | none => none
  | some (head, rest) =>
    let len := ntohl ((head.prefetch sizeResponse).drop intsize)
    if len ≤ sizeResponse ∨ 2147483648 ≤ len - sizeResponse then some (head, rest)
    else
      let left := len - sizeResponse
      cmdRecvN left (if head.left ≤ left then head.increase left else head) rest

structure Reply where
  tag : UInt32
  st : UInt32
  text : Option Str
  buf : Buffer
  deriving DecidableEq, Repr

def cmdParseRsp (buf : Buffer) : Reply :=
  let len := ntohl (buf.mem.drop (buf.rd + intsize))
  let inner := ntohl (buf.mem.drop (buf.rd + sizeResponse))
  { tag := UInt32.ofNat (ntohl (buf.mem.drop buf.rd))
    st := UInt32.ofNat (ntohl (buf.mem.drop (buf.rd + intsize + intsize)))
    text := if sizeResponse < len then some (cstr ((buf.mem.drop (buf.rd + sizeResponse + intsize)).take inner)) else none
    buf := ((buf.seekRd len .cur).getD buf).refresh }

def TakesResponse (frame : Str) (tag st : UInt32) (ctx : Option Context) : Prop :=
  ∀ (buf : Buffer) (rest : Str), buf.rd = 0 → buf.wr = 0 → 1024 ≤ buf.size →
    ∃ next, cmdRecv buf (frame ++ rest) = some (next, rest) ∧ (cmdParseRsp next).tag = tag ||| 0x80000000 ∧
      (cmdParseRsp next).st = st ∧ (cmdParseRsp next).text = ctx.map (·.text) ∧ (cmdParseRsp next).buf.content = []

theorem recv_n_taken (buf : Buffer) (bytes rest : Str) (fits : bytes.length ≤ buf.left) :
    ∃ next, cmdRecvN bytes.length buf (bytes ++ rest) = some (next, rest) ∧ next.content = buf.content ++ bytes := by
  obtain ⟨next, stored, content⟩ := store_fits buf _ fits
  refine ⟨next, ?_, content⟩
  rw [cmdRecvN, if_neg (by rw [List.length_append]; omega)]
  dsimp only
  rw [List.take_left' rfl, stored, List.drop_left' rfl]
  rfl

theorem response_headed (tag st : UInt32) (ctx : Option Context) :
    ∃ behind, image (responseHeader tag st) sizeResponse ctx = htonl (tag ||| 0x80000000).toNat ++
      (htonl (total sizeResponse ctx) ++ (htonl st.toNat ++ behind)) ∧
      ∀ item ∈ ctx, behind = htonl item.text.length ++ item.text := by
  cases ctx with
  | none => exact ⟨[], by simp only [image, responseHeader, total, List.append_nil, List.append_assoc], fun _ bad => (nomatch bad)⟩
  | some ctx =>
    refine ⟨htonl ctx.text.length ++ ctx.text, by simp only [image, responseHeader, List.append_assoc], ?_⟩
    intro item same
    rw [Option.some.inj same]

theorem parse_taken (buf : Buffer) (tag st : UInt32) (ctx : Option Context) (pad : Str)
    (framed : (image (responseHeader tag st) sizeResponse ctx ++ pad).length = total sizeResponse ctx)
    (content : buf.content = image (responseHeader tag st) sizeResponse ctx ++ pad) :
    (cmdParseRsp buf).tag = tag ||| 0x80000000 ∧ (cmdParseRsp buf).st = st ∧
      (cmdParseRsp buf).text = ctx.map (·.text) ∧ (cmdParseRsp buf).buf.content = [] := by
  have small := total_small sizeResponse ctx (by decide)
  obtain ⟨behind, headed, carried⟩ := response_headed tag st ctx
  have whole : buf.mem.drop buf.rd = htonl (tag ||| 0x80000000).toNat ++ (htonl (total sizeResponse ctx) ++
      (htonl st.toNat ++ (behind ++ (pad ++ buf.mem.drop buf.wr)))) := by
    rw [content_drop, content, headed]
    simp only [List.append_assoc]
  have second : buf.mem.drop (buf.rd + intsize) = htonl (total sizeResponse ctx) ++
      (htonl st.toNat ++ (behind ++ (pad ++ buf.mem.drop buf.wr))) := by
    rw [← List.drop_drop, whole]
    rfl
  have third : buf.mem.drop (buf.rd + intsize + intsize) = htonl st.toNat ++ (behind ++ (pad ++ buf.mem.drop buf.wr)) := by
    rw [← List.drop_drop, second]
    rfl
  have fourth : buf.mem.drop (buf.rd + sizeResponse) = behind ++ (pad ++ buf.mem.drop buf.wr) := by
    rw [← List.drop_drop, whole]
    rfl
  have len : ntohl (buf.mem.drop (buf.rd + intsize)) = total sizeResponse ctx := by rw [second, word_back _ _ (by omega)]
  unfold cmdParseRsp
  dsimp only
  rw [len]
  refine ⟨?_, ?_, ?_, ?_⟩
  · rw [whole, tag_back]
  · rw [third, tag_back]
  · cases ctx with
    | none => rfl
    | some ctx =>
      have counts := ctx.counts
      have long : sizeResponse < total sizeResponse (some ctx) := by
        simp only [total, intsize]
        omega
      have text : buf.mem.drop (buf.rd + sizeResponse + intsize) = ctx.text ++ (pad ++ buf.mem.drop buf.wr) := by
        rw [← List.drop_drop, fourth, carried ctx rfl, List.append_assoc]
        rfl
      rw [if_pos long, text, fourth, carried ctx rfl, List.append_assoc, word_back _ _ (by omega),
        List.take_left' rfl, cstr_clean _ ctx.clean]
      rfl
  · have size : buf.len = total sizeResponse ctx := by
      rw [← Buffer.content_length, content, framed]
    have taken := consume_content buf _ (Nat.le_of_eq size.symm)
    rw [consume] at taken
    rw [taken, content]
    exact List.drop_of_length_le (Nat.le_of_eq framed)

theorem response_taken (tag st : UInt32) (ctx : Option Context) (pad : Str)
    (framed : (image (responseHeader tag st) sizeResponse ctx ++ pad).length = total sizeResponse ctx) :
    TakesResponse (image (responseHeader tag st) sizeResponse ctx ++ pad) tag st ctx := by
  intro buf rest rd wr size
  have small := total_small sizeResponse ctx (by decide)
  have parsed (next : Buffer) := parse_taken next tag st ctx pad framed
  obtain ⟨behind, headed, _⟩ := response_headed tag st ctx
  generalize whole : image _ _ ctx ++ pad = frame at framed parsed ⊢
  have start : frame = (htonl (tag ||| 0x80000000).toNat ++ (htonl (total sizeResponse ctx) ++ htonl st.toNat)) ++
      (behind ++ pad) := by
    rw [← whole, headed]
    simp only [List.append_assoc]
  have empty : buf.content = [] := by
    apply List.eq_nil_of_length_eq_zero
    rw [Buffer.content_length]
    simp only [Buffer.len]
    omega
  have left : buf.left = buf.size := by
    simp only [Buffer.left, Buffer.size]
    omega
  generalize first : htonl _ ++ (htonl _ ++ htonl _) = header at start
  have twelve : header.length = sizeResponse := by
    rw [← first]
    rfl
  obtain ⟨head, read, content⟩ := recv_n_taken buf _ _ (by
    rw [twelve, left]
    exact Nat.le_trans (by decide) size)
  rw [empty, List.nil_append] at content
  have word : (head.prefetch sizeResponse).drop intsize = htonl (total sizeResponse ctx) ++ htonl st.toNat := by
    rw [Buffer.prefetch, content, ← first]
    rfl
  have len : ntohl ((head.prefetch sizeResponse).drop intsize) = total sizeResponse ctx := by
    rw [word, word_back _ _ (by omega)]
  have more : (behind ++ pad).length = total sizeResponse ctx - sizeResponse := by
    rw [start, List.length_append, twelve] at framed
    omega
  rw [twelve] at read
  rw [start, List.append_assoc]
  unfold cmdRecv
  rw [read]
  dsimp only
  rw [len]
  by_cases bare : total sizeResponse ctx ≤ sizeResponse
  · have none : behind ++ pad = [] := List.eq_nil_of_length_eq_zero (by omega)
    rw [if_pos (.inl bare), none, List.nil_append]
    refine ⟨head, rfl, parsed head ?_⟩
    rw [content, start, none, List.append_nil]
  · rw [if_neg (by rintro (short | huge) <;> omega)]
    generalize grown : (if head.left ≤ total _ ctx - sizeResponse
      then head.increase _ else head) = room
    have enough : total sizeResponse ctx - sizeResponse ≤ room.left ∧ room.content = head.content := by
      rw [← grown]
      split
      · exact ⟨increase_left _ _, content_increase _ _⟩
      · exact ⟨by omega, rfl⟩
    obtain ⟨next, got, all⟩ := recv_n_taken room _ rest (by rw [more]; exact enough.1)
    rw [more] at got
    refine ⟨next, got, parsed next ?_⟩
    rw [all, enough.2, content, start]

end Codec.Ctrl
