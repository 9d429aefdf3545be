import Codec.Ems.Sock
import Codec.Portal.Attr
import Mathlib.Data.List.Forall2
import Mathlib.Data.List.GetD

set_option autoImplicit false

namespace Codec.Portal

open Codec.Ems

inductive Msg where
  | event (auth : AuthHdr) (attr : List ValuePair)
  | reply (list : List ValuePair)
  deriving DecidableEq, Repr

-- One end of a datagram socket: what the handlers work on, buf_in of the
-- session, and two ghosts, the datagrams recv(2) delivered and the messages
-- that were handed to a handler.
structure Line (σ : Type) where
  app : σ
  bufIn : Buffer
  received : List (List UInt8)
  handled : List Msg

-- EMS_CONTINUE is `again`. What is neither that nor an error is `ok`, also
-- the zero of a parser that took nothing.
inductive Ret where
  | ok | again | spin
  deriving DecidableEq, Repr

inductive Recvd where
  | ok | err | spin
  deriving DecidableEq, Repr

section Receive

variable {σ : Type} (isOpen : σ → Bool) (close : σ → σ) (handle : σ → Msg → σ)

def Line.deliver (line : Line σ) (msg : Msg) (total : Nat) : Line σ where
  app := handle line.app msg
  bufIn := ((line.bufIn.seekRd total .cur).getD line.bufIn).refresh
  received := line.received
  handled := line.handled ++ [msg]

def ptlProcessRsp (line : Line σ) : Ret × Line σ :=
  let buf := line.bufIn
  let auth := AuthHdr.received buf.content
  if buf.len = 0 then (.again, line)
  else if buf.content.getD 0 0 = 1 then
    if buf.len < hdrLen then (.again, line)
    else match ptlParseCtx true (buf.mem.drop (buf.rd + hdrLen)) (buf.len - hdrLen) (some auth.nAttr.toNat) with
      | .again => (.again, line)
      | .spin => (.spin, line)
      | .used attr count => (.ok, line.deliver handle (.event auth attr) (hdrLen + count))
  else match ptlParseCtx false (buf.mem.drop buf.rd) buf.len none with
    | .again => (.again, line)
    | .spin => (.spin, line)
    | .used list count => if count = 0 then (.ok, line) else (.ok, line.deliver handle (.reply list) count)

-- The do-while loop of ptl_recv_msg; false when it does not come to an end.
def ptlDrain : Nat → Line σ → Bool × Line σ
  | 0, line => (false, line)
  | fuel + 1, line =>
    match ptlProcessRsp handle line with
    | (.again, next) => (true, next)
    | (.spin, next) => (false, next)
    | (.ok, next) => ptlDrain fuel next

def datagrams (stream : List Recv) : List (List UInt8) :=
  stream.filterMap fun answer => match answer with
    | .data bytes => some bytes
    | _ => none

def Line.filled (line : Line σ) (stream : List Recv) (res : ReadResult) : Line σ where
  app := if res.opened then line.app else close line.app
  bufIn := res.buf
  received := line.received ++ datagrams (stream.take (stream.length - res.stream.length))
  handled := line.handled

-- ptl_recv_msg over the answers of recv(2). After an error the buffer is
-- looked at once more; the result of that is not used.
def ptlRecvLoop : Nat → Line σ → List Recv → Recvd × Line σ
  | 0, line, _ => (.spin, line)
  | fuel + 1, line, stream =>
    let res := sockRead (isOpen line.app) line.bufIn stream
    let read := line.filled close stream res
    if res.ret = .none then
      if read.bufIn.len = 0 then (.err, read)
      else match ptlProcessRsp handle read with
        | (.spin, next) => (.spin, next)
        | (_, next) => (.err, next)
    else match ptlDrain handle (read.bufIn.len + 1) read with
      | (false, next) => (.spin, next)
      | (true, next) => if res.ret = .again then (.ok, next) else ptlRecvLoop fuel next res.stream

def ptlRecvMsg (line : Line σ) (stream : List Recv) : Recvd × Line σ :=
  ptlRecvLoop isOpen close handle (stream.length + 2) line stream

end Receive

-- What a portal server means by an attribute: a type, and a value that with
-- its two bytes in front fits the length byte.
structure RawAttr where
  ty : UInt8
  val : List UInt8
  fits : val.length ≤ 253
  deriving DecidableEq, Repr

def RawAttr.bytes (attr : RawAttr) : List UInt8 := attr.ty :: UInt8.ofNat (attr.val.length + 2) :: attr.val

def attrBytes (attrs : List RawAttr) : List UInt8 := (attrs.map RawAttr.bytes).flatten

def RawAttr.pair (evt : Bool) (attr : RawAttr) : Option ValuePair :=
  (attrOf evt attr.ty).map fun known => match known.ty with
    | .string => ⟨known, UInt32.ofNat attr.val.length, some attr.val⟩
    | .int => ⟨known, htonl (load32 attr.val), none⟩

def RawAttr.Whole (attr : RawAttr) : Prop := attr.ty = 0x0b → 4 ≤ attr.val.length

structure Datagram where
  hdr : List UInt8
  attrs : List RawAttr
  sized : hdr.length = hdrLen
  event : hdr.getD 0 0 = 1
  counted : (hdr.getD 15 0).toNat = attrs.length

variable (gram : Datagram)

def Datagram.bytes : List UInt8 := gram.hdr ++ attrBytes gram.attrs

def Datagram.msg : Msg := .event (AuthHdr.received gram.hdr) (gram.attrs.filterMap (RawAttr.pair true))

def Datagram.Whole : Prop := ∀ attr ∈ gram.attrs, attr.Whole

def Isolated (received : List (List UInt8)) (handled : List Msg) : Prop :=
  ∃ yields : List (List Msg), yields.flatten = handled ∧
    List.Forall₂ (fun bytes yield => ∀ gram : Datagram, gram.bytes = bytes → yield = [gram.msg]) received yields

@[simp] theorem attr_bytes_nil : attrBytes [] = [] := rfl

@[simp] theorem attr_bytes_cons (attr : RawAttr) (rest : List RawAttr) :
    attrBytes (attr :: rest) = attr.bytes ++ attrBytes rest := rfl

@[simp] theorem raw_attr_length (attr : RawAttr) : attr.bytes.length = attr.val.length + 2 := by simp [RawAttr.bytes]

theorem length_byte (attr : RawAttr) : (UInt8.ofNat (attr.val.length + 2)).toNat = attr.val.length + 2 := by
  have fits := attr.fits
  rw [UInt8.toNat_ofNat']
  omega

theorem attrs_short (attrs : List RawAttr) : attrs.length ≤ (attrBytes attrs).length := by
  induction attrs with
  | nil => exact Nat.le_refl 0
  | cons attr rest shorter =>
    rw [attr_bytes_cons, List.length_append, raw_attr_length, List.length_cons]
    omega

theorem raw_attr_split (first second : RawAttr) (more rest : List UInt8)
    (same : first.bytes ++ more = second.bytes ++ rest) : first = second ∧ more = rest := by
  simp only [RawAttr.bytes, List.cons_append, List.cons.injEq] at same
  obtain ⟨sameTy, sameLen, sameVal⟩ := same
  have lengths : first.val.length = second.val.length := by
    have equal := congrArg UInt8.toNat sameLen
    rw [length_byte, length_byte] at equal
    omega
  obtain ⟨values, tails⟩ := List.append_inj sameVal lengths
  refine ⟨?_, tails⟩
  cases first
  cases second
  simp_all

theorem attr_bytes_inj (first second : List RawAttr) (same : attrBytes first = attrBytes second) : first = second := by
  induction first generalizing second with
  | nil =>
    cases second with
    | nil => rfl
    | cons attr rest => simp [RawAttr.bytes] at same
  | cons attr rest ih =>
    cases second with
    | nil => simp [RawAttr.bytes] at same
    | cons other later =>
      obtain ⟨heads, tails⟩ := raw_attr_split attr _ _ _ same
      rw [heads, ih _ tails]

theorem datagram_inj (hdr : List UInt8) (attrs : List RawAttr) (sized : hdr.length = hdrLen)
    (same : gram.bytes = hdr ++ attrBytes attrs) : gram.hdr = hdr ∧ gram.attrs = attrs := by
  obtain ⟨headers, tails⟩ := List.append_inj same (gram.sized.trans sized.symm)
  exact ⟨headers, attr_bytes_inj _ _ tails⟩

theorem datagram_head : gram.bytes.getD 0 0 = 1 := by
  have event := gram.event
  have sized := gram.sized
  rw [Datagram.bytes, List.getD_append]
  · exact event
  · rw [sized]
    decide

theorem datagram_msg_unique (first second : Datagram) (same : first.bytes = second.bytes) : first.msg = second.msg := by
  obtain ⟨headers, attrs⟩ := datagram_inj _ _ _ second.sized same
  rw [Datagram.msg, Datagram.msg, headers, attrs]

theorem isolated_nil : Isolated [] [] := ⟨[], rfl, .nil⟩

theorem isolated_append (received more : List (List UInt8)) (handled added : List Msg)
    (old : Isolated received handled) (new : Isolated more added) : Isolated (received ++ more) (handled ++ added) := by
  obtain ⟨yields, flat, matched⟩ := old
  obtain ⟨others, flatNew, matchedNew⟩ := new
  exact ⟨yields ++ others, by rw [List.flatten_append, flat, flatNew], List.rel_append matched matchedNew⟩

theorem isolated_own : Isolated [gram.bytes] [gram.msg] := by
  refine ⟨[[gram.msg]], rfl, .cons ?_ .nil⟩
  intro other same
  rw [datagram_msg_unique _ gram same]

theorem isolated_other (bytes : List UInt8) (added : List Msg) (malformed : ∀ gram : Datagram, gram.bytes ≠ bytes) :
    Isolated [bytes] added := by
  refine ⟨[added], by simp, .cons ?_ .nil⟩
  intro gram same
  exact absurd same (malformed gram)

theorem isolated_handled (received : List (List UInt8)) (handled : List Msg) (gram : Datagram)
    (isolated : Isolated received handled) (arrived : gram.bytes ∈ received) : gram.msg ∈ handled := by
  obtain ⟨yields, flat, matched⟩ := isolated
  rw [← flat]
  clear flat
  induction matched with
  | nil => simp at arrived
  | cons own later ih =>
    cases arrived with
    | head => simp [own gram rfl]
    | tail _ there =>
      rw [List.flatten_cons]
      exact List.mem_append_right _ (ih there)

end Codec.Portal
