import Codec.Fwd.Cm
import Codec.Sn.OwnBytes

set_option autoImplicit false

namespace Codec.Sn

open List

open Codec.Fwd (Recv fwdMessage fwdBufferUnpack msgCmTicketNew)

-- OS_SockRecv of a blocking socket; none where it waits for good.
def osSockRecv (isize : Nat) : List Recv → Option (RecvRtn × Bytes × List Recv)
  | recvs@([]) => if isize = 0 then some (.ok, [], recvs) else none
  | recvs@(.data first rest :: more) =>
    if isize = 0 then some (.ok, [], recvs)
    else if (first :: rest).length ≤ isize then
      (osSockRecv (isize - (first :: rest).length) more).map fun (rtn, bytes, left) => (rtn, first :: rest ++ bytes, left)
    else match (first :: rest).drop isize with
      | [] => some (.ok, first :: rest, more)
      | next :: others => some (.ok, (first :: rest).take isize, .data next others :: more)
  | recvs@(.eof :: more) => if isize = 0 then some (.ok, [], recvs) else some (.eof, [], more)
  | recvs@(_ :: more) => if isize = 0 then some (.ok, [], recvs) else some (.error, [], more)

-- What process_tcp_mesg makes of a message: what it dispatches on, the text it
-- parses, how long the data is, how many bytes it took for it from the stream and
-- how far it read in its memory.
structure TcpRead where
  code : Nat
  status : Nat
  parsed : Option Bytes
  dataLen : Nat
  taken : Nat
  extent : Nat
deriving DecidableEq

inductive TcpOutcome
  | blocked
  | dropped
  | mesg (r : TcpRead)
deriving DecidableEq

def Parses (code : Nat) : Prop := code ∈ [registForwardInfo, notifyTicketInfo, requestReleaseTicket]

instance decidableParses (code : Nat) : Decidable (Parses code) := inferInstanceAs (Decidable (code ∈ _))

def zeroed (size : Nat) (bytes : Bytes) : Bytes := bytes ++ List.replicate (size - bytes.length) 0

-- The text at pData is read up to its NUL, in the block or behind it.
def readData (head beyond : Bytes) (recvs : List Recv) : TcpOutcome :=
  let dataLen := ntohs (slice head 0 2) - 8
  let code := ntohs (slice head 4 2)
  let status := ntohs (slice head 6 2)
  if dataLen = 0 then .mesg ⟨code, status, none, 0, 0, 0⟩
  else match osSockRecv dataLen recvs with
    | none => .blocked
    | some (.eof, _, _) => .dropped
    | some (_, bytes, _) =>
      let text := cString ((zeroed dataLen bytes ++ beyond).drop 4)
      if Parses code then .mesg ⟨code, status, some text, dataLen, bytes.length, 4 + text.length + 1⟩
      else .mesg ⟨code, status, none, dataLen, bytes.length, 4⟩

def readTcpMesg (beyond : Bytes) (recvs : List Recv) : TcpOutcome :=
  match osSockRecv 8 recvs with
  | none => .blocked
  | some (.eof, _, _) => .dropped
  | some (_, bytes, more) => readData (zeroed 10 bytes) beyond more

section Json

def ticketName : Bytes := [0x74, 0x69, 0x63, 0x6b, 0x65, 0x74]

def jsonQuoted (text : Bytes) : Bytes := 0x22 :: (text ++ [0x22])

-- toStyledString of the object that has the ticket.
def styledTicket (ticket : Ticket) : Bytes :=
  0x7b :: 0x0a :: 0x20 :: 0x20 :: 0x20 :: (jsonQuoted ticketName ++ (0x20 :: 0x3a :: 0x20 :: (jsonQuoted ticket ++ [0x0a, 0x7d, 0x0a])))

def notifyFrame (ticket : Ticket) : Bytes :=
  htons (8 + 4 + (styledTicket ticket).length) ++ htons 1 ++ htons notifyTicketInfo ++ htons 0 ++
    Fwd.htonl (styledTicket ticket).length ++ styledTicket ticket

def skipBlank (bytes : Bytes) : Bytes := bytes.dropWhile fun byte => byte = 0x20 ∨ byte = 0x09 ∨ byte = 0x0a ∨ byte = 0x0d

local instance decidableText (p : UInt8 → Prop) [DecidablePred p] (l : Bytes) : Decidable (∀ byte ∈ l, p byte) := List.decidableBAll p l

-- A string of the format that has no escapes, and what is behind it.
def jsonString : Bytes → Option (Bytes × Bytes)
  | [] => none
  | quote :: rest =>
    let text := rest.takeWhile fun byte => byte ≠ 0x22
    if quote = 0x22 ∧ ∀ byte ∈ text, byte ≠ 0x5c ∧ 0x20 ≤ byte then
      match rest.dropWhile fun byte => byte ≠ 0x22 with
      | _ :: behind => some (text, behind)
      | [] => none
    else none

def jsonByte (wanted : UInt8) (bytes : Bytes) : Option Bytes :=
  match skipBlank bytes with
  | byte :: rest => if byte = wanted then some rest else none
  | [] => none

-- The value of an object's only member.
def jsonMember (name bytes : Bytes) : Option Bytes := do
  let rest ← jsonByte 0x7b bytes
  let (key, rest) ← jsonString (skipBlank rest)
  let rest ← jsonByte 0x3a rest
  let (value, rest) ← jsonString (skipBlank rest)
  let rest ← jsonByte 0x7d rest
  if key = name ∧ skipBlank rest = [] then some value else none

end Json

-- A message of fwd_buffer_pack with its content, a text.
structure Packed where
  tag : Nat
  st : Nat
  content : Bytes
  tagWord : tag < 65536
  stWord : st < 65536
  short : content.length ≤ 4000
  text : 0 ∉ content

inductive Spoken
  | packed (m : Packed)
  | ticket (draws : Draws)
  | header (head : Bytes) (size : head.length = 8)

def OnlyData (recvs : List Recv) : Prop := ∀ recv ∈ recvs, ∃ first rest, recv = .data first rest

def streamOf : List Recv → Bytes
  | [] => []
  | .data first rest :: more => first :: rest ++ streamOf more
  | _ :: more => streamOf more

def OneFormat : Spoken → Prop
  | .packed m => ∀ recvs behind beyond, OnlyData recvs → streamOf recvs = fwdMessage m.tag m.st m.content ++ behind →
      ∃ r, readTcpMesg beyond recvs = .mesg r ∧ r.code = m.tag ∧ r.status = m.st ∧
        (Parses m.tag → m.content ≠ [] → r.parsed = some m.content) ∧ r.extent ≤ r.dataLen
  | .ticket draws => ∃ val, fwdBufferUnpack (notifyFrame draws.ticket) true =
      .message (notifyFrame draws.ticket).length msgCmTicketNew (some val) ∧ jsonMember ticketName val = some draws.ticket
  | .header head _ => ∀ recvs beyond r, readData (zeroed 10 head) beyond recvs = .mesg r → r.taken ≤ r.dataLen ∧ r.extent ≤ r.dataLen

def ReadsWithin : Spoken → Prop
  | .packed m => m.content = [] ∨ ¬ Parses m.tag
  | .ticket _ => True
  | .header head _ => ntohs (slice head 0 2) ≤ 8 ∨ (12 ≤ ntohs (slice head 0 2) ∧ ¬ Parses (ntohs (slice head 4 2)))

section Receive

theorem recv_nothing (recvs : List Recv) : osSockRecv 0 recvs = some (.ok, [], recvs) := by
  cases recvs with
  | nil => rfl
  | cons recv more => cases recv <;> rfl

theorem recv_most (isize : Nat) (recvs : List Recv) (rtn : RecvRtn) (bytes : Bytes) (left : List Recv)
    (got : osSockRecv isize recvs = some (rtn, bytes, left)) : bytes.length ≤ isize := by
  induction recvs generalizing isize rtn bytes left with
  | nil =>
    rw [osSockRecv] at got
    split at got
    · obtain ⟨_, rfl, _⟩ := Option.some.inj got
      exact Nat.zero_le _
    · exact nomatch got
  | cons recv more ih =>
    by_cases nothing : isize = 0
    · rw [nothing, recv_nothing] at got
      obtain ⟨_, rfl, _⟩ := Option.some.inj got
      exact Nat.zero_le _
    cases recv with
    | data first rest =>
      rw [osSockRecv, if_neg nothing] at got
      split at got
      · cases further : osSockRecv _ more with
        | none =>
          rw [further] at got
          exact nomatch got
        | some answer =>
          rw [further] at got
          obtain ⟨_, rfl, _⟩ := Option.some.inj got
          have less := ih _ _ _ _ further
          rw [length_append]
          omega
      · split at got
        · rename_i _ whole
          have long := drop_eq_nil_iff.mp whole
          omega
        · obtain ⟨_, rfl, _⟩ := Option.some.inj got
          rw [length_take]
          omega
    | again =>
      rw [osSockRecv, if_neg nothing] at got
      obtain ⟨_, rfl, _⟩ := Option.some.inj got
      exact Nat.zero_le _
      all_goals exact nofun
    | eof =>
      rw [osSockRecv, if_neg nothing] at got
      obtain ⟨_, rfl, _⟩ := Option.some.inj got
      exact Nat.zero_le _
    | error =>
      rw [osSockRecv, if_neg nothing] at got
      obtain ⟨_, rfl, _⟩ := Option.some.inj got
      exact Nat.zero_le _
      all_goals exact nofun

theorem recv_stream (isize : Nat) (recvs : List Recv) (data : OnlyData recvs) (enough : isize ≤ (streamOf recvs).length) :
    ∃ more, osSockRecv isize recvs = some (.ok, (streamOf recvs).take isize, more) ∧ OnlyData more ∧
      streamOf more = (streamOf recvs).drop isize := by
  induction recvs generalizing isize with
  | nil =>
    have nothing : isize = 0 := Nat.le_zero.mp enough
    exact ⟨[], by rw [nothing, recv_nothing]; rfl, nofun, by rw [streamOf, drop_nil]⟩
  | cons recv more ih =>
    by_cases nothing : isize = 0
    · exact ⟨recv :: more, by rw [nothing, recv_nothing, take_zero], data, by rw [nothing, drop_zero]⟩
    obtain ⟨first, rest, rfl⟩ := data recv mem_cons_self
    have others : OnlyData more := fun other there => data _ (mem_cons_of_mem _ there)
    rw [streamOf, length_append] at enough
    rw [osSockRecv, if_neg nothing, streamOf]
    by_cases fits : (first :: rest).length ≤ isize
    · obtain ⟨left, got, onlyData, stream⟩ := ih (isize - (first :: rest).length) others (by omega)
      rw [if_pos fits, got]
      refine ⟨left, ?_, onlyData, ?_⟩
      · rw [take_append, take_of_length_le fits]
        rfl
      · rw [stream, drop_append, drop_eq_nil_of_le fits, nil_append]
    · rw [if_neg fits]
      cases cut : (first :: rest).drop _ with
      | nil => exact absurd (drop_eq_nil_iff.mp cut) fits
      | cons next behind =>
        refine ⟨.data next _ :: more, ?_, forall_mem_cons.mpr ⟨⟨next, behind, rfl⟩, others⟩, ?_⟩
        · rw [take_append_of_le_length (by omega)]
        · rw [streamOf, drop_append_of_le_length (by omega), cut]

end Receive

section Packed

theorem htons_word (value : Nat) (word : value < 65536) : ntohs (htons value) = value := by
  have high : (UInt8.ofNat _).toNat = value / 256 := UInt8.toNat_ofNat_of_lt' (by show value / 256 < 256; omega)
  have low : (UInt8.ofNat _).toNat = value % 256 := UInt8.toNat_ofNat'
  show (UInt8.ofNat _).toNat * 256 + (UInt8.ofNat _).toNat = value
  rw [high, low]
  omega

variable (m : Packed)

def payload : Bytes := if m.content = [] then [] else Fwd.htonl m.content.length ++ m.content

def packedHead : Bytes := htons (8 + (payload m).length) ++ (htons 1 ++ (htons m.tag ++ htons m.st))

theorem payload_length : (payload m).length = if m.content = [] then 0 else 4 + m.content.length := by
  rw [payload]
  split
  · rfl
  · rw [length_append]
    rfl

theorem packed_shape : fwdMessage m.tag m.st m.content = packedHead m ++ payload m := by
  rw [fwdMessage, packedHead, payload_length]
  by_cases empty : m.content = []
  · rw [if_pos empty, if_pos empty, payload, if_pos empty]
    rfl
  · rw [if_neg empty, if_neg empty, payload, if_neg empty, show Fwd.sizeofFwdRequest + 4 + m.content.length = 8 + (4 + m.content.length) from
      Nat.add_assoc 8 4 _]
    rfl

theorem read_packed (recvs : List Recv) (behind beyond : Bytes) (data : OnlyData recvs)
    (stream : streamOf recvs = fwdMessage m.tag m.st m.content ++ behind) :
    readTcpMesg beyond recvs = if m.content = [] then .mesg ⟨m.tag, m.st, none, 0, 0, 0⟩
      else if Parses m.tag then .mesg ⟨m.tag, m.st, some (cString (m.content ++ beyond)), 4 + m.content.length, 4 + m.content.length,
        4 + (cString (m.content ++ beyond)).length + 1⟩
      else .mesg ⟨m.tag, m.st, none, 4 + m.content.length, 4 + m.content.length, 4⟩ := by
  have small := m.short
  have size := payload_length m
  have word : 8 + (payload m).length < 65536 := by
    rw [size]
    split <;> omega
  rw [packed_shape, append_assoc] at stream
  obtain ⟨more, got, onlyData, left⟩ := recv_stream 8 _ data (by rw [stream, length_append]; exact Nat.le_add_right 8 _)
  have front : (packedHead m).length = 8 := rfl
  rw [stream, take_left' front] at got
  rw [stream, drop_left' front] at left
  have len : ntohs (slice (zeroed 10 (packedHead m)) 0 2) = 8 + (payload m).length := htons_word _ word
  have code : ntohs (slice (zeroed 10 (packedHead m)) 4 2) = m.tag := htons_word _ m.tagWord
  have status : ntohs (slice (zeroed 10 (packedHead m)) 6 2) = m.st := htons_word _ m.stWord
  rw [readTcpMesg, got]
  dsimp only
  rw [readData, len, code, status, Nat.add_sub_cancel_left]
  by_cases empty : m.content = []
  · rw [if_pos empty] at size
    rw [if_pos empty, if_pos size]
  · rw [if_neg empty] at size
    obtain ⟨rest, body, _, _⟩ := recv_stream (payload m).length more onlyData (by rw [left, length_append]; omega)
    rw [left, take_left] at body
    have block : zeroed (payload m).length (payload m) = payload m := by
      rw [zeroed, Nat.sub_self]
      exact append_nil _
    have text : (payload m ++ beyond).drop 4 = m.content ++ beyond := by
      rw [payload, if_neg empty, append_assoc]
      exact drop_left' (show (Fwd.htonl _).length = 4 from rfl)
    rw [if_neg empty, if_neg (by omega), body]
    dsimp only
    rw [block, text, size]

theorem cString_text (text beyond : Bytes) (zeroless : 0 ∉ text) : cString (text ++ beyond) = text ++ cString beyond := by
  rw [cString, takeWhile_append_of_pos fun byte there => by simpa using fun zero : byte = 0 => zeroless (zero ▸ there)]
  rfl

theorem packed_iff : OneFormat (.packed m) ↔ ReadsWithin (.packed m) := by
  constructor
  · intro understood
    by_contra neither
    obtain ⟨filled, parses⟩ := not_or.mp neither
    rw [not_not] at parses
    obtain ⟨first, rest, shape⟩ : ∃ first rest, fwdMessage m.tag m.st m.content = first :: rest := by
      rw [packed_shape]
      exact ⟨_, _, rfl⟩
    have stream : streamOf [.data first rest] = fwdMessage m.tag m.st m.content ++ [] := by
      rw [shape]
      rfl
    have data : OnlyData _ := fun recv there => ⟨first, rest, mem_singleton.mp there⟩
    obtain ⟨r, read, _, _, _, within⟩ := understood _ [] [] data stream
    rw [read_packed m _ [] [] data stream, if_neg filled, if_pos parses, cString_text _ _ m.text] at read
    obtain rfl := TcpOutcome.mesg.inj read
    dsimp only at within
    rw [length_append] at within
    omega
  · intro reads recvs behind beyond data stream
    rw [read_packed m _ _ _ data stream]
    by_cases empty : m.content = []
    · rw [if_pos empty]
      exact ⟨_, rfl, rfl, rfl, fun _ some => absurd empty some, Nat.le_refl _⟩
    · have quiet := reads.resolve_left empty
      rw [if_neg empty, if_neg quiet]
      exact ⟨_, rfl, rfl, rfl, fun parses => absurd parses quiet, Nat.le_add_right 4 _⟩

end Packed

section Header

theorem header_fields (head : Bytes) (size : head.length = 8) (start : Nat) (inside : start + 2 ≤ 8) :
    slice (zeroed 10 head) start 2 = slice head start 2 := slice_own head _ _ 2 (size ▸ inside)

theorem header_iff (head : Bytes) (size : head.length = 8) : OneFormat (.header head size) ↔ ReadsWithin (.header head size) := by
  have len := header_fields head size 0 (by decide)
  have code := header_fields head size 4 (by decide)
  constructor
  · intro within
    by_contra neither
    obtain ⟨filled, cut⟩ := not_or.mp neither
    rw [not_and_or, not_not] at cut
    have more : ntohs (slice head 0 2) - 8 ≠ 0 := by omega
    -- Data without a NUL fill the block.
    have ones : OnlyData [.data 1 (replicate (ntohs (slice head 0 2) - 8 - 1) 1)] :=
      fun recv there => ⟨_, _, mem_singleton.mp there⟩
    have stream : streamOf [.data 1 (replicate (ntohs (slice head 0 2) - 8 - 1) 1)] = replicate (ntohs (slice head 0 2) - 8) 1 := by
      rw [streamOf, streamOf, append_nil, ← replicate_succ]
      exact congrArg (replicate · 1) (by omega)
    obtain ⟨left, got, _, _⟩ := recv_stream _ _ ones (by rw [stream, length_replicate])
    rw [stream, take_of_length_le (by rw [length_replicate])] at got
    have block : zeroed (ntohs (slice head 0 2) - 8) (replicate (ntohs (slice head 0 2) - 8) 1) ++ [] =
        replicate (ntohs (slice head 0 2) - 8) 1 := by
      rw [zeroed, length_replicate, Nat.sub_self, append_nil]
      exact append_nil _
    have text : cString ((replicate (ntohs (slice head 0 2) - 8) 1).drop 4) = replicate (ntohs (slice head 0 2) - 8 - 4) (1 : UInt8) := by
      rw [drop_replicate]
      exact cString_whole _ fun there => absurd (eq_of_mem_replicate there) (by decide)
    have reads := within [.data 1 (replicate (ntohs (slice head 0 2) - 8 - 1) 1)] []
    rw [readData, len, code] at reads
    rw [if_neg more, got] at reads
    dsimp only at reads
    rw [block, text, length_replicate] at reads
    by_cases parses : Parses (ntohs (slice head 4 2))
    · rw [if_pos parses] at reads
      have far := (reads _ rfl).2
      dsimp only at far
      rw [length_replicate] at far
      omega
    · rw [if_neg parses] at reads
      have far := (reads _ rfl).2
      dsimp only at far
      have short := cut.resolve_right parses
      omega
  · intro reads recvs beyond r read
    rw [readData, len, code] at read
    by_cases nothing : ntohs (slice head 0 2) - 8 = 0
    · rw [if_pos nothing] at read
      obtain rfl := TcpOutcome.mesg.inj read
      exact ⟨Nat.le_refl _, Nat.le_refl _⟩
    · rw [if_neg nothing] at read
      obtain ⟨long, quiet⟩ := reads.resolve_left (by omega)
      have done : ∀ bytes : Bytes, bytes.length ≤ ntohs (slice head 0 2) - 8 →
          TcpOutcome.mesg ⟨ntohs (slice head 4 2), ntohs (slice (zeroed 10 head) 6 2), none, ntohs (slice head 0 2) - 8, bytes.length, 4⟩ = .mesg r →
          r.taken ≤ r.dataLen ∧ r.extent ≤ r.dataLen := by
        intro bytes less same
        obtain rfl := TcpOutcome.mesg.inj same
        exact ⟨less, by dsimp only; omega⟩
      split at read
      · exact nomatch read
      · exact nomatch read
      · rename_i rtn bytes left _ got
        rw [if_neg quiet] at read
        exact done _ (recv_most _ _ _ _ _ got) read

end Header

section TicketFrame

def PlainText (text : Bytes) : Prop := ∀ byte ∈ text, byte ≠ 0x22 ∧ byte ≠ 0x5c ∧ 0x20 ≤ byte

theorem drawn_plain (len : Nat) (rands : List Nat) (ticket : Ticket) (drawn : generateRandStr len rands = some ticket) :
    ticket.length = len ∧ PlainText ticket := by
  fun_induction generateRandStr len rands generalizing ticket with
  | case1 => 
    obtain rfl := Option.some.inj drawn
    exact ⟨rfl, nofun⟩
  | case2 len base value rest code misread ih => exact ih _ drawn
  | case3 len base value rest code clear ih =>
    obtain ⟨others, further, rfl⟩ := Option.map_eq_some_iff.mp drawn
    obtain ⟨length, plain⟩ := ih _ further
    refine ⟨congrArg _ length, forall_mem_cons.mpr ⟨?_, plain⟩⟩
    have letter : (48 ≤ code ∧ code ≤ 57) ∨ (65 ≤ code ∧ code ≤ 90) ∨ (97 ≤ code ∧ code ≤ 122) := by
      have zero : '0'.toNat = 48 := rfl
      have a : 'a'.toNat = 97 := rfl
      have upper : 'A'.toNat = 65 := rfl
      simp only [code, zero, a, upper]
      split
      · omega
      split <;> omega
    have same : (UInt8.ofNat code).toNat = code := UInt8.toNat_ofNat_of_lt' (by show code < 256; omega)
    refine ⟨fun quote => ?_, fun slash => ?_, ?_⟩
    · have number := congrArg UInt8.toNat quote
      rw [same] at number
      exact absurd number (by show code ≠ 34; omega)
    · have number := congrArg UInt8.toNat slash
      rw [same] at number
      exact absurd number (by show code ≠ 92; omega)
    · refine UInt8.le_iff_toNat_le.mpr ?_
      rw [same]
      show 32 ≤ code
      omega
  | case4 => exact nomatch drawn

theorem jsonString_quoted (text behind : Bytes) (plain : PlainText text) : jsonString (jsonQuoted text ++ behind) = some (text, behind) := by
  have before : ∀ byte ∈ text, (decide _) = true := fun byte there => decide_eq_true (plain byte there).1
  have taken : (text ++ 0x22 :: behind).takeWhile (fun byte => byte ≠ 0x22) = text := by
    rw [takeWhile_append_of_pos before]
    exact append_nil _
  have dropped : (text ++ 0x22 :: behind).dropWhile (fun byte => byte ≠ 0x22) = 0x22 :: behind := by
    rw [dropWhile_append_of_pos before]
    rfl
  rw [jsonQuoted, cons_append, append_assoc, singleton_append, jsonString]
  rw [taken, if_pos ⟨rfl, fun byte there => (plain byte there).2⟩, dropped]

theorem styled_member (ticket : Ticket) (plain : PlainText ticket) : jsonMember ticketName (styledTicket ticket) = some ticket := by
  have named : PlainText ticketName := by simp [PlainText, ticketName]
  have opened : jsonByte 0x7b (styledTicket ticket) =
      some _ := rfl
  have key := jsonString_quoted _ (0x20 :: 0x3a :: 0x20 :: (jsonQuoted ticket ++ [0x0a, 0x7d, 0x0a])) named
  have value := jsonString_quoted _ [0x0a, 0x7d, 0x0a] plain
  have first : skipBlank (0x0a :: 0x20 :: 0x20 :: 0x20 ::
      (jsonQuoted _ ++ (0x20 :: 0x3a :: 0x20 :: (jsonQuoted _ ++ [0x0a, 0x7d, 0x0a])))) =
      jsonQuoted ticketName ++ (0x20 :: 0x3a :: 0x20 :: (jsonQuoted ticket ++ [0x0a, 0x7d, 0x0a])) := rfl
  have colon : jsonByte 0x3a (0x20 :: 0x3a :: 0x20 :: (jsonQuoted ticket ++ [0x0a, 0x7d, 0x0a])) =
      some _ := rfl
  have second : skipBlank (0x20 :: (jsonQuoted _ ++ [0x0a, 0x7d, 0x0a])) = jsonQuoted ticket ++ [0x0a, 0x7d, 0x0a] := rfl
  have closed : jsonByte 0x7d [0x0a, 0x7d, 0x0a] = some _ := rfl
  simp only [jsonMember, opened, first, key, colon, second, value, closed, Option.bind_eq_bind, Option.bind_some]
  exact if_pos ⟨trivial, rfl⟩

theorem quoted_length (text : Bytes) : (jsonQuoted text).length = text.length + 2 := by
  rw [jsonQuoted, length_cons, length_append]
  rfl

theorem styled_length (ticket : Ticket) (whole : ticket.length = 16) : (styledTicket ticket).length = 37 := by
  have quoted := quoted_length ticket
  rw [whole] at quoted
  simp only [styledTicket, quoted, quoted_length _, length_cons, length_append, length_nil]
  rfl

theorem ticket_unpacked (draws : Draws) : OneFormat (.ticket draws) := by
  obtain ⟨whole, plain⟩ := drawn_plain 16 _ _ (Option.some_get _).symm
  have size := styled_length draws.ticket whole
  refine ⟨styledTicket _, ?_, styled_member _ plain⟩
  have frame : notifyFrame draws.ticket =
      [0, 49, 0, 1, 0x15, 0x03, 0, 0, 0, 0, 0, 37] ++ styledTicket draws.ticket := by
    rw [notifyFrame, size]
    rfl
  have value : (styledTicket _).take 37 = styledTicket _ := take_of_length_le (Nat.le_of_eq size)
  rw [frame, fwdBufferUnpack]
  have length : ([0, 49, 0, 1, 0x15, 0x03, 0, 0, 0, 0, 0, 37] ++ styledTicket draws.ticket).length = 49 := by
    rw [length_append, size]
    rfl
  have len : Fwd.requestLen ([0, 49, 0, 1, 0x15, 0x03, 0, 0, 0, 0, 0, 37] ++ styledTicket draws.ticket) = 49 := by
    simp [Fwd.requestLen, Fwd.ntohs]
  have cmd : Fwd.requestCmd ([0, 49, 0, 1, 0x15, 0x03, 0, 0, 0, 0, 0, 37] ++ styledTicket draws.ticket) = msgCmTicketNew := by
    simp [Fwd.requestCmd, Fwd.ntohs, msgCmTicketNew]
  have val : Fwd.requestVal ([0, 49, 0, 1, 0x15, 0x03, 0, 0, 0, 0, 0, 37] ++ styledTicket draws.ticket) = 37 := by
    simp [Fwd.requestVal, Fwd.ntohs]
  rw [len, cmd, val, length, if_neg (by decide), if_neg (by decide), if_neg (by decide), if_pos rfl]
  exact congrArg (fun bytes => Fwd.Unpacked.message 49 msgCmTicketNew (some bytes)) value

end TicketFrame

theorem one_format_iff (spoken : Spoken) : OneFormat spoken ↔ ReadsWithin spoken := by
  cases spoken with
  | packed m => exact packed_iff m
  | ticket draws => exact iff_of_true (ticket_unpacked _) trivial
  | header head size => exact header_iff head size

-- A confirmed ticket is parsed up to a NUL nobody wrote.
def confirmation : Packed := ⟨notifyTicketInfo, 0, styledTicket [0x39], by decide, by decide, by decide, by decide⟩

theorem confirmation_overread : ¬ OneFormat (.packed confirmation) := fun understood =>
  ((packed_iff _).mp understood).elim nofun fun quiet => quiet (by decide)

end Codec.Sn
