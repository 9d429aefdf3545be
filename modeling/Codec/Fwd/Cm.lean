import Codec.Fwd.Session

set_option autoImplicit false

namespace Codec.Fwd

def msgCmReg : Nat := 0x1501
def msgCmTicketNew : Nat := 0x1503
def msgCmTicketFired : Nat := 0x1505
def msgCmHeartbeat : Nat := 0x1506

inductive FwdCmStatus
  | min
  | init
  | est
  | err
  | stop
deriving DecidableEq

inductive CmEvent
  | registered
  | answered (ticket : List UInt8) (ret : Int)
  | unclear
  | heartbeat
  | ended (ticket : List UInt8)

-- fwd_cm with its event and the numbers under which epoll has the event; timer
-- is its pending flag. Sent and heard are all the bytes of the connection, and
-- history is what happened on it; crashed is the end of the whole server.
structure FwdCm where
  st : FwdCmStatus
  sock : Nat
  eventFd : Nat
  interest : Option Interest
  error : Bool
  polled : List Nat
  timer : Bool
  bufOut : FwdBuffer
  bufIn : FwdBuffer
  sent : List UInt8
  heard : List UInt8
  history : List CmEvent
  crashed : Bool

def fwdCmInit : FwdCm := ⟨.min, 0, 0, none, false, [], false, fwdBufferInit, fwdBufferInit, [], [], [], false⟩

-- What msg_ticket_parse makes of a value: json_tokener_parse finds no json, or
-- the call crashes, or there is an object, perhaps with a ticket.
inductive TicketJson
  | invalid
  | crash
  | object (ticket : Option (List UInt8))
deriving DecidableEq

def TicketJson.ticket : TicketJson → Option (List UInt8)
  | .object ticket => ticket
  | _ => none

-- What the environment says: the json of reginfo and of a ticket, and what a value
-- parses to. json_object_object_get crashes at a root that is no object.
structure CmJson where
  reginfo : List UInt8
  ticketRsp : List UInt8 → List UInt8
  ticketParse : List UInt8 → TicketJson

-- For one message, whether dt_malloc has room for its value and the result of
-- fwd_main_ticket_in.
structure CmReply where
  grant : Bool
  ret : Int

section Pack

def htonl (value : Nat) : List UInt8 := htons (value / 65536) ++ htons value

-- What fwd_buffer_pack writes: behind the header the length and the value.
def fwdMessage (tag st : Nat) (value : List UInt8) : List UInt8 :=
  if value = [] then fwdRequest tag st
  else htons (sizeofFwdRequest + 4 + value.length) ++ htons fwdVersion ++ htons tag ++ htons st ++ htonl value.length ++ value

-- fwd_buffer_pack with a callback, which is told its room.
def fwdBufferPackFill (buf : FwdBuffer) (tag st : Nat) (fill : Nat → Option (List UInt8)) : FwdBuffer :=
  if buf.left ≤ sizeofFwdRequest + 4 then buf
  else match fill (buf.left - (sizeofFwdRequest + 4)) with
    | some value => buf.put (fwdMessage tag st value)
    | none => buf

-- snprintf cuts the info; the ticket is refused instead.
def cmSetReginfo (json : CmJson) (room : Nat) : Option (List UInt8) := some (json.reginfo.take (room - 1))
def cmTicketRsp (json : CmJson) (ticket : List UInt8) (room : Nat) : Option (List UInt8) :=
  if (json.ticketRsp ticket).length > room - 1 then none else some (json.ticketRsp ticket)
def cmNoInfo (_ : Nat) : Option (List UInt8) := some []

end Pack

section Event

variable (cm : FwdCm)

-- fwd_main_event_set. A number that is not the connection's is another
-- descriptor's or no one's: stale says whether epoll_ctl takes it.
def cmEventSet (flags : Interest) (stale : Bool) : FwdCm :=
  if cm.interest = some flags then cm
  else
    let ok : Bool := if cm.eventFd = cm.sock ∧ cm.sock ≠ 0 then cm.interest.isSome == decide (cm.eventFd ∈ cm.polled) else stale
    if ok then { cm with interest := some flags, error := false, polled := if cm.eventFd ∈ cm.polled then cm.polled else cm.eventFd :: cm.polled }
    else cm

def cmEventCancel : FwdCm :=
  if cm.interest = none then cm else { cm with interest := none, polled := cm.polled.erase cm.eventFd }

def cmSockClose : FwdCm := { cm with sock := 0, polled := if cm.sock = 0 then cm.polled else cm.polled.erase cm.sock }

def cmTimeoutSet : FwdCm := { cm with timer := true }

def readWrite : Interest := ⟨true, true⟩

-- cm_send_req and cm_send_rsp; no caller looks at the pack.
def cmSend (tag st : Nat) (fill : Nat → Option (List UInt8)) (stale : Bool) : FwdCm :=
  cmEventSet { cm with bufOut := fwdBufferPackFill cm.bufOut tag st fill } readWrite stale

def cmNote (event : CmEvent) : FwdCm := { cm with history := cm.history ++ [event] }

def cmStErr : FwdCm :=
  let cm := cmSockClose (cmEventCancel cm)
  cmTimeoutSet { cm with bufIn := fwdBufferInit, bufOut := fwdBufferInit }

def cmError : FwdCm := cmStErr { cm with st := .err }

def cmStStop : FwdCm :=
  let cm := cmEventCancel { cmSockClose cm with bufIn := fwdBufferInit, bufOut := fwdBufferInit }
  { cm with st := .stop, timer := false }

end Event

section Message

variable (json : CmJson)

-- A status as fwd_buffer_pack gets it.
def statusWord (st : Int) : Nat := (st % 65536).toNat

-- json_tokener_parse crashes at the NULL of a message without a value.
def msgTicketParse : Option (List UInt8) → TicketJson
  | none => .crash
  | some val => json.ticketParse val

-- cm_msg_ticket_new; ret is the result of fwd_main_ticket_in.
def cmMsgTicketNew (cm : FwdCm) (val : Option (List UInt8)) (ret : Int) : FwdCm :=
  match msgTicketParse json val with
  | .crash => { cm with crashed := true }
  | .object (some ticket) => cmSend (cmNote cm (.answered ticket ret)) msgCmTicketNew (statusWord ret) (cmTicketRsp json ticket) false
  | _ => cmSend (cmNote cm .unclear) msgCmTicketNew (statusWord fwdErrInvalidArg) cmNoInfo false

inductive Unpacked
  | incomplete
  | err
  | message (len cmd : Nat) (val : Option (List UInt8))
deriving DecidableEq

-- A message too short for a value has none, not an empty one; grant is the result
-- of dt_malloc for it.
def fwdBufferUnpack (data : List UInt8) (grant : Bool) : Unpacked :=
  let len := requestLen data
  if data.length < sizeofFwdRequest ∨ data.length < len then .incomplete
  else if len < sizeofFwdRequest + 4 then .message len (requestCmd data) none
  else if len - (sizeofFwdRequest + 4) < requestVal data then .err
  else if grant then .message len (requestCmd data) (some ((data.drop (sizeofFwdRequest + 4)).take (requestVal data)))
  else .err

-- cm_handle_msg behind fwd_buffer_unpack.
def cmHandleMsg (cm : FwdCm) (len cmd : Nat) (val : Option (List UInt8)) (ret : Int) : FwdCm :=
  let cm := { cm with bufIn := fwdBufferRefresh (fwdBufferDrain cm.bufIn len) }
  if cmd = msgCmTicketNew then cmMsgTicketNew json cm val ret else cm

def Crashes (cmd : Nat) (val : Option (List UInt8)) : Prop := cmd = msgCmTicketNew ∧ msgTicketParse json val = .crash

instance (cmd : Nat) (val : Option (List UInt8)) : Decidable (Crashes json cmd val) := instDecidableAnd

def firstReply (replies : List CmReply) : CmReply := replies.headD ⟨true, 0⟩

-- The loop over cm_handle_msg, at most fuel messages.
def cmHandleMsgs : Nat → FwdCm → List CmReply → FwdCm × List CmReply
  | 0, cm, replies => (cm, replies)
  | fuel + 1, cm, replies => match fwdBufferUnpack cm.bufIn.data (firstReply replies).grant with
      | .message len cmd val =>
        let next := cmHandleMsg json cm len cmd val (firstReply replies).ret
        if next.crashed then (next, replies.tail) else cmHandleMsgs fuel next replies.tail
      | _ => (cm, replies.tail)

def cmSockEnd (cm : FwdCm) : SockRet → FwdCm
  | .error => cmSockClose cm
  | _ => cm

def cmSockRead (cm : FwdCm) (recvs : List Recv) : SockRet × FwdCm :=
  if cm.sock = 0 then (.error, cm)
  else
    let result := fwdSockRead recvs cm.bufIn []
    let cm := { cm with bufIn := result.2.1, heard := cm.heard ++ result.2.2 }
    (result.1, cmSockEnd cm result.1)

-- The read part of cm_st_est: one list of answers for each fwd_sock_read.
def cmEstRead (cm : FwdCm) (replies : List CmReply) : List (List Recv) → FwdCm
  | [] => if cm.bufIn.left = 0 then cmError cm else cm
  | recvs :: reads =>
    let (ret, cm) := cmSockRead cm recvs
    match ret with
    | .again => cm
    | .error => cmError cm
    | .count bytes =>
      if bytes = 0 then cmError cm
      else
        let (next, replies) := cmHandleMsgs json cm.bufIn.data.length cm replies
        if cm.bufIn.left = 0 ∧ next.crashed = false then cmEstRead next replies reads else next

def cmSockSend (cm : FwdCm) (sends : List Send) : SockRet × FwdCm :=
  if cm.sock = 0 then (.error, cm)
  else
    let result := fwdSockSend sends cm.bufOut.data []
    let cm := { cm with bufOut := sentFrom cm.bufOut result.1, sent := cm.sent ++ result.2 }
    (result.1, cmSockEnd cm result.1)

def cmStEst (cm : FwdCm) (flgs : Interest) (reads : List (List Recv)) (sends : List Send) (replies : List CmReply) : FwdCm :=
  if flgs.write then
    let (ret, cm) := cmSockSend cm sends
    if ret = .error then cmError cm
    else if cm.bufOut.data = [] then
      let cm := cmEventSet cm ⟨true, false⟩ false
      { cm with bufOut := fwdBufferRefresh cm.bufOut }
    else cm
  else if flgs.read then cmEstRead json cm replies reads
  else cm

-- cm_st_init; refused is SO_ERROR.
def cmStInit (cm : FwdCm) (refused : Bool) (flgs : Interest) (reads : List (List Recv)) (sends : List Send)
    (replies : List CmReply) : FwdCm :=
  if refused then cmError cm
  else
    let cm := cmSend (cmNote cm .registered) msgCmReg 0 (cmSetReginfo json) false
    cmStEst json { cm with st := .est } flgs reads sends replies

-- What connect comes to: no socket or no host, a connection at once, one that
-- is in progress, or a failure.
inductive Connect
  | nowhere
  | immediate (fd : Nat)
  | progress (fd : Nat)
  | refused
deriving DecidableEq

def fwdCmSetevent (cm : FwdCm) (fd : Nat) (stale : Bool) (history : List CmEvent) : FwdCm :=
  cmTimeoutSet (cmEventSet { cm with sock := fd, eventFd := fd, sent := [], heard := [], history := history } readWrite stale)

-- The event is set for the number it has, before the connection's is stored:
-- the connection's own number among them.
def cmSendEarly (cm : FwdCm) (fd : Nat) (stale : Bool) : FwdCm :=
  cmSend cm msgCmReg 0 (cmSetReginfo json) (stale || cm.eventFd = fd)

def fwdCmConnect (cm : FwdCm) (stale : Bool) : Connect → Bool × FwdCm
  | .nowhere => (false, cm)
  | .immediate fd =>
    if fd = 0 then (false, cm) else (true, fwdCmSetevent { cmSendEarly json cm fd stale with st := .est } fd stale [.registered])
  | .progress fd => if fd = 0 then (false, cm) else (true, fwdCmSetevent { cm with st := .init } fd stale [])
  | .refused => (false, { cm with st := .err })

def cmTimeoutEst (cm : FwdCm) : FwdCm := cmTimeoutSet (cmSend (cmNote cm .heartbeat) msgCmHeartbeat 0 cmNoInfo false)

def cmTimeoutErr (cm : FwdCm) (stale : Bool) (connect : Connect) : FwdCm :=
  let (ok, cm) := fwdCmConnect json cm stale connect
  if ok then cm else cmTimeoutSet cm

def cmTimeoutHandler : FwdCmStatus → Option (FwdCm → Bool → Connect → FwdCm)
  | .est => some fun cm _ _ => cmTimeoutEst cm
  | .err => some fun cm stale connect => cmTimeoutErr json cm stale connect
  | _ => none

def fwdCmStart (cm : FwdCm) (stale : Bool) (connect : Connect) : FwdCm :=
  let (ok, cm) := fwdCmConnect json { cm with st := .min } stale connect
  if ok then cm else { cm with st := .stop }

-- The loop calls the event's callback, the timer's one, a session ends, or the
-- server stops.
inductive CmStep
  | event (error refused : Bool) (flgs : Interest) (reads : List (List Recv)) (sends : List Send) (replies : List CmReply)
  | timeout (stale : Bool) (connect : Connect)
  | fired (ticket : List UInt8) (stale : Bool)
  | stop

-- cm_event_cb, for an error behind the loop's own fwd_event_del.
def cmEventCb (cm : FwdCm) (error refused : Bool) (flgs : Interest) (reads : List (List Recv)) (sends : List Send)
    (replies : List CmReply) : FwdCm :=
  let cm := if error then cmEventCancel { cm with error := true } else cm
  let st := if cm.error then .err else cm.st
  match st with
  | .init => cmStInit json { cm with st := st } refused flgs reads sends replies
  | .est => cmStEst json { cm with st := st } flgs reads sends replies
  | .err => cmStErr { cm with st := st }
  | .stop => cmStStop cm
  | .min => cm

def cmTimeoutCb (cm : FwdCm) (stale : Bool) (connect : Connect) : FwdCm :=
  match cmTimeoutHandler json cm.st with
  | some handler => handler cm stale connect
  | none => cm

-- fwd_cm_stop comes after the loop: nothing follows it.
def cmStep (cm : FwdCm) (step : CmStep) : FwdCm :=
  if cm.st = .stop ∨ cm.crashed then cm
  else match step with
    | .event error refused flgs reads sends replies =>
      if cm.polled = [] then cm else cmEventCb json cm error refused flgs reads sends replies
    | .timeout stale connect => if cm.timer then cmTimeoutCb json { cm with timer := false } stale connect else cm
    | .fired ticket stale =>
      cmSend (if cm.st = .est then cmNote cm (.ended ticket) else cm) msgCmTicketFired 0 (cmTicketRsp json ticket) stale
    | .stop => cmStStop cm

end Message

end Codec.Fwd
