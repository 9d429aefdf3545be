import Codec.Lib.Runs

set_option autoImplicit false

namespace Codec.Sn

def purgeRegistrationFrequency : Nat := 30
def fwdTimeout : Nat := 180

def registForwardInfo : Nat := 0x1501
def notifyTicketInfo : Nat := 0x1503
def requestReleaseTicket : Nat := 0x1505
def fwdToCmHeartbeat : Nat := 0x1506

def Ticket : Type := List UInt8
deriving DecidableEq

-- The maps of the server, in the order of their keys.
section Map

variable {ν : Type}

def mapKeys (entries : List (Nat × ν)) : List Nat := entries.map Prod.fst

def mapInsert (key : Nat) (value : ν) : List (Nat × ν) → List (Nat × ν)
  | [] => [(key, value)]
  | entry :: rest => if key < entry.1 then (key, value) :: entry :: rest else entry :: mapInsert key value rest

def mapPut (key : Nat) (value : ν) (entries : List (Nat × ν)) : List (Nat × ν) :=
  if key ∈ mapKeys entries then entries else mapInsert key value entries

def mapUpdate (key : Nat) (change : ν → ν) (entries : List (Nat × ν)) : List (Nat × ν) :=
  entries.map fun entry => if entry.1 = key then (entry.1, change entry.2) else entry

def mapErase (key : Nat) (entries : List (Nat × ν)) : List (Nat × ν) := entries.filter fun entry => entry.1 ≠ key

end Map

structure ServerInfo where
  ip : Nat
  port : Nat

structure ForwardInfo where
  regTm : Nat
  serverInfo : ServerInfo

structure PeerInfo where
  pcSock : Nat
  phoneSock : Nat
  serverInfo : ServerInfo

-- What the forward servers said about their tickets.
inductive Said
  | confirmed (fd : Nat) (ticket : Ticket)
  | released (fd : Nat) (ticket : Ticket)
  | gone (fd : Nat)

-- The state of run_loop; the mask and the descriptors are those of accepted
-- connections, clock is the last reading. Stuck is a lock of a held mutex,
-- doubled are the tickets given out while they were outstanding.
structure Server where
  mapForwardInfo : List (Nat × ForwardInfo)
  mapTicketInfo : List (Nat × List Ticket)
  mapPeerInfo : List (Ticket × PeerInfo)
  socketMask : List Nat
  opened : List Nat
  mutexForwardInfo : Bool
  mutexTicket : Bool
  stuck : Bool
  clock : Nat
  said : List Said
  doubled : List Ticket

def snInit : Server := ⟨[], [], [], [], [], false, false, false, 0, [], []⟩

section Ticket

-- GenerateRandStr: a letter that can be misread is drawn again.
def generateRandStr : Nat → List Nat → Option Ticket
  | 0, _ => some []
  | len + 1, base :: value :: rest =>
    let code := if base % 3 = 0 then value % 10 + '0'.toNat
      else if base % 3 = 1 then value % 26 + 'a'.toNat
      else value % 26 + 'A'.toNat
    if code = 'i'.toNat ∨ code = 'o'.toNat ∨ code = 'I'.toNat ∨ code = 'O'.toNat then generateRandStr (len + 1) rest
    else (generateRandStr len rest).map fun ticket => UInt8.ofNat code :: ticket
  | _ + 1, _ => none

-- Results of rand under which GenerateRandStr comes back.
structure Draws where
  rands : List Nat
  enough : (generateRandStr 16 rands).isSome

def Draws.ticket (draws : Draws) : Ticket := (generateRandStr 16 draws.rands).get draws.enough

variable (s : Server)

def lockTicket : Server := if s.mutexTicket then { s with stuck := true } else { s with mutexTicket := true }

-- What waits in g_MapPeerInfo or is listed.
def outstanding : List Ticket := s.mapPeerInfo.map Prod.fst ++ s.mapTicketInfo.flatMap Prod.snd

-- GenerateTicket: the continue goes on with the inner loop, an equal ticket only
-- unlocks once more.
def generateTicket (draws : Draws) : Server × Ticket :=
  let s := lockTicket s
  if s.stuck then (s, draws.ticket)
  else
    let s := (s.mapTicketInfo.flatMap Prod.snd).foldl (fun s ticket => if ticket = draws.ticket then { s with mutexTicket := false } else s) s
    ({ s with mutexTicket := false }, draws.ticket)

def fewest : List (Nat × List Ticket) → Option (Nat × List Ticket)
  | [] => none
  | entry :: rest => some (rest.foldl (fun best next => if next.2.length < best.2.length then next else best) entry)

-- ChoseForwardServer, with what its send answers; 0 is no socket.
def choseForwardServer (sendOk : Bool) : Option ServerInfo :=
  match fewest s.mapTicketInfo with
  | some (forwardsock, _) =>
    if forwardsock = 0 then none
    else match s.mapForwardInfo.lookup forwardsock with
      | some info => if sendOk then some info.serverInfo else none
      | none => none
  | none => none

-- REQUEST_FORWARD_INFO of a peer that is registered.
def requestForwardInfo (pcSock phoneSock : Nat) (draws : Draws) (sendOk : Bool) : Server :=
  let (s, ticket) := generateTicket s draws
  if s.stuck then s
  else match choseForwardServer s sendOk with
    | some serverInfo =>
      { s with
        mapPeerInfo := if ticket ∈ s.mapPeerInfo.map Prod.fst then s.mapPeerInfo else (ticket, ⟨pcSock, phoneSock, serverInfo⟩) :: s.mapPeerInfo
        doubled := if ticket ∈ outstanding s then ticket :: s.doubled else s.doubled }
    | none => s

end Ticket

-- The result of OS_SockRecv: 0, 1 and -1.
inductive RecvRtn
  | ok
  | error
  | eof
deriving DecidableEq

-- What the json of a message has, a field that is not there is empty.
structure MesgJson where
  fwdAddr : Nat
  fwdPort : Nat
  ticket : Ticket

-- A message as the buffers have it, whole or not: some is a length over the
-- header's, json what the reader makes of the data.
structure TcpMesg where
  head : RecvRtn
  opCode : Nat
  rtnCode : Nat
  some : Bool
  body : RecvRtn
  json : Option MesgJson
  now : Nat

section Tcp

variable (s : Server)

def clearTicketInfo (fd : Nat) : Server :=
  { s with mapTicketInfo := mapErase fd s.mapTicketInfo, mapForwardInfo := mapErase fd s.mapForwardInfo }

-- FD_CLR, ClearTicketInfo and close.
def dropForward (fd : Nat) : Server :=
  let s := clearTicketInfo s fd
  { s with socketMask := s.socketMask.erase fd, opened := s.opened.erase fd, said := .gone fd :: s.said }

def registForward (fd : Nat) (json : MesgJson) (now : Nat) : Server :=
  { s with mapForwardInfo := mapPut fd ⟨now, ⟨json.fwdAddr, json.fwdPort⟩⟩ s.mapForwardInfo
           mapTicketInfo := mapPut fd [] s.mapTicketInfo }

def releaseTicket (fd : Nat) (ticket : Ticket) : Server :=
  { s with mapTicketInfo := mapUpdate fd (fun tickets => tickets.filter fun other => other ≠ ticket) s.mapTicketInfo
           said := .released fd ticket :: s.said }

-- The answer for a ticket that waits; a server that is not registered has no list.
def notifyTicket (fd : Nat) (rtnCode : Nat) (ticket : Ticket) : Server :=
  let waits : Bool := ticket ∈ s.mapPeerInfo.map Prod.fst
  let s := if rtnCode = 0 ∧ waits = true then
      { s with mapTicketInfo := mapUpdate fd (fun tickets => tickets ++ [ticket]) s.mapTicketInfo
               said := if fd ∈ mapKeys s.mapTicketInfo then .confirmed fd ticket :: s.said else s.said }
    else s
  { s with mapPeerInfo := s.mapPeerInfo.filter fun peer => peer.1 ≠ ticket }

def heartbeat (fd : Nat) (now : Nat) : Server :=
  { s with mapForwardInfo := mapUpdate fd (fun info => { info with regTm := now }) s.mapForwardInfo }

-- process_tcp_mesg: an error of the receive is only traced.
def processTcpMesg (fd : Nat) (mesg : TcpMesg) : Server :=
  if mesg.head = .eof then dropForward s fd
  else if mesg.some ∧ mesg.body = .eof then dropForward s fd
  else if mesg.opCode = fwdToCmHeartbeat then heartbeat s fd mesg.now
  else match mesg.some, mesg.json with
    | true, some json =>
      if mesg.opCode = registForwardInfo then registForward s fd json mesg.now
      else if mesg.opCode = requestReleaseTicket then releaseTicket s fd json.ticket
      else if mesg.opCode = notifyTicketInfo then notifyTicket s fd mesg.rtnCode json.ticket
      else s
    | _, _ => s

-- ClearTimeoutFWDServer: last_fwd_tm stays 0, and nothing unlocks the mutex.
def silentServers (now : Nat) : List Nat := mapKeys (s.mapForwardInfo.filter fun entry => (now : Int) - entry.2.regTm > fwdTimeout)

def clearTimeoutFwdServer (now : Nat) : Server :=
  if now < purgeRegistrationFrequency then s
  else if s.mutexForwardInfo then { s with stuck := true }
  else (silentServers s now).foldl dropForward { s with mutexForwardInfo := true }

end Tcp

-- The loop's steps: a datagram, a connection, a message of one, and the end of
-- the iteration.
inductive SnStep
  | request (peer : Option Nat) (phoneSock : Nat) (draws : Draws) (sendOk : Bool)
  | otherUdp
  | accept (fd : Nat)
  | tcp (fd : Nat) (mesg : TcpMesg)
  | done (now : Nat)

def snStep (s : Server) (step : SnStep) : Server :=
  if s.stuck then s
  else match step with
    | .request (some pcSock) phoneSock draws sendOk => requestForwardInfo s pcSock phoneSock draws sendOk
    | .request none _ _ _ => s
    | .otherUdp => s
    | .accept fd => if fd ∈ s.opened then s else { s with socketMask := fd :: s.socketMask, opened := fd :: s.opened }
    | .tcp fd mesg => if fd ∈ s.socketMask then processTcpMesg s fd mesg else s
    | .done now => clearTimeoutFwdServer { s with clock := now } now

end Codec.Sn
