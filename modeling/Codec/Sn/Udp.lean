import Codec.Sn.Server

set_option autoImplicit false

namespace Codec.Sn

def n2nSnPktbufSize : Nat := 2048
def registrationTimeout : Nat := 180

def msgP2pGet : Nat := 0x0001
def msgP2pAck : Nat := 0x0002
def msgP2pHolePunch : Nat := 0x0003
def msgP2pHolePunchAck : Nat := 0x0004
def msgP2pRegister : Nat := 0x0005
def shareP2pDevinfo : Nat := 0x4005
def requestForwardInfoCmd : Nat := 0x1502

abbrev Bytes := List UInt8

-- n2n_sock_t of an IPv4 address, the port in host order.
structure NSock where
  ip : Bytes
  port : Nat
deriving DecidableEq

-- struct peer_info; device is the memory of its device_info.
structure Edge where
  community : Bytes
  mac : Bytes
  sock : NSock
  uuid : Bytes
  lastSeen : Nat
  device : Bytes
deriving DecidableEq

structure Stats where
  errors : Nat
  regSuper : Nat
  lastRegSuper : Nat
  fwd : Nat
deriving DecidableEq

structure Udp where
  edges : List Edge
  stats : Stats
  forward : Server

-- An ST_FORWARD_SERVER_INFO as it is sent.
structure FwdReply where
  serverInfo : Option ServerInfo
  ticket : Ticket
  cerror : Nat

inductive Reply
  | bytes (content : Bytes)
  | forward (info : FwdReply)

structure Sent where
  dest : NSock
  reply : Reply

-- What a call of process_udp meets: who sent it, the time, what sendto and the
-- send to a forward server answer, and what rand draws.
structure Rx where
  sender : NSock
  now : Nat
  sendOk : Bool
  tcpOk : Bool
  draws : Draws

section Fields

def slice (buf : Bytes) (start len : Nat) : Bytes := (buf.drop start).take len

def ntohs (bytes : Bytes) : Nat := (bytes.getD 0 0).toNat * 256 + (bytes.getD 1 0).toNat

def htons (value : Nat) : Bytes := [UInt8.ofNat (value / 256), UInt8.ofNat value]

def cString (bytes : Bytes) : Bytes := bytes.takeWhile fun byte => byte ≠ 0

-- strcmp of a text in the buffer with a stored uuid, which ends at the latest
-- in the padding behind its 64 bytes.
def sameUuid (text stored : Bytes) : Bool := cString (text.take 65) = cString (stored.take 64)

def sockNumber (sock : NSock) : Nat := sock.ip.foldl (fun number byte => number * 256 + byte.toNat) 0 * 65536 + sock.port

end Fields

section Edges

-- The first 112 bytes of both register structures.
structure P2pRegister where
  device : Bytes
  id : Bytes
  username : Bytes
deriving DecidableEq

def p2pRegister (buf : Bytes) : P2pRegister := ⟨slice buf 6 48, slice buf 54 32, slice buf 86 32⟩

def publicDevice (device : Bytes) (sock : NSock) : Bytes := device.take 8 ++ sock.ip ++ htons sock.port ++ device.drop 14

def refresh (found : Edge → Bool) (change : Edge → Edge) : List Edge → Option (List Edge)
  | [] => none
  | edge :: rest => if found edge then some (change edge :: rest) else (refresh found change rest).map fun rest => edge :: rest

def updateEdgeUuid (reg : P2pRegister) (uuid : Bytes) (edges : List Edge) (sock : NSock) (now : Nat) : List Edge :=
  match refresh (fun edge => sameUuid uuid edge.uuid)
      (fun edge => { edge with community := reg.username, sock := sock, uuid := uuid.take 64, device := publicDevice reg.device sock, lastSeen := now })
      edges with
  | some edges => edges
  | none => ⟨reg.username, reg.id, sock, uuid.take 64, now, publicDevice reg.device sock⟩ :: edges

def updateEdge (reg : P2pRegister) (edges : List Edge) (sock : NSock) (now : Nat) : List Edge :=
  match refresh (fun edge => edge.mac.take 6 = reg.id.take 6)
      (fun edge => if reg.username ≠ edge.community ∨ sock ≠ edge.sock then
          { edge with community := reg.username, sock := sock, device := publicDevice reg.device sock, lastSeen := now }
        else { edge with lastSeen := now })
      edges with
  | some edges => edges
  | none => ⟨reg.username, reg.id, sock, List.replicate 64 0, now, publicDevice reg.device sock⟩ :: edges

-- The records for a user, until they are more than 1024 bytes.
def processP2pAck (username : Bytes) : Nat → List Edge → Bytes
  | _, [] => []
  | offset, edge :: rest =>
    if username = edge.community then
      if offset + 48 > 1024 then edge.device else edge.device ++ processP2pAck username (offset + 48) rest
    else processP2pAck username offset rest

def processShareP2pAck (uuid : Bytes) (edges : List Edge) : Bytes :=
  match edges.find? fun edge => uuid = edge.uuid with
  | some edge => edge.device
  | none => []

-- purge_peer_list behind its clock, the static last_purge.
def purgeExpiredRegistrations (lastPurge now : Nat) (edges : List Edge) : Nat × List Edge :=
  if now < lastPurge + purgeRegistrationFrequency then (lastPurge, edges)
  else (now, edges.filter fun edge => ¬ edge.lastSeen + registrationTimeout < now)

end Edges

section Forward

-- ST_FORWARD_SERVER_INFO as ChoseForwardServer leaves it on its way to an error.
def triedServer (s : Server) : Option ServerInfo :=
  match fewest s.mapTicketInfo with
  | some (forwardsock, _) =>
    if forwardsock = 0 then s.mapForwardInfo.head?.map fun entry => entry.2.serverInfo
    else (s.mapForwardInfo.lookup forwardsock).map fun info => info.serverInfo
  | none => s.mapForwardInfo.head?.map fun entry => entry.2.serverInfo

def refusal (s : Server) (ticket : Ticket) : FwdReply :=
  match triedServer s with
  | some info => ⟨some info, ticket, 1⟩
  | none => ⟨none, [], 1⟩

def noPeer : FwdReply := ⟨none, [], '%'.toNat⟩

end Forward

section ProcessUdp

variable (s : Udp) (rx : Rx)

def countSent (stats : Stats) : Stats := if rx.sendOk then { stats with fwd := stats.fwd + 1 } else { stats with errors := stats.errors + 1 }

def registered (edges : List Edge) : Udp :=
  { s with edges := edges, stats := { s.stats with lastRegSuper := rx.now, regSuper := s.stats.regSuper + 1 } }

def respond (head : Nat) (records : Bytes) : Bytes :=
  htons (records.length + 12) ++ htons 1 ++ htons head ++ rx.sender.ip ++ htons rx.sender.port ++ records

def processRegister (buf : Bytes) (udpSize : Nat) : Udp :=
  if udpSize = 6 + 144 then registered s rx (updateEdge (p2pRegister buf) s.edges rx.sender rx.now)
  else registered s rx (updateEdgeUuid (p2pRegister buf) (buf.drop 118) s.edges rx.sender rx.now)

-- Without a device the head of the datagram is sent back, its fields set.
def processGet (buf : Bytes) : Udp × List Sent :=
  let records := processP2pAck (slice buf 6 32) 0 s.edges
  if records = [] then
    (s, [⟨rx.sender, .bytes (htons 6 ++ htons 1 ++ htons msgP2pAck ++ rx.sender.ip ++ htons rx.sender.port)⟩])
  else ({ s with stats := countSent rx s.stats }, [⟨rx.sender, .bytes (respond rx msgP2pAck records)⟩])

-- p2p_hole_punch and p2p_hole_ack have these fields in one place.
def processHole (buf : Bytes) (udpSize : Nat) : Udp × List Sent :=
  ({ s with stats := countSent rx s.stats },
    [⟨⟨slice buf 14 4, ntohs (slice buf 18 2)⟩, .bytes ((buf.take 6 ++ [1, 0] ++ buf.drop 8).take udpSize)⟩])

def processShare (buf : Bytes) : Udp × List Sent :=
  let records := processShareP2pAck (slice buf 6 64) s.edges
  if records = [] then (s, [])
  else ({ s with stats := countSent rx s.stats }, [⟨rx.sender, .bytes (respond rx shareP2pDevinfo records)⟩])

def processRequest (buf : Bytes) : Udp × List Sent :=
  match s.edges.find? fun edge => sameUuid (buf.drop 6) edge.uuid with
  | none => ({ s with stats := countSent rx s.stats }, [⟨rx.sender, .forward noPeer⟩])
  | some peer =>
    let pcSock : NSock := ⟨slice peer.device 8 4, ntohs (slice peer.device 12 2)⟩
    let forward := requestForwardInfo s.forward (sockNumber pcSock) (sockNumber rx.sender) rx.draws rx.tcpOk
    if forward.stuck then ({ s with forward := forward }, [])
    else match choseForwardServer s.forward rx.tcpOk with
      | some _ => ({ s with forward := forward }, [])
      | none =>
        ({ s with forward := forward, stats := countSent rx s.stats },
          [⟨rx.sender, .forward (refusal s.forward rx.draws.ticket)⟩])

def processUdp (buf : Bytes) (udpSize : Nat) : Udp × List Sent :=
  if ntohs (slice buf 0 2) ≠ udpSize then (s, [])
  else
    let msgType := ntohs (slice buf 4 2)
    if msgType = msgP2pRegister then (processRegister s rx buf udpSize, [])
    else if msgType = msgP2pGet then processGet s rx buf
    else if msgType = msgP2pHolePunch then processHole s rx buf udpSize
    else if msgType = msgP2pHolePunchAck then processHole s rx buf udpSize
    else if msgType = shareP2pDevinfo then processShare s rx buf
    else if msgType = requestForwardInfoCmd then processRequest s rx buf
    else (s, [])

end ProcessUdp

end Codec.Sn
