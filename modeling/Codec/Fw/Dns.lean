import Codec.Fw.Urls

set_option autoImplicit false

namespace Codec.Fw

open Codec.Ems

variable (fw : EmsFw)

-- One datagram of the loop in fw_dns_request. The id is read from memory, so
-- a datagram of one byte takes half of it from an older one.
def fwDnsFwd (id : UInt16) (addr : Addr) (port : UInt16) (data : List UInt8) : EmsFw :=
  match dnsFindUser fw id with
  | some user =>
    let fw := (fw.dequeue user.id).editUser user.id fun user =>
      { user with data := data, timer := none, origin := .client addr port }
    fwDnsClientSetWrite (fwDnsPushFwd fw user) true
  | none =>
    let user : DnsUser :=
      { id := fw.nextUser
        key := id
        querySelf := false
        addr := addr
        port := port
        data := data
        timer := none
        origin := .client addr port
        answer := none }
    fwDnsClientSetWrite (fwDnsPushFwd (addUser fw user) user) true

-- buf_in after a receive: what the datagram is too short for stays there.
def Session.receive (sess : Session) (datagram : List UInt8) : List UInt8 := overwrite sess.mem 0 (datagram.take bufSize)

-- recvfrom cuts a datagram at the room of buf_in and ends the loop on an
-- empty one.
def fwDnsRequest (addr : Addr) (port : UInt16) (datagram : List UInt8) : EmsFw :=
  match fw.sessBind with
  | none => fw
  | some sess =>
    let mem := sess.receive datagram
    if datagram = [] then fw
    else
      let fw := { fw with sessBind := some { sess with mem := mem } }
      fwDnsFwd fw (dnsId mem) addr port (datagram.take bufSize)

def deliver (id : Nat) : EmsFw :=
  match fw.user? id with
  | none => fw
  | some user =>
    let msg : Sent := ⟨user.addr, user.port, user.data, user.answer⟩
    ({ fw with sent := fw.sent ++ [msg] }.dequeue id).freeUser id

def fwDnsResponse (sends : Nat) : EmsFw :=
  let fw := (fw.out.take sends).foldl deliver fw
  if fw.out.isEmpty then fwDnsServerSetWrite fw false else fw

-- fw_dns_fwd_filter on the reply in memory: the query leaves the pending ones
-- with the bytes that fit into its buffer, the addresses of the reply go to
-- the urls, and the asker gets the reply unless it was the proxy itself.
def EmsFw.takeReply (id : Nat) (data : List UInt8) (answer : Option Answer) : EmsFw :=
  (((fw.dequeue id).cancel id).unhash id).editUser id fun user => { user with data := data, answer := answer }

def filterReply (enable : Bool) (mem : List UInt8) (querySelf : Bool) (fw : EmsFw) : EmsFw :=
  if dnsRcode mem = 0 ∧ qdcount mem > 0 ∧ ancount mem > 0 then fwDnsParseAndFilter enable mem querySelf fw else fw

def EmsFw.giveBack (user : DnsUser) : EmsFw :=
  if user.querySelf then fw.freeUser user.id
  else fwDnsServerSetWrite { fw with out := fw.out ++ [user.id] } true

def fwDnsFwdFilter (enable : Bool) (fw : EmsFw) (mem data : List UInt8) (answer : Option Answer) : EmsFw :=
  match dnsFindUser fw (dnsId mem) with
  | none => fw
  | some user => (filterReply enable mem user.querySelf (fw.takeReply user.id data answer)).andThen fun fw => fw.giveBack user

def EmsFw.answerTo (query : Nat) (datagram : List UInt8) : Option Answer :=
  fw.upstream[query]?.map fun asked => ⟨asked, datagram⟩

-- One datagram of the loop in fw_dns_fwd_rsp, the reply to one of the queries
-- that went upstream.
def fwDnsFwdRsp (enable : Bool) (fw : EmsFw) (query : Nat) (datagram : List UInt8) : EmsFw :=
  match fw.sessDns with
  | none => fw
  | some sess =>
    let mem := sess.receive datagram
    if datagram = [] then fw
    else
      let fw := { fw with sessDns := some { sess with mem := mem } }
      fwDnsFwdFilter enable fw mem (datagram.take bufSize) (fw.answerTo query datagram)

def forward (id : Nat) : EmsFw :=
  match fw.user? id with
  | none => fw
  | some user =>
    let query : Query := ⟨user.origin, user.data⟩
    let fw := { fw with upstream := fw.upstream ++ [query] }
    let fw := (fw.editUser id fun user => { user with data := [] }).dequeue id
    { fw with wait := fw.wait ++ [id] }

-- fw_dns_fwd_req when send takes that many datagrams.
def fwDnsFwdReq (sends : Nat) : EmsFw :=
  let fw := (fw.fwd.take sends).foldl forward fw
  let fw := if fw.wait.isEmpty then fw else fwDnsClientSetRead fw true
  fw.andThen fun fw => if fw.fwd.isEmpty then fwDnsClientSetWrite fw false else fw

def dnsFwdTimeout (id : Nat) : EmsFw :=
  match fw.user? id with
  | none => fw
  | some user => if user.timer = none then fw else (((fw.cancel id).dequeue id).unhash id).freeUser id

def sessNew (port : Nat) : Session := ⟨List.replicate bufSize 0, true, false, port⟩

-- fw_dns_be_server and fw_dns_be_client; the argument is the port of 9300 to
-- 9320 that could be bound, and whether connect went well.
def fwDnsBeServer (bind : Option Nat) : EmsFw :=
  { fw with sessBind := bind.map fun port => { fw.sessBind.getD (sessNew port) with read := true, write := false, port := port } }

def fwDnsBeClient (connect : Bool) : EmsFw :=
  { fw with
    sessDns := if connect then some { fw.sessDns.getD (sessNew 53) with read := true, write := false } else none }

def fwDnsServerStop : EmsFw := { fw with sessBind := none }
def fwDnsClientStop : EmsFw := { fw with sessDns := none }

-- fw_stop with the -F of fw_uninit_chains.
def fwStop : EmsFw :=
  { fwWhitelistClear (fwDnsClientStop (fwDnsServerStop fw)) with
    hashMsg := []
    users := []
    fwd := []
    wait := []
    out := []
    rules := [] }

-- What can happen to the module: its messages, the events of its two sockets
-- and its timers. A callback for READ and WRITE, or a loop over several
-- datagrams, is a run of these with nothing in between.
inductive Event where
  | start (bind : Option Nat) (connect : Bool)
  | stop
  -- EMS_APP_SERVER_RULES_UPDATE and the part of EMS_APP_EVT_FW_RELOAD that is
  -- about urls
  | flush (lists : Bwlist) (id : UInt16)
  | addressAdd (names : List Str)
  | addressDel (names : List Str)
  | checkUrlWhitelist (addr : Str) (id : UInt16)
  | checkSubdomain (enable : Bool) (url : Str) (id : UInt16)
  | request (addr : Addr) (port : UInt16) (datagram : List UInt8)
  | response (sends : Nat)
  | serverErr (bind : Option Nat)
  | reply (enable : Bool) (query : Nat) (datagram : List UInt8)
  | send (sends : Nat)
  | clientErr (connect : Bool)
  | timeout (user : Nat)
  | schedule (id : UInt16)
  deriving DecidableEq, Repr

-- What the handlers do while the process is alive. A socket without a session
-- has no events; the timer of dns_schedule_timeout_cb is sess_bind's.
def handle : Event → EmsFw
  | .start bind connect =>
    if fw.run then fw else fwDnsBeClient (fwDnsBeServer { fw with run := true } bind) connect
  | .stop => if fw.run then fwStop { fw with run := false } else fw
  | .flush lists id => if fw.run then fwFlushWhiltelist fw lists id else fw
  | .addressAdd names => if fw.run then fwAppendUrls fw names false else fw
  | .addressDel names => if fw.run then fwRemoveUrls fw names else fw
  | .checkUrlWhitelist addr id => if fw.run ∧ addr ≠ [] then fwUrlWhitelistInsert fw addr id else fw
  | .checkSubdomain enable url id => if fw.run ∧ url ≠ [] then fwUrlInWhitelist enable fw url id else fw
  | .request addr port datagram => fwDnsRequest fw addr port datagram
  | .response sends => if fw.sessBind.isSome then fwDnsResponse fw sends else fw
  | .serverErr bind => if fw.sessBind.isSome then fwDnsBeServer (fwDnsServerStop fw) bind else fw
  | .reply enable query datagram => fwDnsFwdRsp enable fw query datagram
  | .send sends => if fw.sessDns.isSome then fwDnsFwdReq fw sends else fw
  | .clientErr connect => if fw.sessDns.isSome then fwDnsBeClient (fwDnsClientStop fw) connect else fw
  | .timeout user => dnsFwdTimeout fw user
  | .schedule id => if fw.sessBind.isSome then fwDnsQueryTriger fw id else fw

def step (event : Event) : EmsFw := fw.andThen (handle · event)

end Codec.Fw
