import Codec.Ems.Hash
import Codec.Fw.Payload

set_option autoImplicit false

namespace Codec.Fw

open Codec.Ems

-- Who asked: a client by its address and port, or the proxy itself.
inductive Asker where
  | client (addr : Addr) (port : UInt16)
  | self
  deriving DecidableEq, Repr

-- A payload that went upstream and who it came from.
structure Query where
  origin : Asker
  data : List UInt8
  deriving DecidableEq, Repr

structure Answer where
  query : Query
  reply : List UInt8
  deriving DecidableEq, Repr

-- dns_user. `id` is the pointer, `key` the one of h_msg. `origin` and `answer`
-- are no fields of the source: they say where the bytes in `data` come from.
structure DnsUser where
  id : Nat
  key : UInt16
  querySelf : Bool
  addr : Addr
  port : UInt16
  data : List UInt8
  timer : Option Nat
  origin : Asker
  answer : Option Answer
  deriving DecidableEq, Repr

def DnsUser.asker (user : DnsUser) : Asker := if user.querySelf then .self else .client user.addr user.port

-- dns_url. `id` is the pointer; addr is NULL exactly when it is empty here.
structure DnsUrl where
  id : Nat
  url : Str
  addr : List Addr
  mask : Int
  ipaddress : Bool
  expired : Bool
  subdomain : Bool
  blacklist : Bool
  deriving DecidableEq, Repr

-- One rule of POST_BLACKLIST or POST_WHITELIST, as block says.
structure Rule where
  block : Bool
  addr : Addr
  mask : Int
  name : Str
  deriving DecidableEq, Repr

-- A session: the memory of buf_in, the events it is registered for, the port.
structure Session where
  mem : List UInt8
  read : Bool
  write : Bool
  port : Nat
  deriving DecidableEq, Repr

-- A datagram that left towards a client, with the reply it was made from.
structure Sent where
  addr : Addr
  port : UInt16
  data : List UInt8
  answer : Option Answer
  deriving DecidableEq, Repr

inductive Fault where
  -- sess_event_set or sess_event_cancel on a NULL session
  | nullSess
  -- a reply that leads the parser out of its buffers
  | wild
  deriving DecidableEq, Repr

-- ems_fw with the FLG_RUN of its module. The queues hold pointers, the hash
-- tables key and pointer. `upstream` and `sent` log what the sockets took.
structure EmsFw where
  run : Bool
  whitelist : List DnsUrl
  nSubdomain : Nat
  subdomain : List DnsUrl
  sessBind : Option Session
  sessDns : Option Session
  hashMsg : List (UInt16 × Nat)
  hashUrl : List (Str × Nat)
  users : List DnsUser
  fwd : List Nat
  wait : List Nat
  out : List Nat
  nextUser : Nat
  nextUrl : Nat
  rules : List Rule
  upstream : List Query
  sent : List Sent
  fault : Option Fault
  deriving DecidableEq, Repr

def maxSubDomain : Nat := 300
def bufSize : Nat := 1024
def fwdTimeout : Nat := 6000

namespace EmsFw

def init : EmsFw where
  run := false
  whitelist := []
  nSubdomain := 0
  subdomain := []
  sessBind := none
  sessDns := none
  hashMsg := []
  hashUrl := []
  users := []
  fwd := []
  wait := []
  out := []
  nextUser := 0
  nextUrl := 0
  rules := []
  upstream := []
  sent := []
  fault := none

variable (fw : EmsFw)

def crash (why : Fault) : EmsFw := { fw with fault := some why }

def andThen (next : EmsFw → EmsFw) : EmsFw := if fw.fault = none then next fw else fw

def user? (id : Nat) : Option DnsUser := fw.users.find? (·.id = id)

def editUser (id : Nat) (change : DnsUser → DnsUser) : EmsFw :=
  { fw with users := fw.users.map fun user => if user.id = id then change user else user }

-- ems_queue_remove on the entry of a user, whichever queue it is in.
def dequeue (id : Nat) : EmsFw := { fw with fwd := fw.fwd.erase id, wait := fw.wait.erase id, out := fw.out.erase id }

def cancel (id : Nat) : EmsFw := fw.editUser id fun user => { user with timer := none }

def unhash (id : Nat) : EmsFw := { fw with hashMsg := hashRemove fw.hashMsg id }

def freeUser (id : Nat) : EmsFw := { fw with users := fw.users.filter (·.id ≠ id) }

def urls : List DnsUrl := fw.whitelist ++ fw.subdomain

def url? (id : Nat) : Option DnsUrl := fw.urls.find? (·.id = id)

def editUrl (id : Nat) (change : DnsUrl → DnsUrl) : EmsFw :=
  { fw with
    whitelist := fw.whitelist.map fun url => if url.id = id then change url else url
    subdomain := fw.subdomain.map fun url => if url.id = id then change url else url }

end EmsFw

def dnsFindUser (fw : EmsFw) (key : UInt16) : Option DnsUser := (hashFind fw.hashMsg key).bind fw.user?

def dnsFindUrl (fw : EmsFw) (key : Str) : Option DnsUrl := (hashFind fw.hashUrl key).bind fw.url?

-- The events of either socket are recomputed from the queues.
def fwDnsClientSetRead (fw : EmsFw) (rd : Bool) : EmsFw :=
  match fw.sessDns with
  | none => fw.crash .nullSess
  | some sess => { fw with sessDns := some { sess with read := rd, write := !fw.fwd.isEmpty } }

def fwDnsClientSetWrite (fw : EmsFw) (wr : Bool) : EmsFw :=
  match fw.sessDns with
  | none => fw.crash .nullSess
  | some sess => { fw with sessDns := some { sess with read := !fw.wait.isEmpty, write := wr } }

def fwDnsServerSetWrite (fw : EmsFw) (wr : Bool) : EmsFw :=
  match fw.sessBind with
  | none => fw.crash .nullSess
  | some sess => { fw with sessBind := some { sess with read := true, write := wr } }

def fwDnsPushFwd (fw : EmsFw) (user : DnsUser) : EmsFw :=
  { fw with
    fwd := fw.fwd ++ [user.id]
    hashMsg := hashInsert fw.hashMsg user.key user.id }.editUser user.id fun user => { user with timer := some fwdTimeout }

def addUser (fw : EmsFw) (user : DnsUser) : EmsFw := { fw with users := fw.users ++ [user], nextUser := fw.nextUser + 1 }

def fwDnsCreateUser (fw : EmsFw) (url : Str) (id : UInt16) : EmsFw :=
  let user : DnsUser :=
    { id := fw.nextUser
      key := id
      querySelf := true
      addr := 0x7f000001
      port := 0
      data := (selfQuery url id).take bufSize
      timer := none
      origin := .self
      answer := none }
  fwDnsPushFwd (addUser fw user) user

end Codec.Fw
