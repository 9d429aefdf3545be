import Codec.Portal.Grouping

set_option autoImplicit false

namespace Codec.Portal

open Codec.Ems

inductive Status where
  | stopped | start | reg | normal | hb | err
  deriving DecidableEq, Repr

inductive UserStatus where
  | normal | reqChallenge | ackChallenge | reqAuth | ackAuth | reqLogout | ackLogout | affAckAuth | ntfLogout
  deriving DecidableEq, Repr

def errNetwork : Int := 0x3000
def errResponse : Int := 0x3001
def errStopped : Int := 0x3002

def portalRetryTimes : Int := 3
def portalRetryTimeout : Int := 9
def portalErrorTimeout : Int := 30000

-- portal_user. `id` is its address. `granted` is a ghost: the last
-- RADIUS_AUTH_RSP for the current login had error code 0, and neither a
-- logout request nor a logout notification came after it.
structure User where
  id : Nat
  name : Str
  pass : Option Str
  mac : Option Str
  ip : Str
  serial : UInt16
  reqid : UInt16
  authTy : UInt8
  online : Bool
  st : UserStatus
  bufOut : Buffer
  retryTimes : Int
  retryTimeout : Int
  granted : Bool
  deriving DecidableEq, Repr

-- ems_session: `opened` is fd > 0, `timer` the delay of its pending timeout.
structure Session where
  opened : Bool
  bufIn : Buffer
  bufOut : Buffer
  timer : Option Int
  deriving DecidableEq, Repr

-- iface->auth as ptl_start reads it.
structure Iface where
  enable : Bool
  addr : Str
  port : Int
  registerPeriod : Int
  heartbeatPeriod : Int
  deriving DecidableEq, Repr

-- What nic_sendmsg and nic_processmsg carry to the other modules.
inductive Sent where
  | radiusAuth (username userpass userip usermac : Str)
  | radiusLogout (username userip usermac : Str)
  | radiusStop
  | httpStop
  | fwStart
  | fwStop
  | fwAddressAdd (addr : Str)
  | fwAddressDel (addr : Str)
  deriving DecidableEq, Repr

-- The messages sent, and two ghosts: a user that becomes ONLINE, and one that
-- leaves ptl->users.
inductive Entry where
  | sent (msg : Sent)
  | online (id : Nat)
  | removed (user : User)
  deriving DecidableEq, Repr

inductive Fault where
  | badMac | noSession | freedUser | noPeriod | spinning
  deriving DecidableEq, Repr

-- ems_portal with FLG_RUN of its module. `macText` is the static buffer of
-- ptl_evt_req_auth, `timers` are the users whose timeout is pending in the
-- global queue, and `log` has the newest entry first. After a fault nothing
-- happens any more.
structure EmsPortal where
  run : Bool
  iface : Iface
  users : List User
  sess : Option Session
  addr : Str
  port : Int
  regPeriod : Int
  hbPeriod : Int
  reg : Int
  retryTimes : Int
  retryTimeout : Int
  st : Status
  lasterr : Int
  macText : Str
  timers : List Nat
  nextId : Nat
  log : List Entry
  fault : Option Fault
  deriving DecidableEq, Repr

-- What the handlers are told from outside: the firewall module runs, a
-- connect succeeds, what arp says about an ip, and random numbers.
structure Env where
  fwRun : Bool
  connect : Bool
  usermac : Str → Option Str
  reqid : Nat → UInt16
  vector : Nat → List UInt8
  sn : Str

namespace EmsPortal

def emit (ptl : EmsPortal) (msg : Sent) : EmsPortal := { ptl with log := .sent msg :: ptl.log }

def crash (ptl : EmsPortal) (why : Fault) : EmsPortal := { ptl with fault := some why }

def andThen (ptl : EmsPortal) (next : EmsPortal → EmsPortal) : EmsPortal := if ptl.fault = none then next ptl else ptl

def withSess (ptl : EmsPortal) (sess : Session) : EmsPortal := { ptl with sess := some sess }

def edit (ptl : EmsPortal) (id : Nat) (change : User → User) : EmsPortal :=
  { ptl with users := ptl.users.map fun user => if user.id = id then change user else user }

def arm (ptl : EmsPortal) (id : Nat) : EmsPortal := { ptl with timers := id :: ptl.timers.filter (· ≠ id) }

def cancel (ptl : EmsPortal) (id : Nat) : EmsPortal := { ptl with timers := ptl.timers.filter (· ≠ id) }

def remove (ptl : EmsPortal) (id : Nat) : EmsPortal :=
  { ptl with
    users := ptl.users.filter (·.id ≠ id)
    log := (ptl.users.filter (·.id = id)).map .removed ++ ptl.log }

def append (ptl : EmsPortal) (user : User) : EmsPortal := { ptl with users := ptl.users ++ [user], nextId := ptl.nextId + 1 }

end EmsPortal

def ptlUserFind (ptl : EmsPortal) (ip : Str) : Option User := ptl.users.find? (·.ip = ip)

variable (ptl : EmsPortal) (user : User)

def ptlUserNew (id : Nat) (name ip : Str) : User where
  id := id
  name := name
  pass := none
  mac := none
  ip := ip
  serial := 0
  reqid := 0
  authTy := 0
  online := false
  st := .normal
  bufOut := Buffer.init 1024
  retryTimes := 0
  retryTimeout := 0
  granted := false

-- The frame of ptl_evt_ack. Attributes that do not fit are left out, and what
-- does not fit of the header is cut off.
def ackBuf (buf : Buffer) (auth : AuthHdr) (attr : List ValuePair) : Buffer :=
  let head := buf.write { auth with nAttr := UInt8.ofNat attr.length }.val
  match (ptlPackList attr head.left).2 with
  | none => head
  | some packed => head.write packed

def User.resend (frame : List UInt8) : User :=
  { user with
    bufOut := user.bufOut.clear.write frame
    retryTimes := portalRetryTimes
    retryTimeout := portalRetryTimeout }

-- A missing list and an empty one leave the same frame.
def ptlEvtAck (user : Option Nat) (auth : AuthHdr) (attr : List ValuePair) : EmsPortal :=
  match ptl.sess, user with
  | none, none => ptl
  | none, some id => ptl.remove id
  | some sess, none => ptl.withSess { sess with bufOut := ackBuf sess.bufOut auth attr }
  | some sess, some id =>
    ((ptl.withSess { sess with bufOut := ackBuf sess.bufOut auth attr }).edit id fun user =>
      user.resend ((ackBuf sess.bufOut auth attr).content.drop sess.bufOut.len)).arm id

def userHdr (ty err : UInt8) : AuthHdr where
  ver := 1
  ty := ty
  authTy := user.authTy
  rsrv := 0
  serial := htons user.serial
  reqid := htons user.reqid
  ip := inetAddr user.ip 0
  port := 0
  err := err
  nAttr := 0

def tyAckChallenge : UInt8 := 0x02
def tyAckAuth : UInt8 := 0x04
def tyAckLogout : UInt8 := 0x06
def tyNtfLogout : UInt8 := 0x08
def tyAckInfo : UInt8 := 0x0a

def User.offline (st : UserStatus) : User := { user with online := false, st := st, granted := false }

def User.told (err : Int) : User := { user with granted := err = 0 }

def User.deny : User := { user with granted := false }

-- The six bytes of the mac; what ems_str2bin leaves of them is not defined.
def ptlUserNtfLogout : EmsPortal :=
  if user.st = .affAckAuth ∨ user.st = .ackAuth then
    ptlEvtAck (ptl.edit user.id (·.offline .ntfLogout)) (some user.id) (userHdr user tyNtfLogout 0)
      (ptlVpAppend [] .usermac (readBytes (emsStr2bin (user.mac.getD [])) 6) 6)
  else ptl

def User.answered (err : Int) : User := { user with st := .ackAuth, online := user.online || err = 0 }

def EmsPortal.goesOnline : EmsPortal :=
  if user.online then ptl else { ptl with log := .online user.id :: ptl.log }

def ptlUserAuthRsp (err : Int) : EmsPortal :=
  if user.st = .affAckAuth ∨ user.st = .reqAuth then
    let ptl := if err = 0 then ptl.goesOnline user else ptl
    ptlEvtAck (ptl.edit user.id (·.answered err)) (some user.id) (userHdr user tyAckAuth (if err = 0 then 0 else 4)) []
  else ptl

-- nic_sendmsg of EMS_APP_CMD_RADIUS_LOGOUT for a user.
def EmsPortal.sendLogout : EmsPortal :=
  match ptlMacToRadius user.mac with
  | none => ptl.crash .badMac
  | some mac => ptl.emit (.radiusLogout user.name user.ip mac)

-- user_timeout_cb once the retries are used up.
def userGiveUp : EmsPortal :=
  match user.st with
  | .ackAuth =>
    if user.online then (ptl.sendLogout user).andThen fun ptl => ptlUserNtfLogout ptl user
    else ptl.remove user.id
  | .ntfLogout => ptl.remove user.id
  | .ackLogout => ptl.remove user.id
  | .ackChallenge => ptl.remove user.id
  | _ => ptl

def userRetry : EmsPortal :=
  match ptl.sess with
  | none => ptl.crash .noSession
  | some sess => (ptl.withSess { sess with bufOut := sess.bufOut.refresh.write user.bufOut.content }).arm user.id

def userTimeoutCb : EmsPortal :=
  let ptl := ptl.edit user.id fun user => { user with retryTimes := user.retryTimes - 1 }
  if user.retryTimes - 1 > 0 then userRetry ptl user else userGiveUp ptl user

-- ems_timeout_handle: the timeout is taken off the queue before its callback,
-- which reads the user it is embedded in.
def userTimeout (id : Nat) : EmsPortal :=
  if id ∈ ptl.timers then
    match ptl.users.find? (·.id = id) with
    | none => (ptl.cancel id).crash .freedUser
    | some user => userTimeoutCb (ptl.cancel id) user
  else ptl

-- ptl_clear_all_users over the list as it stands at the start.
def ptlClearAllUsers : List User → EmsPortal → EmsPortal
  | [], ptl => ptl
  | user :: rest, ptl =>
    if user.online then (ptl.sendLogout user).andThen fun ptl => ptlClearAllUsers rest (ptl.remove user.id)
    else ptlClearAllUsers rest (ptl.remove user.id)

end Codec.Portal
