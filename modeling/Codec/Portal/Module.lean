import Codec.Portal.Requests

set_option autoImplicit false

namespace Codec.Portal

open Codec.Ems Codec.Lib

variable (env : Env) (ptl : EmsPortal)

def EmsPortal.editSess (change : Session → Session) : EmsPortal := { ptl with sess := ptl.sess.map change }

def portalErr : EmsPortal :=
  (ptl.emit .fwStop).editSess fun sess => { sess with opened := false, timer := some portalErrorTimeout }

def intoErr (lasterr : Int) : EmsPortal := portalErr { ptl with st := .err, lasterr := lasterr }

-- portal_fill_reg_info and portal_fill_hb_info.
def portalFillInfo (pkgtype : UInt32) (sn : Str) (buf : Buffer) : Buffer :=
  let list := ptlVpAppend [] .pkgtype (store32 pkgtype) (-1)
  let list := ptlVpAppend list .authtype [80, 65, 80] (-1)
  let list := ptlVpAppend list .nasname sn (-1)
  match (ptlPackList list buf.left).2 with
  | none => buf
  | some packed => buf.write packed

def EmsPortal.asks (st : Status) (pkgtype : UInt32) (sn : Str) : EmsPortal :=
  { ptl with
    st := st
    retryTimes := portalRetryTimes
    retryTimeout := portalRetryTimeout
    lasterr := 0 }.editSess fun sess =>
      { sess with
        bufOut := portalFillInfo pkgtype sn sess.bufOut.refresh
        timer := some (portalRetryTimeout * 1000) }

-- ptl_status_into_reg, ptl_status_into_normal and ptl_status_into_hb. The C
-- operators truncate towards zero.
def statusIntoReg : EmsPortal :=
  if ptl.hbPeriod = 0 then ptl.crash .noPeriod
  else { ptl.asks .reg 2 env.sn with reg := ptl.regPeriod.tdiv ptl.hbPeriod }

def statusIntoNormal : EmsPortal :=
  let ptl := { ptl with st := .normal }
  if ptl.reg > 0 then ptl.editSess fun sess => { sess with timer := some (ptl.hbPeriod * 1000) }
  else if ptl.hbPeriod = 0 then ptl.crash .noPeriod
  else
    let rest := ptl.regPeriod.tmod ptl.hbPeriod
    ptl.editSess fun sess => { sess with timer := some ((if rest ≤ 0 then ptl.hbPeriod else rest) * 1000) }

def statusIntoHb : EmsPortal := ptl.asks .hb 1 env.sn

def sessNew : Session := ⟨false, sessBuf, sessBuf, none⟩

-- portal_start, and whether it returns EMS_OK.
def portalStart : Bool × EmsPortal :=
  let ptl := { ptl with st := .start, lasterr := 0, sess := some (ptl.sess.getD sessNew) }
  if env.connect then (true, statusIntoReg env (ptl.editSess fun sess => { sess with opened := true }))
  else (false, intoErr ptl errNetwork)

def portalStopped : EmsPortal :=
  let ptl := { ptl with st := .stopped, sess := none, lasterr := errStopped }
  let ptl := if env.fwRun then ptl.emit .fwStop else ptl
  ptlClearAllUsers ptl.users ptl

-- ptl_reg_rsp and ptl_hb_rsp; ptl_normal_rsp does nothing.
def ptlRegRsp (list : List ValuePair) : EmsPortal :=
  if ptlVpText list .response = some [114, 101, 103, 105, 115, 116, 101, 114] then
    statusIntoNormal (if env.fwRun then ptl else (ptl.emit .fwStart).emit (.fwAddressAdd ptl.addr))
  else intoErr ptl errResponse

def ptlHbRsp (list : List ValuePair) : EmsPortal :=
  if ptlVpText list .response = some [97, 99, 116, 105, 118, 101] then statusIntoNormal ptl
  else intoErr ptl errResponse

-- The callback that portal_reg, portal_normal and portal_hb pass down. It
-- stays the same for a whole READ event.
inductive RecvCb where
  | reg | normal | hb
  deriving DecidableEq, Repr

def recvCb (st : Status) : Option RecvCb :=
  match st with
  | .reg => some .reg
  | .normal => some .normal
  | .hb => some .hb
  | _ => none

def ptlHandle (cb : RecvCb) (ptl : EmsPortal) (msg : Msg) : EmsPortal :=
  ptl.andThen fun ptl => match msg, cb with
    | .event auth attr, _ => ptlProcessEvt env ptl auth attr
    | .reply list, .reg => ptlRegRsp env ptl list
    | .reply _, .normal => ptl
    | .reply list, .hb => ptlHbRsp ptl list

def EmsPortal.isOpen : Bool := ptl.sess.elim false Session.opened

def EmsPortal.setSocket (opened : Bool) (bufIn : Buffer) : EmsPortal :=
  ptl.andThen fun ptl => ptl.editSess fun sess => { sess with opened := opened, bufIn := bufIn }

def EmsPortal.close : EmsPortal := ptl.sess.elim ptl fun sess => ptl.setSocket false sess.bufIn

-- ptl_recv_msg on the session; no handler looks at buf_in.
def ptlReceive (cb : RecvCb) (ptl : EmsPortal) (sess : Session) (stream : List Recv) : EmsPortal :=
  let res := ptlRecvMsg EmsPortal.isOpen EmsPortal.close (ptlHandle env cb) ⟨ptl, sess.bufIn, [], []⟩ stream
  (res.2.app.setSocket res.2.app.isOpen res.2.bufIn).andThen fun ptl => match res.1 with
    | .ok => ptl
    | .err => intoErr ptl errNetwork
    | .spin => ptl.crash .spinning

-- ptl_send_msg: an empty buffer counts as an error.
def ptlSendMsg (sess : Session) (result : Send) : EmsPortal :=
  if sess.opened ∧ sess.bufOut.len > 0 then
    match result with
    | .sent => ptl.withSess { sess with bufOut := (sess.bufOut.seekRd sess.bufOut.len .cur).getD sess.bufOut }
    | .again => ptl
    | .failed => intoErr (ptl.withSess { sess with opened := false }) errNetwork
  else intoErr ptl errNetwork

def portalRetrySend : EmsPortal :=
  let ptl := { ptl with retryTimes := ptl.retryTimes - 1 }
  if ptl.retryTimes ≠ 0 then
    ptl.editSess fun sess =>
      { sess with bufOut := (sess.bufOut.seekRd 0 .set).getD sess.bufOut, timer := some (ptl.retryTimeout * 1000) }
  else intoErr ptl errNetwork

def portalToNormal : EmsPortal :=
  let ptl := { ptl with reg := ptl.reg - 1 }
  if ptl.reg > 0 then statusIntoHb env ptl else statusIntoReg env ptl

-- ptl_timeout_cb; nothing is armed in st_start and st_stopped.
def ptlTimeoutCb : EmsPortal :=
  match ptl.st with
  | .reg => portalRetrySend ptl
  | .normal => portalToNormal env ptl
  | .hb => portalRetrySend ptl
  | .err => (portalStart env ptl).2
  | .start => ptl
  | .stopped => ptl

def ptlStart : Bool × EmsPortal :=
  if ptl.iface.enable then
    portalStart env { ptl with
      addr := ptl.iface.addr
      port := ptl.iface.port
      regPeriod := ptl.iface.registerPeriod
      hbPeriod := ptl.iface.heartbeatPeriod }
  else (false, ((ptl.emit .fwStop).emit .radiusStop).emit .httpStop)

def ptlStop : EmsPortal := portalStopped env (ptl.emit (.fwAddressDel ptl.addr))

def portalRun (run : Bool) : EmsPortal :=
  if run then
    if ptl.run then ptl else { (ptlStart env ptl).2 with run := (ptlStart env ptl).1 }
  else if ptl.run then (ptlStop env ptl).andThen fun ptl => { ptl with run := false }
  else ptl

def EmsPortal.configured : Bool :=
  ptl.iface.addr = ptl.addr ∧ ptl.iface.port = ptl.port ∧ ptl.iface.registerPeriod = ptl.regPeriod ∧
    ptl.iface.heartbeatPeriod = ptl.hbPeriod

def portalRulesUpdate : EmsPortal :=
  if ptl.run ∧ ¬ptl.configured then (ptlStop env ptl).andThen fun ptl => (ptlStart env ptl).2 else ptl

-- portal_app_auth_rsp; a missing error_code is zero.
def portalAppAuthRsp (userip : Option Str) (errorCode : Option Int) : EmsPortal :=
  match userip.bind (ptlUserFind ptl) with
  | none => ptl
  | some user =>
    let err := errorCode.getD 0
    ptlUserAuthRsp (ptl.edit user.id fun user => user.told err) user err

def portalAppLogout (userip : Option Str) : EmsPortal :=
  match userip.bind (ptlUserFind ptl) with
  | none => ptl
  | some user => (ptlUserNtfLogout ptl user).edit user.id User.deny

-- What reaches the module besides the bytes of the portal server.
inductive Act where
  | start (env : Env)
  | stop (env : Env)
  | rulesUpdate (env : Env)
  | configure (iface : Iface)
  | fwReload
  | authRsp (userip : Option Str) (errorCode : Option Int)
  | portalLogout (userip : Option Str)
  | userTimeout (id : Nat)
  | sessTimeout (env : Env)
  | send (result : Send)
  | sockError

def EmsPortal.busy : Bool := ptl.sess.isSome ∧ (recvCb ptl.st).isSome

def act (what : Act) : EmsPortal :=
  match what with
  | .start env => portalRun env ptl true
  | .stop env => portalRun env ptl false
  | .rulesUpdate env => portalRulesUpdate env ptl
  | .configure iface => { ptl with iface := iface }
  | .fwReload => if ptl.run then ptl.emit (.fwAddressAdd ptl.addr) else ptl
  | .authRsp userip errorCode => portalAppAuthRsp ptl userip errorCode
  | .portalLogout userip => portalAppLogout ptl userip
  | .userTimeout id => userTimeout ptl id
  | .sessTimeout env => if ptl.sess.isSome then ptlTimeoutCb env ptl else ptl
  | .send result => if ptl.busy then ptl.sess.elim ptl fun sess => ptlSendMsg ptl sess result else ptl
  | .sockError => if ptl.busy then intoErr ptl errNetwork else ptl

inductive Event where
  | readable (env : Env) (stream : List Recv)
  | act (what : Act)

-- The module as the process runs it: one event of the loop after the other.
def step (event : Event) : EmsPortal :=
  ptl.andThen fun ptl => match event with
    | .readable env stream =>
      match ptl.sess, recvCb ptl.st with
      | some sess, some cb => ptlReceive env cb ptl sess stream
      | _, _ => ptl
    | .act what => act ptl what

def EmsPortal.init (iface : Iface) : EmsPortal where
  run := false
  iface := iface
  users := []
  sess := none
  addr := []
  port := 0
  regPeriod := 0
  hbPeriod := 0
  reg := 0
  retryTimes := 0
  retryTimeout := 0
  st := .stopped
  lasterr := 0
  macText := []
  timers := []
  nextId := 0
  log := []
  fault := none

-- The module with its messages already framed: any message may come in at any
-- time, with any callback in force, and the socket may do what it likes.
inductive Move where
  | message (env : Env) (cb : RecvCb) (msg : Msg)
  | socket (opened : Bool) (bufIn : Buffer)
  | fail
  | hang
  | act (what : Act)

def move (m : Move) : EmsPortal :=
  ptl.andThen fun ptl => match m with
    | .message env cb msg => if ptl.sess.isSome then ptlHandle env cb ptl msg else ptl
    | .socket opened bufIn => ptl.setSocket opened bufIn
    | .fail => intoErr ptl errNetwork
    | .hang => ptl.crash .spinning
    | .act what => act ptl what

theorem and_then_none (next : EmsPortal → EmsPortal) (alive : ptl.fault = none) :
    ptl.andThen next = next ptl := if_pos alive

theorem and_then_some (next : EmsPortal → EmsPortal) (dead : ptl.fault ≠ none) :
    ptl.andThen next = ptl := if_neg dead

theorem move_dead (m : Move) (dead : ptl.fault ≠ none) : move ptl m = ptl := and_then_some ptl _ dead

def sampleIface : Iface := ⟨true, [49], 2000, 60, 20⟩

def sampleEnv : Env where
  fwRun := true
  connect := true
  usermac := fun _ => some [48, 48]
  reqid := fun _ => 7
  vector := fun _ => []
  sn := [115]

def sampleHdr (ty : UInt8) : AuthHdr where
  ver := 1
  ty := ty
  authTy := 1
  rsrv := 0
  serial := 5
  reqid := 6
  ip := [10, 0, 0, 9]
  port := 0
  err := 0
  nAttr := 2

def sampleMsg (ty : UInt8) : Move :=
  .message sampleEnv .normal
    (.event (sampleHdr ty) (ptlVpAppend (ptlVpAppend [] .username [117] (-1)) .password [112] (-1)))

def sampleIp : Str := inetNtoa [10, 0, 0, 9]

def sampleAnswer (err : Int) : Move := .act (.authRsp (some sampleIp) (some err))

def requestMoves : List Move := [.act (.start sampleEnv), sampleMsg tyReqAuth]

def loginMoves : List Move := requestMoves ++ [sampleAnswer 0, sampleMsg tyAffAckAuth]

def logoutMoves : List Move := loginMoves ++ [.act (.stop sampleEnv)]

example : (run move (EmsPortal.init sampleIface) loginMoves).users.map User.online = [true] := by decide +kernel

end Codec.Portal
