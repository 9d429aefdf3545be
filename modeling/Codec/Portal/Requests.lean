import Codec.Portal.User

set_option autoImplicit false

namespace Codec.Portal

open Codec.Ems

variable (env : Env) (ptl : EmsPortal) (user : User) (auth : AuthHdr) (attr : List ValuePair)

def tyReqChallenge : UInt8 := 0x01
def tyReqAuth : UInt8 := 0x03
def tyReqLogout : UInt8 := 0x05
def tyAffAckAuth : UInt8 := 0x07
def tyReqInfo : UInt8 := 0x09

def AuthHdr.answer (ty err : UInt8) : AuthHdr :=
  { auth with serial := htons auth.serial, reqid := htons auth.reqid, ty := ty, err := err }

-- err_out_1 and err_out of ptl_evt_req_auth.
def reqAuthRefuse (err : UInt8) : EmsPortal :=
  ptlEvtAck ptl none (auth.answer tyAckAuth err) []

def User.await (st : UserStatus) : User := { user with st := st }

def reqAuthFail (id : Nat) (auth : AuthHdr) : EmsPortal :=
  ptlEvtAck (ptl.edit id (·.await .ackAuth)) (some id) (auth.answer tyAckAuth 1) []

def User.login : User :=
  { user with
    online := false
    st := .reqAuth
    serial := auth.serial
    reqid := auth.reqid
    authTy := auth.authTy
    granted := false }

def reqAuthPass : Option Str :=
  if auth.authTy = 0 then ptlVpText attr .chappass
  else if auth.authTy = 1 then ptlVpText attr .password
  else none

def reqAuthSend (pass mac : Str) : EmsPortal :=
  let ptl := { ptl with macText := mac }.edit user.id fun user => { user with pass := some pass, mac := some mac }
  match ptlMacToRadius (some mac) with
  | none => ptl.crash .badMac
  | some usermac => ptl.emit (.radiusAuth user.name pass user.ip usermac)

def reqAuthUser : EmsPortal :=
  let ptl := ptl.edit user.id (·.login auth)
  match reqAuthPass auth attr with
  | none => reqAuthFail ptl user.id auth
  | some pass =>
    match (ptlVpFind attr .usermac).bind ValuePair.val with
    | some val => reqAuthSend ptl user pass (emsBin2str val ptl.macText)
    | none =>
      match radiusMacToPtl (env.usermac user.ip) with
      | none => ptl.crash .badMac
      | some mac =>
        if mac = [] then
          reqAuthFail ({ ptl with macText := [] }.edit user.id fun user => { user with pass := some pass }) user.id auth
        else reqAuthSend ptl user pass mac

def ptlEvtReqAuth : EmsPortal :=
  match ptlUserFind ptl (inetNtoa auth.ip) with
  | none =>
    match ptlVpText attr .username with
    | none => reqAuthRefuse ptl auth 1
    | some name =>
      let user := ptlUserNew ptl.nextId name (inetNtoa auth.ip)
      reqAuthUser env (ptl.append user) user auth attr
  | some user =>
    if user.online then reqAuthRefuse (ptl.edit user.id fun user => { user with serial := auth.serial }) auth 2
    else if user.st = .reqAuth then reqAuthRefuse ptl auth 3
    else if user.st = .ackChallenge ∧ user.reqid ≠ auth.reqid then reqAuthRefuse ptl auth 4
    else reqAuthUser env ptl user auth attr

def ptlEvtReqInfo : EmsPortal :=
  ptlEvtAck ptl none { auth with ty := tyAckInfo, err := 0 } []

def ptlEvtReqLogout : EmsPortal :=
  let answer := auth.answer tyAckLogout 0
  match ptlUserFind ptl (inetNtoa auth.ip) with
  | none => ptlEvtAck ptl none answer []
  | some user =>
    let ptl := ptl.edit user.id fun user =>
      { user.offline .ackLogout with serial := answer.serial, reqid := answer.reqid }
    (ptl.sendLogout user).andThen fun ptl => ptlEvtAck ptl (some user.id) answer []

def User.affirm : User := { user with online := true, st := .affAckAuth }

def ptlEvtAffAckAuth : EmsPortal :=
  match ptlUserFind ptl (inetNtoa auth.ip) with
  | none => ptl
  | some user =>
    if user.st = .ackAuth then ((ptl.goesOnline user).edit user.id User.affirm).cancel user.id else ptl

-- For a user it knows the module refuses, and moves it to st_ack_challenge.
def ptlEvtReqChallenge : EmsPortal :=
  match ptlUserFind ptl (inetNtoa auth.ip) with
  | some user => ptlEvtAck (ptl.edit user.id (·.await .ackChallenge)) (some user.id) (auth.answer tyAckChallenge 1) []
  | none =>
    match ptlVpText attr .username with
    | none => ptlEvtAck ptl none (auth.answer tyAckChallenge 1) []
    | some name =>
      let user := { ptlUserNew ptl.nextId name (inetNtoa auth.ip) with
        serial := auth.serial
        reqid := env.reqid ptl.nextId
        st := .ackChallenge
        authTy := auth.authTy }
      ptlEvtAck (ptl.append user) (some user.id) ({ auth with reqid := user.reqid }.answer tyAckChallenge 0)
        (ptlVpAppend [] .challenge (env.vector ptl.nextId) 16)

def ptlProcessEvt : EmsPortal :=
  if auth.ty = tyReqChallenge then ptlEvtReqChallenge env ptl auth attr
  else if auth.ty = tyReqAuth then ptlEvtReqAuth env ptl auth attr
  else if auth.ty = tyReqLogout then ptlEvtReqLogout ptl auth
  else if auth.ty = tyAffAckAuth then ptlEvtAffAckAuth ptl auth
  else if auth.ty = tyReqInfo then ptlEvtReqInfo ptl auth
  else ptl

end Codec.Portal
