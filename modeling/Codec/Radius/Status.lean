import Codec.Lib.Decimal
import Codec.Radius.Device

set_option autoImplicit false

namespace Codec.Radius

open Codec.Ems Codec.Lib

variable (env : Env) (which : Which) (handle : UInt8 → Handle Ret)

-- dev_change_status calls the handler of the state it enters, and that may
-- change the status again: st_acct_stop on to st_err, st_hb on to
-- st_acct_stop, st_start on to st_auth or st_err. The nesting has no cycle,
-- so it is unrolled here from st_err upward.
def enter (st : Status) (into : Handle Ret) : Handle Ret := do
  let dev ← getDev
  if dev.st = st then pure .ok
  else do
    setDev fun dev => { dev with st := st, accepted := dev.accepted && st ≠ .acctStop && st ≠ .err }
    into

def emsMacUpdate (src : Str) : Str := src.map fun char => if char = 58 then 45 else char

def raSendPortal (cmd : PortalCmd) (errorCode : Int) : Handle Unit := do
  let dev ← getDev
  setShared fun sh => { sh with portal := sh.portal ++ [⟨cmd, dev.name, dev.ip, dev.mac, errorCode⟩] }

def raDeviceFirewallSetRules (set : Bool) : Handle Unit := do
  let dev ← getDev
  setShared fun sh => { sh with fw := fwProcessDeviceFree sh.fw dev.ip dev.mac set }

def emsDeviceDestroy : Handle Unit := do
  let _ ← getDev
  fun cell => (.done (), { cell with dev := none })

def raErr : Handle Ret := do
  let dev ← getDev
  setShared fun sh => { sh with ra := { sh.ra with lasterr := dev.reason } }
  setDev fun dev => { dev with reason := if dev.reason = 0 then 4 else dev.reason }
  let dev ← getDev
  raSendPortal .authRsp dev.reason
  raDeviceFirewallSetRules false
  emsDeviceDestroy
  pure .ok

def changeErr : Handle Ret := enter .err raErr

-- The packet of ra_fill_auth_request_info and ra_fill_auth_avpairs. They do
-- not free vp_out, so the attributes of the packet before, those of a record
-- too, still stand in front.
def authRequest (dev : Device) (sh : Shared) : Request where
  serial := sh.serial
  code := pwAccessRequest
  ident := sh.ra.seqNbr % 256
  avpairs := dev.vpOut ++ [.userName dev.name, .userPassword dev.pass, .framedIpAddress dev.ip,
    .callingStationId (emsMacUpdate dev.mac)]

-- "%ld%ld" of the seconds and the microseconds, without padding. FW_PREFIX
-- and the pid, in front of it in every id of a process, are left out.
def sessionText (clock : Nat) : Str := digitText (clock / 1000000) ++ digitText (clock % 1000000)

-- The packet of ra_fill_acct_info and ra_fill_acct_avpairs: the session id is
-- made by the first of them and kept for the rest of the device's life.
def acctRequest (dev : Device) (sh : Shared) : Request where
  serial := sh.serial
  code := pwAccountingRequest
  ident := sh.ra.seqNbr % 256
  avpairs := [.userName dev.name, .framedIpAddress dev.ip, .callingStationId (emsMacUpdate dev.mac),
    .acctSessionId (dev.sessid.getD (sessionText sh.clock)), .acctStatusType dev.reason]

def Device.fill (dev : Device) (request : Request) : Device :=
  { dev with
    vpOut := request.avpairs
    authOut := some request
    sess := { dev.sess with unsent := true } }

def Shared.filled (sh : Shared) : Shared := { sh with ra := { sh.ra with seqNbr := sh.ra.seqNbr + 1 }, serial := sh.serial + 1 }

def raFillAuthRequestInfo : Handle Unit := do
  let sh ← getShared
  setShared Shared.filled
  setDev fun dev => dev.fill (authRequest dev sh)

def raFillAcctInfo : Handle Unit := do
  let dev ← getDev
  let sh ← getShared
  setShared fun sh => { sh.filled with clock := if dev.sessid = none then sh.clock + 1 else sh.clock }
  setDev fun dev => { dev.fill (acctRequest dev sh) with sessid := (acctRequest dev sh).sessid }

def raArmRetry : Handle Unit := do
  let sh ← getShared
  setDev fun dev => { dev with retryTimes := sh.ra.retryTimes, retryTimeout := sh.ra.retryTimeout }

def stIntoAcct : Handle Ret := do
  raFillAcctInfo
  raArmRetry
  pure .ok

def stIntoAcctStopFill : Handle Unit := do
  setDev fun dev => { dev with reason := 2 }
  raFillAcctInfo
  raArmRetry

def stIntoAcctStop : Handle Ret := do
  let dev ← getDev
  if dev.reason = errNetwork ∨ dev.reason = errCannotConnect then pure () else stIntoAcctStopFill
  let dev ← getDev
  raSendPortal .logout dev.reason
  raDeviceFirewallSetRules false
  if dev.reason ≠ 2 then changeErr else pure .ok

def changeAcctStop : Handle Ret := enter .acctStop stIntoAcctStop

def changeAcct : Handle Ret := enter .acct stIntoAcct

def changeNormal : Handle Ret := enter .normal (pure .ok)

def changeAuth : Handle Ret := enter .auth (pure .ok)

def openSession : Handle Unit :=
  setDev fun dev => dev.setSession which { dev.session which with opened := true }

def stPingPrepareSess : Handle Ret := do
  setDev fun dev => { dev with sessDev := some (dev.sessDev.getD emsSessionNew) }
  setDev fun dev => dev.setSession .ping
    { dev.session .ping with bufIn := (dev.session .ping).bufIn.clear, unsent := false }
  setDev fun dev => { dev with ident := env.ident % 65536, ntrans := 0, echoOut := none }
  if env.pingConnect then do
    openSession .ping
    pure .ok
  else pure .err

def stIntoPingSend : Handle Ret := do
  setDev fun dev => dev.setSession .ping { dev.session .ping with unsent := true }
  setDev fun dev => { dev with
    echoOut := some (dev.ident, dev.ntrans)
    ntrans := dev.ntrans + 1
    retryTimes := pingRetryTimes }
  pure .ok

def stIntoPing : Handle Ret := do
  let dev ← getDev
  if dev.sessDev = none then do
    let ret ← stPingPrepareSess env
    if ret ≠ .ok then do
      setDev fun dev => { dev with err := 2, reason := 2 }
      changeAcctStop
    else stIntoPingSend
  else stIntoPingSend

def changeHb : Handle Ret := enter .hb do
  let _ ← stIntoPing env
  pure .ok

def raSessionNew : Session := { emsSessionNew with bufIn := emsSessionNew.bufIn.increase 2048 }

def raStart : Handle Ret := do
  setDev fun dev => if dev.made then dev else { dev with made := true, sess := raSessionNew }
  if env.connect then do
    openSession .radius
    raFillAuthRequestInfo
    raArmRetry
    setDev fun dev => { dev with reason := 0 }
    changeAuth
  else do
    setDev fun dev => { dev with reason := errNetwork }
    changeErr

def changeStart : Handle Ret := enter .start (raStart env)

def authHdrLen : Nat := 20

def be16 (bytes : List UInt8) (off : Nat) : Nat := (bytes.getD off 0).toNat * 256 + (bytes.getD (off + 1) 0).toNat

-- The test of the response authenticator. It can be computed only with the
-- secret and with the authenticator of the request, so a packet that passes
-- was made by the server after the request had been on the wire.
def digestHolds (wire : List Request) (bytes : List UInt8) (request : Request) : Bool :=
  (bytes, request.serial) ∈ env.replies ∧ request ∈ wire

-- The tests of rc_check_reply that come before it touches the buffer.
def rcCheckHeader (bytes : List UInt8) (bufferlen : Nat) (secret : Str) (request : Request) : Bool :=
  20 ≤ be16 bytes 2 ∧ be16 bytes 2 ≤ 4096 ∧ be16 bytes 2 + secret.length ≤ bufferlen ∧
    (bytes.getD 1 0).toNat = request.ident

-- rc_check_reply on the packet at rd. Once the header is fine the secret is
-- stored behind the packet, over whatever stands there, and stays.
def rcCheckReply (sh : Shared) (authOut : Option Request) (buf : Buffer) : Bool × Buffer :=
  match authOut with
  | none => (false, buf)
  | some request =>
    if rcCheckHeader buf.content buf.size sh.ra.secret request then
      (digestHolds env sh.wire (buf.content.take (be16 buf.content 2)) request,
        buf.poke (buf.rd + be16 buf.content 2) sh.ra.secret)
    else (false, buf)

def setBufIn (change : Buffer → Buffer) : Handle Unit :=
  setDev fun dev => dev.setSession which { dev.session which with bufIn := change (dev.session which).bufIn }

-- dev_process_rsp; the callback gets the code of the packet dev->auth_in
-- points to, and its result is not looked at.
def devProcessRsp : Handle Ret := do
  let dev ← getDev
  let sh ← getShared
  let buf := (dev.session which).bufIn
  setBufIn which fun buf => (rcCheckReply env sh dev.authOut buf).2
  if (rcCheckReply env sh dev.authOut buf).1 then do
    let _ ← handle (buf.content.getD 0 0)
    pure .ok
  else pure .err

def devPreprocess : Handle Ret := do
  let dev ← getDev
  let buf := (dev.session which).bufIn
  let length := be16 buf.content 2
  if buf.len < authHdrLen then pure .again
  else if length ≥ buf.size then pure .insufficient
  else if buf.len < length then pure .again
  else do
    let rtn ← devProcessRsp env which handle
    setBufIn which fun buf => ((buf.seekRd length .cur).getD buf).refresh
    pure rtn

-- The do-while loop of ra_recv_msg over the packets of the buffer.
def raDrain (env : Env) (which : Which) (handle : UInt8 → Handle Ret) : Nat → Handle Ret
  | 0 => Handler.stop .spinning
  | fuel + 1 => do
      let ret ← devPreprocess env which handle
      match ret with
      | .insufficient => pure .err
      | .err => pure .err
      | .again => pure .ok
      | .ok => raDrain env which handle fuel

-- ra_recv_msg over the answers of recv(2). Every round takes one of them,
-- and every round of the inner loop at least one byte; only a closed socket
-- with an empty buffer keeps it going round for ever.
def raRecvLoop (env : Env) (which : Which) (handle : UInt8 → Handle Ret) : Nat → List Recv → Handle Ret
  | 0, _ => Handler.stop .spinning
  | fuel + 1, stream => do
      let dev ← getDev
      let sess := dev.session which
      let res := sockRead sess.opened sess.bufIn stream
      setDev fun dev => dev.setSession which { dev.session which with opened := res.opened, bufIn := res.buf }
      if res.ret = .none ∧ res.buf.len > 0 then devPreprocess env which handle
      else do
        let ret ← raDrain env which handle (res.buf.len + 1)
        if ret = .err then pure .err
        else if res.ret = .again then pure .ok
        else raRecvLoop env which handle fuel res.stream

def raRecvMsg (stream : List Recv) : Handle Ret :=
  raRecvLoop env which handle (stream.length + 2) stream

-- ems_sock_send as ra_send_msg uses it. `wire` grows when a request goes out
-- for the first time.
def Shared.transmit (sh : Shared) (packet : Option Request) : Shared :=
  match packet with
  | some request => if request ∈ sh.wire then sh else { sh with wire := sh.wire ++ [request] }
  | none => sh

def raSendMsg (result : Send) : Handle Ret := do
  let dev ← getDev
  let sess := dev.session which
  if sess.opened ∧ sess.unsent then
    match result with
    | .sent => do
        setShared fun sh => sh.transmit (dev.request which)
        setDev fun dev => dev.setSession which { dev.session which with unsent := false }
        pure .ok
    | .again => pure .ok
    | .failed => do
        setDev fun dev => dev.setSession which { dev.session which with opened := false }
        pure .err
  else pure .err

-- ems_buffer_seek_rd(buf_out, 0, EMS_BUFFER_SEEK_SET) before a retry.
def raResend : Handle Unit :=
  setDev fun dev => dev.setSession which
    { dev.session which with unsent := dev.hasPacket which }

end Codec.Radius
