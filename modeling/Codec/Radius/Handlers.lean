import Codec.Radius.Status

set_option autoImplicit false

namespace Codec.Radius

open Codec.Ems

variable (env : Env) (which : Which)

def reportRounds (ra : EmsRadius) : Int := Int.tdiv ra.disconnect (ra.reportPeriod + 6) + 1

def raConnectToAcctServer : Handle Ret :=
  if env.connect then do
    openSession which
    setShared fun sh => { sh with ra := { sh.ra with lasterr := 0 } }
    raSendPortal .authRsp 0
    raDeviceFirewallSetRules true
    setDev fun dev => { dev with reason := 1 }
    changeAcct
  else do
    setDev fun dev => { dev with reason := errNetwork }
    changeErr

def raStartToAcctUser : Handle Ret := do
  setDev fun dev => dev.setSession which ⟨false, (dev.session which).bufIn.clear, false⟩
  setDev fun dev => { dev with vpOut := [], authOut := none }
  raConnectToAcctServer env which

def raAuthRsp (code : UInt8) : Handle Ret :=
  if code = pwAccessAccept then do
    setDev fun dev => { dev with accepted := true }
    raStartToAcctUser env which
  else if code = pwAccessChallenge then do
    setDev fun dev => { dev with reason := code.toNat }
    let _ ← changeErr
    pure .ok
  else do
    setDev fun dev => { dev with reason := errReject }
    let _ ← changeErr
    pure .ok

def raFailErr (reason : Int) : Handle Ret := do
  setDev fun dev => { dev with reason := reason }
  changeErr

def raFailAcctStop (reason : Int) : Handle Ret := do
  setDev fun dev => { dev with reason := reason }
  changeAcctStop

-- The user is gone: the terminate cause goes to dev->err.
def raLostUser (cause : Int) : Handle Ret := do
  setDev fun dev => { dev with err := cause }
  changeAcctStop

inductive DevEvent where
  | error
  | read (stream : List Recv)
  | write (result : Send)
  | timeout
  deriving DecidableEq, Repr

def raAuth : DevEvent → Handle Ret
  | .read stream => do
      let ret ← raRecvMsg env which (raAuthRsp env which) stream
      if ret ≠ .ok then raFailErr errNetwork else pure .ok
  | .write result => do
      let ret ← raSendMsg which result
      if ret ≠ .ok then raFailErr errNetwork else pure .ok
  | _ => pure .ok

def raAcctRsp (code : UInt8) : Handle Ret :=
  if code = pwAccountingResponse then do
    let sh ← getShared
    setDev fun dev => { dev with reportPeriod := sh.ra.reportPeriod }
    let _ ← changeNormal
    setDev fun dev => { dev with disconnectServer := reportRounds sh.ra }
    pure .ok
  else do
    let _ ← raLostUser 6
    pure .ok

def raRetryConnectServer : Handle Ret := do
  let dev ← getDev
  setDev fun dev => { dev with disconnectServer := dev.disconnectServer - 1 }
  if dev.disconnectServer > 0 then do
    let sh ← getShared
    setDev fun dev => { dev with reportPeriod := sh.ra.reportPeriod }
    changeNormal
  else pure .err

def raAcctErrOut : Handle Ret := do
  let ret ← raRetryConnectServer
  if ret ≠ .ok then do
    let _ ← raFailAcctStop errNetwork
    pure .ok
  else pure .ok

def raAcct : DevEvent → Handle Ret
  | .read stream => do
      let ret ← raRecvMsg env which raAcctRsp stream
      if ret ≠ .ok then raAcctErrOut else pure .ok
  | .write result => do
      let ret ← raSendMsg which result
      if ret ≠ .ok then raAcctErrOut else pure .ok
  | _ => pure .ok

def raNormalRsp (_code : UInt8) : Handle Ret := pure .ok

def raNormal : DevEvent → Handle Ret
  | .read stream => do
      let ret ← raRecvMsg env which raNormalRsp stream
      if ret ≠ .ok then raFailAcctStop errNetwork else pure .ok
  | _ => pure .ok

-- The checks of ra_ping_recv_handle on the bytes at rd: too short to tell,
-- not our echo reply, or our echo reply.
inductive Icmp where
  | short | other | reply
  deriving DecidableEq, Repr

def icmpKind (bytes : List UInt8) (ident : Nat) : Icmp :=
  let hlen := (bytes.getD 0 0).toNat % 16 * 4
  if bytes.length < hlen + 8 then .short
  else if bytes.getD hlen 0 ≠ 0 then .other
  else if (bytes.getD (hlen + 4) 0).toNat + (bytes.getD (hlen + 5) 0).toNat * 256 ≠ ident then .other
  else .reply

def raPingRecvHandle : Handle Ret := do
  let dev ← getDev
  match icmpKind (dev.session which).bufIn.content dev.ident with
  | .short => pure .ok
  | .other => do
      setBufIn which Buffer.clear
      pure .again
  | .reply => do
      let sh ← getShared
      setDev fun dev => { dev with disconnect := reportRounds sh.ra }
      setBufIn which Buffer.clear
      setDev fun dev => { dev with reason := 3 }
      changeAcct

-- ra_ping_recv keeps the wr and the room it started with, so every packet
-- lands in the same place. A raw socket never returns 0, which would be read
-- as an error with a stale errno.
def raPingRecvLoop (which : Which) (start room : Nat) : List Recv → Handle Ret
  | [] => pure .ok
  | .again :: _ => pure .ok
  | .failed :: _ => pure .err
  | .data bytes :: rest =>
    if bytes.take room = [] then pure .err
    else do
      setBufIn which fun buf =>
        let filled := buf.poke start (bytes.take room)
        (filled.seekWr (bytes.take room).length .cur).getD filled
      let _ ← raPingRecvHandle which
      raPingRecvLoop which start room rest

def raPingRecv (stream : List Recv) : Handle Ret := do
  let dev ← getDev
  let buf := (dev.session which).bufIn
  raPingRecvLoop which buf.wr buf.left stream

def raPing : DevEvent → Handle Ret
  | .read stream => do
      let ret ← raPingRecv which stream
      if ret ≠ .ok then raLostUser 2 else pure .ok
  | .write result => do
      let ret ← raSendMsg which result
      if ret ≠ .ok then raLostUser 2 else pure .ok
  | _ => pure .ok

def raAcctStoppedRsp (_code : UInt8) : Handle Ret := raFailErr 0

def raAcctStopped : DevEvent → Handle Ret
  | .read stream => do
      let ret ← raRecvMsg env which raAcctStoppedRsp stream
      if ret ≠ .ok then raFailErr errNetwork else pure .ok
  | .write result => do
      let ret ← raSendMsg which result
      if ret ≠ .ok then raFailErr errNetwork else pure .ok
  | _ => pure .ok

def raCountDown : Handle Int := do
  setDev fun dev => { dev with retryTimes := dev.retryTimes - 1 }
  let dev ← getDev
  pure dev.retryTimes

def raToAuth : Handle Ret := do
  let left ← raCountDown
  if left > 0 then do
    raResend which
    pure .ok
  else raFailErr errCannotConnect

def raToAcct : Handle Ret := do
  let left ← raCountDown
  if left > 0 then do
    raResend which
    pure .ok
  else do
    let ret ← raRetryConnectServer
    if ret ≠ .ok then raFailAcctStop errCannotConnect else pure .ok

def raToNormal : Handle Ret := changeHb env

def raToPing : Handle Ret := do
  let dev ← getDev
  if dev.retryTimes > 0 then do
    setDev fun dev => { dev with retryTimes := dev.retryTimes - 1 }
    raResend which
    pure .ok
  else do
    setDev fun dev => { dev with disconnect := dev.disconnect - 1 }
    let dev ← getDev
    if dev.disconnect ≤ 0 then raLostUser 2
    else do
      setBufIn which Buffer.clear
      setDev fun dev => { dev with reason := 3 }
      changeAcct

-- Here the test is for zero, not for a positive count.
def raToAcctStopped : Handle Ret := do
  let left ← raCountDown
  if left ≠ 0 then do
    raResend which
    pure .ok
  else raFailErr errCannotConnect

-- ra_evt_handler and ra_timeout_handler. No listed device is in st_start or
-- st_err between two events, and st_stopped has no handler.
def devEvtRun (event : DevEvent) (st : Status) : Handle Ret :=
  match st with
  | .start => raStart env
  | .auth => raAuth env which event
  | .acct => raAcct env which event
  | .normal => raNormal env which event
  | .hb => raPing which event
  | .acctStop => raAcctStopped env which event
  | .err => raErr
  | .stopped => pure .ok

def devTimeoutRun (st : Status) : Handle Ret :=
  match st with
  | .auth => raToAuth which
  | .acct => raToAcct which
  | .normal => raToNormal env
  | .hb => raToPing which
  | .acctStop => raToAcctStopped which
  | _ => pure .ok

def devEvtCb (event : DevEvent) : Handle Ret := do
  let dev ← getDev
  match event with
  | .error => raFailErr errNetwork
  | .timeout => devTimeoutRun env which dev.st
  | event => devEvtRun env which event dev.st

end Codec.Radius
