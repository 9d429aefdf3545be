import Codec.Lib.Runs
import Codec.Radius.Handlers

set_option autoImplicit false

namespace Codec.Radius

open Codec.Ems Codec.Lib

-- The RADIUS module of one SSID: FLG_RUN, dev_entry in list order, and the
-- EMS_APP_EVT_FW_RELOAD messages queued for it. `faults` records what went
-- wrong in a handler; after a handler that never returns nothing happens.
structure World where
  run : Bool
  iface : Iface
  devs : List Device
  sh : Shared
  nextId : Nat
  reloads : Nat
  faults : List Fault
  hung : Bool
  deriving DecidableEq, Repr

inductive Event where
  | start
  | stop
  | rulesUpdate
  | serverRulesUpdate
  | configure (iface : Iface)
  | auth (env : Env) (name pass ip mac : Str)
  | logout (name ip mac : Str)
  | fwStart
  | fwStop
  | fwClear
  | fwReload
  | radiusReload
  | device (env : Env) (id : Nat) (which : Which) (event : DevEvent)
  | settime (clock : Nat)

variable (w : World)

def radiusInit : EmsRadius where
  seqNbr := 0
  lasterr := 0
  secret := []
  authAddr := []
  authPort := 0
  acctAddr := []
  acctPort := 0
  retryTimes := 3
  retryTimeout := 10
  reportPeriod := 300
  disconnect := 300

def World.init (iface : Iface) : World where
  run := false
  iface := iface
  devs := []
  sh := ⟨radiusInit, ⟨false, [], []⟩, [], [], 1, 0⟩
  nextId := 0
  reloads := 0
  faults := []
  hung := false

def radiusFindDev (devs : List Device) (ip : Str) : Option Device := devs.find? fun dev => dev.ip = ip

def replaceDev (id : Nat) (entry : Option Device) : List Device → List Device
  | [] => []
  | dev :: rest => if dev.id = id then entry.toList ++ rest else dev :: replaceDev id entry rest

def faultOf (outcome : Outcome Fault Ret) : List Fault :=
  match outcome with
  | .done _ => []
  | .fault why => [why]

def World.visit (id : Nat) (handle : Handle Ret) : World :=
  match w.devs.find? fun dev => dev.id = id with
  | none => w
  | some dev =>
    { w with
      devs := replaceDev id (handle ⟨some dev, w.sh⟩).2.dev w.devs
      sh := (handle ⟨some dev, w.sh⟩).2.sh
      faults := w.faults ++ faultOf (handle ⟨some dev, w.sh⟩).1
      hung := w.hung || (faultOf (handle ⟨some dev, w.sh⟩).1).contains .spinning }

def radiusGetInt (value default : Int) : Int := if value > 0 then value else default

def radiusStart (ra : EmsRadius) (iface : Iface) : EmsRadius :=
  { ra with
    authAddr := iface.addr
    acctAddr := iface.addr
    authPort := radiusGetInt iface.authPort 1812
    acctPort := radiusGetInt iface.acctPort 1813
    secret := iface.secret
    retryTimes := 3
    retryTimeout := 5
    disconnect := radiusGetInt iface.offlineDisconnect 1800
    reportPeriod := radiusGetInt iface.acctPeriod 300
    lasterr := if iface.enable then 0 else ra.lasterr }

def radiusStopDev : Handle Ret := do
  setDev fun dev => { dev with err := 7, reason := 7 }
  let dev ← getDev
  if dev.st ≠ .acctStop then changeAcctStop else pure .ok

def World.setRa (change : EmsRadius → EmsRadius) : World := { w with sh := { w.sh with ra := change w.sh.ra } }

def radiusStop : World :=
  (w.devs.map Device.id).foldl (fun w id => w.visit id radiusStopDev) (w.setRa fun ra => { ra with lasterr := 0 })

def emsDeviceNew (id : Nat) (name pass ip mac : Str) (rounds : Int) : Device where
  id := id
  made := false
  sess := emsSessionNew
  sessDev := none
  name := name
  pass := pass
  mac := mac
  ip := ip
  sessid := none
  retryTimes := 0
  retryTimeout := 0
  reportPeriod := 0
  disconnect := rounds
  disconnectServer := rounds
  reason := 0
  err := 0
  ntrans := 0
  ident := 0
  vpOut := []
  authOut := none
  echoOut := none
  st := .stopped
  accepted := false

def radiusUserIn (env : Env) (name pass ip mac : Str) : World :=
  { w with
    devs := w.devs ++ [emsDeviceNew w.nextId name pass ip mac (reportRounds w.sh.ra)]
    nextId := w.nextId + 1 }.visit w.nextId (changeStart env)

def radiusReauth (env : Env) (name pass : Str) : Handle Ret := do
  setDev fun dev => { dev with name := name, pass := pass }
  changeStart env

def radiusCmdAuth (env : Env) (name pass ip mac : Str) : World :=
  if name = [] ∨ pass = [] ∨ ip = [] ∨ mac = [] then w
  else match radiusFindDev w.devs ip with
    | none => radiusUserIn w env name pass ip mac
    | some dev =>
      if dev.mac = mac then w.visit dev.id (radiusReauth env name pass)
      else radiusUserIn (w.visit dev.id (raLostUser 2)) env name pass ip mac

def radiusCmdLogout (name ip mac : Str) : World :=
  if name = [] ∨ ip = [] then w
  else match radiusFindDev w.devs ip with
    | none => w
    | some dev => if mac = [] ∨ dev.mac = mac then w.visit dev.id (raLostUser 1) else w

def radiusEvtFwReload : World :=
  { w with sh := { w.sh with
    fw := w.devs.foldl (fun fw dev => fwProcessDeviceFree fw dev.ip dev.mac true) w.sh.fw } }

def radiusNeedsRestart (ra : EmsRadius) (iface : Iface) : Bool :=
  iface.addr ≠ ra.authAddr || iface.secret ≠ ra.secret || iface.authPort ≠ ra.authPort ||
    iface.acctPort ≠ ra.acctPort || iface.acctPeriod ≠ ra.reportPeriod || iface.offlineDisconnect ≠ ra.disconnect

def radiusRulesUpdate (run : Bool) : World :=
  if run && radiusNeedsRestart w.sh.ra w.iface then (radiusStop w).setRa fun ra => radiusStart ra w.iface
  else w

def raRun (run : Bool) : World :=
  if run then
    if w.run then w
    else { w.setRa (fun ra => radiusStart ra w.iface) with run := w.iface.enable }
  else if w.run then { radiusStop w with run := false }
  else w

def World.setFw (change : Firewall → Firewall) : World := { w with sh := { w.sh with fw := change w.sh.fw } }

-- fw_rules_reload of the firewall module; the message for the portal and the
-- other chains are not this module's.
def fwRulesReload : World := if w.sh.fw.run then { w.setFw fwFlushAuthed with reloads := w.reloads + 1 } else w

-- ra_process for the queued EMS_APP_EVT_FW_RELOAD.
def raProcessReload : World :=
  if w.reloads = 0 then w
  else if w.run then radiusEvtFwReload { w with reloads := w.reloads - 1 }
  else { w with reloads := w.reloads - 1 }

def deviceEvent (env : Env) (id : Nat) (which : Which) (event : DevEvent) : World :=
  match w.devs.find? fun dev => dev.id = id with
  | none => w
  | some dev => if which = .ping ∧ dev.sessDev = none then w else w.visit id (devEvtCb env which event)

def step (event : Event) : World :=
  if w.hung then w
  else match event with
    | .start => raRun w true
    | .stop => raRun w false
    | .rulesUpdate => radiusRulesUpdate w w.run
    | .serverRulesUpdate => if w.run then radiusRulesUpdate w true else w
    | .configure iface => { w with iface := iface }
    | .auth env name pass ip mac => if w.run then radiusCmdAuth w env name pass ip mac else w
    | .logout name ip mac => if w.run then radiusCmdLogout w name ip mac else w
    | .fwStart => w.setFw fwStart
    | .fwStop => w.setFw fwStop
    | .fwClear => w.setFw fwFlushAuthed
    | .fwReload => fwRulesReload w
    | .radiusReload => raProcessReload w
    | .device env id which event => deviceEvent w env id which event
    | .settime clock => { w with sh := { w.sh with clock := clock } }

def sampleIface : Iface := ⟨true, [49], [115], 1812, 1813, 300, 1800⟩

def samplePacket (code ident : UInt8) : List UInt8 := code :: ident :: 0 :: 20 :: List.replicate 16 0

def sampleEnv : Env := ⟨true, true, 7, []⟩

def sampleReply (code ident : UInt8) : Event :=
  .device ⟨true, true, 7, [(samplePacket code ident, ident.toNat)]⟩ 0 .radius (.read [.data (samplePacket code ident)])

def sampleRequest : List Event :=
  [.start, .fwStart, .auth sampleEnv [117] [112] [105] [109], .device sampleEnv 0 .radius (.write .sent)]

def loginRun : List Event := sampleRequest ++ [sampleReply pwAccessAccept 0]

example : (run step (World.init sampleIface) loginRun).sh.fw.authed = [acceptRule [105] [109]] := by decide +kernel

end Codec.Radius
