import Codec.Ems.Sock
import Codec.Lib.Handler

set_option autoImplicit false

namespace Codec.Radius

open Codec.Ems

-- One rule per device in each of the two chains: the ACCEPT rule of
-- POST_AUTHED and the ACCOUNT rule of the filter table.
structure Rule where
  ip : Str
  mac : Str
  deriving DecidableEq, Repr

-- The part of the firewall module the RADIUS module can see: FLG_RUN and the
-- two chains, with -A at the end and -D taking the first copy away.
structure Firewall where
  run : Bool
  authed : List Rule
  account : List Rule
  deriving DecidableEq, Repr

def fwMacUpdate (src : Str) : Str := src.map fun char => if char = 45 then 58 else char

variable (fw : Firewall) (ip mac : Str)

def acceptRule : Rule := ⟨ip, fwMacUpdate mac⟩

def accountRule : Rule := ⟨ip, mac⟩

def fwDeviceFree (userip usermac : Str) (yes : Bool) : Firewall :=
  if yes then
    { fw with
      authed := fw.authed ++ [acceptRule userip usermac]
      account := fw.account ++ [accountRule userip usermac] }
  else
    { fw with
      authed := fw.authed.erase (acceptRule userip usermac)
      account := fw.account.erase (accountRule userip usermac) }

def fwRulesRadiusDeviceFree (add : Bool) : Firewall :=
  if ip.length > 0 ∧ mac.length > 0 then fwDeviceFree fw ip mac add else fw

-- EMS_APP_FW_RADIUS_DEVICE_FREE through fw_process, which drops it unless
-- the firewall module is running.
def fwProcessDeviceFree (add : Bool) : Firewall :=
  if fw.run then fwRulesRadiusDeviceFree fw ip mac add else fw

-- The part of fw_update_all_rules and of fw_uninit_chains that meets these
-- chains: POST_AUTHED is flushed, ACCOUNT belongs to the global firewall.
def fwFlushAuthed : Firewall := { fw with authed := [] }

def fwStart : Firewall := { fw with run := true }

def fwStop : Firewall := if fw.run then { fwFlushAuthed fw with run := false } else fw

@[simp] theorem fw_process_device_free_run (add : Bool) :
    (fwProcessDeviceFree fw ip mac add).run = fw.run := by
  unfold fwProcessDeviceFree fwRulesRadiusDeviceFree fwDeviceFree
  split
  · split
    · split <;> rfl
    · rfl
  · rfl

theorem fw_process_complete (add : Bool) (hasIp : ip ≠ []) (hasMac : mac ≠ []) :
    fwProcessDeviceFree fw ip mac add = if fw.run then fwDeviceFree fw ip mac add else fw := by
  have both : ip.length > 0 ∧ mac.length > 0 := ⟨List.length_pos_iff.mpr hasIp, List.length_pos_iff.mpr hasMac⟩
  rw [fwProcessDeviceFree, fwRulesRadiusDeviceFree, if_pos both]

open Codec.Lib

inductive Status where
  | stopped | start | auth | acct | normal | hb | acctStop | err
  deriving DecidableEq, Repr

def errCannotConnect : Int := 0x4000
def errReject : Int := 0x4001
def errNetwork : Int := 0x4002

def pwAccessRequest : UInt8 := 1
def pwAccessAccept : UInt8 := 2
def pwAccountingRequest : UInt8 := 4
def pwAccountingResponse : UInt8 := 5
def pwAccessChallenge : UInt8 := 11

def pingRetryTimes : Int := 3

-- The attributes of a packet that depend on the device.
inductive AvPair where
  | userName (name : Str)
  | userPassword (pass : Str)
  | framedIpAddress (ip : Str)
  | callingStationId (mac : Str)
  | acctSessionId (session : Str)
  | acctStatusType (status : Int)
  deriving DecidableEq, Repr

-- A packet of ra_fill_auth_request_info or ra_fill_acct_info. `serial` stands
-- for the request authenticator: no two packets have the same one.
structure Request where
  serial : Nat
  code : UInt8
  ident : Nat
  avpairs : List AvPair
  deriving DecidableEq, Repr

def Request.sessid (request : Request) : Option Str :=
  request.avpairs.findSome? fun | .acctSessionId session => some session | _ => none

def Request.statusType (request : Request) : Int :=
  (request.avpairs.findSome? fun | .acctStatusType status => some status | _ => none).getD 0

-- ems_session: `opened` is fd > 0, and `unsent` says that rd of buf_out stands
-- before the packet there and not behind it.
structure Session where
  opened : Bool
  bufIn : Buffer
  unsent : Bool
  deriving DecidableEq, Repr

def emsSessionNew : Session := ⟨false, Buffer.init 1024, false⟩

-- ems_device. `sess` is made by the ra_start that follows ems_device_new, so
-- only `made` records the NULL. `authOut` points to the packet in buf_out of
-- `sess`, `echoOut` is the one of `sessDev`. `accepted` is a ghost: the last
-- answered exchange was an Accept, and neither st_acct_stop nor st_err was
-- entered since.
structure Device where
  id : Nat
  made : Bool
  sess : Session
  sessDev : Option Session
  name : Str
  pass : Str
  mac : Str
  ip : Str
  sessid : Option Str
  retryTimes : Int
  retryTimeout : Int
  reportPeriod : Int
  disconnect : Int
  disconnectServer : Int
  reason : Int
  err : Int
  ntrans : Nat
  ident : Nat
  vpOut : List AvPair
  authOut : Option Request
  echoOut : Option (Nat × Nat)
  st : Status
  accepted : Bool
  deriving DecidableEq, Repr

-- iface->auth as radius_start and radius_rules_update read it.
structure Iface where
  enable : Bool
  addr : Str
  secret : Str
  authPort : Int
  acctPort : Int
  acctPeriod : Int
  offlineDisconnect : Int
  deriving DecidableEq, Repr

structure EmsRadius where
  seqNbr : Nat
  lasterr : Int
  secret : Str
  authAddr : Str
  authPort : Int
  acctAddr : Str
  acctPort : Int
  retryTimes : Int
  retryTimeout : Int
  reportPeriod : Int
  disconnect : Int
  deriving DecidableEq, Repr

inductive PortalCmd where
  | authRsp | logout
  deriving DecidableEq, Repr

structure PortalMsg where
  cmd : PortalCmd
  username : Str
  userip : Str
  usermac : Str
  errorCode : Int
  deriving DecidableEq, Repr

-- What a device handler can reach besides its device. `wire` lists the
-- requests in the order of their first transmission, `clock` is what
-- gettimeofday reads next, in microseconds.
structure Shared where
  ra : EmsRadius
  fw : Firewall
  portal : List PortalMsg
  wire : List Request
  clock : Nat
  serial : Nat
  deriving DecidableEq, Repr

-- The store as one handler sees it: the entry its `dev` points to, none once
-- ems_device_destroy freed it together with its sessions.
structure Cell where
  dev : Option Device
  sh : Shared
  deriving DecidableEq, Repr

inductive Fault where
  | dangling
  | spinning
  deriving DecidableEq, Repr

-- The answers of the outside during one event. `replies` lists those of the
-- packets arriving with it that the server made, each with the serial of the
-- request it answers.
structure Env where
  connect : Bool
  pingConnect : Bool
  ident : Nat
  replies : List (List UInt8 × Nat)

inductive Ret where
  | ok | err | again | insufficient
  deriving DecidableEq, Repr

-- Which of the two sessions of the device an event came from.
inductive Which where
  | radius | ping
  deriving DecidableEq, Repr

abbrev Handle := Handler Cell Fault

def Device.session (dev : Device) : Which → Session
  | .radius => dev.sess
  | .ping => dev.sessDev.getD emsSessionNew

def Device.setSession (dev : Device) (which : Which) (sess : Session) : Device :=
  match which with
  | .radius => { dev with sess := sess }
  | .ping => { dev with sessDev := some sess }

def Device.request (dev : Device) : Which → Option Request
  | .radius => dev.authOut
  | .ping => none

def Device.hasPacket (dev : Device) : Which → Bool
  | .radius => dev.authOut.isSome
  | .ping => dev.echoOut.isSome

-- Every read or write of the device or of a session of it goes through these
-- two and needs the entry alive.
def getDev : Handle Device := fun cell =>
  match cell.dev with
  | some dev => (.done dev, cell)
  | none => (.fault .dangling, cell)

def setDev (change : Device → Device) : Handle Unit := fun cell =>
  match cell.dev with
  | some dev => (.done (), { cell with dev := some (change dev) })
  | none => (.fault .dangling, cell)

def getShared : Handle Shared := fun cell => (.done cell.sh, cell)

def setShared (change : Shared → Shared) : Handle Unit := fun cell => (.done (), { cell with sh := change cell.sh })

@[simp] theorem get_dev_some (dev : Device) (sh : Shared) : getDev ⟨some dev, sh⟩ = (.done dev, ⟨some dev, sh⟩) := rfl

@[simp] theorem set_dev_some (change : Device → Device) (dev : Device) (sh : Shared) :
    setDev change ⟨some dev, sh⟩ = (.done (), ⟨some (change dev), sh⟩) := rfl

@[simp] theorem get_shared_apply (cell : Cell) : getShared cell = (.done cell.sh, cell) := rfl

@[simp] theorem set_shared_apply (change : Shared → Shared) (cell : Cell) :
    setShared change cell = (.done (), { cell with sh := change cell.sh }) := rfl

end Codec.Radius
