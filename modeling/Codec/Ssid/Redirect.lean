import Codec.Ems.Text
import Codec.Fw.Payload
import Codec.Lib.Runs

set_option autoImplicit false

namespace Codec.Ssid

open Codec.Ems
open Codec.Fw (emsAtoi inetAddr)

-- The http rules of an SSID: the object as json_object_to_json_string writes
-- it, and its members. An entry of an array that is no string is none.
structure HttpRules where
  text : Str
  port : Option (List (Option Str))
  nas : Option Str
  grey : List (Option Str)
  deriving DecidableEq, Repr

structure EmsHttp where
  srcPort : Int
  dstPort : Int
  nas : Str
  grey : List Str
  nasGetInfo : Bool
  greyList : Bool
  deriving DecidableEq, Repr

-- `run` is FLG_RUN of the module.
structure HttpMgmt where
  run : Bool
  rule : Option HttpRules
  list : List EmsHttp
  deriving DecidableEq, Repr

-- -p tcp [-d dst] --dport dport -j DNAT to toPort of the gateway.
structure DnatRule where
  dst : Option Codec.Fw.Addr
  dport : Int
  toPort : Int
  deriving DecidableEq, Repr

-- The two chains that the http module has rules in; none is no such chain.
structure EmsFw where
  run : Bool
  preDefault : Option (List DnatRule)
  postDefault : Option (List DnatRule)
  deriving DecidableEq, Repr

inductive HttpMsg where
  | start
  | stop
  | serverRulesUpdate (root : Option HttpRules)
  | evtFwReload
  deriving DecidableEq, Repr

inductive FwMsg where
  | start
  | stop
  | fwClear
  | evtFwReload
  deriving DecidableEq, Repr

-- What the http module has the firewall do by nic_processmsg.
inductive FwCall where
  | setNasFree (addr : Str) (srcport dstport : Int) (enable : Bool)
  | setGreyFree (addr : Str) (srcport dstport : Int) (enable : Bool)
  | setHttpFree (srcport dstport : Int) (enable : Bool)
  deriving DecidableEq, Repr

inductive Msg where
  | http (msg : HttpMsg)
  | fw (msg : FwMsg)
  deriving DecidableEq, Repr

structure NicWireless where
  msgEntry : List Msg
  fw : EmsFw
  http : HttpMgmt
  deriving DecidableEq, Repr

section Firewall

variable (fw : EmsFw)

-- iptables -I and -D; neither does anything to a chain that is not there.
def fwIptExec (append : Bool) (rule : DnatRule) (chain : Option (List DnatRule)) : Option (List DnatRule) :=
  if append then chain.map (rule :: ·) else chain.map (·.erase rule)

def fwNasSetFree (dst : Str) (srcport dstport : Int) (append : Bool) : EmsFw :=
  { fw with preDefault := fwIptExec append ⟨inetAddr dst, srcport, dstport⟩ fw.preDefault }

def fwHttpSetFree (srcport dstport : Int) (append : Bool) : EmsFw :=
  { fw with postDefault := fwIptExec append ⟨none, srcport, dstport⟩ fw.postDefault }

def fwSetNasFree (addr : Str) (src dst : Int) (enable : Bool) : EmsFw :=
  if 0 < addr.length ∧ 0 < src ∧ 0 < dst then fwNasSetFree fw addr src dst enable else fw

def fwSetHttpFree (src dst : Int) (enable : Bool) : EmsFw := if 0 < src ∧ 0 < dst then fwHttpSetFree fw src dst enable else fw

-- fw_process for the calls; fw_set_grey_free is fw_set_nas_free.
def fwCall (call : FwCall) : EmsFw :=
  if fw.run then
    match call with
    | .setNasFree addr src dst enable => fwSetNasFree fw addr src dst enable
    | .setGreyFree addr src dst enable => fwSetNasFree fw addr src dst enable
    | .setHttpFree src dst enable => fwSetHttpFree fw src dst enable
  else fw

def fwInitChains : EmsFw := { fw with preDefault := some (fw.preDefault.getD []), postDefault := some (fw.postDefault.getD []) }

def fwUninitChains : EmsFw := { fw with preDefault := none, postDefault := none }

def fwUpdateAllRules : EmsFw × List Msg :=
  ({ fw with preDefault := fw.preDefault.map fun _ => [], postDefault := fw.postDefault.map fun _ => [] },
    [.http .evtFwReload])

def fwRulesReload : EmsFw × List Msg := fwUpdateAllRules (fwInitChains fw)

def fwRun (run : Bool) : EmsFw × List Msg :=
  if run then
    if fw.run then (fw, []) else ({ fw with run := true }, [.fw .evtFwReload])
  else if fw.run then (fwUninitChains { fw with run := false }, [])
  else (fw, [])

def fwProcess : FwMsg → EmsFw × List Msg
  | .start => fwRun fw true
  | .stop => fwRun fw false
  | .fwClear => (fwUninitChains fw, [])
  | .evtFwReload => if fw.run then fwRulesReload fw else (fw, [])

end Firewall

def emsHttpSep : Str := ascii ":"

variable (rule : HttpRules) (srcPort : Int) (ssid : NicWireless) (binds : List (Option (Fin 21))) (state : HttpMgmt × EmsFw) (http : EmsHttp) (enable : Bool)

def emsItoa (number : Int) : Str :=
  let digits (value : Nat) : Str := (Nat.toDigits 10 value).map fun char => UInt8.ofNat char.toNat
  if number < 0 then 45 :: digits number.natAbs else digits number.natAbs

def emsHttpIsOwn (list : List Str) (srcPort : Int) : Bool := list.length = 1 || list.contains (emsItoa srcPort)

-- The text before the first separator, where the entry is for this port.
def ownAddress (text : Str) : Option Str :=
  let list := stringSplit text emsHttpSep
  let address := list.head?.getD []
  if 0 < address.length ∧ emsHttpIsOwn list srcPort then some address else none

def emsHttpDefaultRules : HttpRules where
  text := ascii "\x7b \"port\": [ \"80\" ], \"nas\": \"115.28.38.73\" \x7d"
  port := some [some (ascii "80")]
  nas := some (ascii "115.28.38.73")
  grey := []

def emsHttpNew : EmsHttp := ⟨srcPort, 0, [], [], false, false⟩

def emsHttpGetNas (root : Option Str) : EmsHttp :=
  match root.bind (ownAddress http.srcPort) with
  | some nas => { http with nas := nas, nasGetInfo := true }
  | none => http

def emsHttpGetUrlGreylist (http : EmsHttp) : List (Option Str) → EmsHttp
  | [] => http
  | obj :: rest => match obj.bind (ownAddress http.srcPort) with
      | some key => emsHttpGetUrlGreylist { http with grey := http.grey ++ [key], greyList := true } rest
      | none => emsHttpGetUrlGreylist http rest

def httpSetNasFree (fw : EmsFw) : EmsFw :=
  if (inetAddr http.nas).isSome then fwCall fw (.setNasFree http.nas http.srcPort http.dstPort enable) else fw

def httpSetGreyFree (fw : EmsFw) : EmsFw :=
  http.grey.foldl (fun fw key =>
    if (inetAddr key).isSome then fwCall fw (.setGreyFree key http.srcPort http.dstPort enable) else fw) fw

def httpSetHttpFree (fw : EmsFw) : EmsFw :=
  fwCall fw (.setHttpFree http.srcPort http.dstPort enable)

-- The three calls that http_stopped and the loop of http_fw_reload make.
def httpSetFree (fw : EmsFw) (http : EmsHttp) : EmsFw :=
  let fw := if http.nasGetInfo then httpSetNasFree http enable fw else fw
  let fw := if http.greyList then httpSetGreyFree http enable fw else fw
  httpSetHttpFree http enable fw

def httpStopped (fw : EmsFw) (http : EmsHttp) : EmsFw := httpSetFree false fw http

-- http_start: `bind` is the first port from 9200 to 9220 that can be bound.
def httpStart (bind : Option (Fin 21)) : EmsHttp :=
  match bind with
  | some found => { http with dstPort := 9200 + found.val }
  | none => { http with dstPort := 9221 }

def emsHttpCreate (bind : Option (Fin 21)) : EmsHttp :=
  httpStart (emsHttpGetUrlGreylist (emsHttpGetNas (emsHttpNew srcPort) rule.nas) rule.grey) bind

def emsHttpCreateNew (bind : Option (Fin 21)) (state : HttpMgmt × EmsFw) :
    HttpMgmt × EmsFw :=
  let http := emsHttpCreate rule srcPort bind
  match bind with
  | some _ => ({ state.1 with list := state.1.list ++ [http] }, state.2)
  | none => (state.1, httpStopped state.2 http)

-- The loop of http_start_all over the ports, with what bind answers each.
def createAll (rule : HttpRules) : List Str → List (Option (Fin 21)) → HttpMgmt × EmsFw → HttpMgmt × EmsFw
  | [], _, state => state
  | port :: rest, binds, state => createAll rule rest binds.tail (emsHttpCreateNew rule (emsAtoi port) binds.head?.join state)

def HttpRules.ports : List Str := (rule.port.getD []).filterMap id

-- The first part of the result is EMS_OK; without ports the module sends
-- itself two messages that never reach an SSID.
def httpStartAll : Bool × HttpMgmt × EmsFw :=
  let rule := state.1.rule.getD emsHttpDefaultRules
  (rule.port.isSome, createAll rule rule.ports binds ({ state.1 with rule := some rule }, state.2))

def httpStopAll : HttpMgmt × EmsFw :=
  ({ state.1 with list := [], rule := none }, state.1.list.foldl httpStopped state.2)

def httpRun (run : Bool) (binds : List (Option (Fin 21))) (state : HttpMgmt × EmsFw) : HttpMgmt × EmsFw :=
  if run then
    if state.1.run then state
    else
      let (ok, mgmt, fw) := httpStartAll binds state
      ({ mgmt with run := ok }, fw)
  else if state.1.run then
    let (mgmt, fw) := httpStopAll state
    ({ mgmt with run := false }, fw)
  else state

-- json_object_to_json_string of the current rules, which writes null for NULL.
def HttpMgmt.ruleText (mgmt : HttpMgmt) : Str := (mgmt.rule.map HttpRules.text).getD (ascii "null")

def httpServerRulesUpdate (root : Option HttpRules) (binds : List (Option (Fin 21))) (state : HttpMgmt × EmsFw) :
    HttpMgmt × EmsFw :=
  match root with
  | none => state
  | some rule =>
    if rule.text = state.1.ruleText then state
    else
      let (mgmt, fw) := httpStopAll state
      let mgmt := { mgmt with rule := some rule }
      if mgmt.run then (httpStartAll binds (mgmt, fw)).2 else (mgmt, fw)

def httpFwReload : HttpMgmt × EmsFw := (state.1, state.1.list.foldl (httpSetFree true) state.2)

def httpProcess : HttpMsg → HttpMgmt × EmsFw
  | .serverRulesUpdate root => httpServerRulesUpdate root binds state
  | .evtFwReload => httpFwReload state
  | .start => httpRun true binds state
  | .stop => httpRun false binds state

-- One round of nic_handle_ssid_msgs.
def nicHandleSsidMsg : NicWireless :=
  match ssid.msgEntry with
  | [] => ssid
  | .fw msg :: rest =>
    let (fw, sent) := fwProcess ssid.fw msg
    { ssid with msgEntry := rest ++ sent, fw := fw }
  | .http msg :: rest =>
    let (http, fw) := httpProcess binds (ssid.http, ssid.fw) msg
    ⟨rest, fw, http⟩

-- nic_ssid_fw_reload; `disabled` is of the interface or its authentication.
def nicSsidFwReload (disabled : Bool) : NicWireless :=
  if disabled then { ssid with msgEntry := ssid.msgEntry ++ [.fw .stop] }
  else if ssid.fw.run then { ssid with msgEntry := ssid.msgEntry ++ [.fw .fwClear, .fw .evtFwReload] }
  else ssid

def nicSsidStop : NicWireless :=
  let (http, fw) := httpProcess [] (ssid.http, ssid.fw) .stop
  ⟨[], (fwProcess fw .stop).1, http⟩

-- The senders of START, STOP and the update ask nothing or only whether the
-- module runs; here they send in any state.
inductive Event where
  | http (run : Bool)
  | httpRules (root : Option HttpRules)
  | fw (run : Bool)
  | fwReload (disabled : Bool)
  | ssidStop
  | deliver (binds : List (Option (Fin 21)))
  deriving DecidableEq, Repr

def step : Event → NicWireless
  | .http run => { ssid with msgEntry := ssid.msgEntry ++ [.http (if run then .start else .stop)] }
  | .httpRules root => { ssid with msgEntry := ssid.msgEntry ++ [.http (.serverRulesUpdate root)] }
  | .fw run => { ssid with msgEntry := ssid.msgEntry ++ [.fw (if run then .start else .stop)] }
  | .fwReload disabled => nicSsidFwReload ssid disabled
  | .ssidStop => nicSsidStop ssid
  | .deliver binds => nicHandleSsidMsg ssid binds

-- Both modules as loaded.
def loaded : NicWireless := ⟨[], ⟨false, none, none⟩, ⟨false, none, []⟩⟩

end Codec.Ssid
