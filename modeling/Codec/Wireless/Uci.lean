import Codec.Lib.Assoc
import Codec.Ssid.Redirect

set_option autoImplicit false

namespace Codec.Wireless

open Codec.Ems Codec.Lib
open Codec.Fw (emsAtoi)

inductive UciValue
  | string (text : Str)
  | list (items : List Str)
deriving DecidableEq

-- A section as it stands in the file; an anonymous one has no name there.
structure UciSection where
  declared : Option Str
  type : Str
  options : List (Str × UciValue)
deriving DecidableEq

-- uci_package: a loaded file, each section under the name by which uci_lookup_ptr
-- finds it.
abbrev Package := List (Str × UciSection)

-- What libuci decides: the name it makes up for an anonymous section out of the
-- number of such sections so far, the type and the options, the values it takes,
-- and what a tuple does that was cut in the middle.
structure LibUci where
  generated : Nat → Str → List (Str × UciValue) → Str
  accepts : Str → Str → Bool
  setCut : Package → Str → Option Package
  numbered : ∀ m type options n other more, m < 2 ^ 31 → n < 2 ^ 31 → generated m type options = generated n other more → m = n
  proper : ∀ n type options, generated n type options ≠ []
  short : ∀ n type options, (generated n type options).length ≤ 15

-- json_object: a value that is no string is none.
abbrev Json := List (Str × Option Str)

def uciCfgWireless : Str := ascii "wireless"
def uciSectionName : Str := ascii "section_name"
def uciSectionType : Str := ascii "section_type"
def emsIfaceId : Str := ascii "ems_iface_id"

-- ems_json_get_string_def with the default NULL; str_len of NULL is 0.
def jsonText (obj : Json) (key : Str) : Str := (obj.lookup key).join.getD []

section Names

variable (uci : LibUci)

def sectionName (count : Nat) (s : UciSection) : Str := s.declared.getD (uci.generated (count + 1) s.type s.options)

def anonymous (file : List UciSection) : Nat := file.countP fun s => s.declared.isNone

-- uci_load: n_section counts the anonymous sections of the file.
def uciLoadFrom : Nat → List UciSection → Package
  | _, [] => []
  | count, s :: rest => (sectionName uci count s, s) :: uciLoadFrom (count + anonymous [s]) rest

def uciLoad (file : List UciSection) : Package := uciLoadFrom uci 0 file

end Names

-- uci_set on one section: an empty value deletes the option.
def setOption (options : List (Str × UciValue)) (key value : Str) : List (Str × UciValue) :=
  if value = [] then dropEntry key options else putEntry key (.string value) options

def uciSet : Package → Str → Str → Str → Package
  | [], _, _, _ => []
  | (name, s) :: rest, section_, key, value =>
    if name = section_ then (name, { s with options := setOption s.options key value }) :: rest
    else (name, s) :: uciSet rest section_ key value

-- Only an option of UCI_TYPE_STRING is taken over.
def loadOption (obj : Json) : Str × UciValue → Json
  | (key, .string text) => putEntry key (some text) obj
  | (_, .list _) => obj

def emsUciLoadSection (name : Str) (s : UciSection) : Json :=
  s.options.foldl loadOption [(uciSectionName, some name), (uciSectionType, some s.type)]

section Write

variable (uci : LibUci)

def emsUciLoadCfg (file : List UciSection) : List Json := (uciLoad uci file).map fun entry => emsUciLoadSection entry.1 entry.2

-- The room of core_buffer.
variable (room : Nat)

def uciTuple (section_ key value : Str) : Str := uciCfgWireless ++ 46 :: section_ ++ 46 :: key ++ 61 :: value

def emsUciSetOption (pkg : Package) (section_ key value : Str) : Option Package :=
  if (uciTuple section_ key value).length < room then
    if uci.accepts key value then some (uciSet pkg section_ key value) else none
  else uci.setCut pkg ((uciTuple section_ key value).take (room - 1))

def emsUciUpdateSectionOption (section_ : Str) : Json → Package → Package
  | [], pkg => pkg
  | (_, none) :: rest, pkg => emsUciUpdateSectionOption section_ rest pkg
  | (key, some value) :: rest, pkg =>
    if key = uciSectionName ∨ key = uciSectionType then emsUciUpdateSectionOption section_ rest pkg
    else match emsUciSetOption uci room pkg section_ key value with
      | some pkg => emsUciUpdateSectionOption section_ rest pkg
      | none => pkg

def emsUciAppendSection (obj : Json) (pkg : Package) (type : Str) : Json × Package :=
  let name := uci.generated (anonymous (pkg.map Prod.snd) + 1) type []
  (putEntry uciSectionName (some name) obj, pkg ++ [(name, ⟨none, type, []⟩)])

def emsUciUpdateSection (obj : Json) (pkg : Package) : Json × Package :=
  let type := jsonText obj uciSectionType
  if type = [] then (obj, pkg)
  else
    let named := if jsonText obj uciSectionName = [] then emsUciAppendSection uci obj pkg type else (obj, pkg)
    let name := jsonText named.1 uciSectionName
    if name = [] then named else (named.1, emsUciUpdateSectionOption uci room name named.1 named.2)

def emsUciUpdateCfg : List Json → Package → List Json × Package
  | [], pkg => ([], pkg)
  | obj :: rest, pkg =>
    let first := emsUciUpdateSection uci room obj pkg
    let later := emsUciUpdateCfg rest first.2
    (first.1 :: later.1, later.2)

-- The array comes back with the names of its new sections.
def emsUciWriteCfg (ary : List Json) (file : List UciSection) : List Json × List UciSection :=
  let result := emsUciUpdateCfg uci room ary (uciLoad uci file)
  (result.1, result.2.map Prod.snd)

-- cmd holds 511 characters.
def emsUciRemoveSection (file : List UciSection) (section_ : Str) : List UciSection :=
  let names := (uciLoad uci file).map Prod.fst
  let found := names.findIdx fun name => name = section_.take (511 - (uciCfgWireless.length + 1))
  file.eraseIdx found

end Write

def ifaceId (obj : Json) : Option Int :=
  let text := jsonText obj emsIfaceId
  if text = [] then none else some (emsAtoi text)

def emsUciFindSsid (ary : List Json) (id : Nat) : Option Nat := ary.findIdx? fun obj => ifaceId obj = some (id : Int)

open Codec.Ssid (emsItoa)

-- One element of the server's ssid array: ssid_1_iface, ssid_1_portal and so on.
abbrev ServerSsid := List (Str × Json)

def wifiIface : Str := ascii "wifi-iface"
def ssidKey : Str := ascii "ssid"
def emsSsidSuffix : Str := ascii "ems_ssid_suffix"
def bwlistKey : Str := ascii "bwlist"
def httpKey : Str := ascii "http"

def portalFields : List (Str × Str) :=
  [(ascii "enable", ascii "ems_portal_enable"),
   (ascii "addr", ascii "ems_portal_address"),
   (ascii "port", ascii "ems_portal_port"),
   (ascii "redirect_port", ascii "ems_portal_redirect_port"),
   (ascii "reg_period", ascii "ems_portal_register_period"),
   (ascii "hb_period", ascii "ems_portal_heartbeat_period")]

def radiusFields : List (Str × Str) :=
  [(ascii "addr", ascii "ems_radius_address"),
   (ascii "secret", ascii "ems_radius_shared_key"),
   (ascii "authport", ascii "ems_radius_auth_port"),
   (ascii "acctport", ascii "ems_radius_acct_port"),
   (ascii "rp_period", ascii "ems_radius_acct_period"),
   (ascii "disconnect", ascii "ems_offline_disconnect")]

-- The texts of one object of the server go into the section, each under its own
-- option; an absent or an empty one leaves the option alone.
def textsUpt (fields : List (Str × Str)) (jssid root : Json) : Json :=
  fields.foldl (fun jssid field =>
    let value := jsonText root field.1
    if value = [] then jssid else putEntry field.2 (some value) jssid) jssid

def clPortalCfgUpt (jssid ptl : Json) : Json := textsUpt portalFields jssid ptl

def clRadiusCfgUpt (jssid radius : Json) : Json := textsUpt radiusFields jssid radius

def clBwlistCfgUpt (jssid : Json) : Json := putEntry bwlistKey none jssid

def clHttpCfgUpt (jssid : Json) : Json := putEntry httpKey none jssid

-- ssid and new_ssid are 32 bytes.
def clIfaceSsidSuffixUpt (jssid : Json) (newSuffix : Str) : Json :=
  match jssid.lookup ssidKey with
  | none => jssid
  | some jobj =>
    let ssid := (jobj.getD []).take 31
    let suffix := jsonText jssid emsSsidSuffix
    if newSuffix.length = suffix.length ∧ (suffix = [] ∨ newSuffix = suffix) then jssid
    else
      let base := if suffix = [] then ssid else ((strstr suffix ssid).map Prod.fst).getD ssid
      putEntry ssidKey (some ((base ++ newSuffix).take 31)) jssid

def clIfaceCfgUpt (jssid : Json) (root : Option Json) : Json :=
  match root with
  | none => jssid
  | some root =>
    let suffix := jsonText root (ascii "ssid_hz")
    putEntry emsSsidSuffix (some suffix) (clIfaceSsidSuffixUpt jssid suffix)

def ssidOption (id : Nat) (part : Str) : Str := ascii "ssid_" ++ emsItoa id ++ 95 :: part

def emsUciCreateSsid (id : Nat) : Json :=
  [(ascii "device", some (ascii "ra0")),
   (ascii "network", some (ascii "lan")),
   (ascii "mode", some (ascii "ap")),
   (ascii "encryption", some (ascii "none")),
   (ssidKey, some (emsItoa id ++ ascii "_unspecified")),
   (ascii "disabled", some (ascii "1")),
   (emsIfaceId, some (emsItoa id)),
   (uciSectionType, some wifiIface)]

-- One turn of the loop in cl_wireless_cfg_update, once it has its section.
def ssidUpdate (id : Nat) (jobj : ServerSsid) (jssid : Json) : Json :=
  let jssid := clIfaceCfgUpt jssid (jobj.lookup (ssidOption id (ascii "iface")))
  let jssid := clPortalCfgUpt jssid ((jobj.lookup (ssidOption id (ascii "portal"))).getD [])
  let jssid := clRadiusCfgUpt jssid ((jobj.lookup (ssidOption id (ascii "radius"))).getD [])
  clHttpCfgUpt (clBwlistCfgUpt jssid)

def clWirelessCfgUpdate : Nat → List ServerSsid → List Json → List Json
  | _, [], cfg => cfg
  | i, jobj :: rest, cfg =>
    let id := i + 1
    let cfg := match emsUciFindSsid cfg id with
      | some at_ => cfg.modify at_ (ssidUpdate id jobj)
      | none => cfg ++ [ssidUpdate id jobj (emsUciCreateSsid id)]
    clWirelessCfgUpdate (i + 1) rest cfg

section Process

variable (uci : LibUci) (room : Nat)

-- The loop of cl_cfg_remove_section from i down; count is the server's.
def clCfgRemoveSection (cfg : List Json) (count : Nat) : Nat → List UciSection → List UciSection
  | 0, file => file
  | i + 1, file =>
    if count < i + 1 then
      let name := jsonText (cfg[i]?.getD []) uciSectionName
      clCfgRemoveSection cfg count i (if name = [] then file else emsUciRemoveSection uci file name)
    else file

-- cl_process_rules, what it does to the wireless file for a message with an
-- array of SSIDs, outside the bridge mode.
def clProcessRules (server : List ServerSsid) (file : List UciSection) : List UciSection :=
  let ary := clWirelessCfgUpdate 0 server (emsUciLoadCfg uci file)
  let written := emsUciWriteCfg uci room ary file
  if server.length < written.1.length then
    clCfgRemoveSection uci written.1 server.length (written.1.length - 1) written.2
  else written.2

end Process

end Codec.Wireless
