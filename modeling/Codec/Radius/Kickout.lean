import Codec.Ems.Text
import Codec.Radius.Module

set_option autoImplicit false

namespace Codec.Radius

open Codec.Ems Codec.Lib

-- The JSON object of a kickout command on its way through the modules.
structure KickoutReq where
  userip : Str
  usermac : Option Str
  username : Option Str
  deriving DecidableEq, Repr

inductive UserEvt where
  | username | radiusLogout
  deriving DecidableEq, Repr

-- The wireless list of ems_nic, each SSID with its RADIUS module and firewall,
-- and what ems_send_message has queued for ty_nic.
structure Nic where
  ssids : List World
  queue : List KickoutReq

def radiusUsername (w : World) (root : KickoutReq) : Int × KickoutReq :=
  if root.userip = [] then (-1, root)
  else
    match radiusFindDev w.devs root.userip with
    | some dev => (0, { root with username := some dev.name })
    | none => (-1, root)

variable (nic : Nic) (ssids : List World)

def raProcessUser (w : World) (evt : UserEvt) (root : KickoutReq) : Int × World × KickoutReq :=
  match evt with
  | .username => ((radiusUsername w root).1, w, (radiusUsername w root).2)
  | .radiusLogout =>
    let name := root.username.getD []
    if w.run then
      (if name = [] ∨ root.userip = [] then -1 else 0, radiusCmdLogout w name root.userip (root.usermac.getD []), root)
    else (-1, w, root)

section Walk

variable (cb : World → KickoutReq → Int × World × KickoutReq)

-- The walk ends with the first callback that does not answer EMS_OK.
def nicWalkSsid : List World → KickoutReq → Int × List World × KickoutReq
  | [], arg => (0, [], arg)
  | ssid :: rest, arg =>
    match cb ssid arg with
    | (0, ssid, arg) =>
      let done := nicWalkSsid rest arg
      (done.1, ssid :: done.2.1, done.2.2)
    | (ret, ssid, arg) => (ret, ssid :: rest, arg)

end Walk

def nicEvtUsername (ssid : World) (jobj : KickoutReq) : Int × World × KickoutReq :=
  let done := raProcessUser ssid .username jobj
  (if done.1 = 0 then -1 else 0, done.2)

def nicEvtRadiusLogout (ssid : World) (jobj : KickoutReq) : Int × World × KickoutReq :=
  (0, (raProcessUser ssid .username jobj).2)

def nicProcess (evt : UserEvt) (root : KickoutReq) : List World × KickoutReq :=
  match evt with
  | .username => (nicWalkSsid nicEvtUsername ssids root).2
  | .radiusLogout => (nicWalkSsid nicEvtRadiusLogout ssids root).2

-- ems_app_radius_username: what the modules answer, cut to fit into 128 bytes.
def emsAppRadiusUsername (ip : Str) : List World × Str :=
  let done := nicProcess ssids .username ⟨ip, none, none⟩
  (done.1, (done.2.username.getD []).take 127)

def lowerCase (byte : UInt8) : UInt8 := if 65 ≤ byte ∧ byte ≤ 90 then byte + 32 else byte

def strcasecmp (one other : Str) : Bool := one.map lowerCase = other.map lowerCase

-- MSG_ST_INVALID_ARG for what is not there or not a string; `mac` is what arp
-- answers. Any other method asks for the list of users.
def emsCmdUser (method userip : Option Str) (mac : Str) : Int × Nic :=
  match method with
  | none => (-6, nic)
  | some method =>
    if strcasecmp method (ascii "kickout") then
      match userip with
      | none => (-6, nic)
      | some ip =>
        let name := emsAppRadiusUsername nic.ssids ip
        (0, ⟨name.1, nic.queue ++ [⟨ip, some mac, some name.2⟩]⟩)
    else (0, nic)

inductive NicEvent where
  | created (iface : Iface)
  | destroyed (place : Nat)
  | ssid (place : Nat) (event : Event)
  | command (method userip : Option Str) (mac : Str)
  | deliver

def nicStep : NicEvent → Nic
  | .created iface => { nic with ssids := nic.ssids ++ [World.init iface] }
  | .destroyed place => { nic with ssids := nic.ssids.eraseIdx place }
  | .ssid place event => { nic with ssids := nic.ssids.modify place fun w => step w event }
  | .command method userip mac => (emsCmdUser nic method userip mac).2
  | .deliver =>
    match nic.queue with
    | [] => nic
    | root :: rest => ⟨(nicProcess nic.ssids .radiusLogout root).1, rest⟩

def Nic.init : Nic := ⟨[], []⟩

-- The command, and core_evt_cb behind it until nothing is queued any more.
def kickout (ip mac : Str) : Nic :=
  run nicStep nic (.command (some (ascii "kickout")) (some ip) mac :: List.replicate (nic.queue.length + 1) .deliver)

def Authenticated (dev : Device) : Prop := dev.st = .acct ∨ dev.st = .normal ∨ dev.st = .hb

instance (dev : Device) : Decidable (Authenticated dev) := inferInstanceAs (Decidable (_ ∨ _))

structure KicksOut (before after : Nic) (place : Nat) (dev : Device) : Prop where
  entered : ∃ old new front behind entry, before.ssids[place]? = some old ∧ after.ssids[place]? = some new ∧
    old.devs = front ++ dev :: behind ∧ new.devs = front ++ (Option.toList entry ++ behind) ∧
      (∀ now ∈ entry, now.id = dev.id ∧ now.st = .acctStop) ∧ acceptRule dev.ip dev.mac ∉ new.sh.fw.authed
  others : ∀ other, other ≠ place → (after.ssids[other]?).map World.devs = (before.ssids[other]?).map World.devs

section Walks

variable (cb : World → KickoutReq → Int × World × KickoutReq) (keeps : ∀ ssid arg, (cb ssid arg).2.1 = ssid)

include keeps

theorem walk_keeps (ssids : List World) (arg : KickoutReq) : (nicWalkSsid cb ssids arg).2.1 = ssids := by
  induction ssids generalizing arg with
  | nil => rfl
  | cons ssid rest ih =>
    have same := keeps ssid arg
    rw [nicWalkSsid]
    split
    · rename_i now next answer
      rw [answer] at same
      exact congrArg₂ _ same (ih next)
    · rename_i ret now next _ answer
      rw [answer] at same
      exact congrArg (· :: rest) same

end Walks

theorem user_evt_keeps (evt : UserEvt) (root : KickoutReq) : (nicProcess ssids evt root).1 = ssids := by
  cases evt with
  | username => exact walk_keeps _ (fun _ _ => rfl) _ root
  | radiusLogout => exact walk_keeps _ (fun _ _ => rfl) _ root

theorem command_keeps (method userip : Option Str) (mac : Str) :
    (nicStep nic (.command method userip mac)).ssids = nic.ssids := by
  cases method with
  | none => rfl
  | some method =>
    by_cases kick : strcasecmp method (ascii "kickout") = true
    · cases userip with
      | none => simp only [nicStep, emsCmdUser, if_pos kick]
      | some ip =>
        simp only [nicStep, emsCmdUser, if_pos kick]
        exact user_evt_keeps _ _ _
    · simp only [nicStep, emsCmdUser, if_neg kick]

theorem deliver_keeps : (nicStep nic .deliver).ssids = nic.ssids := by
  rw [nicStep]
  split
  · rfl
  · exact user_evt_keeps _ _ _

theorem kickout_keeps (ip mac : Str) : (kickout nic ip mac).ssids = nic.ssids := by
  have delivered (count : Nat) (nic : Nic) : (run nicStep nic (List.replicate count .deliver)).ssids = nic.ssids := by
    induction count generalizing nic with
    | zero => rfl
    | succ count ih => exact (ih _).trans (deliver_keeps nic)
  exact (delivered _ _).trans (command_keeps nic _ _ mac)

theorem unchanged_not_kicked (before after : Nic) (same : after.ssids = before.ssids) (place : Nat) (dev : Device)
    (authed : Authenticated dev) : ¬ KicksOut before after place dev := by
  rintro ⟨⟨old, new, front, behind, entry, here, there, was, now, stopped, _⟩, _⟩
  rw [same, here] at there
  rw [← Option.some.inj there, was] at now
  have rest := List.append_cancel_left now
  cases entry with
  | none =>
    have size := congrArg List.length rest
    simp at size
  | some entry =>
    have still := (List.cons.inj rest).1
    have stop := (stopped _ rfl).2
    rw [← still] at stop
    rcases authed with acct | normal | hb
    · rw [acct] at stop
      cases stop
    · rw [normal] at stop
      cases stop
    · rw [hb] at stop
      cases stop

theorem kickout_never_works (events : List NicEvent) (place : Nat) (w : World) (dev : Device) (mac : Str)
    (_there : (run nicStep Nic.init events).ssids[place]? = some w) (_listed : dev ∈ w.devs) (authed : Authenticated dev) :
    ¬ KicksOut (run nicStep Nic.init events) (kickout (run nicStep Nic.init events) dev.ip mac) place dev :=
  unchanged_not_kicked _ _ (kickout_keeps _ _ mac) _ dev authed

def kickoutRun : List NicEvent := .created sampleIface :: loginRun.map (.ssid 0)

def loggedIn : World := run step (World.init sampleIface) loginRun

theorem logged_in_some : loggedIn.devs ≠ [] := by decide +kernel

theorem logged_in_reached : (run nicStep Nic.init kickoutRun).ssids[0]? = some loggedIn := by decide +kernel

theorem logged_in_authenticated : Authenticated (loggedIn.devs.head logged_in_some) := by decide +kernel

theorem kickout_never_works_login : ¬ KicksOut (run nicStep Nic.init kickoutRun)
      (kickout (run nicStep Nic.init kickoutRun) (loggedIn.devs.head logged_in_some).ip [109]) 0 (loggedIn.devs.head logged_in_some) :=
  kickout_never_works _ 0 _ _ _ logged_in_reached (List.head_mem _) logged_in_authenticated

theorem kicked_out_stays : ¬ ∀ (events : List NicEvent) (place : Nat) (w : World) (dev : Device) (mac : Str),
      (run nicStep Nic.init events).ssids[place]? = some w → dev ∈ w.devs → Authenticated dev →
        KicksOut (run nicStep Nic.init events) (kickout (run nicStep Nic.init events) dev.ip mac) place dev := by
  intro claim
  have kicked := claim _ 0 _ _ [109] logged_in_reached (List.head_mem _) logged_in_authenticated
  exact unchanged_not_kicked _ _ (kickout_keeps _ _ _) 0 _ logged_in_authenticated kicked

end Codec.Radius
