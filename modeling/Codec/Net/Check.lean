import Codec.Lib.Chains
import Codec.Lib.Runs
import Codec.Ems.Text
import Codec.Radius.Handlers

set_option autoImplicit false

namespace Codec.Net

open Codec.Ems Codec.Lib
open Codec.Radius (icmpKind)

inductive Status where
  | start | stopped | normal | hb | err
  deriving DecidableEq, Repr

inductive Chain where
  | prerouting
  | netNetworkDown
  | foreign (name : Nat)
  deriving DecidableEq, Repr

-- The LAN interface and address the rules are written with.
structure Lan where
  ifname : Str
  addr : Str
  deriving DecidableEq, Repr

-- The jump, the redirects of foreign web and of all DNS traffic to the
-- gateway, and whatever other modules write.
inductive Rule where
  | jump
  | http (lan : Lan)
  | dns (lan : Lan)
  | foreign (rule : Nat)
  deriving DecidableEq, Repr

def Rule.target : Rule → Option Chain
  | .jump => some .netNetworkDown
  | _ => none

inductive Msg where
  | start
  | stop
  | dnsInterceptStart
  | dnsInterceptStop
  | networkUp
  | networkDown
  deriving DecidableEq, Repr

structure Echo where
  ident : Nat
  seq : Nat
  deriving DecidableEq, Repr

inductive Watch where
  | none | read | write
  deriving DecidableEq, Repr

-- The raw socket's session. `out` is the echo request in the output buffer,
-- `timer` the delay of the pending timeout.
structure Session where
  addr : Str
  opened : Bool
  watch : Watch
  timer : Option Nat
  bufIn : Buffer
  out : Option Echo
  unsent : Bool
  deriving DecidableEq, Repr

def sessionNew : Session where
  addr := []
  opened := false
  watch := .none
  timer := none
  bufIn := Buffer.init 1024
  out := none
  unsent := false

-- netcheck with the flags of its module and of the core it works on: `run`
-- and `dnsRun` are FLG_RUN and FLG_NET_DNS_RUN, `envReady` FLG_ENV_READY,
-- `networkReady` FLG_NETWORK_READY, `escape` the configuration's setting.
-- `verdict` is the last one of the check under way, `passed` notes a read of
-- net_addrs behind its end; the code has neither.
structure Netcheck where
  run : Bool
  dnsRun : Bool
  st : Status
  envReady : Bool
  ntrans : Nat
  ident : Nat
  id : Nat
  retry : Int
  sess : Option Session
  sessDns : Bool
  networkReady : Bool
  escape : Bool
  nat : Chains Chain Rule
  queue : List Msg
  verdict : Option Bool
  passed : Bool
  deriving DecidableEq, Repr

def Netcheck.init (nat : Chains Chain Rule) : Netcheck where
  run := false
  dnsRun := false
  st := .stopped
  envReady := false
  ntrans := 0
  ident := 0
  id := 0
  retry := 0
  sess := none
  sessDns := false
  networkReady := false
  escape := false
  nat := nat
  queue := []
  verdict := none
  passed := false

-- What the outside answers while one event is handled: random(), the first
-- line of the default route, and whether the ICMP socket and the intercept
-- socket can be had.
structure World where
  random : Nat
  gateway : Str
  connects : Bool
  binds : Bool
  deriving DecidableEq, Repr

def pingSendTimeout : Nat := 2000
def pingIdleTimeout : Nat := 5000

-- The array's second element is the NULL that ends it.
def netAddrs : List (Option Str) := [some (ascii "115.28.38.73"), none]

def Netcheck.post (net : Netcheck) (msg : Msg) : Netcheck := { net with queue := net.queue ++ [msg] }

def Netcheck.onSess (net : Netcheck) (change : Session → Session) : Netcheck := { net with sess := net.sess.map change }

section Check

variable (lan : Lan) (world : World)

def fwNetworkReady (up : Bool) (net : Netcheck) : Netcheck :=
  if up then
    ({ net with nat := prune Rule.target net.nat .netNetworkDown .prerouting .jump }.post .dnsInterceptStop).post .networkUp
  else
    let linked := grow Rule.target net.nat .netNetworkDown .prerouting .jump
    let web := appendRule Rule.target linked .netNetworkDown (.http lan)
    ({ net with nat := appendRule Rule.target web .netNetworkDown (.dns lan) }.post .dnsInterceptStart).post .networkDown

def fwNetworkUpt (up : Bool) (net : Netcheck) : Netcheck :=
  let net := { net with verdict := some up }
  if net.envReady && net.networkReady == up then net
  else fwNetworkReady lan up { net with envReady := true, networkReady := up }

-- The switches of ping_change_status, one for each state entered.
def pingStopped (net : Netcheck) : Netcheck :=
  { fwNetworkUpt lan true { net with st := .stopped, sess := none } with envReady := false, verdict := none }

def pingErr (net : Netcheck) : Netcheck :=
  fwNetworkUpt lan false ({ net with st := .err }.onSess fun sess =>
    { sess with watch := .none, opened := false, timer := some pingIdleTimeout })

def pingStIntoPing (net : Netcheck) : Netcheck :=
  { net with st := .hb, ntrans := net.ntrans + 1, retry := 3 }.onSess fun sess =>
    { sess with
      out := some ⟨net.ident, net.ntrans % 65536⟩, unsent := true, watch := .write, timer := some pingSendTimeout }

-- ping_gw_connect; false is EMS_ERR.
def pingGwConnect (net : Netcheck) : Netcheck × Bool :=
  if world.connects then (net.onSess fun sess => { sess with opened := true }, true) else (net, false)

-- ping_start and what it returns; false is EMS_ERR. ping_gw_addr has a buffer
-- of 64 bytes for the address.
def pingStart (net : Netcheck) : Netcheck × Bool :=
  let net := { net with st := .start }
  if net.escape then (pingStopped lan net, false)
  else
    let sess := { net.sess.getD sessionNew with out := none, unsent := false }
    let net := { net with sess := some { sess with bufIn := sess.bufIn.clear } }
    let net := { net with ident := world.random % 65536, ntrans := 0, id := 0, retry := 3 }
    if world.gateway = [] then (pingErr lan net, true)
    else
      let net := net.onSess fun sess => { sess with addr := world.gateway.take 63 }
      let got := pingGwConnect world net
      if got.2 then (pingStIntoPing got.1, true) else (pingErr lan got.1, true)

-- The callback of the session's timeout in st_hb.
def pingToPing (net : Netcheck) : Netcheck :=
  let net := { net with retry := net.retry - 1 }.onSess fun sess => { sess with watch := .none }
  if net.retry ≠ 0 then
    net.onSess fun sess => { sess with unsent := sess.out.isSome, watch := .write, timer := some pingSendTimeout }
  else
    match netAddrs[net.id]? with
    | none => { net with passed := true }
    | some none => pingErr lan { net with id := net.id + 1 }
    | some (some addr) =>
      let net := { net with id := net.id + 1 }.onSess fun sess => { sess with opened := false, addr := addr }
      let got := pingGwConnect world net
      if got.2 then pingStIntoPing got.1 else pingErr lan got.1

def pingTimeout (net : Netcheck) : Netcheck :=
  match net.st with
  | .normal => pingStIntoPing net
  | .hb => pingToPing lan world net
  | .err => (pingStart lan world net).1
  | .start => net
  | .stopped => net

-- ping_recv_handle on what buf_in holds.
def pingRecvHandle (net : Netcheck) : Netcheck :=
  match net.sess with
  | none => net
  | some sess =>
    match icmpKind sess.bufIn.content net.ident with
    | .short => net
    | .other => net.onSess fun sess => { sess with bufIn := sess.bufIn.clear }
    | .reply =>
      let net := net.onSess fun sess =>
        { sess with bufIn := sess.bufIn.clear, watch := .none, timer := some pingIdleTimeout }
      { fwNetworkUpt lan true net with st := .normal }

def pingRecvLoop (start room : Nat) : List Recv → Netcheck → Netcheck × Bool
  | [], net => (net, true)
  | .again :: _, net => (net, true)
  | .failed :: _, net => (net, false)
  | .data bytes :: rest, net =>
    if bytes.take room = [] then (net, false)
    else
      let net := net.onSess fun sess =>
        let filled := sess.bufIn.poke start (bytes.take room)
        { sess with bufIn := (filled.seekWr (bytes.take room).length .cur).getD filled }
      pingRecvLoop start room rest (pingRecvHandle lan net)

def pingSend (result : Send) (net : Netcheck) : Netcheck × Bool :=
  match net.sess with
  | none => (net, false)
  | some sess =>
    if ¬ sess.opened ∨ ¬ sess.unsent then (net, false)
    else
      match result with
      | .sent => (net.onSess fun sess => { sess with unsent := false, watch := .read }, true)
      | .again => (net, true)
      | .failed => (net.onSess fun sess => { sess with opened := false }, false)

-- An event of the epoll loop on the raw socket.
inductive SockEvent where
  | error
  | read (stream : List Recv)
  | write (result : Send)
  deriving DecidableEq, Repr

def pingPing (event : SockEvent) (net : Netcheck) : Netcheck :=
  match event, net.sess with
  | .read stream, some sess =>
    let got := pingRecvLoop lan sess.bufIn.wr sess.bufIn.left stream net
    if got.2 then got.1 else pingErr lan got.1
  | .write result, _ =>
    let got := pingSend result net
    if got.2 then got.1 else pingErr lan got.1
  | _, _ => net

-- The dispatch of ping_evt_run. ping_normal does nothing.
def pingEvtRun (event : SockEvent) (net : Netcheck) : Netcheck :=
  match net.st with
  | .start => (pingStart lan world net).1
  | .stopped => pingStopped lan net
  | .normal => net
  | .hb => pingPing lan event net
  | .err => pingErr lan net

-- ping_evt_cb; what is not subscribed is not delivered.
def pingEvt (event : SockEvent) (net : Netcheck) : Netcheck :=
  match event, (net.sess.map Session.watch).getD .none with
  | .error, .read => pingErr lan net
  | .error, .write => pingErr lan net
  | .read stream, .read => pingEvtRun lan world (.read stream) net
  | .write result, .write => pingEvtRun lan world (.write result) net
  | _, _ => net

def netRun (run : Bool) (net : Netcheck) : Netcheck :=
  if run then
    if net.run then net
    else
      let got := pingStart lan world net
      if got.2 then { got.1 with run := true } else got.1
  else if ¬ net.run then net
  else pingStopped lan { net with run := false }

-- net_dns_intercept_run. A socket that cannot be bound leaves the flag unset.
def netDnsInterceptRun (run : Bool) (net : Netcheck) : Netcheck :=
  if run then
    if net.dnsRun then net
    else if world.binds then { net with sessDns := true, dnsRun := true }
    else { net with sessDns := false }
  else if ¬ net.dnsRun then net
  else { net with dnsRun := false, sessDns := false }

-- NETWORK_UP and NETWORK_DOWN go to the client module.
def netProcess (msg : Msg) (net : Netcheck) : Netcheck :=
  match msg with
  | .start => netRun lan world true net
  | .stop => netRun lan world false net
  | .dnsInterceptStop => netDnsInterceptRun world false net
  | .dnsInterceptStart => if ¬ net.run then net else netDnsInterceptRun world true net
  | .networkUp => net
  | .networkDown => net

end Check

-- START and STOP reach the module through the queue or by a direct call.
inductive Event where
  | send (run : Bool)
  | call (run : Bool) (world : World)
  | deliver (world : World)
  | escape (on : Bool)
  | timeout (world : World)
  | sock (event : SockEvent) (world : World)
  | dnsError
  deriving DecidableEq, Repr

def runMsg (run : Bool) : Msg := if run then .start else .stop

def netStep (lan : Lan) (net : Netcheck) : Event → Netcheck
  | .send run => net.post (runMsg run)
  | .call run world => netProcess lan world (runMsg run) net
  | .deliver world =>
    match net.queue with
    | [] => net
    | msg :: rest => netProcess lan world msg { net with queue := rest }
  | .escape on => { net with escape := on }
  | .timeout world =>
    if (net.sess.bind Session.timer).isSome then
      pingTimeout lan world (net.onSess fun sess => { sess with timer := none })
    else net
  | .sock event world => pingEvt lan world event net
  | .dnsError => if net.sessDns then { net with sessDns := false } else net

end Codec.Net
