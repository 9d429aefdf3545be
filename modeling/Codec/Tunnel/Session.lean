import Codec.Tunnel.Frame
import Codec.Http.Session
import Codec.Ems.Event
import Codec.Ems.Hash
import Codec.Ssid.Redirect

set_option autoImplicit false

namespace Codec.Tunnel

open Codec.Ems
open Codec.Http (Arrival Take sockRead sockSend)

-- The tunnel's buf_in: 1K, increased by 2K. It is refreshed after every frame,
-- so that its room is what the bytes in it leave.
def sizeBufIn : Nat := 3072

inductive Parsed where
  | cont
  | invalid
  | frame (pkg : Pkg) (rest : Str)
  deriving DecidableEq, Repr

-- tunnel_process_rsp up to the callback. The header is swapped in place only
-- when the whole frame is there.
def tunnelProcessRsp (input : Str) : Parsed :=
  if input.length ≤ sizeTunnelHl then .cont
  else
    let len := ntohs (input.drop 2)
    if 2048 < len then .invalid
    else if input.length < len + sizeTunnelHl then .cont
    else
      let flgty := UInt16.ofNat (ntohs input)
      let id := UInt32.ofNat (ntohl (input.drop 4))
      .frame ⟨flgty, id, (input.drop sizeTunnelHl).take len⟩ (input.drop (len + sizeTunnelHl))

section Loop

-- The callback of tunnel_recv_msg, what EMS_SLOW_DOWN makes it do to its own
-- event, and whether the descriptor is still open.
variable {σ : Type} (dispatch : σ → Pkg → Ret × σ) (slow : σ → σ) (opened : σ → Bool)

structure Pass (σ : Type) where
  ret : Ret
  state : σ
  input : Str
  again : Bool

-- The do-while loop; every round takes at least nine bytes from the input.
def processAll : Nat → σ → Str → Bool → Pass σ
  | 0, state, input, again => ⟨.cont, state, input, again⟩
  | fuel + 1, state, input, again =>
    match tunnelProcessRsp input with
    | .cont => ⟨.cont, state, input, again⟩
    | .invalid => ⟨.err, state, [], again⟩
    | .frame pkg rest =>
      match dispatch state pkg with
      | (.err, next) => ⟨.err, next, rest, again⟩
      | (.insufficient, next) => ⟨.err, next, rest, again⟩
      | (.cont, next) => ⟨.cont, next, rest, again⟩
      | (.slowDown, next) => processAll fuel (slow next) rest false
      | (.ok, next) => processAll fuel next rest again

-- The one call of tunnel_process_rsp before EMS_ERR when the peer is gone.
def processLast (state : σ) (input : Str) : σ × Str :=
  match tunnelProcessRsp input with
  | .cont => (state, input)
  | .invalid => (state, [])
  | .frame pkg rest => ((dispatch state pkg).2, rest)

structure Received (σ : Type) where
  fine : Bool
  state : σ
  input : Str
  stream : List Arrival

-- tunnel_recv_msg. A round that goes on has taken bytes from the stream, so
-- the stream's length bounds the rounds.
def tunnelRecvMsg : Nat → σ → Str → List Arrival → Received σ
  | 0, state, input, stream => ⟨true, state, input, stream⟩
  | fuel + 1, state, input, stream =>
    if opened state = false then
      let last := processLast dispatch state input
      ⟨false, last.1, last.2, stream⟩
    else
      match sockRead (sizeBufIn - input.length) stream with
      | (.zero, got, rest) =>
        let last := processLast dispatch state (input ++ got)
        ⟨false, last.1, last.2, rest⟩
      | (.failed, _, rest) =>
        let last := processLast dispatch state input
        ⟨false, last.1, last.2, rest⟩
      | (.again, got, rest) =>
        let pass := processAll dispatch slow (input ++ got).length state (input ++ got) false
        ⟨pass.ret ≠ .err, pass.state, pass.input, rest⟩
      | (.full, got, rest) =>
        let pass := processAll dispatch slow (input ++ got).length state (input ++ got) true
        if got = [] then
          let last := processLast dispatch state input
          ⟨false, last.1, last.2, rest⟩
        else if pass.ret = .err then ⟨false, pass.state, pass.input, rest⟩
        else if pass.again then tunnelRecvMsg fuel pass.state pass.input rest
        else ⟨true, pass.state, pass.input, rest⟩

end Loop

-- tunnel_send_msg, up to what it makes of the events: `sent` is what the
-- socket took, `notified` tells that every session's speed is restored, and
-- `fine` is NO on a failure, which closes the socket.
structure SendResult where
  fine : Bool
  sent : Str
  buf : Buffer
  notified : Bool
  deriving DecidableEq, Repr

def tunnelSendMsg (buf : Buffer) (notify : Bool) (takes : List Take) : SendResult :=
  match sockSend takes buf.content with
  | (none, sent, _) => ⟨false, sent, buf, false⟩
  | (some _, sent, _) =>
    if buf.len = 0 then ⟨true, [], buf, false⟩
    else
      let taken := (buf.seekRd sent.length .cur).getD buf
      let notified := notify && decide (taken.len < 262144)
      let fresh := if notified then taken.refresh else taken
      ⟨true, sent, if fresh.len = 0 then fresh.clear else fresh, notified⟩

theorem send_msg_content (buf : Buffer) (notify : Bool) (takes : List Take) (fine : Take.failed ∉ takes) :
    (tunnelSendMsg buf notify takes).sent ++ (tunnelSendMsg buf notify takes).buf.content = buf.content := by
  obtain ⟨finished, ended, whole⟩ := Codec.Http.sock_send_spec _ _ fine
  generalize reply : sockSend _ _ = got at ended whole
  obtain ⟨ending, sent, left⟩ := got
  dsimp only at ended whole
  rw [tunnelSendMsg, reply, ended]
  dsimp only
  split
  · rfl
  · have size := congrArg List.length whole
    rw [List.length_append, Buffer.content_length] at size
    obtain ⟨taken, moved⟩ := Option.isSome_iff_exists.mp (buf.seek_rd_cur_some sent.length (by omega))
    have content := buf.seek_rd_cur_content _ _ moved
    rw [← whole, List.drop_left] at content
    have kept (notified : Bool) : (if notified then taken.refresh else taken).content = left := by
      cases notified with
      | true => exact (Buffer.content_refresh _).trans content
      | false => exact content
    rw [moved, Option.getD_some]
    specialize kept (notify && decide (taken.len < 262144))
    generalize (if notify && decide (taken.len < 262144) then taken.refresh else taken) = fresh at kept ⊢
    rw [← whole, ← kept]
    split
    · rename_i empty
      rw [Buffer.content_clear, List.eq_nil_of_length_eq_zero ((Buffer.content_length _).trans empty)]
    · rfl

open Codec.Ssid (emsItoa)

inductive Status where
  | start | connect | reg | normal | hb | err | stopped
  deriving DecidableEq, Repr

-- What comes of tunnel_session_connect, or of the allocations before it.
inductive Connect where
  | online | progress | failed
  | noSess | noTsess
  deriving DecidableEq, Repr

-- tunnel_session with its ems_session: `watch` holds the flags its event is
-- registered for. Between two events buf_in is empty. `read` is what has been
-- read from the local web server, `since` the number of frames that had been
-- put on the tunnel when the session was created.
structure Tsess where
  id : UInt32
  st : Status
  opened : Bool
  notify : Bool
  watch : Option Nat
  timer : Option Nat
  buf : Buffer
  read : Str
  since : Nat

-- The tunnel's own ems_session; `alive` is NO while tunnel->sess is NULL. The
-- log has every frame that was put into the output buffer.
structure Line where
  st : Status
  alive : Bool
  opened : Bool
  watch : Option Nat
  timer : Option Nat
  buf : Buffer
  notify : Bool
  id : UInt32
  log : List Pkg

-- hash_sess and list_sess hold addresses, `heap` what is allocated there.
-- `births` has the frame of each session that was created, and whether its id
-- was known; `asserted` tells that tunnel_session_empty has always held at the
-- end of tunnel_stop_all.
structure Table where
  hash : List (Str × Nat)
  list : List Nat
  heap : Nat → Option Tsess
  next : Nat
  births : List (Pkg × Bool)
  asserted : Bool

structure EmsTunnel where
  line : Line
  table : Table
  run : Bool

-- The texts the tunnel sends, what the JSON of a reply says (no error), the
-- heartbeat in seconds and what connect(2) answers for each session.
structure Site where
  register : Str
  heartbeat : Str
  accepts : Str → Bool
  hb : Nat
  connects : Nat → Connect

variable (line : Line) (table : Table) (tunnel : EmsTunnel) (addr : Nat) (pkg : Pkg)

def Line.init : Line := ⟨.stopped, false, false, none, none, Buffer.init 1024, false, 0, []⟩

def Table.init : Table := ⟨[], [], fun _ => none, 0, [], true⟩

def EmsTunnel.init : EmsTunnel := ⟨Line.init, Table.init, false⟩

-- sess_event_set; on a socket that is closed epoll_ctl fails.
def eventSet (opened : Bool) (flg : Nat) (watch : Option Nat) : Option Nat := if opened then some flg else watch

def readWrite (buf : Buffer) : Nat := if 0 < buf.len then evtRead ||| evtWrite else evtRead

def Line.event (flg : Nat) : Line := { line with watch := eventSet line.opened flg line.watch }

def Line.pack : Ret × Line :=
  let packed := tunnelPackmsg line.buf pkg
  if packed.ret = .err then (.err, line)
  else
    let next := { line with
      buf := packed.buf
      notify := line.notify || decide (packed.ret = Ret.slowDown)
      log := if Fits line.buf pkg.val.length then line.log ++ [pkg] else line.log }
    (packed.ret, next.event (evtRead ||| evtWrite))

-- What EMS_SLOW_DOWN and an error make of the tunnel's event in
-- tunnel_recv_msg and tunnel_err.
def Line.slow : Line :=
  let cancelled := { line with watch := none }
  if 0 < line.buf.len then cancelled.event evtWrite else cancelled

def Line.shutdown : Line :=
  { line with
    watch := none
    opened := false
    timer := some 5000
    buf := if 65536 ≤ line.buf.size then Buffer.init 4096 else line.buf }

def Table.modify (change : Tsess → Tsess) : Table :=
  { table with heap := fun other => if other = addr then (table.heap other).map change else table.heap other }

def Table.remove : Table :=
  { table with
    hash := hashRemove table.hash addr
    list := table.list.filter fun other => decide (other ≠ addr)
    heap := fun other => if other = addr then none else table.heap other }

def sessionKey (id : UInt32) : Str := emsItoa id.toInt32.toInt

def tunnelSessionFind (id : UInt32) : Option Nat := hashFind table.hash (sessionKey id)

-- tunnel_session_new and the two insertions behind it.
def Table.insert (since : Nat) : Table :=
  let known := (tunnelSessionFind table pkg.id).isSome
  let fresh : Tsess := ⟨pkg.id, .stopped, false, false, none, none, Buffer.init 1024, [], since⟩
  { table with
    hash := hashInsert table.hash (sessionKey pkg.id) table.next
    list := table.list ++ [table.next]
    heap := fun other => if other = table.next then some fresh else table.heap other
    next := table.next + 1
    births := table.births ++ [(pkg, known)] }

def EmsTunnel.pack : Ret × EmsTunnel :=
  let packed := tunnel.line.pack pkg
  (packed.1, { tunnel with line := packed.2 })

def EmsTunnel.modify (change : Tsess → Tsess) : EmsTunnel :=
  { tunnel with table := tunnel.table.modify addr change }

-- tsess_err sends the reset and nothing more; tsess_stopped frees the session.
def tsessErr : EmsTunnel :=
  match tunnel.table.heap addr with
  | none => tunnel
  | some tsess => ((tunnel.modify addr fun tsess => { tsess with st := .err }).pack ⟨msgWebDown, tsess.id, []⟩).2

def tsessStopped : EmsTunnel := { tunnel with table := tunnel.table.remove addr }

def tsessStart : Connect → Ret × EmsTunnel
  | .online => (.ok, tunnel.modify addr fun tsess => { tsess with st := .normal, opened := true })
  | .progress =>
    (.ok, tunnel.modify addr fun tsess =>
      { tsess with st := .connect, opened := true, watch := some (evtRead ||| evtWrite), timer := some 15000 })
  | .failed => (.ok, tsessErr tunnel addr)
  | .noSess => (.err, tunnel.modify addr fun tsess => { tsess with st := .start })
  | .noTsess => (.err, tunnel)

-- The output buffer of a session cannot take the value and has grown enough.
def Insufficient (tsess : Tsess) (pkg : Pkg) : Prop := tsess.buf.left ≤ pkg.val.length ∧ 16384 < tsess.buf.size

instance (tsess : Tsess) (pkg : Pkg) : Decidable (Insufficient tsess pkg) := inferInstanceAs (Decidable (_ ∧ _))

def Tsess.unpack (tsess : Tsess) (pkg : Pkg) : Tsess :=
  let room := if tsess.buf.left ≤ pkg.val.length then tsess.buf.increase pkg.val.length else tsess.buf
  { tsess with
    notify := tsess.notify || decide (2048 < room.len)
    buf := room.write pkg.val
    watch := eventSet tsess.opened evtWrite tsess.watch }

def tunnelUnpackmsg (tunnel : EmsTunnel) (addr : Nat) : Ret × EmsTunnel :=
  match tunnel.table.heap addr with
  | none => (.ok, tunnel)
  | some tsess =>
    if Insufficient tsess pkg then (.err, tunnel)
    else
      let room := if tsess.buf.left ≤ pkg.val.length then tsess.buf.increase pkg.val.length else tsess.buf
      (if 2048 < room.len then .slowDown else .ok, tunnel.modify addr fun tsess => tsess.unpack pkg)

def tunnelStopAll : EmsTunnel :=
  let stopped := tunnel.table.list.foldl Table.remove tunnel.table
  let line := { tunnel.line with watch := none, timer := none }
  { tunnel with
    line := if tunnel.line.alive then line else tunnel.line
    table := { stopped with asserted := stopped.asserted && decide (stopped.hash = [] ∧ stopped.list = []) } }

def tunnelErr : EmsTunnel :=
  let stopped := tunnelStopAll { tunnel with line := { tunnel.line with st := .err } }
  { stopped with line := stopped.line.shutdown }

def tunnelStopped : EmsTunnel :=
  let stopped := tunnelStopAll { tunnel with line := { tunnel.line with st := .stopped } }
  { stopped with line := { stopped.line with alive := false, opened := false } }

section Site

variable (site : Site)

def tunnelStatusIntoReg (tunnel : EmsTunnel) : EmsTunnel :=
  let reg := { tunnel with line := { tunnel.line with st := .reg } }
  let packed := (reg.pack ⟨msgTypeTunnel, tunnel.line.id, site.register⟩).2
  { packed with line := { packed.line with timer := some 30000 } }

def tunnelStatusIntoHb (tunnel : EmsTunnel) : EmsTunnel :=
  let hb := { tunnel with line := { tunnel.line with st := .hb } }
  let packed := (hb.pack ⟨msgTypeTunnel, tunnel.line.id, site.heartbeat⟩).2
  { packed with line := { packed.line with timer := some 30000 } }

-- tunnel_start; none is EMS_ERR.
def tunnelStart (tunnel : EmsTunnel) (connect : Connect) (id : UInt32) : Ret × EmsTunnel :=
  let begun := { tunnel.line with st := .start }
  let fresh := if tunnel.line.alive then begun
    else { begun with alive := true, opened := false, watch := none, timer := none, buf := Buffer.init 1024 }
  let ready := { fresh with buf := fresh.buf.clear, id := id }
  match connect with
  | .online => (.ok, tunnelStatusIntoReg site { tunnel with line := { ready with opened := true } })
  | .progress =>
    (.ok, { tunnel with line := { ready with
      st := .connect
      opened := true
      watch := some (evtRead ||| evtWrite)
      timer := some 30000 } })
  | .failed => (.ok, tunnelErr { tunnel with line := ready })
  | _ => if tunnel.line.alive then (.ok, tunnelErr { tunnel with line := ready }) else (.err, { tunnel with line := begun })

def tunnelDispatchToTunnel (tunnel : EmsTunnel) (pkg : Pkg) : Ret × EmsTunnel :=
  if pkg.id ≠ tunnel.line.id then (.ok, tunnel)
  else if pkg.isRst ∨ site.accepts pkg.val = false then (.ok, tunnelErr tunnel)
  else if tunnel.line.st ≠ .normal then
    (.ok, { tunnel with line := { tunnel.line with st := .normal, timer := some (site.hb * 1000) } })
  else (.ok, tunnel)

-- The part of tunnel_dispatch_to_web for an id that is not known.
def tunnelDispatchNew (tunnel : EmsTunnel) (pkg : Pkg) : Ret × EmsTunnel :=
  let addr := tunnel.table.next
  match site.connects addr with
  | .noTsess => (.ok, (EmsTunnel.pack { tunnel with table := { tunnel.table with next := addr + 1 } } ⟨msgWebDown, pkg.id, []⟩).2)
  | connect =>
    let inserted := { tunnel with table := tunnel.table.insert pkg tunnel.line.log.length }
    match tsessStart inserted addr connect with
    | (.ok, started) => tunnelUnpackmsg pkg started addr
    | (_, failed) => (.ok, ((tsessStopped failed addr).pack ⟨msgWebDown, pkg.id, []⟩).2)

def tunnelDispatchToWeb (tunnel : EmsTunnel) (pkg : Pkg) : Ret × EmsTunnel :=
  match tunnelSessionFind tunnel.table pkg.id with
  | some addr => if pkg.isRst then (.ok, tsessStopped tunnel addr) else tunnelUnpackmsg pkg tunnel addr
  | none => tunnelDispatchNew site tunnel pkg

def tunnelDispatcher (tunnel : EmsTunnel) (pkg : Pkg) : Ret × EmsTunnel :=
  if pkg.isWeb then tunnelDispatchToWeb site tunnel pkg
  else if pkg.isTunnel then tunnelDispatchToTunnel site tunnel pkg
  else (.ok, tunnel)

end Site

end Codec.Tunnel
