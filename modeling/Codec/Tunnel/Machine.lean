import Codec.Tunnel.Session

set_option autoImplicit false

namespace Codec.Tunnel

open Codec.Ems
open Codec.Http (Take sockSend)

variable (tsess : Tsess) (tunnel : EmsTunnel)

-- What one sess_recv puts into the 1K input buffer of a session.
abbrev Chunk := { bytes : Str // bytes.length ≤ 1024 }

-- The rounds of the two receive loops are events of their own here, so that
-- the order of frames, reads, sends and timeouts is free.
inductive Event where
  | start (connect : Connect) (id : UInt32)
  | stop
  | connected (error : Bool)
  | frame (pkg : Pkg)
  | broken
  | send (takes : List Take)
  | timeout (connect : Connect) (id : UInt32)
  | webConnected (addr : Nat) (error : Bool)
  | webRead (addr : Nat) (chunk : Chunk)
  | webEof (addr : Nat) (chunk : Chunk)
  | webFailed (addr : Nat) (lost : Str)
  | webSend (addr : Nat) (takes : List Take)
  | webBroken (addr : Nat)
  | webTimeout (addr : Nat)

-- The states whose handlers receive and send; st_err among them because the
-- loop goes on after a frame has shut the tunnel down.
def Line.talking (line : Line) : Bool := line.alive && (line.st = .reg || line.st = .normal || line.st = .hb || line.st = .err)

def Tsess.restoreSpeed : Tsess :=
  { tsess with watch := eventSet tsess.opened (readWrite tsess.buf) tsess.watch }

def Table.notifyAll (table : Table) : Table := table.list.foldl (fun table addr => table.modify addr Tsess.restoreSpeed) table

def tunnelSend (takes : List Take) : EmsTunnel :=
  let result := tunnelSendMsg tunnel.line.buf tunnel.line.notify takes
  if tunnel.line.opened = false then tunnelErr tunnel
  else if result.fine = false then tunnelErr { tunnel with line := { tunnel.line with opened := false } }
  else
    let line := { tunnel.line with buf := result.buf, notify := tunnel.line.notify && !result.notified }
    { tunnel with
      line := if 0 < tunnel.line.buf.len ∧ result.buf.len = 0 then line.event evtRead else line
      table := if result.notified then tunnel.table.notifyAll else tunnel.table }

def Tsess.connected : Tsess :=
  { tsess with st := .normal, watch := eventSet tsess.opened (readWrite tsess.buf) none, timer := some 120000 }

def Tsess.reading (bytes : Str) : Tsess := { tsess with timer := some 120000, read := tsess.read ++ bytes }

def Tsess.slow : Tsess :=
  { tsess with watch := if 0 < tsess.buf.len then eventSet tsess.opened evtWrite none else none }

def tsessProcessRsp (addr : Nat) (tsess : Tsess) (chunk : Str) : Ret × EmsTunnel :=
  let read := tunnel.modify addr fun tsess => tsess.reading chunk
  if chunk = [] then (.cont, read) else read.pack ⟨msgTypeWeb, tsess.id, chunk⟩

def tsessRead (addr : Nat) (tsess : Tsess) (chunk : Str) : EmsTunnel :=
  match tsessProcessRsp tunnel addr tsess chunk with
  | (.slowDown, next) => next.modify addr Tsess.slow
  | (_, next) => next

def tsessSend (addr : Nat) (tsess : Tsess) (takes : List Take) : EmsTunnel :=
  let timed := tunnel.modify addr fun tsess => { tsess with timer := some 120000 }
  if tsess.opened = false then tsessErr timed addr
  else
    match sockSend takes tsess.buf.content with
    | (none, _, _) => tsessErr (timed.modify addr fun tsess => { tsess with opened := false }) addr
    | (some _, sent, _) =>
      if tsess.buf.len = 0 then timed
      else
        let left := ((tsess.buf.seekRd sent.length .cur).getD tsess.buf).refresh
        let sending := timed.modify addr fun tsess =>
          { tsess with buf := left, watch := if left.len = 0 then some evtRead else tsess.watch }
        if tsess.notify = true ∧ left.len ≤ 2048 then
          { sending with line := sending.line.event (readWrite sending.line.buf) }
        else sending

section Site

variable (site : Site)

-- What one frame makes of the tunnel: the dispatcher, then the switch on its
-- result in tunnel_recv_msg and, for EMS_ERR, in the handler.
def tunnelFrame (tunnel : EmsTunnel) (pkg : Pkg) : EmsTunnel :=
  match tunnelDispatcher site tunnel pkg with
  | (.err, next) => tunnelErr next
  | (.insufficient, next) => tunnelErr next
  | (.slowDown, next) => { next with line := next.line.slow }
  | (_, next) => next

def tunnelTimeout (tunnel : EmsTunnel) (connect : Connect) (id : UInt32) : EmsTunnel :=
  let fired := { tunnel with line := { tunnel.line with timer := none } }
  match tunnel.line.st with
  | .connect => tunnelErr fired
  | .reg => tunnelErr fired
  | .normal => tunnelStatusIntoHb site fired
  | .hb => tunnelErr fired
  | .err => (tunnelStart site fired connect id).2
  | _ => fired

def step (tunnel : EmsTunnel) : Event → EmsTunnel
  | .start connect id =>
    if tunnel.run then tunnel
    else
      let started := tunnelStart site tunnel connect id
      { started.2 with run := decide (started.1 = Ret.ok) }
  | .stop =>
    if tunnel.run = false then tunnel
    else
      let stopped := if tunnel.line.st = .stopped then tunnel else tunnelStopped tunnel
      { stopped with run := false }
  | .connected error =>
    if tunnel.line.alive = false ∨ tunnel.line.st ≠ .connect then tunnel
    else if error then tunnelErr tunnel
    else tunnelStatusIntoReg site { tunnel with line := tunnel.line.event evtRead }
  | .frame pkg => if tunnel.line.talking then tunnelFrame site tunnel pkg else tunnel
  | .broken => if tunnel.line.alive then tunnelErr tunnel else tunnel
  | .send takes => if tunnel.line.talking then tunnelSend tunnel takes else tunnel
  | .timeout connect id =>
    if tunnel.line.alive = false ∨ tunnel.line.timer = none then tunnel else tunnelTimeout site tunnel connect id
  | .webConnected addr error =>
    match tunnel.table.heap addr with
    | none => tunnel
    | some tsess =>
      if tsess.st ≠ .connect then tunnel
      else if error then tsessErr tunnel addr
      else tunnel.modify addr Tsess.connected
  | .webRead addr chunk =>
    match tunnel.table.heap addr with
    | none => tunnel
    | some tsess => if tsess.st = .normal then tsessRead tunnel addr tsess chunk.val else tunnel
  | .webEof addr chunk =>
    match tunnel.table.heap addr with
    | none => tunnel
    | some tsess =>
      if tsess.st = .normal then tsessErr (tsessProcessRsp tunnel addr tsess chunk.val).2 addr else tunnel
  | .webFailed addr lost =>
    match tunnel.table.heap addr with
    | none => tunnel
    | some tsess =>
      if tsess.st = .normal then
        tsessErr (tunnel.modify addr fun tsess => { tsess.reading lost with opened := false }) addr
      else tunnel
  | .webSend addr takes =>
    match tunnel.table.heap addr with
    | none => tunnel
    | some tsess => if tsess.st = .normal then tsessSend tunnel addr tsess takes else tunnel
  -- An error event, or any event of a session in st_err.
  | .webBroken addr => tsessErr tunnel addr
  | .webTimeout addr =>
    match tunnel.table.heap addr with
    | none => tunnel
    | some tsess =>
      if tsess.timer = none then tunnel
      else
        let fired := tunnel.modify addr fun tsess => { tsess with timer := none }
        if tsess.st = .connect ∨ tsess.st = .normal then tsessErr fired addr else fired

end Site

end Codec.Tunnel
