import Codec.Fwd.CmWire
import Codec.Lib.Runs

set_option autoImplicit false

namespace Codec.Fwd

open List

def newTicket (json : CmJson) (raw : List UInt8) : Option (List UInt8) := match fwdBufferUnpack raw true with
  | .message _ cmd val => if cmd = msgCmTicketNew then (msgTicketParse json val).ticket else none
  | _ => none

def answeredTicket : CmEvent → Option (List UInt8)
  | .answered ticket _ => some ticket
  | _ => none

def Told (json : CmJson) (cm : FwdCm) : Prop := cm.sent ++ cm.bufOut.data = cmTells json cm.history

def Parsed (json : CmJson) (cm : FwdCm) : Prop := ∃ raws : List (List UInt8), cm.heard = raws.flatten ++ cm.bufIn.data ∧
  (∀ raw ∈ raws, Whole raw) ∧ cm.history.filterMap answeredTicket = raws.filterMap (newTicket json)

section Same

variable (cm : FwdCm)

structure Ended (cm next : FwdCm) : Prop where
  st : next.st = .err
  bufOut : next.bufOut = fwdBufferInit
  bufIn : next.bufIn = fwdBufferInit
  sent : next.sent = cm.sent
  heard : next.heard = cm.heard
  history : next.history = cm.history
  crashed : next.crashed = cm.crashed

end Same

section Tell

variable (json : CmJson) (cm : FwdCm)

end Tell

section Messages

variable (json : CmJson)

variable (fuel : Nat) (cm : FwdCm) (replies : List CmReply)

structure Brought (next : FwdCm) (new : List CmEvent) : Prop where
  sent : next.sent = cm.sent
  heard : next.heard = cm.heard
  st : next.st = cm.st
  history : next.history = cm.history ++ new
  told : ∀ more, RoomFor json cm.bufOut.left (new ++ more) → Told json cm → Told json next ∧ RoomFor json next.bufOut.left more

structure Handles (next : FwdCm) (len cmd : Nat) (val : Option (List UInt8)) (new : List CmEvent) : Prop extends Brought json cm next new where
  bufIn : next.bufIn = fwdBufferRefresh (fwdBufferDrain cm.bufIn len)
  fine : ¬ Crashes json cmd val → next.crashed = cm.crashed
  tickets : new.filterMap answeredTicket = (if cmd = msgCmTicketNew then (msgTicketParse json val).ticket else none).toList

def Granted (replies : List CmReply) : Prop := ∀ reply ∈ replies, reply.grant = true

end Messages

variable (json : CmJson) (cm : FwdCm)

def Outcome (json : CmJson) (cm next : FwdCm) : Prop := ∃ new, next.sent = cm.sent ∧ next.history = cm.history ++ new ∧
  (∃ more, next.heard = cm.heard ++ more) ∧ ((∃ last, Ended last next ∧ last.crashed = false) ∨ (next.st = .est ∧
    ∀ more, RoomFor json cm.bufOut.left (new ++ more) → Told json cm → Told json next ∧ RoomFor json next.bufOut.left more))

section Read

variable (json : CmJson)

end Read

-- A step that a connection comes through, if what arrives has room and is clean.
def Handled (json : CmJson) (cm next : FwdCm) (arrives : List UInt8 × List CmEvent) : Prop :=
  ∃ new, next.history = cm.history ++ new ∧ next.sent <+: cmTells json next.history ∧
    ((∃ last, Ended last next ∧ last.crashed = false) ∨ (next.st = .est ∧ (RoomFor json cm.bufOut.left arrives.2 → Told json next) ∧
      (CleanStream json (cm.heard ++ arrives.1) →
        Parsed json next ∧ fwdBufferUnpack next.bufIn.data true = .incomplete ∧ next.crashed = false)))

section Est

variable (st : cm.st = .est) (told : Told json cm) (parsed : Parsed json cm) (nothing : fwdBufferUnpack cm.bufIn.data true = .incomplete)
  (running : cm.crashed = false)

include st told parsed nothing running

end Est

end Codec.Fwd
