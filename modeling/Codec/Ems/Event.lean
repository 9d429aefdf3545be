import Codec.Lib.Runs

set_option autoImplicit false

namespace Codec.Ems

def evtRead : Nat := 1

def evtWrite : Nat := 2

def evtEdgeTrigger : Nat := 4

-- ems_event_fd; `cb` is YES when the callback is not NULL.
structure EventFd where
  fd : Nat
  eof : Bool
  reg : Bool
  flg : Nat
  error : Bool
  cb : Bool
  deriving DecidableEq, Repr

-- The socket's descriptor, 0 for none, and the event of an ems_session.
-- `asked` remembers the flags of the last sess_event_set.
structure Session where
  fd : Nat
  evt : EventFd
  asked : Nat
  deriving DecidableEq, Repr

def sessionInit : Session := ⟨0, ⟨0, false, false, 0, false, false⟩, 0⟩

-- The events of an epoll_event that evt_subscribe asks for: EPOLLIN with
-- EPOLLRDHUP, EPOLLOUT and EPOLLET.
structure Interest where
  input : Bool
  output : Bool
  edge : Bool
  deriving DecidableEq, Repr

def interest (flg : Nat) : Interest := ⟨flg.testBit 0, flg.testBit 1, flg.testBit 2⟩

structure Watch where
  fd : Nat
  owner : Nat
  events : Interest
  deriving DecidableEq, Repr

-- A session's address is its identity; what has been freed is as a session
-- that malloc hands out again will be.
structure Eventer where
  sessions : Nat → Session
  descriptors : List Nat
  watched : List Watch

def Eventer.start : Eventer := ⟨fun _ => sessionInit, [], []⟩

def Eventer.put (ev : Eventer) (id : Nat) (sess : Session) : Eventer :=
  { ev with sessions := fun other => if other = id then sess else ev.sessions other }

inductive EpollOp where
  | add | mod | del
  deriving DecidableEq, Repr

def epollCtl (ev : Eventer) (op : EpollOp) (watch : Watch) : Option (List Watch) :=
  let known := ev.watched.any fun other => decide (other.fd = watch.fd)
  match op with
  | .add => if watch.fd ∈ ev.descriptors ∧ known = false then some (watch :: ev.watched) else none
  | .mod =>
    if known = true then some (ev.watched.map fun other => if other.fd = watch.fd then watch else other) else none
  | .del => if known = true then some (ev.watched.filter fun other => decide (other.fd ≠ watch.fd)) else none

def eventAdd (ev : Eventer) (id flgs : Nat) : Eventer :=
  let sess := ev.sessions id
  if sess.evt.reg = true ∧ sess.evt.flg = flgs then ev
  else
    let op := if sess.evt.reg = true then EpollOp.mod else .add
    match epollCtl ev op ⟨sess.evt.fd, id, interest flgs⟩ with
    | none => ev.put id { sess with evt := { sess.evt with cb := true } }
    | some watched => { ev with watched := watched }.put id { sess with evt := ⟨sess.evt.fd, false, true, flgs, false, true⟩ }

def sessEventSet (ev : Eventer) (id flg : Nat) : Eventer :=
  let sess := ev.sessions id
  let flgs := flg ||| evtEdgeTrigger
  eventAdd (ev.put id ⟨sess.fd, { sess.evt with fd := sess.fd }, flgs⟩) id flgs

def evtDel (ev : Eventer) (id : Nat) : Eventer :=
  let sess := ev.sessions id
  if sess.evt.reg = false then ev
  else
    let watched := (epollCtl ev .del ⟨sess.evt.fd, id, interest 0⟩).getD ev.watched
    { ev with watched := watched }.put id { sess with evt := { sess.evt with reg := false, flg := 0 } }

-- A descriptor that is closed leaves the interest set by itself.
def sockClose (ev : Eventer) (id : Nat) : Eventer :=
  let sess := ev.sessions id
  if sess.fd = 0 then ev
  else
    { ev with descriptors := ev.descriptors.filter fun fd => decide (fd ≠ sess.fd)
              watched := ev.watched.filter fun watch => decide (watch.fd ≠ sess.fd) }.put id { sess with fd := 0 }

-- ems_sock_setfd of what socket or accept has just returned, which is open
-- nowhere else; a descriptor the session still had stays open.
def sockSetfd (ev : Eventer) (id fd : Nat) : Eventer :=
  if fd = 0 ∨ fd ∈ ev.descriptors then ev
  else { ev with descriptors := fd :: ev.descriptors }.put id { ev.sessions id with fd := fd }

def sessionShutdownAndDestroy (ev : Eventer) (id : Nat) : Eventer := (sockClose (evtDel ev id) id).put id sessionInit

inductive Call where
  | setEvent (id flg : Nat)
  | cancelEvent (id : Nat)
  | setfd (id fd : Nat)
  | close (id : Nat)
  | destroy (id : Nat)
  deriving DecidableEq, Repr

def call (ev : Eventer) : Call → Eventer
  | .setEvent id flg => sessEventSet ev id flg
  | .cancelEvent id => evtDel ev id
  | .setfd id fd => sockSetfd ev id fd
  | .close id => sockClose ev id
  | .destroy id => sessionShutdownAndDestroy ev id

-- What epoll_wait reports of one watch.
structure Report where
  owner : Nat
  rdhup : Bool
  input : Bool
  output : Bool
  broken : Bool
  deriving DecidableEq, Repr

def Report.any (report : Report) : Bool := report.rdhup || report.input || report.output || report.broken

-- The loop of evt_handle between two entries of its array. evt_del has set
-- the data.ptr of every entry that is still to come to NULL whose owner is in
-- `cleared`; `gone` lists what callbacks of this batch have deleted or freed.
structure Loop where
  ev : Eventer
  cleared : List Nat
  gone : List Nat

def Loop.del (loop : Loop) (id : Nat) : Loop :=
  if (loop.ev.sessions id).evt.reg = false then loop else ⟨evtDel loop.ev id, id :: loop.cleared, loop.gone⟩

def Loop.call (loop : Loop) (request : Call) : Loop :=
  match request with
  | .cancelEvent id => { loop.del id with gone := id :: loop.gone }
  | .destroy id =>
    let deleted := loop.del id
    ⟨(sockClose deleted.ev id).put id sessionInit, deleted.cleared, id :: loop.gone⟩
  | other => { loop with ev := Ems.call loop.ev other }

def Loop.note (loop : Loop) (report : Report) : Loop :=
  let sess := loop.ev.sessions report.owner
  let evt := { sess.evt with error := sess.evt.error || report.broken, eof := sess.evt.eof || report.rdhup }
  let noted := { loop with ev := loop.ev.put report.owner { sess with evt := evt } }
  if report.broken = true then noted.del report.owner else noted

structure Dispatch where
  owner : Nat
  gone : List Nat
  deriving DecidableEq, Repr

def Dispatch.Sound (dispatch : Dispatch) : Prop := dispatch.owner ∉ dispatch.gone

instance decidableDispatchSound (dispatch : Dispatch) : Decidable dispatch.Sound := inferInstanceAs (Decidable (_ ∉ _))

-- evt_handle over what epoll_wait has reported. The next element of `acts` is
-- what the next callback does; behind the last one callbacks do nothing.
def evtHandle : List Report → List (List Call) → Loop → List Dispatch
  | [], _, _ => []
  | report :: rest, acts, loop =>
    if report.owner ∈ loop.cleared ∨ report.any = false then evtHandle rest acts loop
    else
      let noted := loop.note report
      ⟨report.owner, loop.gone⟩ ::
        if (loop.ev.sessions report.owner).evt.cb = true then
          evtHandle rest acts.tail ((acts.headD []).foldl Loop.call noted)
        else evtHandle rest acts noted

def handleBatch (ev : Eventer) (batch : List Report) (acts : List (List Call)) : List Dispatch :=
  evtHandle batch acts ⟨ev, [], []⟩

variable (ev : Eventer) (id other : Nat)

@[simp] theorem put_same (id : Nat) (sess : Session) : (ev.put id sess).sessions id = sess := if_pos rfl

@[simp] theorem put_other (sess : Session) (different : other ≠ id) :
    (ev.put id sess).sessions other = ev.sessions other := if_neg different

theorem event_add_frame (id flgs other : Nat) (different : other ≠ id) :
    (eventAdd ev id flgs).sessions other = ev.sessions other := by
  dsimp only [eventAdd]
  split
  · rfl
  · split <;> exact put_other _ id _ _ different

theorem sess_event_set_frame (id flg other : Nat) (different : other ≠ id) :
    (sessEventSet ev id flg).sessions other = ev.sessions other :=
  (event_add_frame _ id _ _ different).trans (put_other ev id _ _ different)

theorem evt_del_frame (different : other ≠ id) : (evtDel ev id).sessions other = ev.sessions other := by
  dsimp only [evtDel]
  split
  · rfl
  · exact put_other _ id _ _ different

theorem sock_close_frame (different : other ≠ id) : (sockClose ev id).sessions other = ev.sessions other := by
  dsimp only [sockClose]
  split
  · rfl
  · exact put_other _ id _ _ different

theorem sock_setfd_frame (id fd other : Nat) (different : other ≠ id) :
    (sockSetfd ev id fd).sessions other = ev.sessions other := by
  dsimp only [sockSetfd]
  split
  · rfl
  · exact put_other _ id _ _ different

theorem evt_del_same (id : Nat) :
    ((evtDel ev id).sessions id).evt.reg = false ∧ ((evtDel ev id).sessions id).evt.cb = (ev.sessions id).evt.cb ∧
      ((evtDel ev id).sessions id).fd = (ev.sessions id).fd := by
  dsimp only [evtDel]
  by_cases off : (ev.sessions id).evt.reg = false
  · rw [if_pos off]
    exact ⟨off, rfl, rfl⟩
  · rw [if_neg off, put_same]
    exact ⟨rfl, rfl, rfl⟩

theorem sock_close_same (id : Nat) : (sockClose ev id).sessions id = { ev.sessions id with fd := 0 } := by
  dsimp only [sockClose]
  split
  · rename_i none
    rw [← none]
  · exact put_same _ id _

theorem sock_setfd_evt (id fd : Nat) : ((sockSetfd ev id fd).sessions id).evt = (ev.sessions id).evt := by
  dsimp only [sockSetfd]
  split
  · rfl
  · rw [put_same]

theorem event_add_reg (id flgs : Nat) (on : (ev.sessions id).evt.reg = true) :
    ((eventAdd ev id flgs).sessions id).evt.reg = true := by
  dsimp only [eventAdd]
  split
  · exact on
  · split
    · rwa [put_same]
    · rw [put_same]

theorem sess_event_set_reg (id flg : Nat) (on : (ev.sessions id).evt.reg = true) :
    ((sessEventSet ev id flg).sessions id).evt.reg = true := by
  apply event_add_reg
  rwa [put_same]

end Codec.Ems
