import Codec.Fwd.Session

set_option autoImplicit false

namespace Codec.Fwd

-- fwd_event_fd; whether it has a callback is all the loop looks at.
structure FwdEventFd where
  fd : Nat
  eof : Bool
  reg : Bool
  flags : Interest
  error : Bool
  cb : Bool

-- One struct epoll_event that epoll_wait has written.
structure EpollEvent where
  ptr : Option Nat
  err : Bool
  rdhup : Bool
  readable : Bool
  writable : Bool

inductive Traced
  | called (ptr : Nat)
  | deleted (ptr : Nat) (registered : Bool)
deriving DecidableEq

-- fwd_event with every fwd_event_fd by its address.
structure FwdEvent where
  fds : Nat → FwdEventFd
  evt : List EpollEvent
  curFd : Nat
  curNfds : Nat
  trace : List Traced

namespace FwdEvent

variable (evt : FwdEvent)

def setFd (ptr : Nat) (fd : FwdEventFd) : FwdEvent := { evt with fds := fun other => if other = ptr then fd else evt.fds other }

def log (traced : Traced) : FwdEvent := { evt with trace := evt.trace ++ [traced] }

end FwdEvent

section Operations

variable (evt : FwdEvent) (ptr : Nat)

-- fwd_event_add of the descriptor under a number; ok is what epoll_ctl says.
def fwdEventAdd (number : Nat) (flags : Interest) (ok : Bool) : FwdEvent :=
  let fd := evt.fds ptr
  if fd.reg ∧ fd.flags = flags then evt.setFd ptr { fd with fd := number }
  else if ok then evt.setFd ptr { fd with fd := number, cb := true, reg := true, eof := false, flags := flags, error := false }
  else evt.setFd ptr { fd with fd := number, cb := true }

-- The entries of the batch that fwd_event_del takes back.
def takeBack (entries : List EpollEvent) : List EpollEvent := entries.mapIdx fun i entry =>
  if evt.curFd < i ∧ i < evt.curNfds ∧ entry.ptr = some ptr then { entry with ptr := none } else entry

def fwdEventDel : FwdEvent :=
  let fd := evt.fds ptr
  if !fd.reg then evt
  else { evt with evt := takeBack evt ptr evt.evt }.setFd ptr { fd with reg := false, flags := ⟨false, false⟩ }

-- fwd_event_fd_init of memory that was free: the one of a registered
-- descriptor is not, it is deleted first.
def fwdEventFdInit : FwdEvent :=
  if (evt.fds ptr).reg then evt else evt.setFd ptr ⟨0, false, false, ⟨false, false⟩, false, false⟩

end Operations

-- What a callback does to any descriptor; closing and freeing it leaves the
-- fwd_event alone.
inductive EventOp
  | add (ptr number : Nat) (flags : Interest) (ok : Bool)
  | del (ptr : Nat)
  | init (ptr : Nat)
  | close (ptr : Nat)
  | free (ptr : Nat)

def eventOp (evt : FwdEvent) : EventOp → FwdEvent
  | .add ptr number flags ok => fwdEventAdd evt ptr number flags ok
  | .del ptr => (fwdEventDel evt ptr).log (.deleted ptr (evt.fds ptr).reg)
  | .init ptr => fwdEventFdInit evt ptr
  | .close _ => evt
  | .free _ => evt

-- One turn of the walk, for a descriptor that is still there.
def handleEntry (evt : FwdEvent) (n ptr : Nat) (entry : EpollEvent) (ops : List EventOp) : FwdEvent :=
  let evt := { evt with curFd := n }
  let evt := if entry.err then fwdEventDel (evt.setFd ptr { evt.fds ptr with error := true }) ptr else evt
  if !(entry.rdhup || entry.readable || entry.writable || entry.err) then evt
  else
    let evt := if entry.rdhup then evt.setFd ptr { evt.fds ptr with eof := true } else evt
    if (evt.fds ptr).cb then ops.foldl eventOp (evt.log (.called ptr)) else evt

def walk (calls : Nat → List EventOp) : Nat → Nat → FwdEvent → FwdEvent
  | _, 0, evt => evt
  | n, left + 1, evt => match evt.evt[n]? with
      | some entry => match entry.ptr with
          | some ptr => walk calls (n + 1) left (handleEntry evt n ptr entry (calls n))
          | none => walk calls (n + 1) left evt
      | none => evt

-- fwd_event_handle_evt; its trace begins anew.
def fwdEventHandleEvt (evt : FwdEvent) (batch : List EpollEvent) (calls : Nat → List EventOp) : FwdEvent :=
  walk calls 0 batch.length { evt with evt := batch, curNfds := batch.length, trace := [] }

def Deletes (any : Bool) (ptr : Nat) (traced : Traced) : Prop :=
  ∃ registered, traced = .deleted ptr registered ∧ (registered = true ∨ any = true)

def NotCalledAfter (any : Bool) (trace : List Traced) : Prop :=
  trace.Pairwise fun one other => ∀ ptr, Deletes any ptr one → other ≠ .called ptr

structure WalkInv (any : Bool) (evt : FwdEvent) (n : Nat) : Prop where
  safe : NotCalledAfter any evt.trace
  gone : ∀ traced ∈ evt.trace, ∀ ptr, Deletes any ptr traced →
    ∀ i, n ≤ i → i < evt.curNfds → ∀ entry, evt.evt[i]? = some entry → entry.ptr ≠ some ptr
  registered : any = true → ∀ i, n ≤ i → i < evt.curNfds → ∀ entry, evt.evt[i]? = some entry →
    ∀ ptr, entry.ptr = some ptr → (evt.fds ptr).reg = true

section Keeps

variable {any : Bool} {evt : FwdEvent} {n : Nat} (inv : WalkInv any evt n)

include inv

theorem inv_later : WalkInv any evt (n + 1) :=
  ⟨inv.safe, fun _ there ptr deletes i later => inv.gone _ there ptr deletes i (Nat.le_of_succ_le later),
    fun every i later => inv.registered every i (Nat.le_of_succ_le later)⟩

theorem inv_set (ptr : Nat) (fd : FwdEventFd) (kept : (evt.fds ptr).reg = true → fd.reg = true) : WalkInv any (evt.setFd ptr fd) n := by
  refine ⟨inv.safe, inv.gone, fun every i later inside entry there other held => ?_⟩
  have reg := inv.registered every i later inside _ there _ held
  rw [FwdEvent.setFd]
  dsimp only
  split
  · rename_i same
    rw [same] at reg
    exact kept reg
  · exact reg

theorem inv_log (traced : Traced) (safe : ∀ one ∈ evt.trace, ∀ ptr, Deletes any ptr one → traced ≠ .called ptr)
    (gone : ∀ ptr, Deletes any ptr traced → ∀ i, n ≤ i → i < evt.curNfds → ∀ entry, evt.evt[i]? = some entry → entry.ptr ≠ some ptr) :
    WalkInv any (evt.log traced) n := by
  refine ⟨?_, fun other there => ?_, inv.registered⟩
  · refine List.pairwise_append.mpr ⟨inv.safe, List.pairwise_singleton _ _, fun one there last only => ?_⟩
    rw [List.mem_singleton.mp only]
    exact safe one there
  · rcases List.mem_append.mp there with before | only
    · exact inv.gone _ before
    · rw [List.mem_singleton.mp only]
      exact gone

end Keeps

theorem take_back_entry (evt : FwdEvent) (ptr : Nat) (entries : List EpollEvent) (i : Nat) (entry : EpollEvent)
    (there : (takeBack evt ptr entries)[i]? = some entry) : entry.ptr = none ∨
      (entries[i]? = some entry ∧ (evt.curFd < i → i < evt.curNfds → entry.ptr ≠ some ptr)) := by
  rw [takeBack, List.getElem?_mapIdx] at there
  obtain ⟨before, held, same⟩ := Option.map_eq_some_iff.mp there
  split at same
  · rw [← same]
    exact .inl rfl
  · rename_i kept
    rw [← same]
    exact .inr ⟨held, fun later inside here => kept ⟨later, inside, here⟩⟩

section Del

variable {any : Bool} {evt : FwdEvent} {n : Nat} (inv : WalkInv any evt n) (behind : evt.curFd < n) (ptr : Nat)

theorem del_same : (fwdEventDel evt ptr).curFd = evt.curFd ∧ (fwdEventDel evt ptr).curNfds = evt.curNfds ∧
    (fwdEventDel evt ptr).trace = evt.trace := by
  rw [fwdEventDel]
  split <;> exact ⟨rfl, rfl, rfl⟩

include inv behind

theorem del_gone (counts : (evt.fds ptr).reg = true ∨ any = true) (i : Nat) (later : n ≤ i) (inside : i < evt.curNfds) (entry : EpollEvent)
    (there : (fwdEventDel evt ptr).evt[i]? = some entry) : entry.ptr ≠ some ptr := by
  intro held
  rw [fwdEventDel] at there
  cases reg : (evt.fds ptr).reg with
  | false =>
    rw [reg] at there counts
    have every := counts.resolve_left nofun
    have registered := inv.registered every i later inside _ there ptr held
    exact nomatch reg.symm.trans registered
  | true =>
    rw [reg] at there
    rcases take_back_entry evt ptr _ i _ there with none_ | ⟨_, other⟩
    · exact nomatch none_.symm.trans held
    · exact other (Nat.lt_of_lt_of_le behind later) inside held

theorem del_inv : WalkInv any (fwdEventDel evt ptr) n := by
  rw [fwdEventDel]
  cases reg : (evt.fds ptr).reg with
  | false => exact inv
  | true =>
    refine ⟨inv.safe, fun traced there other deletes i later inside entry held => ?_, fun every i later inside entry held other is_other => ?_⟩
    · rcases take_back_entry evt ptr _ i _ held with none_ | ⟨before, _⟩
      · rw [none_]
        exact nofun
      · exact inv.gone _ there _ deletes i later inside _ before
    · rcases take_back_entry evt ptr _ i _ held with none_ | ⟨before, apart⟩
      · exact nomatch none_.symm.trans is_other
      · have registered := inv.registered every i later inside _ before _ is_other
        have differs : other ≠ ptr := fun same => apart (Nat.lt_of_lt_of_le behind later) inside (is_other.trans (congrArg some same))
        exact (congrArg _ (if_neg differs)).trans registered

end Del

theorem op_same (evt : FwdEvent) (op : EventOp) : (eventOp evt op).curFd = evt.curFd ∧ (eventOp evt op).curNfds = evt.curNfds := by
  cases op with
  | add ptr number flags ok =>
    rw [eventOp, fwdEventAdd]
    split
    · exact ⟨rfl, rfl⟩
    · split <;> exact ⟨rfl, rfl⟩
  | del ptr => exact ⟨(del_same ptr).1, (del_same ptr).2.1⟩
  | init ptr =>
    rw [eventOp, fwdEventFdInit]
    split <;> exact ⟨rfl, rfl⟩
  | close ptr => exact ⟨rfl, rfl⟩
  | free ptr => exact ⟨rfl, rfl⟩

theorem op_inv (any : Bool) (evt : FwdEvent) (n : Nat) (inv : WalkInv any evt n) (behind : evt.curFd < n) (op : EventOp) :
    WalkInv any (eventOp evt op) n := by
  cases op with
  | add ptr number flags ok =>
    rw [eventOp, fwdEventAdd]
    split
    · exact inv_set inv ptr _ id
    · split
      · exact inv_set inv ptr _ fun _ => rfl
      · exact inv_set inv ptr _ id
  | del ptr =>
    refine inv_log (del_inv inv behind ptr) _ (fun _ _ _ _ => nofun) fun other deletes i later inside entry there => ?_
    obtain ⟨registered, same, counts⟩ := deletes
    obtain ⟨rfl, rfl⟩ := Traced.deleted.inj same
    rw [(del_same ptr).2.1] at inside
    exact del_gone inv behind ptr counts i later inside _ there
  | init ptr =>
    rw [eventOp, fwdEventFdInit]
    split
    · exact inv
    · rename_i free
      exact inv_set inv ptr _ fun reg => absurd reg free
  | close ptr => exact inv
  | free ptr => exact inv

theorem ops_inv (any : Bool) (n : Nat) (ops : List EventOp) (evt : FwdEvent) (inv : WalkInv any evt n) (behind : evt.curFd < n) :
    WalkInv any (ops.foldl eventOp evt) n ∧ (ops.foldl eventOp evt).curNfds = evt.curNfds := by
  induction ops generalizing evt with
  | nil => exact ⟨inv, rfl⟩
  | cons op rest ih =>
    obtain ⟨fd, nfds⟩ := op_same evt op
    obtain ⟨last, same⟩ := ih _ (op_inv any evt n inv behind op) (Nat.lt_of_le_of_lt (Nat.le_of_eq fd) behind)
    exact ⟨last, same.trans nfds⟩

theorem entry_inv (any : Bool) (evt : FwdEvent) (n : Nat) (inv : WalkInv any evt n) (inside : n < evt.curNfds) (entry : EpollEvent)
    (there : evt.evt[n]? = some entry) (ptr : Nat) (held : entry.ptr = some ptr) (ops : List EventOp) :
    WalkInv any (handleEntry evt n ptr entry ops) (n + 1) ∧ (handleEntry evt n ptr entry ops).curNfds = evt.curNfds := by
  have fresh (one : Traced) (before : one ∈ evt.trace) (other : Nat) (deletes : Deletes any other one) : Traced.called ptr ≠ .called other := by
    intro same
    have apart := inv.gone one before _ deletes n (Nat.le_refl n) inside _ there
    exact apart (held.trans (congrArg some (Traced.called.inj same)))
  have later := inv_later inv
  have start : WalkInv any { evt with curFd := n } _ := { later with }
  rw [handleEntry]
  have erred : WalkInv any (if entry.err then fwdEventDel ({ evt with curFd := n }.setFd ptr { evt.fds ptr with error := true }) ptr
      else { evt with curFd := n }) (n + 1) ∧
    (if entry.err then fwdEventDel ({ evt with curFd := n }.setFd ptr { evt.fds ptr with error := true }) ptr
      else { evt with curFd := n }).curFd = n ∧
    (if entry.err then fwdEventDel ({ evt with curFd := n }.setFd ptr { evt.fds ptr with error := true }) ptr
      else { evt with curFd := n }).curNfds = evt.curNfds ∧
    (if entry.err then fwdEventDel ({ evt with curFd := n }.setFd ptr { evt.fds ptr with error := true }) ptr
      else { evt with curFd := n }).trace = evt.trace := by
    split
    · obtain ⟨fd, nfds, trace⟩ := @del_same _ ptr
      exact ⟨del_inv (inv_set start ptr { evt.fds ptr with error := true } id) (Nat.lt_succ_self n) ptr, fd, nfds, trace⟩
    · exact ⟨start, rfl, rfl, rfl⟩
  dsimp only
  generalize (if entry.err then fwdEventDel _ ptr
      else { evt with curFd := n }) = state at erred ⊢
  obtain ⟨kept, fd, nfds, trace⟩ := erred
  have ended : WalkInv any (if entry.rdhup then state.setFd ptr { state.fds ptr with eof := true } else state) (n + 1) ∧
    (if entry.rdhup then state.setFd ptr { state.fds ptr with eof := true } else state).curFd = n ∧
    (if entry.rdhup then state.setFd ptr { state.fds ptr with eof := true } else state).curNfds = evt.curNfds ∧
    (if entry.rdhup then state.setFd ptr { state.fds ptr with eof := true } else state).trace = evt.trace := by
    split
    · exact ⟨inv_set kept ptr _ id, fd, nfds, trace⟩
    · exact ⟨kept, fd, nfds, trace⟩
  split
  · exact ⟨kept, nfds⟩
  · generalize (if entry.rdhup then state.setFd ptr _ else state) = state at ended ⊢
    obtain ⟨kept, fd, nfds, trace⟩ := ended
    rw [← trace] at fresh
    split
    · have called := inv_log kept _ fresh fun _ deletes => by
        obtain ⟨_, same, _⟩ := deletes
        exact nomatch same
      obtain ⟨last, same⟩ := ops_inv any _ ops _ called (Nat.lt_succ_of_le (Nat.le_of_eq fd))
      exact ⟨last, same.trans nfds⟩
    · exact ⟨kept, nfds⟩

theorem walk_inv (any : Bool) (calls : Nat → List EventOp) (left n : Nat) (evt : FwdEvent) (inv : WalkInv any evt n)
    (size : evt.curNfds = n + left) : NotCalledAfter any (walk calls n left evt).trace := by
  induction left generalizing n evt with
  | zero => exact inv.safe
  | succ left ih =>
    have inside : n < evt.curNfds := by omega
    rw [walk]
    split
    · rename_i entry there
      split
      · rename_i ptr held
        obtain ⟨next, same⟩ := entry_inv any evt n inv inside _ there ptr held _
        exact ih _ _ next (by omega)
      · exact ih _ evt (inv_later inv) (by omega)
    · exact inv.safe

theorem batch_safe (evt : FwdEvent) (batch : List EpollEvent) (calls : Nat → List EventOp) :
    NotCalledAfter false (fwdEventHandleEvt evt batch calls).trace ∧
      ((∀ entry ∈ batch, ∀ ptr, entry.ptr = some ptr → (evt.fds ptr).reg = true) →
        NotCalledAfter true (fwdEventHandleEvt evt batch calls).trace) := by
  have start (any : Bool) (registered : any = true → ∀ entry ∈ batch, ∀ ptr, entry.ptr = some ptr → (evt.fds ptr).reg = true) :
      NotCalledAfter any (fwdEventHandleEvt evt batch calls).trace := by
    refine walk_inv any _ _ 0 _ ⟨List.Pairwise.nil, fun _ there => (nomatch there), fun every i _ _ entry there => ?_⟩
      (Nat.zero_add _).symm
    exact registered every _ (List.mem_of_getElem? there)
  exact ⟨start _ nofun, fun registered => start true fun _ => registered⟩

end Codec.Fwd
