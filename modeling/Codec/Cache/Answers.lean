import Codec.Cache.Steps
import Mathlib.Algebra.BigOperators.Group.Finset.Basic

set_option autoImplicit false

namespace Codec.Cache

open Codec.Lib
open Codec.Ems (Str)

def fuseMsgs (req : Nat) (msgs : List Msg) : Nat := msgs.countP fun msg => msg.fuse && msg.req == req

variable (req : Nat) (msg : Msg) (fn : NodeId)

@[simp] theorem fuse_msgs_nil : fuseMsgs req [] = 0 := rfl

@[simp] theorem fuse_msgs_append (first second : List Msg) :
    fuseMsgs req (first ++ second) = fuseMsgs req first + fuseMsgs req second := List.countP_append

theorem fuse_msgs_cons (rest : List Msg) : fuseMsgs req (msg :: rest) = fuseMsgs req [msg] + fuseMsgs req rest :=
  fuse_msgs_append req [msg] rest

theorem fuse_msgs_perm {first second : List Msg} (perm : first.Perm second) : fuseMsgs req first = fuseMsgs req second :=
  perm.countP_eq _

theorem fuse_msgs_result (result : Option Bool) : fuseMsgs req [{ msg with result := result }] = fuseMsgs req [msg] := rfl

@[simp] theorem fuse_msgs_build (total : Nat) : fuseMsgs req (State.build msg total) = fuseMsgs req [msg] := by
  rw [State.build, fuse_msgs_cons, Nat.add_eq_left]
  refine List.countP_eq_zero.mpr fun copy there => ?_
  rw [List.eq_of_mem_replicate there]
  exact Bool.false_ne_true

variable {ι : Type}

def FGWEvent.msgs : FGWEvent ι → List Msg
  | .request msg | .rsp msg => [msg]
  | _ => []

@[simp] theorem FGWEvent.request_msgs : (FGWEvent.request msg : FGWEvent ι).msgs = [msg] := rfl

@[simp] theorem FGWEvent.rsp_msgs : (FGWEvent.rsp msg : FGWEvent ι).msgs = [msg] := rfl

@[simp] theorem FGWEvent.refresh_msgs (dir : Bool) (disk : ι) (path : Path) : (FGWEvent.refresh dir disk path).msgs = [] := rfl

@[simp] theorem FGWEvent.command_msgs : (FGWEvent.command : FGWEvent ι).msgs = [] := rfl

@[simp] theorem FGWEvent.cmd_rsp_msgs : (FGWEvent.cmdRsp : FGWEvent ι).msgs = [] := rfl

def DiskEvent.msgs : DiskEvent → List Msg
  | .oper msg => [msg]
  | .scan => []

@[simp] theorem DiskEvent.oper_msgs : (DiskEvent.oper msg).msgs = [msg] := rfl

def FGWPc.msgs : FGWPc ι → List Msg
  | .wait => []
  | .taken event => event.msgs
  | .placed msg _ | .read msg _ _ => [msg]
  | .send _ _ _ _ msgs => msgs

@[simp] theorem FGWPc.wait_msgs : (FGWPc.wait : FGWPc ι).msgs = [] := rfl

@[simp] theorem FGWPc.placed_msgs : (FGWPc.placed msg fn : FGWPc ι).msgs = [msg] := rfl

@[simp] theorem FGWPc.read_msgs (keys : List DiskType) : (FGWPc.read msg fn keys : FGWPc ι).msgs = [msg] := rfl

@[simp] theorem FGWPc.send_msgs (keys : List DiskType) (place : Nat) (msgs : List Msg) :
    (FGWPc.send msg fn keys place msgs : FGWPc ι).msgs = msgs := rfl

@[simp] theorem FGWPc.taken_msgs (event : FGWEvent ι) : (FGWPc.taken event).msgs = event.msgs := rfl

def DiskPc.msgs : DiskPc → List Msg
  | .taken event => event.msgs
  | .opening msg _ _ | .answered msg => [msg]
  | _ => []

@[simp] theorem DiskPc.wait_msgs : DiskPc.wait.msgs = [] := rfl

@[simp] theorem DiskPc.taken_msgs (event : DiskEvent) : (DiskPc.taken event).msgs = event.msgs := rfl

@[simp] theorem DiskPc.answered_msgs : (DiskPc.answered msg).msgs = [msg] := rfl

def DiskPc.isScanning : DiskPc → Bool
  | .scanning _ => true
  | _ => false

def Disk.msgs (disk : Disk) : List Msg := disk.queue.flatMap (·.2.msgs) ++ disk.pc.msgs

namespace State

variable [Fintype ι] (st : State ι) (req : Nat)

-- Where a FuseMsg is, and how often it has been released.
def ledger : Nat :=
  fuseMsgs req (st.queue.flatMap (·.2.msgs)) + fuseMsgs req st.pc.msgs + ∑ disk, fuseMsgs req (st.disks disk).msgs +
    (st.released req).length

def remaining (fs : FileSystem ι) (fn : NodeId) : List DiskType → Nat → Nat
  | [], _ => 0
  | key :: later, place => ((fs.nodes fn).ext key).length - place + remaining fs fn later 0

def Room : Prop := ∀ msg fn later place msgs, st.pc = .send msg fn later place msgs → remaining st.fs fn later place ≤ msgs.length

def lost : Act ι → Nat
  | .fgw =>
    match st.pc with
    | .send _ _ [] _ msgs => fuseMsgs req msgs
    | _ => 0
  | _ => 0

def starting : Act ι → Nat
  | .issue thread =>
    match st.fuse thread with
    | .found _ _ => if req = st.issued then 1 else 0
    | _ => 0
  | _ => 0

end State

section Releases

variable (st : State ι)

variable (msg : Msg) (event : FGWEvent ι)

theorem release_same : st.release msg = { st with released := (st.release msg).released } := by
  unfold State.release
  split <;> rfl

@[simp] theorem release_pc : (st.release msg).pc = st.pc := by rw [release_same]

@[simp] theorem release_fs : (st.release msg).fs = st.fs := by rw [release_same]

@[simp] theorem release_queue : (st.release msg).queue = st.queue := by rw [release_same]

@[simp] theorem release_disks : (st.release msg).disks = st.disks := by rw [release_same]

@[simp] theorem release_issued : (st.release msg).issued = st.issued := by rw [release_same]

@[simp] theorem release_fuse : (st.release msg).fuse = st.fuse := by rw [release_same]

@[simp] theorem release_warned : (st.release msg).warned = st.warned := by rw [release_same]

@[simp] theorem fail_pc : (st.fail event).pc = .wait := by cases event <;> simp [State.fail, State.put]

@[simp] theorem fail_fs : (st.fail event).fs = st.fs := by cases event <;> simp [State.fail, State.put]

@[simp] theorem fail_disks : (st.fail event).disks = st.disks := by cases event <;> simp [State.fail, State.put]

@[simp] theorem fail_issued : (st.fail event).issued = st.issued := by cases event <;> simp [State.fail, State.put]

@[simp] theorem fail_fuse : (st.fail event).fuse = st.fuse := by cases event <;> simp [State.fail, State.put]

@[simp] theorem fail_warned : (st.fail event).warned = st.warned ++ [event] := by cases event <;> simp [State.fail, State.put]

end Releases

variable [DecidableEq ι]

section Moves

variable [Fintype ι] (st : State ι) (req : Nat)

theorem sum_update (weight : Disk → Nat) (all : ι → Disk) (disk : ι) (value : Disk) :
    ∑ other, weight (Function.update all disk value other) + weight (all disk) = ∑ other, weight (all other) + weight value := by
  rw [← Finset.add_sum_erase _ _ (Finset.mem_univ disk), ← Finset.add_sum_erase (a := disk) _ _ (Finset.mem_univ disk)]
  have same : ∑ other ∈ Finset.univ.erase disk, weight (Function.update all disk value _) =
      ∑ other ∈ Finset.univ.erase disk, weight _ :=
    Finset.sum_congr rfl fun other there => by rw [Function.update_of_ne (Finset.ne_of_mem_erase there)]
  rw [same, Function.update_self]
  omega

omit [DecidableEq ι] in
theorem ledger_put (level : Nat) (event : FGWEvent ι) : (st.put level event).ledger req = st.ledger req + fuseMsgs req event.msgs := by
  have pushed := fuse_msgs_perm req ((Heapq.push_perm entryLess st.queue (level, event)).flatMap_right (·.2.msgs))
  simp only [List.flatMap_append, fuse_msgs_append, List.flatMap_singleton] at pushed
  simp only [State.ledger, State.put, pushed]
  omega

theorem ledger_set_disk (disk : ι) (value : Disk) :
    (st.setDisk disk value).ledger req + fuseMsgs req (st.disks disk).msgs = st.ledger req + fuseMsgs req value.msgs := by
  have sum := sum_update (fun disk => fuseMsgs req disk.msgs) st.disks disk value
  simp only [State.ledger, State.setDisk]
  omega

theorem ledger_set_pc (disk : ι) (pc : DiskPc) :
    (st.setPc disk pc).ledger req + fuseMsgs req (st.disks disk).pc.msgs = st.ledger req + fuseMsgs req pc.msgs := by
  have set := ledger_set_disk st req disk { st.disks disk with pc := pc }
  simp only [Disk.msgs, fuse_msgs_append] at set
  simp only [State.setPc]
  omega

theorem ledger_put_disk (disk : ι) (msg : Msg) : (st.putDisk disk msg).ledger req = st.ledger req + fuseMsgs req [msg] := by
  have set := ledger_set_disk st req disk { st.disks disk with
    queue := Heapq.heappush entryLess (st.disks disk).queue (2, .oper msg), sent := (st.disks disk).sent ++ [msg] }
  have pushed := fuse_msgs_perm req ((Heapq.push_perm entryLess (st.disks disk).queue (2, .oper msg)).flatMap_right (·.2.msgs))
  simp only [List.flatMap_append, fuse_msgs_append, List.flatMap_singleton, DiskEvent.oper_msgs] at pushed
  simp only [Disk.msgs, fuse_msgs_append, pushed] at set
  simp only [State.putDisk]
  omega

omit [DecidableEq ι] in
theorem ledger_release (msg : Msg) : (st.release msg).ledger req = st.ledger req + fuseMsgs req [msg] := by
  cases fuse : msg.fuse with
  | false => simp [State.release, fuse, fuseMsgs]
  | true =>
    by_cases same : msg.req = req
    · subst same
      simp [State.release, State.ledger, fuse, fuseMsgs]
      omega
    · simp [State.release, State.ledger, fuse, fuseMsgs, same, Function.update_of_ne (Ne.symm same)]

omit [DecidableEq ι] in
theorem ledger_pc (pc : FGWPc ι) : { st with pc := pc }.ledger req + fuseMsgs req st.pc.msgs = st.ledger req + fuseMsgs req pc.msgs := by
  simp only [State.ledger]
  omega

omit [DecidableEq ι] in
theorem ledger_fail (event : FGWEvent ι) : (st.fail event).ledger req + fuseMsgs req st.pc.msgs = st.ledger req + fuseMsgs req event.msgs := by
  have logged : { st with pc := .wait, warned := st.warned ++ [event] }.ledger req + fuseMsgs req _ = st.ledger req :=
    ledger_pc st req _
  cases event with
  | request msg =>
    simp only [State.fail, ledger_release, FGWEvent.msgs]
    omega
  | rsp msg =>
    simp only [State.fail, ledger_release, FGWEvent.msgs]
    omega
  | refresh dir disk path => exact logged
  | command =>
    rw [State.fail, ledger_put]
    exact logged
  | cmdRsp =>
    rw [State.fail, ledger_put]
    exact logged

end Moves

section Steps

variable (disks : Disks ι) (st : State ι) (req : Nat)

-- While a list is not at its end, the router still has a message for it.
omit [DecidableEq ι] in
theorem room_left (room : st.Room) (msg : Msg) (fn : NodeId) (key : DiskType) (later : List DiskType) (place : Nat) (msgs : List Msg) (disk : ι)
    (pc : st.pc = .send msg fn (key :: later) place msgs) (target : ((st.fs.nodes fn).ext key)[place]? = some disk) : 0 < msgs.length := by
  obtain ⟨inside, _⟩ := List.getElem?_eq_some_iff.mp target
  have enough := room msg fn _ _ msgs pc
  simp only [State.remaining] at enough
  omega

omit [DecidableEq ι] in
theorem fails_msgs (room : st.Room) (event : FGWEvent ι) (why : FGWFails st event) :
    fuseMsgs req event.msgs = fuseMsgs req st.pc.msgs ∧ st.lost req .fgw = 0 := by
  cases why with
  | unknown msg pc => simp [State.lost, pc]
  | refused msg pc =>
    rcases pc with pc | ⟨fn, pc⟩
    · simpa [State.lost, pc] using fuse_msgs_result req msg _
    · simpa [State.lost, pc] using fuse_msgs_result req msg _
  | spent msg fn key later place disk pc target => exact absurd (room_left st room msg fn key _ _ [] disk pc target) (Nat.lt_irrefl 0)
  | unread msg fn pc => simp [State.lost, pc]
  | response msg pc => simp [State.lost, pc]
  | refresh dir disk path pc => simp [State.lost, pc]

variable [Fintype ι]

theorem ledger_fgw (room : st.Room) : (st.fgwStep disks).ledger req + st.lost req .fgw = st.ledger req := by
  have does := fgw_does disks st
  generalize st.fgwStep _ = after at does
  cases does with
  | nothing pc => simp [State.lost, pc]
  | takes entry rest pc popped =>
    have perm := fuse_msgs_perm req ((Heapq.pop_perm _ _ rest _ popped).flatMap_right (·.2.msgs))
    simp only [List.flatMap_cons, fuse_msgs_append] at perm
    simp only [State.ledger, State.lost, pc, FGWPc.wait_msgs, FGWPc.taken_msgs, fuse_msgs_nil]
    omega
  | fails event why =>
    have failed := ledger_fail st req event
    obtain ⟨same, none⟩ := fails_msgs st req room _ why
    omega
  | unplaced msg fn disk current pc =>
    have failed := ledger_fail { st with fs := State.holdFound st.fs fn .memory disk, currentMemory := current } req (.request msg)
    have same : { st with fs := State.holdFound st.fs fn .memory disk, currentMemory := current }.ledger req = st.ledger req := rfl
    simp only [State.lost, pc, FGWPc.taken_msgs, FGWEvent.request_msgs] at failed same ⊢
    omega
  | places msg fn memory hdd currentMemory currentHdd pc => simp [State.lost, State.ledger, pc]
  | reads msg fn pc => simp [State.lost, State.ledger, pc]
  | builds msg fn pc => rcases pc with ⟨pc, -⟩ | pc <;> simp [State.lost, State.ledger, pc]
  | settles msg fn fs pc =>
    rw [ledger_release]
    simp [State.lost, State.ledger, pc]
    omega
  | gives msg pc =>
    rw [ledger_release]
    simp [State.lost, State.ledger, pc]
    omega
  | refreshes dir disk path fs pc => simp [State.lost, State.ledger, pc]
  | obeys pc =>
    rw [ledger_put]
    simp [State.lost, State.ledger, pc]
  | informs pc => simp [State.lost, State.ledger, pc]
  | sent msg fn place msgs pc =>
    simp [State.lost, State.ledger, pc]
    omega
  | passes msg fn key later place msgs pc => simp [State.lost, State.ledger, pc]
  | sends msg fn key later place first rest disk pc =>
    have put := ledger_put_disk st req disk first
    have moved := ledger_pc (st.putDisk disk first) req (.send msg fn (key :: later) (place + 1) rest)
    have same : (st.putDisk disk first).pc = st.pc := rfl
    rw [same, pc, FGWPc.send_msgs, FGWPc.send_msgs, fuse_msgs_cons] at moved
    simp only [State.lost, pc]
    omega
  | seeks msg fn key later pc => simp [State.lost, State.ledger, pc]
  | asks msg fn key later disk pc =>
    have put := ledger_put_disk st req disk msg
    have moved := ledger_pc (st.putDisk disk msg) req .wait
    have same : (st.putDisk disk msg).pc = st.pc := rfl
    rw [same, pc] at moved
    simp only [State.lost, pc, FGWPc.wait_msgs, FGWPc.read_msgs, fuse_msgs_nil] at moved ⊢
    omega

theorem ledger_perform (disk : ι) (msg : Msg) (ran : Bool) (os : List Os) :
    (st.perform disks disk msg ran os).ledger req + fuseMsgs req (st.disks disk).pc.msgs = st.ledger req + fuseMsgs req [msg] := by
  have set := ledger_set_disk { st with fs := msg.node.elim st.fs fun fn => State.effect disks disk st.fs fn msg.op ran } req disk
    { st.disks disk with
      pc := .answered { msg with result := some (ran && (!msg.op.stats || os.head? == some .done)) }
      performed := (st.disks disk).performed ++ [msg] }
  have same : { st with fs := msg.node.elim st.fs fun fn => State.effect disks disk st.fs fn msg.op ran }.ledger req = st.ledger req := rfl
  simp only [Disk.msgs, fuse_msgs_append, DiskPc.answered_msgs, fuse_msgs_result] at set
  simp only [State.perform]
  omega

theorem ledger_disk (disk : ι) (act : DiskAct) : (st.diskStep disks disk act).ledger req = st.ledger req := by
  have set := ledger_set_pc st req disk
  have does := disk_does disks st disk act
  generalize st.diskStep _ disk act = after at does
  cases does with
  | nothing => rfl
  | takes os entry rest pc popped =>
    have perm := fuse_msgs_perm req ((Heapq.pop_perm _ _ rest _ popped).flatMap_right (·.2.msgs))
    have taken := ledger_set_disk st req disk { st.disks disk with queue := rest, pc := .taken entry.2 }
    simp only [List.flatMap_cons, fuse_msgs_append] at perm
    simp only [Disk.msgs, fuse_msgs_append, pc, DiskPc.wait_msgs, DiskPc.taken_msgs, fuse_msgs_nil] at taken ⊢
    omega
  | starts os pc =>
    rw [pc] at set
    exact set _
  | opens os msg dirs ok pc =>
    rw [pc] at set
    exact Nat.add_right_cancel (set _)
  | announces os msg dir dirs ok pc =>
    rw [pc] at set
    rw [ledger_put]
    exact Nat.add_right_cancel (set _)
  | performs os rest msg ran pc =>
    have performed := ledger_perform disks st req disk msg ran rest
    rcases pc with ⟨pc, -⟩ | pc <;> rw [pc] at performed <;> exact Nat.add_right_cancel performed
  | answers os msg pc =>
    rw [pc] at set
    rw [ledger_put]
    exact set _
  | finds dirs found dir name isDir pc =>
    rw [pc] at set
    rw [ledger_put]
    exact set _
  | ends dirs pc =>
    rw [pc] at set
    exact set _
  | finishes dirs pc =>
    rw [pc] at set
    exact set .wait

theorem step_ledger (room : st.Room) (act : Act ι) :
    (step disks st act).ledger req + st.lost req act = st.ledger req + st.starting req act := by
  cases act with
  | look thread op path =>
    simp only [step, State.look]
    split
    · split
      · rfl
      · split <;> rfl
    · rfl
  | issue thread =>
    simp only [step, State.issue, State.lost, State.starting]
    cases st.fuse _ with
    | found op node =>
      simp only [ledger_put, FGWEvent.msgs]
      have count : fuseMsgs req [⟨true, st.issued, thread, node, op, none⟩] = if req = st.issued then 1 else 0 := by
        by_cases same : req = st.issued
        · simp [fuseMsgs, same]
        · simp [fuseMsgs, same, Ne.symm same]
      rw [count]
      rfl
    | idle | waits _ => rfl
  | awake thread =>
    simp only [step, State.awake]
    cases st.fuse _ with
    | waits number =>
      simp only
      split <;> rfl
    | idle | found _ _ => rfl
  | command => exact ledger_put st req 0 _
  | fgw => exact ledger_fgw _ st req room
  | disk disk act => exact ledger_disk _ st req disk act

end Steps

section Frames

variable (disks : Disks ι) (st : State ι)

theorem fgw_fuse : (st.fgwStep disks).fuse = st.fuse ∧ (st.fgwStep disks).issued = st.issued := by
  have does := fgw_does disks st
  generalize st.fgwStep _ = after at does
  cases does <;> simp [State.put, State.putDisk, State.setDisk]

structure DiskFrame (before after : State ι) : Prop where
  pc : after.pc = before.pc
  fuse : after.fuse = before.fuse
  issued : after.issued = before.issued
  released : after.released = before.released
  warned : after.warned = before.warned

theorem disk_frame (disk : ι) (act : DiskAct) : DiskFrame st (st.diskStep disks disk act) := by
  have does := disk_does disks st disk act
  generalize st.diskStep _ disk act = after at does
  cases does <;> exact ⟨rfl, rfl, rfl, rfl, rfl⟩

theorem disk_changes (disk : ι) (act : DiskAct) : (st.diskStep disks disk act).fs = st.fs ∨
    ∃ msg ran os rest, act = .next os ∧ st.diskStep disks disk act = st.perform disks disk msg ran rest ∧
      ((st.disks disk).pc = .taken (.oper msg) ∧ ran = (os.head? == some .done) ∨ (st.disks disk).pc = .opening msg [] ran) := by
  have does := disk_does disks st disk act
  generalize st.diskStep _ disk act = after at does
  cases does with
  | performs os rest msg ran pc => exact .inr ⟨msg, ran, os, rest, rfl, rfl, pc⟩
  | nothing | takes | starts | opens | announces | answers | finds | ends | finishes => exact .inl rfl

theorem perform_fs (disk : ι) (msg : Msg) (ran : Bool) (os : List Os) : (st.perform disks disk msg ran os).fs =
    msg.node.elim st.fs fun fn => State.effect disks disk st.fs fn msg.op ran := rfl

end Frames

section Rooms

variable (disks : Disks ι) (st : State ι)

def Shrinks (before after : FileSystem ι) : Prop := ∀ fn key, ((after.nodes fn).ext key).length ≤ ((before.nodes fn).ext key).length

omit [DecidableEq ι] in
theorem set_node_shrinks (fs : FileSystem ι) (fn : NodeId) (node : FileNode ι)
    (shorter : ∀ key, (node.ext key).length ≤ ((fs.nodes fn).ext key).length) : Shrinks fs (fs.setNode fn node) := by
  intro other key
  by_cases same : other = fn
  · subst same
    simpa [FileSystem.setNode] using shorter key
  · simp [FileSystem.setNode, same]

theorem let_go_shrinks (fs : FileSystem ι) (fn : NodeId) (kind : DiskType) (disk : ι) : Shrinks fs (fs.letGo fn kind disk) := by
  refine set_node_shrinks fs fn _ fun key => ?_
  by_cases same : key = kind
  · subst same
    simpa using List.length_erase_le
  · simp [same]

theorem effect_shrinks (disk : ι) (fs : FileSystem ι) (fn : NodeId) (op : Oper) (ran : Bool) :
    Shrinks fs (State.effect disks disk fs fn op ran) := by
  rcases effect_does _ disk fs fn op ran with ⟨-, same⟩ | ⟨-, same | ⟨value, same⟩⟩
  · exact same ▸ let_go_shrinks fs fn _ disk
  · rw [same]
    exact fun _ _ => Nat.le_refl _
  · rw [same]
    exact set_node_shrinks fs fn _ fun _ => Nat.le_refl _

omit [DecidableEq ι] in
theorem remaining_shrinks (before after : FileSystem ι) (shrinks : Shrinks before after) (fn : NodeId) (later : List DiskType) (place : Nat) :
    State.remaining after fn later place ≤ State.remaining before fn later place := by
  induction later generalizing place with
  | nil => exact Nat.le_refl _
  | cons key later ih =>
    have shorter := shrinks fn key
    have rest := ih 0
    simp only [State.remaining]
    omega

omit [DecidableEq ι] in
theorem room_apart (waits : ∀ msg fn later place msgs, st.pc ≠ .send msg fn later place msgs) : st.Room :=
  fun msg fn _ _ msgs pc => absurd pc (waits msg fn _ _ msgs)

omit [DecidableEq ι] in
theorem room_same (after : State ι) (pc : after.pc = st.pc) (shrinks : Shrinks st.fs after.fs) (room : st.Room) : after.Room := by
  intro msg fn later place msgs sends
  exact (remaining_shrinks _ _ shrinks fn _ _).trans (room msg fn _ _ msgs (pc ▸ sends))

-- As many messages are built as there are holders.
omit [DecidableEq ι] in
theorem room_built (msg : Msg) (fn : NodeId) :
    { st with pc := .send msg fn State.keys 0 (State.build msg (st.fs.nodes fn).total) }.Room := by
  intro msg fn later place msgs sends
  cases sends
  simp only [State.remaining, State.keys, State.build, FileNode.total, List.length_cons, List.length_replicate]
  omega

theorem room_fgw (room : st.Room) : (st.fgwStep disks).Room := by
  have does := fgw_does disks st
  generalize st.fgwStep _ = after at does
  cases does with
  | nothing => exact room
  | builds msg fn => exact room_built st msg fn
  | passes msg fn key later place msgs pc =>
    have enough := room msg fn _ _ msgs pc
    intro msg fn later place msgs sends
    cases sends
    exact Nat.le_trans (Nat.le_add_left _ _) enough
  | sends msg fn key later place first rest disk pc target =>
    have enough := room msg fn _ _ _ pc
    obtain ⟨inside, _⟩ := List.getElem?_eq_some_iff.mp target
    intro msg fn later place msgs sends
    cases sends
    simp only [State.remaining, List.length_cons, State.putDisk, State.setDisk] at enough ⊢
    omega
  | takes | fails | unplaced | places | reads | settles | gives | refreshes | obeys | informs | sent | seeks | asks =>
    exact room_apart _ (by simp [State.put])

omit [DecidableEq ι] in
theorem tmp_shrinks (fs : FileSystem ι) (path : Path) (dir : Bool) : Shrinks fs (fs.tmp path dir) :=
  set_node_shrinks fs _ _ fun _ => Nat.zero_le _

theorem step_room (act : Act ι) (room : st.Room) : (step disks st act).Room := by
  have same : Shrinks _ st.fs := fun _ _ => Nat.le_refl _
  cases act with
  | look thread op path =>
    simp only [step, State.look]
    split
    · split
      · exact room
      · split
        · exact room
        · exact room
        · exact room_same st _ rfl (tmp_shrinks _ path _) room
        · exact room_same st _ rfl (tmp_shrinks _ path _) room
        · exact room_same st _ rfl (tmp_shrinks _ path true) room
        · exact room_same st _ rfl same room
    · exact room
  | issue thread =>
    simp only [step, State.issue]
    split
    · exact room_same st _ rfl same room
    · exact room
  | awake thread =>
    simp only [step, State.awake]
    split
    · split
      · exact room_same st _ rfl same room
      · exact room
    · exact room
  | command => exact room_same st _ rfl same room
  | fgw => exact room_fgw _ st room
  | disk disk act =>
    refine room_same st _ (disk_frame _ st disk act).pc ?_ room
    rcases disk_changes _ st disk act with nothing | ⟨msg, ran, os, rest, -, does, -⟩
    · rw [step, nothing]
      exact same
    · rw [step, does, perform_fs]
      cases msg.node with
      | none => exact same
      | some fn => exact effect_shrinks _ disk _ fn _ ran

end Rooms

section Responses

variable (disks : Disks ι) (st : State ι) (msg : Msg)

def Queued (queue : List (Nat × FGWEvent ι)) : Prop := ∃ entry ∈ queue, entry.2 = .rsp msg

def State.Response : Prop := Queued msg st.queue ∨ st.pc = .taken (.rsp msg) ∨ ∃ disk, (st.disks disk).pc = .answered msg

omit [DecidableEq ι] in
theorem queued_push (queue : List (Nat × FGWEvent ι)) (level : Nat) (event : FGWEvent ι) :
    Queued msg (Heapq.heappush entryLess queue (level, event)) ↔ Queued msg queue ∨ event = .rsp msg := by
  simp only [Queued, (Heapq.push_perm _ _ _).mem_iff, List.mem_append, List.mem_singleton]
  constructor
  · rintro ⟨entry, there | rfl, same⟩
    · exact .inl ⟨entry, there, same⟩
    · exact .inr same
  · rintro (⟨entry, there, same⟩ | same)
    · exact ⟨entry, .inl there, same⟩
    · exact ⟨(level, event), .inr rfl, same⟩

omit [DecidableEq ι] in
theorem queued_pop (queue rest : List (Nat × FGWEvent ι)) (entry : Nat × FGWEvent ι)
    (popped : Heapq.heappop entryLess queue = some (entry, rest)) : Queued msg queue ↔ entry.2 = .rsp msg ∨ Queued msg rest := by
  simp only [Queued, ← (Heapq.pop_perm _ _ rest _ popped).mem_iff, List.mem_cons, exists_eq_or_imp]

omit [DecidableEq ι] in
theorem queued_fail (event : FGWEvent ι) : Queued msg (st.fail event).queue ↔ Queued msg st.queue := by
  cases event <;> simp [State.fail, State.put, queued_push]

structure Handles (before after : State ι) : Prop where
  queue : ∀ msg, Queued msg after.queue ↔ Queued msg before.queue
  pc : ∀ event, after.pc ≠ .taken event
  disks : ∀ disk, (after.disks disk).pc = (before.disks disk).pc

omit [DecidableEq ι] in
theorem handles_fail (event : FGWEvent ι) : Handles st (st.fail event) := ⟨fun msg => queued_fail st msg _, by simp, by simp⟩

theorem put_disk_pc (disk other : ι) (msg : Msg) : ((st.putDisk disk msg).disks other).pc = (st.disks other).pc := by
  by_cases same : other = disk
  · subst same
    simp [State.putDisk, State.setDisk]
  · simp [State.putDisk, State.setDisk, same]

theorem fgw_handles (busy : st.pc ≠ .wait) : Handles st (st.fgwStep disks) := by
  have does := fgw_does disks st
  generalize st.fgwStep _ = after at does
  cases does with
  | nothing pc => exact absurd pc busy
  | takes entry rest pc => exact absurd pc busy
  | fails event => exact handles_fail st _
  | unplaced msg fn disk current =>
    refine ⟨fun msg => ?_, by simp, by simp⟩
    rw [queued_fail]
  | obeys => exact ⟨fun msg => by simp [State.put, queued_push], by simp [State.put], fun _ => rfl⟩
  | sends msg fn key later place first rest disk => exact ⟨fun _ => Iff.rfl, by simp, fun other => put_disk_pc st disk _ _⟩
  | asks msg fn key later disk => exact ⟨fun _ => Iff.rfl, by simp, fun other => put_disk_pc st disk _ msg⟩
  | places | reads | builds | settles | gives | refreshes | informs | sent | passes | seeks => exact ⟨by simp, by simp, by simp⟩

theorem response_fgw : (st.fgwStep disks).Response msg ∨ st.pc = .taken (.rsp msg) ↔ st.Response msg := by
  by_cases waits : st.pc = .wait
  · simp only [State.fgwStep, waits, reduceCtorEq, or_false]
    cases popped : Heapq.heappop _ _ with
    | none => rfl
    | some found =>
      simp only [State.Response, waits, queued_pop msg _ _ _ popped, FGWPc.taken.injEq, reduceCtorEq, false_or]
      exact ⟨fun | .inl queued => .inl (.inr queued) | .inr (.inl taken) => .inl (.inl taken) | .inr (.inr answered) => .inr answered,
        fun | .inl (.inl taken) => .inr (.inl taken) | .inl (.inr queued) => .inl queued | .inr answered => .inr (.inr answered)⟩
  · have handles := fgw_handles disks st waits
    simp only [State.Response, handles.queue msg, handles.disks, iff_false_intro (handles.pc _), false_or]
    exact ⟨fun | .inl (.inl queued) => .inl queued | .inl (.inr answered) => .inr (.inr answered) | .inr taken => .inr (.inl taken),
      fun | .inl queued => .inl (.inl queued) | .inr (.inl taken) => .inr taken | .inr (.inr answered) => .inl (.inr answered)⟩

omit [DecidableEq ι] in
theorem response_put (level : Nat) (event : FGWEvent ι) : (st.put level event).Response msg ↔ st.Response msg ∨ event = .rsp msg := by
  simp only [State.Response, State.put, queued_push]
  exact ⟨fun | .inl (.inl queued) => .inl (.inl queued) | .inl (.inr same) => .inr same | .inr later => .inl (.inr later),
    fun | .inl (.inl queued) => .inl (.inl queued) | .inl (.inr later) => .inr later | .inr same => .inl (.inr same)⟩

variable (disk : ι)

theorem response_set_disk (value : Disk) (response : (st.setDisk disk value).Response msg) :
    st.Response msg ∨ value.pc = .answered msg := by
  rcases response with queued | taken | ⟨other, answered⟩
  · exact .inl (.inl queued)
  · exact .inl (.inr (.inl taken))
  · by_cases same : other = disk
    · subst same
      exact .inr (by simpa [State.setDisk] using answered)
    · exact .inl (.inr (.inr ⟨other, by simpa [State.setDisk, same] using answered⟩))

theorem response_kept (value : Disk) (response : st.Response msg) :
    (st.setDisk disk value).Response msg ∨ (st.disks disk).pc = .answered msg := by
  rcases response with queued | taken | ⟨other, answered⟩
  · exact .inl (.inl queued)
  · exact .inl (.inr (.inl taken))
  · by_cases same : other = disk
    · exact .inr (same ▸ answered)
    · exact .inl (.inr (.inr ⟨other, by simpa [State.setDisk, same] using answered⟩))

theorem response_stays (act : DiskAct) (response : st.Response msg) : (st.diskStep disks disk act).Response msg := by
  have kept (value : Disk) (quiet : (st.disks disk).pc ≠ .answered msg) : (st.setDisk disk _).Response msg :=
    (response_kept st msg disk value response).resolve_right quiet
  have does := disk_does disks st disk act
  generalize st.diskStep _ disk act = after at does
  cases does with
  | nothing => exact response
  | takes os entry rest pc => exact kept _ (by simp [pc])
  | starts os pc => exact kept _ (by simp [pc])
  | opens os first dirs ok pc => exact kept _ (by simp [pc])
  | announces os first dir dirs ok pc => exact (response_put _ _ _ _).mpr (.inl (kept _ (by simp [pc])))
  | performs os rest first ran pc => exact kept _ (by rcases pc with ⟨pc, -⟩ | pc <;> simp [pc])
  | answers os first pc =>
    refine (response_put _ _ _ _).mpr ?_
    rcases response_kept st msg disk _ response with stays | put
    · exact .inl stays
    · rw [pc, DiskPc.answered.injEq] at put
      exact .inr (congrArg _ put)
  | finds dirs found dir name isDir pc => exact (response_put _ _ _ _).mpr (.inl (kept _ (by simp [pc])))
  | ends dirs pc => exact kept _ (by simp [pc])
  | finishes dirs pc => exact kept _ (by simp [pc])

theorem response_made (act : DiskAct) (response : (st.diskStep disks disk act).Response msg) :
    st.Response msg ∨ msg.result ≠ none := by
  have set (value : Disk) (quiet : value.pc ≠ .answered msg) (later : (st.setDisk disk _).Response msg) :
      st.Response msg ∨ msg.result ≠ none :=
    .inl ((response_set_disk st msg disk _ later).resolve_right quiet)
  have put (pc : DiskPc) (event : FGWEvent ι) (quiet : pc ≠ .answered msg) (other : event ≠ .rsp msg)
      (later : ((st.setPc disk pc).put 2 _).Response msg) : st.Response msg ∨ msg.result ≠ none :=
    set _ quiet (((response_put _ _ _ _).mp later).resolve_right other)
  have does := disk_does disks st disk act
  generalize st.diskStep _ disk act = after at does response
  cases does with
  | nothing => exact .inl response
  | announces | finds => exact put _ _ (by simp) (by simp) response
  | performs os rest first ran pc =>
    rcases response_set_disk _ msg disk _ response with before | answered
    · exact .inl before
    · rw [← DiskPc.answered.inj answered]
      exact .inr nofun
  | answers os first pc =>
    rcases (response_put _ _ _ _).mp response with later | same
    · exact set _ (by simp) later
    · refine .inl (.inr (.inr ⟨disk, ?_⟩))
      rw [pc, FGWEvent.rsp.inj same]
  | takes | starts | opens | ends | finishes => exact set _ (by simp) response

end Responses

section Answers

variable (disks : Disks ι) (st : State ι)

theorem fgw_disks (disk : ι) : ((st.fgwStep disks).disks disk).pc = (st.disks disk).pc := by
  by_cases waits : st.pc = .wait
  · simp only [State.fgwStep, waits]
    split <;> rfl
  · exact (fgw_handles _ st waits).disks disk

theorem disk_ends (disk other : ι) (act : DiskAct) (ended : ((st.diskStep disks disk act).disks other).pc = .ended) :
    (st.disks other).pc = .ended ∨ act = .statFails ∧ ∃ dirs, (st.disks disk).pc = .scanning dirs := by
  have set (value : Disk) (goes : value.pc ≠ .ended) (later : ((st.setDisk disk value).disks other).pc = .ended) :
      (st.disks other).pc = .ended := by
    by_cases same : other = disk
    · subst same
      exact absurd (by simpa [State.setDisk] using later) goes
    · simpa [State.setDisk, same] using later
  have does := disk_does disks st disk act
  generalize st.diskStep _ disk act = after at does ended
  cases does with
  | nothing => exact .inl ended
  | ends dirs pc => exact .inr ⟨rfl, dirs, pc⟩
  | takes | starts | opens | announces | performs | answers | finds | finishes => exact .inl (set _ (by simp) ended)

def Opens : Prop := ∀ disk msg dirs ok, (st.disks disk).pc = .opening msg dirs ok → msg.op.removes = false

omit [DecidableEq ι] in
theorem init_opens : Opens (.init : State ι) := fun _ _ _ _ => nofun

theorem disk_opens (opens : Opens st) (disk : ι) (act : DiskAct) : Opens (st.diskStep disks disk act) := by
  intro other msg dirs ok opening
  have set (value : Disk) (new : value.pc = .opening msg dirs ok → msg.op.removes = false)
      (later : ((st.setDisk disk value).disks other).pc = .opening msg dirs ok) : msg.op.removes = false := by
    by_cases same : other = disk
    · subst same
      exact new (by simpa [State.setDisk] using later)
    · exact opens _ msg dirs ok (by simpa [State.setDisk, same] using later)
  have does := disk_does disks st disk act
  generalize st.diskStep _ disk act = after at does opening
  cases does with
  | nothing => exact opens _ msg dirs ok opening
  | opens os first dirs ok pc kept =>
    refine set _ (fun now => ?_) opening
    cases now
    exact kept
  | announces os first dir later ok pc =>
    refine set _ (fun now => ?_) opening
    cases now
    exact opens disk msg _ _ pc
  | takes | starts | performs | answers | finds | ends | finishes => exact set _ (by simp) opening

def Told : Prop := ∀ req, none ∉ st.released req

omit [DecidableEq ι] in
theorem told_release (msg : Msg) (set : msg.result ≠ none) (told : Told st) : Told (st.release msg) := by
  intro req
  unfold State.release
  split
  · by_cases same : req = msg.req
    · subst same
      simp [told _, Ne.symm set]
    · simpa [same] using told req
  · exact told req

omit [DecidableEq ι] in
theorem told_fail (event : FGWEvent ι) (set : ∀ msg ∈ event.msgs, msg.result ≠ none) (told : Told st) : Told (st.fail event) := by
  cases event with
  | request msg => exact told_release _ msg (set msg List.mem_cons_self) told
  | rsp msg => exact told_release _ msg (set msg List.mem_cons_self) told
  | refresh | command | cmdRsp => exact told

def FGWAnswers : FGWPc ι → Prop
  | .taken (.request msg) =>
    match msg.node with
    | none => False
    | some fn => ¬ (st.fs.nodes fn).Held → msg.op.makes = true → disks.table .ssd = []
  | .read _ _ [] => False
  | .send _ _ [] _ msgs => ∀ msg ∈ msgs, msg.fuse = false
  | _ => True

def Answerable : Act ι → Prop
  | .fgw => FGWAnswers disks st st.pc
  | .disk disk .statFails => (st.disks disk).pc.isScanning = false
  | _ => True

instance decidableFGWAnswers (pc : FGWPc ι) : Decidable (FGWAnswers disks st pc) := by
  unfold FGWAnswers
  split
  · split <;> infer_instance
  all_goals infer_instance

instance decidableAnswerable (act : Act ι) : Decidable (Answerable disks st act) := by
  unfold Answerable
  split <;> infer_instance

-- A FuseMsg that the FGW thread gives up has its result, where the step is such.
omit [DecidableEq ι] in
theorem fails_told (room : st.Room) (responses : ∀ msg, st.Response msg → msg.result ≠ none) (answerable : Answerable disks st .fgw)
    (event : FGWEvent ι) (why : FGWFails st event) : ∀ msg ∈ event.msgs, msg.result ≠ none := by
  simp only [Answerable] at answerable
  cases why with
  | unknown msg pc node => simp [FGWAnswers, pc, node] at answerable
  | refused msg => simp
  | spent msg fn key later place disk pc target => exact absurd (room_left st room msg fn key _ _ [] disk pc target) (Nat.lt_irrefl 0)
  | unread msg fn pc => simp [FGWAnswers, pc] at answerable
  | response msg pc => simpa using responses msg (.inr (.inl pc))
  | refresh => simp

theorem fgw_told (room : st.Room) (responses : ∀ msg, st.Response msg → msg.result ≠ none) (told : Told st)
    (answerable : Answerable disks st .fgw) : Told (st.fgwStep disks) := by
  have does := fgw_does disks st
  generalize st.fgwStep _ = after at does
  cases does with
  | fails event why => exact told_fail st _ (fails_told _ st room responses answerable _ why) told
  | unplaced msg fn disk current pc node free makes ssd =>
    simp only [Answerable, FGWAnswers, pc, node] at answerable
    exact absurd (answerable free makes) ssd
  | settles msg fn fs pc => exact told_release _ msg (responses msg (.inr (.inl pc))) told
  | gives msg pc => exact told_release _ msg (responses msg (.inr (.inl pc))) told
  | nothing | takes | places | reads | builds | refreshes | obeys | informs | sent | passes | sends | seeks | asks => exact told

variable [Fintype ι]

structure Answering : Prop where
  room : st.Room
  once : ∀ req, st.ledger req = if req < st.issued then 1 else 0
  responses : ∀ msg, st.Response msg → msg.result ≠ none
  told : Told st
  alive : ∀ disk, (st.disks disk).pc ≠ .ended

omit [DecidableEq ι] in
theorem init_answering : Answering (.init : State ι) where
  room := room_apart _ (by simp [State.init])
  once req := by simp [State.ledger, State.init, FGWPc.msgs, Disk.msgs, DiskEvent.msgs, DiskPc.msgs]
  responses msg response := by
    rcases response with ⟨entry, there, -⟩ | taken | ⟨disk, answered⟩
    · cases there
    · cases taken
    · cases answered
  told := fun _ => nofun
  alive := fun _ => nofun

-- Nothing is dropped by a step behind which every request is still answered.
omit [DecidableEq ι] [Fintype ι] in
theorem answerable_lost (act : Act ι) (answerable : Answerable disks st act) (req : Nat) : st.lost req act = 0 := by
  cases act with
  | fgw =>
    simp only [State.lost]
    split
    · next msg fn place msgs pc =>
        simp only [Answerable, FGWAnswers, pc] at answerable
        exact List.countP_eq_zero.mpr fun msg there => by simp [answerable msg there]
    · rfl
  | look | issue | awake | command | disk => rfl

-- A request more is one that was issued.
omit [Fintype ι] in
theorem step_issued (act : Act ι) (req : Nat) : (if req < st.issued then 1 else 0) + st.starting req act =
    if req < (step disks st act).issued then 1 else 0 := by
  have unchanged (issued : (step disks st act).issued = st.issued) (none : st.starting req act = 0) :
      (if req < st.issued then 1 else 0) + st.starting req act = if req < (step disks st act).issued then 1 else 0 := by
    rw [none, issued, Nat.add_zero]
  cases act with
  | look thread op path =>
    refine unchanged ?_ rfl
    simp only [step, State.look]
    split
    · split
      · rfl
      · split <;> rfl
    · rfl
  | issue thread =>
    cases pc : st.fuse thread with
    | found op node =>
      have issued : (step disks st (.issue thread)).issued = st.issued + 1 := by
        simp [step, State.issue, State.put, State.setFuse, pc]
      simp only [issued, State.starting, pc]
      split <;> split <;> split <;> omega
    | idle | waits _ => exact unchanged (by simp [step, State.issue, pc]) (by simp [State.starting, pc])
  | awake thread =>
    refine unchanged ?_ rfl
    simp only [step, State.awake]
    split
    · split <;> rfl
    · rfl
  | command => exact unchanged rfl rfl
  | fgw => exact unchanged (fgw_fuse _ st).2 rfl
  | disk disk act => exact unchanged (disk_frame _ st disk act).issued rfl

theorem step_answering (act : Act ι) (answering : Answering st) (answerable : Answerable disks st act) : Answering (step disks st act) := by
  have once (req : Nat) : (step disks st act).ledger req = if req < (step disks st act).issued then 1 else 0 := by
    have ledger := step_ledger disks st req answering.room act
    rw [answerable_lost _ st act answerable, answering.once req, step_issued _ st act req] at ledger
    exact ledger
  have others (same : ∀ msg, (step _ st act).Response msg → st.Response msg) (told : (step _ st act).released = st.released)
      (pcs : ∀ disk, ((step _ st act).disks disk).pc = (st.disks disk).pc) : Answering _ :=
    ⟨step_room _ st act answering.room, once, fun msg response => answering.responses msg (same msg response),
      fun req => told ▸ answering.told req, fun disk => pcs disk ▸ answering.alive disk⟩
  cases act with
  | look thread op path =>
    refine others ?_ ?_ ?_ <;> simp only [step, State.look]
    all_goals
      split
      · split
        · simp
        · split <;> simp [State.Response, State.setFuse]
      · simp
  | issue thread =>
    refine others ?_ ?_ ?_ <;> simp only [step, State.issue]
    · split
      · intro msg response
        exact ((response_put _ msg _ _).mp response).resolve_right (by simp)
      · simp
    all_goals
      split
      · simp [State.put, State.setFuse]
      · simp
  | awake thread =>
    refine others ?_ ?_ ?_ <;> simp only [step, State.awake]
    all_goals
      split
      · split <;> simp [State.Response, State.setFuse]
      · simp
  | command => exact others (fun msg response => ((response_put st msg 0 _).mp response).resolve_right (by simp)) rfl fun _ => rfl
  | fgw =>
    refine ⟨step_room _ st .fgw answering.room, once, fun msg response => ?_, ?_, fun disk => ?_⟩
    · exact answering.responses msg ((response_fgw _ st msg).mp (.inl response))
    · exact fgw_told _ st answering.room answering.responses answering.told answerable
    · exact fgw_disks _ st disk ▸ answering.alive disk
  | disk disk act =>
    refine ⟨step_room _ st _ answering.room, once, fun msg response => ?_, fun req => ?_, fun other ended => ?_⟩
    · exact (response_made _ st msg disk act response).elim (answering.responses msg) id
    · exact (disk_frame _ st disk act).released ▸ answering.told req
    · rcases disk_ends _ st disk _ act ended with before | ⟨fails, dirs, scanning⟩
      · exact answering.alive _ before
      · rw [fails] at answerable
        simp [Answerable, scanning, DiskPc.isScanning] at answerable

def State.Quiet : Prop := st.queue = [] ∧ st.pc = .wait ∧ ∀ disk, (st.disks disk).queue = [] ∧ (st.disks disk).pc = .wait

def Answered : Prop :=
  (∀ req, (st.released req).length ≤ 1 ∧ none ∉ st.released req) ∧
    (st.Quiet → ∀ req, req < st.issued → (st.released req).length = 1) ∧ ∀ disk, (st.disks disk).pc ≠ .ended

omit [DecidableEq ι] in
theorem answering_answered (answering : Answering st) : Answered st := by
  refine ⟨fun req => ⟨?_, answering.told req⟩, ?_, answering.alive⟩
  · have once := answering.once req
    simp only [State.ledger] at once
    split at once <;> omega
  · rintro ⟨queue, pc, disks⟩ req issued
    have once := answering.once req
    rw [if_pos issued] at once
    simpa [State.ledger, queue, pc, disks, Disk.msgs] using once

theorem requests_answered (acts : List (Act ι)) (answerable : AllSteps (step disks) (Answerable disks) .init acts) :
    Answered (run (step disks) .init acts) :=
  answering_answered _ (run_keeps _ _ (fun st => Answering st) _ acts init_answering
    (fun _ act answering allowed => step_answering _ _ act answering allowed) answerable)

end Answers

def twoDisks : Disks Bool where
  kind memory := if memory = true then .memory else .hdd
  table
    | .memory => [true]
    | .hdd => [false]
    | .ssd => []
  table_kind := by
    intro key disk there
    cases key <;> simp_all

def scans (files : List Str) : List (Act Bool) :=
  [true, false].flatMap fun disk =>
    [.disk disk (.next []), .disk disk (.next [])] ++ files.map (fun name => .disk disk (.found [] name false)) ++
      [.disk disk .scanned] ++ List.replicate (2 * files.length) .fgw

def request (op : Oper) (name : Str) : List (Act Bool) := [.look 0 op [name], .issue 0] ++ List.replicate 9 .fgw

def serve (disk : Bool) (turns : Nat) : List (Act Bool) := List.replicate turns (.disk disk (.next [.done, .done]))

def creation (name : Str) : List (Act Bool) :=
  scans [] ++ request .create name ++ serve true 4 ++ [.fgw, .fgw, .awake 0] ++ serve false 4 ++ [.fgw, .fgw]

theorem requests_answered_sample : AllSteps (step twoDisks) (Answerable twoDisks) .init (creation [97]) ∧
    Answered (run (step twoDisks) .init (creation [97])) :=
  ⟨by decide +kernel, requests_answered _ _ (by decide +kernel)⟩

theorem missing_path_unanswered : ¬ Answered (run (step twoDisks) .init [.look 0 .unlink [[97]], .issue 0, .fgw, .fgw]) :=
  fun answered => (answered.1 0).2 (by decide)

end Codec.Cache
