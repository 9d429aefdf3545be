import Codec.Cache.Answers

set_option autoImplicit false

namespace Codec.Cache

open Codec.Lib List

def Oper.mutates : Oper → Bool
  | .write | .truncate | .rename | .unlink => true
  | _ => false

def Msg.of (thread : Nat) (fn : NodeId) (msg : Msg) : Bool := msg.thread == thread && msg.node == some fn && msg.op.mutates

def DiskEvent.of (thread : Nat) (fn : NodeId) : DiskEvent → Bool
  | .oper msg => msg.of thread fn
  | .scan => false

def FGWPc.routing {ι : Type} : FGWPc ι → Option Msg
  | .taken (.request msg) | .placed msg _ | .read msg _ _ | .send msg _ _ _ _ => some msg
  | _ => none

variable {ι : Type} [DecidableEq ι]

def Asks (st : State ι) (msg : Msg) : Prop := msg.fuse = true ∧ st.fuse msg.thread = .waits msg.req

structure Asking [Fintype ι] (st : State ι) : Prop where
  room : st.Room
  ledger : ∀ req, st.ledger req ≤ if req < st.issued then 1 else 0
  queued : ∀ entry ∈ st.queue, ∀ msg, entry.2 = .request msg → Asks st msg
  routed : ∀ msg, st.pc.routing = some msg → Asks st msg ∧ st.released msg.req = []
  waits : ∀ thread req, st.fuse thread = .waits req → req < st.issued

section Asking

variable (disks : Disks ι) (st : State ι)

def Requested (queue : List (Nat × FGWEvent ι)) (msg : Msg) : Prop := ∃ entry ∈ queue, entry.2 = .request msg

omit [DecidableEq ι] in
theorem requested_push (queue : List (Nat × FGWEvent ι)) (level : Nat) (event : FGWEvent ι) (msg : Msg) :
    Requested (Heapq.heappush entryLess queue (level, event)) msg ↔ Requested queue msg ∨ event = .request msg := by
  simp only [Requested, (Heapq.push_perm _ _ _).mem_iff, mem_append, mem_singleton, or_and_right,
    exists_or, exists_eq_left]

omit [DecidableEq ι] in
theorem requested_fail (event : FGWEvent ι) (msg : Msg) : Requested (st.fail event).queue msg ↔ Requested st.queue msg := by
  cases event <;> simp [State.fail, State.put, requested_push]

structure Routes (before after : State ι) : Prop where
  queue : ∀ msg, Requested after.queue msg → Requested before.queue msg
  routing : ∀ msg, after.pc.routing = some msg →
    (Requested before.queue msg ∨ before.pc.routing = some msg) ∧ after.released = before.released

theorem fgw_routes : Routes st (st.fgwStep disks) := by
  have idle (after : State ι) (queue : after.queue = st.queue) (pc : after.pc = .wait) : Routes st after :=
    ⟨fun msg => queue ▸ id, by simp [pc, FGWPc.routing]⟩
  have goes (msg : Msg) (here : st.pc.routing = some msg) (after : State ι) (queue : after.queue = st.queue)
      (there : after.pc.routing = some msg) (released : after.released = st.released) : Routes st _ :=
    ⟨fun msg => queue ▸ id, fun other routing => ⟨.inr (here.trans (there.symm.trans routing)), released⟩⟩
  have does := fgw_does disks st
  generalize st.fgwStep _ = after at does
  cases does with
  | nothing pc => exact idle st rfl pc
  | takes entry rest pc popped =>
    have perm := Heapq.pop_perm _ _ rest _ popped
    refine ⟨fun msg ⟨other, there, same⟩ => ⟨other, perm.mem_iff.mp (mem_cons_of_mem _ there), same⟩, fun msg routing => ?_⟩
    refine ⟨.inl ⟨entry, perm.mem_iff.mp mem_cons_self, ?_⟩, rfl⟩
    cases event : entry.2 <;> simp_all [FGWPc.routing]
  | fails event => exact ⟨fun msg => (requested_fail st _ msg).mp, by simp [FGWPc.routing]⟩
  | unplaced =>
    refine ⟨fun msg there => ?_, by simp [FGWPc.routing]⟩
    rwa [requested_fail] at there
  | obeys =>
    refine ⟨fun msg there => ?_, by simp [State.put, FGWPc.routing]⟩
    exact ((requested_push _ _ _ msg).mp there).resolve_right (by simp)
  | settles | gives => exact idle _ (by simp) (by simp)
  | refreshes | informs | sent | asks => exact idle _ rfl rfl
  | places msg fn memory hdd currentMemory currentHdd pc => exact goes msg (by rw [pc]; rfl) _ rfl rfl rfl
  | reads msg fn pc => exact goes msg (by rw [pc]; rfl) _ rfl rfl rfl
  | builds msg fn pc => exact goes msg (by rcases pc with ⟨pc, -⟩ | pc <;> rw [pc] <;> rfl) _ rfl rfl rfl
  | passes msg fn key later place msgs pc => exact goes msg (by rw [pc]; rfl) _ rfl rfl rfl
  | sends msg fn key later place first rest disk pc => exact goes msg (by rw [pc]; rfl) _ rfl rfl rfl
  | seeks msg fn key later pc => exact goes msg (by rw [pc]; rfl) _ rfl rfl rfl

theorem disk_requested (disk : ι) (act : DiskAct) (msg : Msg) (there : Requested (st.diskStep disks disk act).queue msg) :
    Requested st.queue msg := by
  have put (event : FGWEvent ι) (other : event ≠ .request msg) (there : Requested _ msg) :
      Requested _ msg :=
    ((requested_push st.queue 2 _ msg).mp there).resolve_right other
  have does := disk_does disks st disk act
  generalize st.diskStep _ disk act = after at does there
  cases does with
  | announces | answers | finds => exact put _ (by simp) there
  | nothing | takes | starts | opens | performs | ends | finishes => exact there

section Steps

variable [Fintype ι]

theorem ledger_step (act : Act ι) (asking : Asking st) (req : Nat) :
    (step disks st act).ledger req ≤ if req < (step disks st act).issued then 1 else 0 := by
  have moved := step_ledger disks st req asking.room act
  have issued := step_issued disks st act req
  have before := asking.ledger req
  omega

-- A FuseMsg on the queue has not been released.
omit [DecidableEq ι] in
theorem queued_unreleased (asking : Asking st) (msg : Msg) (requested : Requested st.queue msg) : st.released msg.req = [] := by
  obtain ⟨entry, there, same⟩ := requested
  obtain ⟨fuse, -⟩ := asking.queued _ there msg same
  have counted : 0 < fuseMsgs msg.req (st.queue.flatMap (·.2.msgs)) := by
    refine countP_pos_iff.mpr ⟨msg, mem_flatMap.mpr ⟨entry, there, ?_⟩, by simp [fuse]⟩
    rw [same]
    exact mem_cons_self
  have ledger := asking.ledger msg.req
  simp only [State.ledger] at ledger
  have one : (if msg.req < st.issued then 1 else 0) ≤ 1 := by split <;> omega
  exact length_eq_zero_iff.mp (by omega)

omit [DecidableEq ι] in
theorem init_asking : Asking (.init : State ι) where
  room := init_answering.room
  ledger req := Nat.le_of_eq (init_answering.once req)
  queued := nofun
  routed := nofun
  waits := nofun

-- The FUSE threads go on as they were.
omit [DecidableEq ι] in
theorem asking_same (after : State ι) (asking : Asking st) (room : after.Room)
    (ledger : ∀ req, after.ledger req ≤ if req < after.issued then 1 else 0)
    (queue : ∀ msg, Requested after.queue msg → Requested st.queue msg)
    (routed : ∀ msg, after.pc.routing = some msg → Asks st msg ∧ after.released msg.req = [])
    (fuse : after.fuse = st.fuse) (issued : after.issued = st.issued) : Asking after where
  room := room
  ledger := ledger
  queued entry there msg same := by
    obtain ⟨before, there, same⟩ := queue msg ⟨entry, there, same⟩
    rw [Asks, fuse]
    exact asking.queued _ there msg same
  routed msg routing := by
    rw [Asks, fuse]
    exact routed msg routing
  waits thread req waits := by
    rw [fuse] at waits
    exact issued ▸ asking.waits _ req waits

-- A thread that has no request on its way goes on.
omit [DecidableEq ι] in
theorem asking_thread (thread : Nat) (pc : FusePc) (asking : Asking st)
    (apart : ∀ msg, Requested st.queue msg ∨ st.pc.routing = some msg → msg.thread ≠ thread) (runs : ∀ req, pc ≠ .waits req)
    (fs : FileSystem ι) (ledger : ∀ req, st.ledger req ≤ if req < st.issued then 1 else 0)
    (room : { st with fs := fs, fuse := Function.update st.fuse thread pc }.Room) :
    Asking { st with fs := fs, fuse := Function.update st.fuse thread pc } where
  room := room
  ledger := ledger
  queued entry there msg same := by
    obtain ⟨fuse, asks⟩ := asking.queued _ there msg same
    exact ⟨fuse, (Function.update_of_ne (apart msg (.inl ⟨entry, there, same⟩)) _ _).trans asks⟩
  routed msg routing := by
    obtain ⟨⟨fuse, asks⟩, released⟩ := asking.routed msg routing
    exact ⟨⟨fuse, (Function.update_of_ne (apart msg (.inr routing)) _ _).trans asks⟩, released⟩
  waits other req waits := by
    by_cases same : other = thread
    · subst same
      exact absurd (by simpa using waits) (runs req)
    · exact asking.waits _ req (by simpa [same] using waits)

omit [DecidableEq ι] in
theorem asked (asking : Asking st) (msg : Msg) (there : Requested st.queue msg ∨ st.pc.routing = some msg) :
    Asks st msg ∧ st.released msg.req = [] := by
  rcases there with queued | routing
  · obtain ⟨entry, there, same⟩ := queued
    exact ⟨asking.queued _ there msg same, queued_unreleased st asking msg ⟨entry, there, same⟩⟩
  · exact asking.routed msg routing

omit [DecidableEq ι] in
theorem asking_issue (thread : Nat) (op : Oper) (node : Option NodeId) (pc : st.fuse thread = .found op node) (asking : Asking st)
    (room : (st.issue thread).Room) (ledger : ∀ req, (st.issue thread).ledger req ≤ if req < (st.issue thread).issued then 1 else 0) :
    Asking (st.issue thread) := by
  have others (msg : Msg) (asks : Asks st msg) :
      msg.fuse = true ∧ Function.update st.fuse thread (.waits st.issued) msg.thread = .waits msg.req := by
    refine ⟨asks.1, ?_⟩
    rw [Function.update_of_ne]
    · exact asks.2
    · intro same
      have waits := asks.2
      rw [same, pc] at waits
      cases waits
  simp only [State.issue, pc] at room ledger ⊢
  constructor
  · exact room
  · exact ledger
  · intro entry there msg same
    rcases (requested_push _ _ _ msg).mp ⟨entry, there, same⟩ with ⟨before, there, same⟩ | new
    · exact others msg (asking.queued _ there msg same)
    · cases new
      exact ⟨rfl, Function.update_self ..⟩
  · intro msg routing
    obtain ⟨asks, released⟩ := asking.routed msg routing
    exact ⟨others msg asks, released⟩
  · intro other req waits
    by_cases same : other = thread
    · subst same
      obtain rfl : st.issued = req := by simpa [State.put, State.setFuse] using waits
      exact Nat.lt_succ_self _
    · exact Nat.lt_succ_of_lt (asking.waits _ req (by simpa [State.put, State.setFuse, same] using waits))

theorem step_asking (act : Act ι) (asking : Asking st) : Asking (step disks st act) := by
  have room := step_room disks st act asking.room
  have ledger := ledger_step disks st act asking
  -- A request on its way is one whose thread waits.
  have apart (thread : Nat) (runs : ∀ req, st.fuse thread ≠ .waits req) (msg : Msg)
      (there : Requested st.queue msg ∨ st.pc.routing = some msg) : msg.thread ≠ thread := by
    rintro rfl
    exact runs _ (asked st asking msg there).1.2
  cases act with
  | look thread op path =>
    simp only [step] at room ⊢
    split at room
    · next idle =>
        rw [if_pos idle]
        have runs := apart thread (by simp [idle])
        unfold State.look at room ⊢
        split at room
        · exact asking
        · split at room
          · exact asking
          · exact asking
          all_goals exact asking_thread st _ _ asking runs (by simp) _ asking.ledger room
    · next busy => rwa [if_neg busy]
  | issue thread =>
    cases pc : st.fuse _ with
    | found op node => exact asking_issue st _ op node pc asking room ledger
    | idle | waits _ => simpa [step, State.issue, pc] using asking
  | awake thread =>
    simp only [step, State.awake] at room ⊢
    cases pc : st.fuse _ with
    | waits req =>
      simp only [pc] at room
      simp only
      split at room
      · next released =>
          rw [if_pos released]
          refine asking_thread st _ _ asking (fun msg there => ?_) (by simp) _ asking.ledger room
          rintro rfl
          obtain ⟨⟨-, waits⟩, unreleased⟩ := asked st asking msg there
          rw [pc, FusePc.waits.injEq] at waits
          rw [waits] at released
          exact released unreleased
      · next released => rwa [if_neg released]
    | idle | found _ _ => exact asking
  | command =>
    exact asking_same st _ asking room ledger (fun msg there => ((requested_push _ _ _ msg).mp there).resolve_right (by simp))
      asking.routed rfl rfl
  | fgw =>
    obtain ⟨fuse, issued⟩ := fgw_fuse _ st
    have routes := fgw_routes disks st
    refine asking_same st _ asking room ledger routes.queue (fun msg routing => ?_) fuse issued
    obtain ⟨before, released⟩ := routes.routing msg routing
    rw [step, released]
    exact asked st asking msg before
  | disk disk act =>
    have frame := disk_frame disks st disk act
    refine asking_same st _ asking room ledger (disk_requested _ st disk act) (fun msg routing => ?_) frame.fuse frame.issued
    rw [step, frame.pc] at routing
    rw [step, frame.released]
    exact asking.routed msg routing

end Steps

end Asking

def Sent (st : State ι) (msg : Msg) (disk : ι) : Prop := msg ∈ (st.disks disk).sent ∨ msg.copy ∈ (st.disks disk).sent

structure Walked (st : State ι) (msg : Msg) (fn : NodeId) (keys : List DiskType) (place : Nat) : Prop where
  through : ∀ key, key ∉ keys → ∀ disk ∈ (st.fs.nodes fn).ext key, Sent st msg disk
  passed : ∀ key later, keys = key :: later → ∀ disk ∈ ((st.fs.nodes fn).ext key).take place, Sent st msg disk

structure Sending (st : State ι) : Prop where
  copies : ∀ msg fn keys place msgs, st.pc = .send msg fn keys place msgs → ∀ copy ∈ msgs, copy = msg ∨ copy = msg.copy
  before : ∀ disk, ∀ msg ∈ (st.disks disk).sent, msg.req < st.issued ∧ ∀ req, st.fuse msg.thread = .waits req → msg.req ≤ req
  order : ∀ disk, (st.disks disk).sent.Pairwise fun first second => first.thread = second.thread → first.req ≤ second.req
  walked : ∀ msg fn keys place msgs, st.pc = .send msg fn keys place msgs → Walked st msg fn keys place

section Sending

variable (disks : Disks ι) (st : State ι)

theorem put_disk_sent (disk other : ι) (msg : Msg) : ((st.putDisk disk msg).disks other).sent =
    if other = disk then (st.disks other).sent ++ [msg] else (st.disks other).sent := by
  by_cases same : other = disk
  · subst same
    simp [State.putDisk, State.setDisk]
  · simp [State.putDisk, State.setDisk, same]

theorem sent_put (disk other : ι) (first msg : Msg) (sent : Sent st msg other) : Sent (st.putDisk disk first) msg other := by
  rw [Sent, put_disk_sent]
  split
  · exact sent.imp (mem_append_left _) (mem_append_left _)
  · exact sent

-- Nothing is sent, and no list gets longer at a place that was passed.
omit [DecidableEq ι] in
theorem sending_same (after : State ι) (sending : Sending st) (pc : after.pc = st.pc) (sent : ∀ disk, (after.disks disk).sent = (st.disks disk).sent)
    (issued : st.issued ≤ after.issued)
    (waits : ∀ thread req, after.fuse thread = .waits req → st.fuse thread = .waits req ∨ st.issued ≤ req)
    (walked : ∀ msg fn keys place msgs, st.pc = .send msg fn keys place msgs → Walked st msg fn keys place → Walked after msg fn keys place) :
    Sending after where
  copies msg fn keys place msgs sends := sending.copies msg fn keys _ msgs (pc ▸ sends)
  before disk msg there := by
    rw [sent disk] at there
    obtain ⟨old, latest⟩ := sending.before disk msg there
    refine ⟨Nat.lt_of_lt_of_le old issued, fun req now => ?_⟩
    rcases waits _ req now with before | new
    · exact latest req before
    · exact Nat.le_of_lt (Nat.lt_of_lt_of_le old new)
  order disk := by
    rw [sent disk]
    exact sending.order disk
  walked msg fn keys place msgs sends := by
    rw [pc] at sends
    exact walked msg fn keys _ msgs sends (sending.walked msg fn keys _ msgs sends)

theorem sending_put (sending : Sending st) (disk : ι) (first msg : Msg) (asks : Asks st msg) (issued : msg.req < st.issued)
    (own : first = msg ∨ first = msg.copy) (pc : FGWPc ι)
    (copies : ∀ other fn keys place msgs, pc = .send other fn keys place msgs → ∀ copy ∈ msgs, copy = other ∨ copy = other.copy)
    (walked : ∀ other fn keys place msgs, pc = .send other fn keys place msgs →
      Walked { st.putDisk disk first with pc := pc } other fn keys place) :
    Sending { st.putDisk disk first with pc := pc } := by
  obtain ⟨thread, req⟩ : first.thread = msg.thread ∧ first.req = msg.req := by
    rcases own with rfl | rfl <;> exact ⟨rfl, rfl⟩
  refine ⟨copies, fun other item there => ?_, fun other => ?_, walked⟩
  · rw [put_disk_sent] at there
    split at there
    · rcases mem_append.mp there with before | last
      · exact sending.before _ item before
      · rw [mem_singleton.mp last, thread, req]
        refine ⟨issued, fun later waits => ?_⟩
        exact Nat.le_of_eq (FusePc.waits.inj (asks.2.symm.trans waits))
    · exact sending.before _ item there
  · rw [put_disk_sent]
    split
    · refine pairwise_append.mpr ⟨sending.order _, pairwise_singleton _ _, fun item there last same => ?_⟩
      rw [mem_singleton.mp same, thread, req]
      exact fun own => (sending.before _ item there).2 _ (own ▸ asks.2)
    · exact sending.order _

omit [DecidableEq ι] in
theorem walked_start (msg : Msg) (fn : NodeId) : Walked st msg fn State.keys 0 where
  through key other := by cases key <;> simp [State.keys] at other
  passed key later _ disk there := by simp at there

theorem build_copies (msg : Msg) (total : Nat) : ∀ copy ∈ State.build msg total, copy = msg ∨ copy = msg.copy := by
  intro copy there
  rcases mem_cons.mp there with same | more
  · exact .inl same
  · exact .inr (eq_of_mem_replicate more)

omit [DecidableEq ι] in
theorem sending_quiet (after : State ι) (sending : Sending st) (pc : ∀ msg fn keys place msgs, after.pc ≠ .send msg fn keys place msgs)
    (disks : after.disks = st.disks) (fuse : after.fuse = st.fuse) (issued : after.issued = st.issued) : Sending after where
  copies msg fn keys place msgs sends := absurd sends (pc msg fn keys _ msgs)
  before disk msg there := by
    rw [fuse, issued]
    exact sending.before disk msg (disks ▸ there)
  order disk := disks ▸ sending.order disk
  walked msg fn keys place msgs sends := absurd sends (pc msg fn keys _ msgs)

omit [DecidableEq ι] in
theorem sending_built (sending : Sending st) (msg : Msg) (fn : NodeId) (total : Nat) :
    Sending { st with pc := .send msg fn State.keys 0 (State.build msg total) } where
  copies _ _ _ _ _ sends := by
    cases sends
    exact build_copies msg _
  before := sending.before
  order := sending.order
  walked _ _ _ _ _ sends := by
    cases sends
    exact walked_start _ msg fn

variable [Fintype ι]

-- The router comes to the end of a list.
omit [DecidableEq ι] [Fintype ι] in
theorem sending_pass (sending : Sending st) (msg : Msg) (fn : NodeId) (key : DiskType) (later : List DiskType) (place : Nat) (msgs : List Msg)
    (pc : st.pc = .send msg fn (key :: later) place msgs) (target : ((st.fs.nodes fn).ext key)[place]? = none) :
    Sending { st with pc := .send msg fn later 0 msgs } := by
  have walked := sending.walked msg fn _ _ msgs pc
  have ended : ((st.fs.nodes fn).ext key).length ≤ place := getElem?_eq_none_iff.mp target
  refine ⟨fun _ _ _ _ _ sends => ?_, sending.before, sending.order, fun _ _ _ _ _ sends => ?_⟩
  · cases sends
    exact sending.copies msg fn _ _ msgs pc
  · cases sends
    refine ⟨fun other away disk there => ?_, fun _ _ _ disk there => by simp at there⟩
    by_cases same : other = key
    · subst same
      exact walked.passed _ _ rfl disk (by rwa [take_of_length_le ended])
    · exact walked.through _ (by simp [same, away]) disk there

theorem sending_next (asking : Asking st) (sending : Sending st) (msg : Msg) (fn : NodeId) (key : DiskType) (later : List DiskType)
    (place : Nat) (first : Msg) (rest : List Msg) (disk : ι) (pc : st.pc = .send msg fn (key :: later) place (first :: rest))
    (target : ((st.fs.nodes fn).ext key)[place]? = some disk) :
    Sending { st.putDisk disk first with pc := .send msg fn (key :: later) (place + 1) rest } := by
  have walked := sending.walked msg fn _ _ _ pc
  have copies := sending.copies msg fn _ _ _ pc
  have own := copies _ mem_cons_self
  obtain ⟨asks, -⟩ := asking.routed msg (by rw [pc]; rfl)
  refine sending_put st sending disk _ msg asks (asking.waits _ _ asks.2) own _ (fun _ _ _ _ _ sends => ?_) fun _ _ _ _ _ sends => ?_
  · cases sends
    exact fun copy there => copies copy (mem_cons_of_mem _ there)
  · cases sends
    refine ⟨fun other away holder there => ?_, fun other _ same holder there => ?_⟩
    · exact sent_put st disk _ _ msg (walked.through _ away _ there)
    · obtain ⟨rfl, rfl⟩ := cons.inj same
      have next : holder ∈ ((st.fs.nodes fn).ext key).take _ := there
      rw [take_add_one, target, mem_append] at next
      rcases next with passed | now
      · exact sent_put st disk _ _ msg (walked.passed key _ rfl _ passed)
      · obtain rfl : holder = disk := by simpa using now
        rw [Sent, put_disk_sent, if_pos rfl]
        exact own.imp (fun same => by simp [same]) fun same => by simp [same]

theorem sending_fgw (asking : Asking st) (sending : Sending st) : Sending (st.fgwStep disks) := by
  have quiet (after : State ι) := sending_quiet st after sending
  have does := fgw_does disks st
  generalize st.fgwStep _ = after at does
  cases does with
  | nothing => exact sending
  | builds msg fn => exact sending_built st sending msg fn _
  | passes msg fn key later place msgs pc target => exact sending_pass st sending msg fn key _ _ msgs pc target
  | sends msg fn key later place first rest disk pc target =>
    exact sending_next st asking sending msg fn key _ _ _ rest disk pc target
  | asks msg fn key later disk pc =>
    obtain ⟨asks, -⟩ := asking.routed msg (by rw [pc]; rfl)
    exact sending_put st sending disk msg msg asks (asking.waits _ _ asks.2) (.inl rfl) _ (by simp) (by simp)
  | fails | unplaced | settles | gives => exact quiet _ (by simp) (by simp) (by simp) (by simp)
  | takes | places | reads | refreshes | obeys | informs | sent | seeks => exact quiet _ (by simp [State.put]) rfl rfl rfl

-- The places of a list that were passed, as it gets shorter: nothing behind them
-- may move up.
omit [Fintype ι] in
theorem walked_let_go (after : State ι) (msg : Msg) (fn : NodeId) (keys : List DiskType) (place : Nat) (walked : Walked st msg fn keys place)
    (sent : ∀ disk, (after.disks disk).sent = (st.disks disk).sent) (gone : ι) (kind : DiskType)
    (same : ∀ key, key ≠ kind → (after.fs.nodes fn).ext key = (st.fs.nodes fn).ext key)
    (erased : (after.fs.nodes fn).ext kind = ((st.fs.nodes fn).ext kind).erase gone)
    (last : ∀ later, keys = kind :: later → gone ∈ ((st.fs.nodes fn).ext kind).take place → ((st.fs.nodes fn).ext kind).drop place = []) :
    Walked after msg fn keys place where
  through key away disk there := by
    rw [Sent, sent]
    refine walked.through key away disk ?_
    by_cases own : key = kind
    · subst own
      rw [erased] at there
      exact mem_of_mem_erase there
    · rwa [same key own] at there
  passed key later split disk there := by
    rw [Sent, sent]
    refine walked.passed key _ split disk ?_
    by_cases own : key = kind
    · subst own
      rw [erased] at there
      by_cases behind : gone ∈ ((st.fs.nodes fn).ext key).take place
      · have all : ((st.fs.nodes fn).ext key).take _ = (st.fs.nodes fn).ext key :=
          take_of_length_le (drop_eq_nil_iff.mp (last _ split behind))
        rw [all]
        exact mem_of_mem_erase (mem_of_mem_take there)
      · rw [← take_append_drop _ ((st.fs.nodes fn).ext key), erase_append_right _ behind] at there
        rcases Nat.le_total _ _ with short | long
        · rw [drop_eq_nil_of_le short, erase_nil, append_nil] at there
          exact mem_of_mem_take there
        · rwa [take_left' (length_take_of_le long)] at there
    · rwa [same key own] at there

def Shifts (disk : ι) (msg : Msg) : Prop :=
  match st.pc with
  | .send _ fn (key :: _) place _ =>
    msg.op.removes = true ∧ msg.node = some fn ∧ disks.kind disk = key ∧ disk ∈ ((st.fs.nodes fn).ext key).take place ∧
      ((st.fs.nodes fn).ext key).drop place ≠ []
  | _ => False

instance decidableShifts (disk : ι) (msg : Msg) : Decidable (Shifts disks st disk msg) := by
  unfold Shifts
  generalize st.pc = pc
  rcases pc with _ | _ | _ | ⟨_, _, _ | _, _, _⟩ | _ <;> infer_instance

omit [Fintype ι] in
theorem disk_sent (disk other : ι) (act : DiskAct) : ((st.diskStep disks disk act).disks other).sent = (st.disks other).sent := by
  have set (before : State ι) (same : before.disks = st.disks) (value : Disk) (sent : value.sent = (st.disks disk).sent) :
      ((before.setDisk disk value).disks other).sent = (st.disks other).sent := by
    by_cases own : other = disk
    · subst own
      simpa [State.setDisk] using sent
    · simp [State.setDisk, own, same]
  have does := disk_does disks st disk act
  generalize st.diskStep _ disk act = after at does
  cases does with
  | nothing => rfl
  | performs => exact set _ rfl _ rfl
  | takes | starts | opens | announces | answers | finds | ends | finishes => exact set st rfl _ rfl

omit [Fintype ι] in
theorem effect_ext (disk : ι) (fs : FileSystem ι) (fn : NodeId) (op : Oper) (ran : Bool) (stays : op.removes = false) (other : NodeId) :
    ((State.effect disks disk fs fn op ran).nodes other).ext = (fs.nodes other).ext := by
  rcases effect_does _ disk fs fn op ran with ⟨removes, -⟩ | ⟨-, same | ⟨value, same⟩⟩
  · rw [stays] at removes
    cases removes
  · rw [same]
  · by_cases own : other = fn
    · subst own
      simp [same, FileSystem.setDisk, FileSystem.setNode]
    · simp [same, FileSystem.setDisk, FileSystem.setNode, own]

omit [Fintype ι] in
theorem sending_disk (sending : Sending st) (opens : Opens st) (disk : ι) (act : DiskAct)
    (inLine : ∀ os msg, act = .next os → (st.disks disk).pc = .taken (.oper msg) → ¬ Shifts disks st disk msg) : Sending (st.diskStep disks disk act) := by
  have frame := disk_frame disks st disk act
  have sent (other : ι) := disk_sent disks st disk other act
  refine sending_same st _ sending frame.pc sent (Nat.le_of_eq frame.issued.symm) (fun thread req waits => .inl ?_) ?_
  · rwa [frame.fuse] at waits
  intro msg fn keys place msgs pc walked
  have unchanged (same : ∀ key, ((st.diskStep disks disk act).fs.nodes fn).ext key = (st.fs.nodes fn).ext key) :
      Walked (st.diskStep disks disk act) msg fn keys place := by
    constructor
    · intro key away holder there
      rw [Sent, sent]
      exact walked.through key away _ (same key ▸ there)
    · intro key later split holder there
      rw [Sent, sent]
      exact walked.passed key _ split _ (same key ▸ there)
  rcases disk_changes _ st disk act with same | ⟨first, ran, os, rest, isNext, does, cause⟩
  · exact unchanged fun key => by rw [same]
  · have fs : (st.diskStep disks disk act).fs = first.node.elim st.fs fun fn => State.effect disks disk st.fs fn first.op ran := by
      rw [does, perform_fs]
    cases node : first.node with
    | none => exact unchanged fun key => by rw [fs, node, Option.elim_none]
    | some own =>
      rw [node, Option.elim_some] at fs
      by_cases removes : first.op.removes = true ∧ own = fn
      · obtain ⟨removes, rfl⟩ := removes
        rw [effect_removes _ disk _ own _ ran removes] at fs
        have ext : ((st.diskStep disks disk act).fs.nodes own).ext =
            Function.update (st.fs.nodes own).ext (disks.kind disk) (((st.fs.nodes own).ext (disks.kind disk)).erase disk) := by
          simp [fs, FileSystem.letGo, FileSystem.setNode]
        refine walked_let_go st _ msg own keys _ walked sent disk (disks.kind disk) (fun key other => ?_) ?_ fun later split behind => ?_
        · rw [ext, Function.update_of_ne other]
        · rw [ext, Function.update_self]
        · rcases cause with ⟨taken, -⟩ | opening
          · have stays := inLine os _ isNext taken
            simp only [Shifts, pc, split] at stays
            by_contra more
            exact stays ⟨removes, node, trivial, behind, more⟩
          · rw [opens disk _ [] ran opening] at removes
            cases removes
      · refine unchanged fun key => ?_
        rw [fs]
        cases gone : first.op.removes with
        | false => rw [effect_ext _ disk _ own _ ran gone]
        | true =>
          rw [effect_removes _ disk _ own _ ran gone]
          have other : fn ≠ own := fun same => removes ⟨gone, same.symm⟩
          simp [FileSystem.letGo, FileSystem.setNode, other]

end Sending

structure Levels (disk : Disk) : Prop where
  all : ∀ entry ∈ disk.queue, entry.1 ≤ 2
  behind : ∀ entry ∈ disk.queue.tail, entry.1 = 2

def DiskPc.todo : DiskPc → List Msg
  | .taken event => event.msgs
  | .opening msg _ _ => [msg]
  | _ => []

def Disk.line (disk : Disk) : List Msg := disk.performed ++ disk.pc.todo ++ disk.queue.flatMap (·.2.msgs)

structure InLine (disk : Disk) : Prop where
  levels : Levels disk
  line : ∀ thread fn, disk.line.filter (·.of thread fn) = disk.sent.filter (·.of thread fn)

def DiskEvent.sameFile : DiskEvent → DiskEvent → Bool
  | .oper first, .oper second =>
    first.thread == second.thread && first.node == second.node && first.op.mutates && second.op.mutates
  | _, _ => false

def Mixes (rest : List (Nat × DiskEvent)) (first second : Nat) : Prop :=
  Heapq.Exchanged rest.length first second ∧ (rest.getD first (2, .scan)).2.sameFile (rest.getD second (2, .scan)).2 = true

section Line

theorem of_same_file (thread : Nat) (fn : NodeId) (first second : DiskEvent) (one : first.of thread fn = true)
    (other : second.of thread fn = true) : first.sameFile second = true := by
  cases first <;> cases second <;> simp_all [DiskEvent.of, DiskEvent.sameFile, Msg.of]

theorem event_filter (entries : List (Nat × DiskEvent)) (thread : Nat) (fn : NodeId) :
    (entries.flatMap (·.2.msgs)).filter (·.of thread fn) = (entries.filter (·.2.of thread fn)).flatMap (·.2.msgs) := by
  induction entries with
  | nil => rfl
  | cons entry rest ih =>
    rw [flatMap_cons, filter_append, ih, filter_cons]
    rcases entry with ⟨level, _ | msg⟩
    · simp [DiskEvent.msgs, DiskEvent.of]
    · by_cases own : msg.of thread fn = true <;> simp [DiskEvent.msgs, DiskEvent.of, own]

theorem pushed (disk : Disk) (levels : Levels disk) (msg : Msg) :
    Heapq.heappush entryLess disk.queue (2, .oper msg) = disk.queue ++ [(2, .oper msg)] := by
  refine Heapq.push_level _ _ _ fun entry there => ?_
  simpa [entryLess] using levels.all _ there

theorem push_in_line (disk : Disk) (msg : Msg) (inLine : InLine disk) :
    InLine { disk with queue := Heapq.heappush entryLess disk.queue (2, .oper msg), sent := disk.sent ++ [msg] } := by
  have queue := pushed disk inLine.levels msg
  constructor
  · constructor
    · intro entry there
      simp only [queue, mem_append, mem_singleton] at there
      rcases there with before | rfl
      · exact inLine.levels.all _ before
      · exact Nat.le_refl 2
    · intro entry there
      simp only [queue] at there
      cases first : disk.queue with
      | nil => simp [first] at there
      | cons head tail =>
        rw [first, cons_append, tail_cons, mem_append, mem_singleton] at there
        rcases there with before | rfl
        · exact inLine.levels.behind _ (by rwa [first])
        · rfl
  · intro thread fn
    have line := inLine.line thread fn
    simp only [Disk.line, filter_append] at line ⊢
    rw [queue, flatMap_append, filter_append, ← append_assoc, line, flatMap_singleton, DiskEvent.oper_msgs]

theorem take_in_line (disk : Disk) (entry : Nat × DiskEvent) (rest : List (Nat × DiskEvent)) (waits : disk.pc = .wait)
    (inLine : InLine disk) (popped : Heapq.heappop entryLess disk.queue = some (entry, rest))
    (ordered : ∀ second < disk.queue.tail.length, ∀ first < second, ¬ Mixes disk.queue.tail first second) :
    InLine { disk with queue := rest, pc := .taken entry.2 } := by
  cases queue : disk.queue with
  | nil =>
    rw [queue] at popped
    cases popped
  | cons head tail =>
    rw [queue] at popped
    obtain ⟨rfl, rfl⟩ : head = entry ∧ Heapq.refill _ tail = rest := by simpa [Heapq.heappop] using popped
    have behind : ∀ entry ∈ tail, entry.1 = 2 := fun entry there => inLine.levels.behind _ (by rwa [queue])
    have perm := Heapq.refill_perm entryLess tail
    have level : ∀ left ∈ tail, ∀ right ∈ tail, entryLess left right = false := by
      intro left one right other
      simp [entryLess, behind left one, behind _ other]
    rw [queue, tail_cons] at ordered
    constructor
    · exact ⟨fun entry there => Nat.le_of_eq (behind _ (perm.mem_iff.mp there)),
        fun entry there => behind _ (perm.mem_iff.mp (mem_of_mem_tail there))⟩
    · intro thread fn
      have kept := Heapq.refill_filter _ tail _ level (·.2.of _ fn) fun first second exchanged own => by
        have inside : second < tail.length :=
          mem_range.mp ((Heapq.refill_perm _ _).mem_iff.mp (exchanged.2.subset mem_cons_self))
        exact ordered _ inside _ exchanged.1 ⟨exchanged, of_same_file thread fn _ _ own.1 own.2⟩
      have line := inLine.line thread fn
      simp only [Disk.line, waits, DiskPc.todo, queue, append_nil, flatMap_cons, filter_append] at line ⊢
      rw [event_filter, kept, ← event_filter, append_assoc]
      exact line

theorem goes_in_line (disk : Disk) (pc : DiskPc) (performed : List Msg) (inLine : InLine disk)
    (same : performed ++ pc.todo = disk.performed ++ disk.pc.todo) : InLine { disk with pc := pc, performed := performed } where
  levels := ⟨inLine.levels.all, inLine.levels.behind⟩
  line thread fn := by
    rw [← inLine.line _ fn]
    simp only [Disk.line, same]

end Line

section Replicas

variable (disks : Disks ι) (st : State ι)

theorem fgw_puts : (st.fgwStep disks).disks = st.disks ∨ ∃ disk msg, (st.fgwStep disks).disks = (st.putDisk disk msg).disks := by
  have does := fgw_does disks st
  generalize st.fgwStep _ = after at does
  cases does with
  | sends msg fn key later place first rest disk => exact .inr ⟨disk, first, rfl⟩
  | asks msg fn key later disk => exact .inr ⟨disk, msg, rfl⟩
  | fails | unplaced | settles | gives => exact .inl (by simp)
  | nothing | takes | places | reads | builds | refreshes | obeys | informs | sent | passes | seeks => exact .inl rfl

theorem fgw_in_line (inLine : ∀ disk, InLine (st.disks disk)) (other : ι) : InLine ((st.fgwStep disks).disks other) := by
  rcases fgw_puts _ st with same | ⟨disk, msg, put⟩
  · exact same ▸ inLine _
  · rw [put]
    by_cases own : other = disk
    · subst own
      simpa [State.putDisk, State.setDisk] using push_in_line _ msg (inLine _)
    · simpa [State.putDisk, State.setDisk, own] using inLine _

def Undisturbed : Act ι → Prop
  | .disk disk (.next _) =>
    match (st.disks disk).pc with
    | .wait => ∀ second < (st.disks disk).queue.tail.length, ∀ first < second, ¬ Mixes (st.disks disk).queue.tail first second
    | .taken (.oper msg) => ¬ Shifts disks st disk msg
    | _ => True
  | _ => True

instance decidableMixes (rest : List (Nat × DiskEvent)) (first second : Nat) : Decidable (Mixes rest first second) :=
  inferInstanceAs (Decidable (_ ∧ _))

instance decidableUndisturbed (act : Act ι) : Decidable (Undisturbed disks st act) := by
  rcases act with _ | _ | _ | _ | _ | ⟨disk, _ | _ | _ | _⟩ <;> unfold Undisturbed <;> try infer_instance
  dsimp only
  generalize (st.disks disk).pc = pc
  rcases pc with _ | ⟨_ | _⟩ | _ | _ | _ | _ <;> infer_instance

theorem disk_in_line (disk : ι) (act : DiskAct) (undisturbed : Undisturbed disks st (.disk disk act)) (inLine : ∀ disk, InLine (st.disks disk))
    (other : ι) : InLine ((st.diskStep disks disk act).disks other) := by
  have own := inLine disk
  have set (before : State ι) (same : before.disks = st.disks) (value : Disk) (new : InLine value) :
      InLine ((before.setDisk disk value).disks other) := by
    by_cases here : other = disk
    · subst here
      simpa [State.setDisk] using new
    · simpa [State.setDisk, here, same] using inLine _
  have goes (pc : DiskPc) (todo : pc.todo = (st.disks disk).pc.todo) : InLine _ :=
    set st rfl _ (goes_in_line _ pc _ own (by rw [todo]))
  have does := disk_does disks st disk act
  generalize st.diskStep _ disk act = after at does
  cases does with
  | nothing => exact inLine _
  | takes os entry rest pc popped =>
    simp only [Undisturbed, pc] at undisturbed
    exact set st rfl _ (take_in_line _ _ rest pc own popped undisturbed)
  | starts os pc => exact goes _ (by rw [pc]; rfl)
  | opens os msg dirs ok pc => exact goes _ (by rw [pc]; rfl)
  | announces os msg dir dirs ok pc => exact goes _ (by rw [pc]; rfl)
  | performs os rest msg ran pc =>
    refine set _ rfl _ (goes_in_line _ _ _ own ?_)
    rcases pc with ⟨pc, -⟩ | pc <;> rw [pc] <;> exact append_nil _
  | answers os msg pc => exact goes _ (by rw [pc]; rfl)
  | finds dirs found dir name isDir pc => exact goes _ (by rw [pc]; rfl)
  | ends dirs pc => exact goes _ (by rw [pc]; rfl)
  | finishes dirs pc => exact goes _ (by rw [pc]; rfl)

variable [Fintype ι]

structure InOrderOf : Prop where
  asking : Asking st
  sending : Sending st
  opens : Opens st
  inLine : ∀ disk, InLine (st.disks disk)

theorem step_in_order (act : Act ι) (kept : InOrderOf st) (undisturbed : Undisturbed disks st act) : InOrderOf (step disks st act) := by
  have asking := step_asking disks st act kept.asking
  have quiet (after : State ι) (disks : after.disks = st.disks) (asking : Asking after) (pc : after.pc = st.pc) (issued : st.issued ≤ after.issued)
      (waits : ∀ thread req, after.fuse thread = .waits req → st.fuse thread = .waits req ∨ st.issued ≤ req)
      (shrinks : ∀ fn, after.fs.nodes fn = st.fs.nodes fn ∨ ∀ key, (after.fs.nodes fn).ext key = []) : InOrderOf after := by
    refine ⟨asking, ?_, fun disk => disks ▸ kept.opens disk, fun disk => disks ▸ kept.inLine disk⟩
    refine sending_same st _ kept.sending pc (fun disk => by rw [disks]) issued waits fun msg fn keys place msgs _ walked => ?_
    rcases shrinks fn with same | none
    · refine ⟨fun key away disk there => ?_, fun key later split disk there => ?_⟩
      · rw [Sent, disks]
        exact walked.through key away disk (same ▸ there)
      · rw [Sent, disks]
        exact walked.passed key _ split disk (same ▸ there)
    · exact ⟨fun key _ disk there => by simp [none key] at there, fun key _ _ disk there => by simp [none key] at there⟩
  have moved (thread : Nat) (pc : FusePc) (issued : ∀ req, pc = .waits req → st.issued ≤ req) (other : Nat) (req : Nat)
      (waits : Function.update st.fuse thread pc other = .waits req) : st.fuse other = .waits req ∨ st.issued ≤ req := by
    by_cases same : other = thread
    · subst same
      exact .inr (issued req (by simpa using waits))
    · exact .inl (by simpa [same] using waits)
  have same : ∀ fn, st.fs.nodes fn = st.fs.nodes fn ∨ ∀ key, (st.fs.nodes fn).ext key = [] := fun _ => .inl rfl
  have tmp (path : Path) (dir : Bool) (fn : NodeId) : (st.fs.tmp path dir).nodes fn = st.fs.nodes fn ∨ ∀ key, ((st.fs.tmp path dir).nodes fn).ext key = [] := by
    by_cases new : fn = st.fs.fresh
    · exact .inr fun key => by simp [FileSystem.tmp, FileSystem.setNode, new, FileNode.new]
    · exact .inl (by simp [FileSystem.tmp, FileSystem.setNode, new])
  cases act with
  | look thread op path =>
    simp only [step] at asking ⊢
    split at asking
    · next idle =>
        rw [if_pos idle]
        unfold State.look at asking ⊢
        split at asking
        · exact kept
        · split at asking
          · exact kept
          · exact kept
          · exact quiet _ rfl asking rfl (Nat.le_refl _) (moved _ _ (by simp)) (tmp path _)
          · exact quiet _ rfl asking rfl (Nat.le_refl _) (moved _ _ (by simp)) (tmp path _)
          · exact quiet _ rfl asking rfl (Nat.le_refl _) (moved _ _ (by simp)) (tmp path true)
          · exact quiet _ rfl asking rfl (Nat.le_refl _) (moved _ _ (by simp)) same
    · next busy => rwa [if_neg busy]
  | issue thread =>
    simp only [step, State.issue] at asking ⊢
    split at asking
    · exact quiet _ rfl asking rfl (Nat.le_succ _) (moved _ _ fun req waits => Nat.le_of_eq (FusePc.waits.inj waits)) same
    · exact kept
  | awake thread =>
    simp only [step, State.awake] at asking ⊢
    split at asking
    · split at asking
      · next released =>
          rw [if_pos released]
          exact quiet _ rfl asking rfl (Nat.le_refl _) (moved _ _ (by simp)) same
      · next released => rwa [if_neg released]
    · exact kept
  | command => exact quiet _ rfl asking rfl (Nat.le_refl _) (fun _ _ => .inl) same
  | fgw =>
    refine ⟨asking, sending_fgw _ st kept.asking kept.sending, ?_, fgw_in_line _ st kept.inLine⟩
    exact fun disk msg dirs ok pc => kept.opens disk msg dirs ok (fgw_disks _ st disk ▸ pc)
  | disk disk act =>
    refine ⟨asking, sending_disk _ st kept.sending kept.opens disk act ?_, disk_opens _ st kept.opens disk act,
      disk_in_line _ st disk act undisturbed kept.inLine⟩
    rintro os msg rfl pc
    simpa only [Undisturbed, pc] using undisturbed

omit [DecidableEq ι] in
theorem init_in_order : InOrderOf (.init : State ι) where
  asking := init_asking
  sending := ⟨nofun, nofun, fun _ => Pairwise.nil, nofun⟩
  opens := init_opens
  inLine _ := ⟨⟨by simp [State.init], by simp [State.init]⟩, fun _ _ => rfl⟩

structure Replicated : Prop where
  order : ∀ disk thread fn, ((st.disks disk).performed.filter (·.of thread fn)).Pairwise fun first second => first.req ≤ second.req
  sent : ∀ disk thread fn, ((st.disks disk).performed.filter (·.of thread fn)).IsPrefix ((st.disks disk).sent.filter (·.of thread fn))
  idle : ∀ disk, (st.disks disk).queue = [] → (st.disks disk).pc = .wait → ∀ thread fn,
    (st.disks disk).performed.filter (·.of thread fn) = (st.disks disk).sent.filter (·.of thread fn)
  complete : ∀ msg fn place msgs, st.pc = .send msg fn [] place msgs → ∀ key, ∀ disk ∈ (st.fs.nodes fn).ext key, Sent st msg disk

omit [DecidableEq ι] in
theorem in_order_replicated (kept : InOrderOf st) : Replicated st := by
  have sent (disk : ι) (thread : Nat) (fn : NodeId) :
      ((st.disks disk).performed.filter (·.of thread fn)).IsPrefix ((st.disks disk).sent.filter (·.of thread fn)) := by
    rw [← (kept.inLine disk).line _ fn, Disk.line, append_assoc, filter_append]
    exact prefix_append _ _
  refine ⟨fun disk thread fn => ?_, sent, fun disk queue pc thread fn => ?_, fun msg fn place msgs pc key disk there => ?_⟩
  · refine Pairwise.sublist (sent disk _ fn).sublist (Pairwise.imp_of_mem ?_ ((kept.sending.order disk).filter _))
    intro first second one other ordered
    have thread_of (msg : Msg) (there : msg ∈ (st.disks disk).sent.filter (·.of thread fn)) : msg.thread = thread := by
      have own := (mem_filter.mp there).2
      simp only [Msg.of, Bool.and_eq_true, beq_iff_eq] at own
      exact own.1.1
    exact ordered ((thread_of _ one).trans (thread_of _ other).symm)
  · rw [← (kept.inLine disk).line _ fn]
    simp [Disk.line, queue, pc, DiskPc.todo]
  · exact (kept.sending.walked msg fn [] _ msgs pc).through key not_mem_nil disk there

theorem replicas_in_order (acts : List (Act ι)) (undisturbed : AllSteps (step disks) (Undisturbed disks) .init acts) :
    Replicated (run (step disks) .init acts) :=
  in_order_replicated _ (run_keeps _ _ (fun st => InOrderOf st) _ acts init_in_order
    (fun _ act kept allowed => step_in_order _ _ act kept allowed) undisturbed)

end Replicas

def writes (count : Nat) : List (Act Bool) :=
  (List.replicate count (request .write [97] ++ serve true 3 ++ [.fgw, .fgw, .awake 0])).flatten

theorem replicas_in_order_sample :
    AllSteps (step twoDisks) (Undisturbed twoDisks) .init (scans [[97]] ++ writes 3 ++ serve false 9) ∧
      Replicated (run (step twoDisks) .init (scans [[97]] ++ writes 3 ++ serve false 9)) :=
  ⟨by decide +kernel, replicas_in_order _ _ (by decide +kernel)⟩

theorem third_write_first : ¬ Replicated (run (step twoDisks) .init (scans [[97]] ++ writes 4 ++ serve false 9)) := by
  intro replicated
  have order := replicated.order false 0 1
  have performed : ((run (step twoDisks) .init (scans [[97]] ++ writes 4 ++ serve false 9)).disks false).performed.filter
      (·.of 0 1) = [0, 2, 1].map fun req => ⟨false, req, 0, some 1, .write, none⟩ := by decide +kernel
  rw [performed] at order
  simp at order

end Codec.Cache
