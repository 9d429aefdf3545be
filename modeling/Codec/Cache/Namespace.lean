import Codec.Cache.Answers
import Codec.Cache.Tree

set_option autoImplicit false

namespace Codec.Cache

open Codec.Lib List

variable {ι : Type} [DecidableEq ι]

variable (fs : FileSystem ι) (fn : NodeId)

def Msg.Known (made : NodeId → Prop) (msg : Msg) : Prop := ∃ fn, msg.node = some fn ∧ made fn

def FGWEvent.Known (made : NodeId → Prop) : FGWEvent ι → Prop
  | .request msg => ∀ fn, msg.node = some fn → made fn
  | .rsp msg => msg.Known made
  | _ => True

def FGWPc.Known (made : NodeId → Prop) : FGWPc ι → Prop
  | .wait => True
  | .taken event => event.Known made
  | .placed msg _ | .read msg _ _ => msg.Known made
  | .send _ _ _ _ msgs => ∀ msg ∈ msgs, msg.Known made

structure Known (made : NodeId → Prop) (st : State ι) : Prop where
  queue : ∀ entry ∈ st.queue, entry.2.Known made
  pc : st.pc.Known made
  disks : ∀ disk, ∀ msg ∈ (st.disks disk).msgs, msg.Known made
  found : ∀ thread op fn, st.fuse thread = .found op (some fn) → made fn

section Messages

variable (disks : Disks ι) (st : State ι) (made : NodeId → Prop)

theorem msg_known_later (later : NodeId → Prop) (more : ∀ fn, made fn → later fn) (msg : Msg) (known : msg.Known made) : msg.Known later := by
  obtain ⟨fn, node, before⟩ := known
  exact ⟨fn, node, more fn before⟩

omit [DecidableEq ι] in
theorem event_known_later (later : NodeId → Prop) (more : ∀ fn, made fn → later fn) (event : FGWEvent ι) (known : event.Known made) :
    event.Known later := by
  cases event with
  | request msg => exact fun fn node => more fn (known fn node)
  | rsp msg => exact msg_known_later made _ more msg known
  | refresh | command | cmdRsp => trivial

omit [DecidableEq ι] in
theorem known_later (later : NodeId → Prop) (more : ∀ fn, made fn → later fn) (known : Known made st) : Known later st where
  queue entry there := event_known_later made _ more _ (known.queue _ there)
  pc := by
    have pc := known.pc
    cases here : st.pc with
    | wait => trivial
    | taken event =>
      rw [here] at pc
      exact event_known_later made _ more _ pc
    | placed msg fn =>
      rw [here] at pc
      exact msg_known_later made _ more msg pc
    | read msg fn keys =>
      rw [here] at pc
      exact msg_known_later made _ more msg pc
    | send msg fn keys place msgs =>
      rw [here] at pc
      exact fun msg there => msg_known_later made _ more msg (pc msg there)
  disks disk msg there := msg_known_later made _ more msg (known.disks disk msg there)
  found thread op fn here := more fn (known.found _ op fn here)

variable {made}

omit [DecidableEq ι] in
theorem known_put (known : Known made st) (level : Nat) (event : FGWEvent ι) (new : event.Known made) : Known made (st.put level event) where
  queue entry there := by
    rcases mem_append.mp ((Heapq.push_perm _ _ _).mem_iff.mp there) with before | last
    · exact known.queue _ before
    · rw [mem_singleton.mp last]
      exact new
  pc := known.pc
  disks := known.disks
  found := known.found

theorem known_set_disk (known : Known made st) (disk : ι) (value : Disk) (new : ∀ msg ∈ value.msgs, msg.Known made) :
    Known made (st.setDisk disk value) where
  queue := known.queue
  pc := known.pc
  disks other msg there := by
    by_cases same : other = disk
    · subst same
      exact new msg (by simpa [State.setDisk] using there)
    · exact known.disks _ msg (by simpa [State.setDisk, same] using there)
  found := known.found

theorem known_set_pc (known : Known made st) (disk : ι) (pc : DiskPc) (new : ∀ msg ∈ pc.msgs, msg.Known made) :
    Known made (st.setPc disk pc) := by
  refine known_set_disk st known disk _ fun msg there => ?_
  rcases mem_append.mp there with queued | now
  · exact known.disks disk msg (mem_append_left _ queued)
  · exact new msg now

theorem known_put_disk (known : Known made st) (disk : ι) (msg : Msg) (new : msg.Known made) : Known made (st.putDisk disk msg) := by
  refine known_set_disk st known disk _ fun other there => ?_
  have pushed := (Heapq.push_perm entryLess (st.disks disk).queue (2, .oper msg)).flatMap_right (·.2.msgs)
  rcases mem_append.mp there with queued | now
  · rw [pushed.mem_iff, flatMap_append, flatMap_singleton, mem_append] at queued
    rcases queued with before | last
    · exact known.disks disk _ (mem_append_left _ before)
    · rw [mem_singleton.mp last]
      exact new
  · exact known.disks disk _ (mem_append_right _ now)

omit [DecidableEq ι] in
theorem known_pc (known : Known made st) (pc : FGWPc ι) (new : pc.Known made) : Known made { st with pc := pc } :=
  ⟨known.queue, new, known.disks, known.found⟩

omit [DecidableEq ι] in
theorem known_release (known : Known made st) (msg : Msg) : Known made (st.release msg) := by
  rw [release_same]
  exact { known with }

omit [DecidableEq ι] in
theorem known_fail (known : Known made st) (event : FGWEvent ι) : Known made (st.fail event) := by
  have logged : Known made { st with pc := .wait, warned := st.warned ++ [event] } := ⟨known.queue, trivial, known.disks, known.found⟩
  cases event with
  | request msg => exact known_release _ logged msg
  | rsp msg => exact known_release _ logged msg
  | refresh => exact logged
  | command => exact known_put _ logged 2 _ trivial
  | cmdRsp => exact known_put _ logged 2 _ trivial

theorem known_build (msg : Msg) (total : Nat) (known : msg.Known made) : ∀ other ∈ State.build msg total, other.Known made := by
  intro other there
  rcases mem_cons.mp there with rfl | copy
  · exact known
  · rw [eq_of_mem_replicate copy]
    exact known

theorem known_fgw (known : Known made st) : Known made (st.fgwStep disks) := by
  have here := known.pc
  have does := fgw_does disks st
  generalize st.fgwStep _ = after at does
  cases does with
  | nothing => exact known
  | takes entry rest pc popped =>
    have perm := Heapq.pop_perm _ _ rest _ popped
    exact ⟨fun other there => known.queue _ (perm.mem_iff.mp (mem_cons_of_mem _ there)),
      known.queue _ (perm.mem_iff.mp mem_cons_self), known.disks, known.found⟩
  | fails event => exact known_fail st known _
  | unplaced =>
    refine known_fail _ ?_ _
    exact { known with }
  | places msg fn memory hdd currentMemory currentHdd pc node =>
    rw [pc] at here
    exact ⟨known.queue, ⟨fn, node, here fn node⟩, known.disks, known.found⟩
  | reads msg fn pc node =>
    rw [pc] at here
    exact known_pc st known _ ⟨fn, node, here fn node⟩
  | builds msg fn pc =>
    refine known_pc st known _ (known_build msg _ ?_)
    rcases pc with ⟨pc, node⟩ | pc
    · rw [pc] at here
      exact ⟨fn, node, here fn node⟩
    · rwa [pc] at here
  | settles msg =>
    refine known_release _ ?_ msg
    exact ⟨known.queue, trivial, known.disks, known.found⟩
  | gives msg => exact known_release _ (known_pc st known .wait trivial) msg
  | refreshes => exact ⟨known.queue, trivial, known.disks, known.found⟩
  | obeys => exact known_put _ (known_pc st known .wait trivial) 2 _ trivial
  | informs | sent => exact known_pc st known _ trivial
  | passes msg fn key later place msgs pc =>
    rw [pc] at here
    exact known_pc st known _ here
  | sends msg fn key later place first rest disk pc =>
    rw [pc] at here
    have put := known_put_disk st known disk _ (here _ mem_cons_self)
    exact known_pc _ put _ fun msg there => here msg (mem_cons_of_mem _ there)
  | seeks msg fn key later pc =>
    rw [pc] at here
    exact known_pc st known _ here
  | asks msg fn key later disk pc =>
    rw [pc] at here
    exact known_pc _ (known_put_disk st known disk msg here) _ trivial

theorem known_perform (known : Known made st) (disk : ι) (msg : Msg) (ran : Bool) (os : List Os) (here : msg.Known made) :
    Known made (st.perform disks disk msg ran os) := by
  have before : Known made { st with fs := msg.node.elim st.fs fun fn => State.effect disks disk st.fs fn msg.op ran } :=
    { known with }
  refine known_set_disk _ before disk _ fun other there => ?_
  rcases mem_append.mp there with queued | now
  · exact known.disks disk _ (mem_append_left _ queued)
  · rw [mem_singleton.mp now]
    exact here

theorem known_disk (known : Known made st) (disk : ι) (act : DiskAct) : Known made (st.diskStep disks disk act) := by
  have inHand (msg : Msg) (there : msg ∈ (st.disks disk).pc.msgs) : msg.Known made := known.disks disk msg (mem_append_right _ there)
  have quiet (pc : DiskPc) (empty : pc.msgs = []) : Known made _ := known_set_pc st known disk pc (by simp [empty])
  have holding (msg : Msg) (dirs : List Path) (ok : Bool) (here : msg.Known made) : Known made (st.setPc disk (.opening msg dirs ok)) :=
    known_set_pc st known disk _ fun other there => mem_singleton.mp there ▸ here
  have does := disk_does disks st disk act
  generalize st.diskStep _ disk act = after at does
  cases does with
  | nothing => exact known
  | takes os entry rest pc popped =>
    have perm := (Heapq.pop_perm _ _ rest _ popped).flatMap_right (·.2.msgs)
    refine known_set_disk st known disk _ fun msg there => known.disks disk msg (mem_append_left _ ?_)
    rw [← perm.mem_iff, flatMap_cons, mem_append]
    exact (mem_append.mp there).symm
  | starts | ends | finishes => exact quiet _ rfl
  | opens os msg dirs ok pc => exact holding msg dirs ok (inHand msg (pc ▸ mem_cons_self))
  | announces os msg dir dirs ok pc => exact known_put _ (holding msg dirs ok (inHand msg (pc ▸ mem_cons_self))) 2 _ trivial
  | performs os rest msg ran pc =>
    refine known_perform _ st known disk msg ran rest (inHand msg ?_)
    rcases pc with ⟨pc, -⟩ | pc <;> exact pc ▸ mem_cons_self
  | answers os msg pc => exact known_put _ (quiet _ rfl) 2 _ (inHand msg (pc ▸ mem_cons_self))
  | finds => exact known_put _ (quiet _ rfl) 2 _ trivial

end Messages

def Msg.Removed (msg : Msg) : Prop := msg.node = some fn ∧ msg.op.removes = true ∧ msg.result = some true

def State.Leaving (st : State ι) (fn : NodeId) : Prop := ∃ msg, st.Response msg ∧ msg.Removed fn

structure Namespace (st : State ι) : Prop where
  handled : ∀ msg, .rsp msg ∈ st.warned → msg.result ≠ some true
  finds : ∀ path, st.fs.findFile path = .ok (expected st.fs path) ↔ ¬ Through st.fs path
  parents : ∀ fn dir, fn ≠ root → (st.fs.nodes fn).parent = some dir →
    (st.fs.nodes dir).files (st.fs.nodes fn).name = some fn ∧ st.fs.findFile (st.fs.nodes fn).path.dropLast = .ok (some dir)
  contained : ∀ dir name fn, (st.fs.nodes dir).files name = some fn → (st.fs.nodes fn).parent = some dir ∧ (st.fs.nodes fn).name = name
  held : ∀ path fn, st.fs.findFile path = .ok (some fn) → fn ≠ root → (st.fs.nodes fn).Held ∨ st.Leaving fn

section Steps

variable (disks : Disks ι) (st : State ι)

def FileSystem.HasDir (path : Path) : Prop :=
  match fs.findFile path with
  | .ok (some dir) => (fs.nodes dir).dir = true
  | _ => False

omit [DecidableEq ι] in
theorem has_dir (path : Path) (some : fs.HasDir path) :
    ∃ dir, fs.findFile path = .ok (Option.some dir) ∧ (fs.nodes dir).dir = true := by
  unfold FileSystem.HasDir at some
  split at some
  · next dir found => exact ⟨dir, found, some⟩
  · exact some.elim

def InOrder (msg : Msg) (fn : NodeId) : Prop :=
  (msg.op.makes = true → (st.fs.nodes fn).parent = none →
    st.fs.HasDir (st.fs.nodes fn).path.dropLast ∧ st.fs.findFile (st.fs.nodes fn).path = .ok none ∧
      ((st.fs.nodes fn).Held ∨ st.Leaving fn)) ∧
    (msg.op.removes = true → ¬ (st.fs.nodes fn).Held →
      fn ≠ root ∧ (st.fs.nodes fn).parent ≠ none ∧ ∀ other < st.fs.fresh, (st.fs.nodes other).parent ≠ some fn)

def LastHolder (disk : ι) (msg : Msg) (fn : NodeId) : Prop :=
  msg.op.removes = true → (st.fs.nodes fn).parent ≠ none → fn ≠ root →
    ((st.fs.letGo fn (disks.kind disk) disk).nodes fn).Held ∨ st.Leaving fn

def Orderly : Act ι → Prop
  | .fgw =>
    match st.pc with
    | .taken (.rsp msg) => msg.result = some true → ∀ fn, msg.node = some fn → InOrder st msg fn
    | _ => True
  | .disk disk (.next os) =>
    match (st.disks disk).pc with
    | .taken (.oper msg) => os.head? ≠ some .done → ∀ fn, msg.node = some fn → LastHolder disks st disk msg fn
    | _ => True
  | _ => True

structure Kept : Prop where
  tree : Tree st.fs
  known : Known (· < st.fs.fresh) st
  handled : ∀ msg, .rsp msg ∈ st.warned → msg.result ≠ some true
  held : ∀ fn, fn ≠ root → st.fs.InTree fn → (st.fs.nodes fn).Held ∨ st.Leaving fn
  opens : Opens st

omit [DecidableEq ι] in
theorem kept_namespace (kept : Kept st) : Namespace st where
  handled := kept.handled
  finds := kept.tree.finds
  parents fn dir below parent := by
    obtain ⟨holds, -, inside, last, path⟩ := kept.tree.parent fn dir below parent
    exact ⟨holds, (kept.tree.find_some _ dir).mpr ⟨inside, by simp [path]⟩⟩
  contained dir name fn holds := (kept.tree.child dir name fn holds).2
  held path fn found below := kept.held fn below ((kept.tree.find_some path fn).mp found).1

-- Steps that add at most holders, and drop no response.
omit [DecidableEq ι] in
theorem kept_quiet (after : State ι) (kept : Kept st) (shape : SameShape st.fs after.fs) (holds : Holds st.fs after.fs)
    (known : Known (· < st.fs.fresh) after) (handled : ∀ msg, .rsp msg ∈ after.warned → msg.result ≠ some true)
    (leaving : ∀ fn, st.Leaving fn → after.Leaving fn) (pcs : ∀ disk, (after.disks disk).pc = (st.disks disk).pc) : Kept after where
  tree := shape.tree kept.tree
  known := by rwa [shape.fresh]
  handled := handled
  held fn below inside := (kept.held fn below ((shape.in_tree fn).mp inside)).imp (holds fn) (leaving fn)
  opens disk msg dirs ok pc := kept.opens disk msg dirs ok (pcs disk ▸ pc)

theorem makes_removes (op : Oper) (makes : op.makes = true) : op.removes = false := by cases op <;> first | rfl | cases makes

omit [DecidableEq ι] in
theorem hold_found_shape (kind : DiskType) (found : Option ι) :
    SameShape fs (State.holdFound fs fn kind found) ∧ Holds fs (State.holdFound fs fn kind found) := by
  cases found with
  | none => exact ⟨.refl fs, fun _ held => held⟩
  | some disk => exact ⟨hold_shape fs fn kind disk, hold_holds fs fn kind disk⟩

omit [DecidableEq ι] in
theorem insert_done (fn dir : NodeId) (found : fs.findFile (fs.nodes fn).path.dropLast = .ok (some dir))
    (isDir : (fs.nodes dir).dir = true) : fs.insert fn = .ok (fs.addFile dir fn) := by
  simp [FileSystem.insert, found, isDir]

-- What becomes of the tree with a successful response.
omit [DecidableEq ι] in
theorem settle_kept (kept : Kept st) (msg : Msg) (fn : NodeId) (node : msg.node = some fn) (known : fn < st.fs.fresh) (inOrder : InOrder st msg fn) :
    ∃ after, State.settle st.fs fn msg.op = .ok after ∧ Tree after ∧ after.fresh = st.fs.fresh ∧
      ∀ other, other ≠ root → after.InTree other →
        (after.nodes other).Held ∨ ∃ first, st.Response first ∧ first.Removed other ∧ first ≠ { msg with result := some true } := by
  have apart (other : NodeId) (leaving : st.Leaving other) (differ : msg.op.removes = true → other ≠ fn) :
      ∃ first, st.Response first ∧ first.Removed other ∧ first ≠ { msg with result := some true } := by
    obtain ⟨first, response, named, removes, ok⟩ := leaving
    refine ⟨first, response, ⟨named, removes, ok⟩, ?_⟩
    rintro rfl
    exact differ removes (Option.some.inj (named.symm.trans node))
  unfold State.settle
  by_cases adds : msg.op.makes = true ∧ (st.fs.nodes fn).parent = none
  · rw [if_pos adds]
    obtain ⟨above, absent, holder⟩ := inOrder.1 adds.1 adds.2
    obtain ⟨dir, found, isDir⟩ := has_dir _ _ above
    have done := insert_done _ fn dir found isDir
    obtain ⟨tree, -⟩ := kept.tree.insert_file fn known (not_not.mpr adds.2) (kept.tree.find_inserted _ none absent).symm _ done
    refine ⟨_, done, tree, rfl, fun other below inside => ?_⟩
    have holders : (st.fs.nodes other).Held ∨ st.Leaving other := by
      by_cases same : other = fn
      · exact same ▸ holder
      · rw [FileSystem.InTree, add_file_parent, if_neg same] at inside
        exact kept.held _ below inside
    refine holders.imp (fun held => ?_) fun leaving => ?_
    · rwa [FileNode.Held, add_file_ext]
    · refine apart _ leaving fun removes => ?_
      rw [makes_removes _ adds.1] at removes
      cases removes
  · rw [if_neg adds]
    by_cases removes : msg.op.removes = true
    · rw [if_pos removes]
      by_cases held : (st.fs.nodes fn).Held
      · refine ⟨st.fs, by simp [FileSystem.unlink, held], kept.tree, rfl, fun other below inside => ?_⟩
        by_cases same : other = fn
        · exact .inl (same ▸ held)
        · exact (kept.held _ below inside).imp id fun leaving => apart _ leaving fun _ => same
      · obtain ⟨below, inside, empty⟩ := inOrder.2 removes held
        have noChild (other : NodeId) : (st.fs.nodes other).parent ≠ some fn := by
          rcases Nat.lt_or_ge _ _ with old | new
          · exact empty _ old
          · intro parent
            refine kept.tree.blank _ new ?_
            rw [FileSystem.InTree, parent]
            rintro ⟨⟩
        obtain ⟨dir, done, tree⟩ := kept.tree.unlink_file fn held below inside noChild
        refine ⟨_, done, tree, rfl, fun other under inside => ?_⟩
        rw [FileSystem.InTree, pop_file_parent] at inside
        split at inside
        · exact absurd rfl inside
        · next same =>
            refine (kept.held _ under inside).imp (fun held => ?_) fun leaving => apart other leaving fun _ => same
            rwa [FileNode.Held, pop_file_ext]
    · rw [if_neg removes]
      exact ⟨st.fs, rfl, kept.tree, rfl, fun other below inside =>
        (kept.held _ below inside).imp id fun leaving => apart _ leaving fun yes => absurd yes removes⟩

theorem fails_orderly (kept : Kept st) (orderly : Orderly disks st .fgw) (event : FGWEvent ι) (why : FGWFails st event) :
    (∀ msg, st.pc = .taken (.rsp msg) → msg.result ≠ some true) ∧ ∀ msg, event = .rsp msg → msg.result ≠ some true := by
  cases why with
  | unknown msg pc => simp [pc]
  | refused msg pc => rcases pc with pc | ⟨fn, pc⟩ <;> simp [pc]
  | spent msg fn key later place disk pc => simp [pc]
  | unread msg fn pc => simp [pc]
  | refresh dir disk path pc => simp [pc]
  | response msg pc why =>
    simp only [Orderly, pc] at orderly
    obtain ⟨fn, node, old⟩ : msg.Known _ := by
      have here := kept.known.pc
      rwa [pc] at here
    have failed : msg.result ≠ some true := by
      intro ok
      obtain ⟨raised, error⟩ := why ok fn node
      obtain ⟨after, done, -⟩ := settle_kept st kept msg fn node old (orderly ok fn node)
      exact nomatch error.symm.trans done
    simp only [pc, FGWPc.taken.injEq, FGWEvent.rsp.injEq]
    exact ⟨fun other same => same ▸ failed, fun other same => same ▸ failed⟩

theorem kept_fgw (kept : Kept st) (orderly : Orderly disks st .fgw) : Kept (st.fgwStep disks) := by
  have known := known_fgw disks st kept.known
  have pcs := fgw_disks disks st
  have responses := response_fgw disks st
  have does := fgw_does disks st
  generalize st.fgwStep _ = after at does known pcs responses
  have stays (msg : Msg) (response : st.Response msg) (other : st.pc ≠ .taken _) : after.Response msg :=
    ((responses msg).mpr response).resolve_right other
  have leaving (other : ∀ msg, st.pc = .taken (.rsp msg) → msg.result ≠ some true) (fn : NodeId) (before : st.Leaving fn) : after.Leaving fn := by
    obtain ⟨msg, response, removed⟩ := before
    exact ⟨msg, stays msg response fun taken => other msg taken removed.2.2, removed⟩
  have plain (other : ∀ msg, st.pc = .taken (.rsp msg) → msg.result ≠ some true) (shape : SameShape _ _) (holds : Holds _ _)
      (handled : ∀ msg, .rsp msg ∈ after.warned → msg.result ≠ some true) : Kept _ :=
    kept_quiet st _ kept shape holds known handled (leaving other) pcs
  have same (other : ∀ msg, st.pc = .taken (.rsp msg) → msg.result ≠ some true) (fs : after.fs = st.fs) (warned : after.warned = st.warned) :
      Kept _ :=
    plain other (fs ▸ .refl _) (fs ▸ fun _ held => held) (warned ▸ kept.handled)
  cases does with
  | nothing => exact kept
  | fails event why =>
    obtain ⟨other, failed⟩ := fails_orderly _ st kept orderly _ why
    refine plain other (fail_fs st _ ▸ .refl _) (fail_fs st _ ▸ fun _ held => held) fun msg there => ?_
    rw [fail_warned, mem_append, mem_singleton] at there
    rcases there with before | own
    · exact kept.handled msg before
    · exact failed msg own.symm
  | unplaced msg fn disk current pc =>
    obtain ⟨shape, holds⟩ := hold_found_shape _ fn _ disk
    refine plain (by simp [pc]) ?_ ?_ ?_
    · rwa [fail_fs]
    · rwa [fail_fs]
    · simpa using kept.handled
  | places msg fn memory hdd currentMemory currentHdd pc =>
    have first := hold_found_shape st.fs fn .memory memory
    have second := hold_found_shape (State.holdFound st.fs fn .memory memory) fn .hdd hdd
    exact plain (by simp [pc]) (first.1.trans second.1) (fun other held => second.2 _ (first.2 _ held)) kept.handled
  | settles msg fn fs pc ok node done =>
    simp only [Orderly, pc] at orderly
    have old : msg.Known (· < st.fs.fresh) := by
      have here := kept.known.pc
      rwa [pc] at here
    obtain ⟨own, named, old⟩ := old
    obtain rfl := Option.some.inj (named.symm.trans node)
    obtain ⟨after, settled, tree, fresh, holders⟩ := settle_kept st kept msg own node old (orderly ok own node)
    obtain rfl := Except.ok.inj (settled.symm.trans done)
    constructor
    · rwa [release_fs]
    · rw [release_fs]
      exact fresh ▸ known
    · rw [release_warned]
      exact kept.handled
    · intro other below inside
      rw [release_fs] at inside ⊢
      refine (holders _ below inside).imp id ?_
      rintro ⟨first, response, removed, differ⟩
      refine ⟨first, stays _ response fun taken => differ ?_, removed⟩
      rw [pc, FGWPc.taken.injEq, FGWEvent.rsp.injEq] at taken
      rw [← taken, ← ok]
    · exact fun disk first dirs ok here => kept.opens disk _ dirs ok (pcs disk ▸ here)
  | gives msg pc failed => exact same (by simp [pc, failed]) (release_fs _ msg) (release_warned _ msg)
  | refreshes dir disk path fs pc done =>
    obtain ⟨tree, more, held⟩ := kept.tree.refresh_file _ disk dir path fs done
    constructor
    · exact tree
    · exact known_later _ _ _ (fun fn before => Nat.lt_of_lt_of_le before more) known
    · exact kept.handled
    · intro fn below inside
      rcases held fn inside with now | ⟨before, still⟩
      · exact .inl now
      · exact (kept.held fn below before).imp still (leaving (by simp [pc]) fn)
    · exact fun disk msg dirs ok here => kept.opens disk msg dirs ok (pcs disk ▸ here)
  | takes entry rest pc => exact same (by simp [pc]) rfl rfl
  | reads msg fn pc => exact same (by simp [pc]) rfl rfl
  | builds msg fn pc => exact same (by rcases pc with ⟨pc, -⟩ | pc <;> simp [pc]) rfl rfl
  | obeys pc => exact same (by simp [pc]) rfl rfl
  | informs pc => exact same (by simp [pc]) rfl rfl
  | sent msg fn place msgs pc => exact same (by simp [pc]) rfl rfl
  | passes msg fn key later place msgs pc => exact same (by simp [pc]) rfl rfl
  | sends msg fn key later place first rest disk pc => exact same (by simp [pc]) rfl rfl
  | seeks msg fn key later pc => exact same (by simp [pc]) rfl rfl
  | asks msg fn key later disk pc => exact same (by simp [pc]) rfl rfl

theorem effect_shape (disk : ι) (fs : FileSystem ι) (fn : NodeId) (op : Oper) (ran : Bool) :
    SameShape fs (State.effect disks disk fs fn op ran) := by
  rcases effect_does _ disk fs fn op ran with ⟨-, same⟩ | ⟨-, same | ⟨value, same⟩⟩
  · exact same ▸ let_go_shape fs fn _ disk
  · rw [same]
    exact .refl fs
  · exact same ▸ set_disk_shape fs fn _ _

theorem effect_held (disk : ι) (fs : FileSystem ι) (fn other : NodeId) (op : Oper) (ran : Bool) (held : (fs.nodes other).Held)
    (apart : op.removes = true → other ≠ fn) : ((State.effect disks disk fs fn op ran).nodes other).Held := by
  rcases effect_does _ disk fs fn op ran with ⟨removes, same⟩ | ⟨-, same | ⟨value, same⟩⟩
  · rwa [same, FileSystem.letGo, set_node_at, if_neg (apart removes)]
  · rwa [same]
  · rw [same, FileSystem.setDisk, set_node_at]
    split
    · next own => exact own ▸ held
    · exact held

theorem stats_removes (op : Oper) (removes : op.removes = true) : op.stats = false := by
  cases op <;> first | rfl | cases removes

theorem kept_disk (kept : Kept st) (disk : ι) (act : DiskAct) (orderly : Orderly disks st (.disk disk act)) :
    Kept (st.diskStep disks disk act) := by
  have frame := disk_frame disks st disk act
  have known := known_disk disks st kept.known disk act
  have opens := disk_opens disks st kept.opens disk act
  have leaving (fn : NodeId) (before : st.Leaving fn) : (st.diskStep disks disk act).Leaving fn := by
    obtain ⟨msg, response, removed⟩ := before
    exact ⟨msg, response_stays _ st msg disk act response, removed⟩
  have handled : ∀ msg, .rsp msg ∈ (st.diskStep disks disk act).warned → msg.result ≠ some true := by
    rw [frame.warned]
    exact kept.handled
  rcases disk_changes _ st disk act with same | ⟨msg, ran, os, rest, rfl, does, cause⟩
  · exact ⟨same ▸ kept.tree, same ▸ known, handled, fun fn below inside => by
      rw [same] at inside ⊢
      exact (kept.held fn below inside).imp id (leaving fn), opens⟩
  · have fs : (st.diskStep disks disk (.next os)).fs = msg.node.elim st.fs fun fn => State.effect disks disk st.fs fn msg.op ran := by
      rw [does, perform_fs]
    have answered : ((st.diskStep disks disk (.next os)).disks disk).pc =
        .answered { msg with result := some (ran && (!msg.op.stats || rest.head? == some .done)) } := by
      rw [does]
      simp [State.perform, State.setDisk]
    cases node : msg.node with
    | none =>
      rw [node] at fs
      exact ⟨fs ▸ kept.tree, fs ▸ known, handled, fun fn below inside => by
        rw [fs] at inside ⊢
        exact (kept.held fn below inside).imp id (leaving fn), opens⟩
    | some fn =>
      rw [node] at fs
      have shape := effect_shape disks disk st.fs fn msg.op ran
      refine ⟨fs ▸ shape.tree kept.tree, ?_, handled, fun other below inside => ?_, opens⟩
      · rw [fs]
        exact shape.fresh ▸ known
      · rw [fs] at inside ⊢
        replace inside := (shape.in_tree _).mp inside
        by_cases own : msg.op.removes = true ∧ other = fn
        · obtain ⟨removes, rfl⟩ := own
          cases ran with
          | true =>
            refine .inr ⟨_, .inr (.inr ⟨disk, answered⟩), node, removes, ?_⟩
            simp [stats_removes _ removes]
          | false =>
            rw [Option.elim_some, effect_removes _ disk _ _ _ _ removes]
            rcases cause with ⟨pc, failed⟩ | pc
            · simp only [Orderly, pc] at orderly
              have last := orderly (by simpa using failed) _ node removes inside below
              exact last.imp id (leaving _)
            · rw [kept.opens disk msg [] _ pc] at removes
              cases removes
        · refine (kept.held _ below inside).imp (fun held => ?_) (leaving _)
          exact effect_held _ disk _ fn _ _ ran held fun removes same => own ⟨removes, same⟩

omit [DecidableEq ι] in
theorem kept_fuse (kept : Kept st) (fuse : Nat → FusePc) (found : ∀ thread op fn, fuse thread = .found op (some fn) → fn < st.fs.fresh) :
    Kept { st with fuse := fuse } :=
  ⟨kept.tree, ⟨kept.known.queue, kept.known.pc, kept.known.disks, found⟩, kept.handled, kept.held, kept.opens⟩

omit [DecidableEq ι] in
theorem kept_tmp (kept : Kept st) (path : Path) (dir : Bool) : Kept { st with fs := st.fs.tmp path dir } where
  tree := kept.tree.tmp path dir
  known := known_later _ _ _ (fun _ before => Nat.lt_succ_of_lt before)
    { kept.known with }
  handled := kept.handled
  held fn below inside := by
    obtain ⟨other, before⟩ := (tmp_in_tree path dir fn).mp inside
    refine (kept.held fn below before).imp (fun held => ?_) fun leaving => leaving
    rwa [tmp_at, if_neg other]
  opens := kept.opens

omit [DecidableEq ι] in
theorem set_fuse_found (thread : Nat) (pc : FusePc) (limit : Nat)
    (before : ∀ thread op fn, st.fuse thread = .found op (some fn) → fn < limit)
    (new : ∀ op fn, pc = .found op (some fn) → fn < limit) (other : Nat) (op : Oper) (fn : NodeId)
    (found : Function.update st.fuse thread pc other = .found op (some fn)) : fn < limit := by
  by_cases same : other = thread
  · subst same
    exact new op fn (by simpa using found)
  · exact before _ op fn (by simpa [same] using found)

omit [DecidableEq ι] in
theorem kept_put (kept : Kept st) (level : Nat) (event : FGWEvent ι) (new : event.Known (· < st.fs.fresh)) : Kept (st.put level event) where
  tree := kept.tree
  known := known_put st kept.known _ _ new
  handled := kept.handled
  held fn below inside := (kept.held fn below inside).imp id fun ⟨msg, response, removed⟩ =>
    ⟨msg, (response_put st msg _ _).mpr (.inl response), removed⟩
  opens := kept.opens

omit [DecidableEq ι] in
theorem kept_look (kept : Kept st) (thread : Nat) (op : Oper) (path : Path) : Kept (st.look thread op path) := by
  have made (dir : Bool) : Kept ({ st with fs := st.fs.tmp path dir }.setFuse thread (.found op (some st.fs.fresh))) := by
    refine kept_fuse _ (kept_tmp st kept path dir) _ (set_fuse_found st _ _ _ (fun thread op fn found => ?_) fun op fn found => ?_)
    · exact Nat.lt_succ_of_lt (kept.known.found _ op fn found)
    · cases found
      exact Nat.lt_succ_self _
  unfold State.look
  cases done : st.fs.findFile path with
  | error raised => exact kept
  | ok found =>
    have plain : Kept (st.setFuse thread (.found op found)) := by
      refine kept_fuse st kept _ (set_fuse_found st _ _ _ kept.known.found fun op fn found => ?_)
      cases found
      have inside := ((kept.tree.find_some path fn).mp done).1
      by_contra new
      exact kept.tree.blank fn (Nat.le_of_not_lt new) inside
    simp only
    split
    · exact kept
    · exact kept
    · exact made _
    · exact made _
    · exact made true
    · exact plain

theorem step_kept (act : Act ι) (kept : Kept st) (orderly : Orderly disks st act) : Kept (step disks st act) := by
  cases act with
  | look thread op path =>
    simp only [step]
    split
    · exact kept_look st kept _ op path
    · exact kept
  | issue thread =>
    simp only [step, State.issue]
    cases pc : st.fuse _ with
    | found op node =>
      refine kept_put _ ?_ 2 _ ?_
      · have counted : Kept { st with issued := st.issued + 1 } :=
          ⟨kept.tree, { kept.known with }, kept.handled, kept.held, kept.opens⟩
        exact kept_fuse _ counted _ (set_fuse_found st _ _ _ kept.known.found (by rintro _ _ ⟨⟩))
      · intro fn same
        exact kept.known.found _ op fn (by rw [pc]; exact congrArg _ same)
    | idle | waits _ => exact kept
  | awake thread =>
    simp only [step, State.awake]
    split
    · split
      · exact kept_fuse st kept _ (set_fuse_found st _ _ _ kept.known.found (by simp))
      · exact kept
    · exact kept
  | command => exact kept_put st kept 0 _ trivial
  | fgw => exact kept_fgw _ st kept orderly
  | disk disk act => exact kept_disk _ st kept disk act orderly

omit [DecidableEq ι] in
theorem init_kept : Kept (.init : State ι) where
  tree := init_tree
  known := ⟨nofun, trivial, by simp [State.init, Disk.msgs, DiskEvent.msgs, DiskPc.msgs], by simp [State.init]⟩
  handled := by simp [State.init]
  held fn below inside := by simp [FileSystem.InTree, State.init, FileSystem.init, below, FileNode.new] at inside
  opens := init_opens

theorem namespace_kept (acts : List (Act ι)) (orderly : AllSteps (step disks) (Orderly disks) .init acts) :
    Namespace (run (step disks) .init acts) :=
  kept_namespace _ (run_keeps _ _ _ _ acts init_kept
    (fun _ act kept allowed => step_kept _ _ act kept allowed) orderly)

end Steps

section Runs

variable [Fintype ι] (disks : Disks ι) (st : State ι)

instance decidableRemoved (fn : NodeId) (msg : Msg) : Decidable (msg.Removed fn) := inferInstanceAs (Decidable (_ ∧ _))

def FGWEvent.Leaves : FGWEvent ι → Prop
  | .rsp msg => msg.Removed fn
  | _ => False

instance decidableEventLeaves (fn : NodeId) (event : FGWEvent ι) : Decidable (event.Leaves fn) := by
  cases event <;> unfold FGWEvent.Leaves <;> infer_instance

def FGWPc.Leaves : FGWPc ι → Prop
  | .taken event => event.Leaves fn
  | _ => False

instance decidablePcLeaves (fn : NodeId) (pc : FGWPc ι) : Decidable (pc.Leaves fn) := by
  rcases pc <;> unfold FGWPc.Leaves <;> infer_instance

def DiskPc.Leaves : DiskPc → Prop
  | .answered msg => msg.Removed fn
  | _ => False

instance decidableDiskLeaves (fn : NodeId) (pc : DiskPc) : Decidable (pc.Leaves fn) := by
  cases pc <;> unfold DiskPc.Leaves <;> infer_instance

omit [DecidableEq ι] [Fintype ι] in
theorem event_leaves (event : FGWEvent ι) : event.Leaves fn ↔ ∃ msg, event = .rsp msg ∧ msg.Removed fn := by
  cases event <;> simp [FGWEvent.Leaves]

omit [DecidableEq ι] [Fintype ι] in
theorem pc_leaves (pc : FGWPc ι) : pc.Leaves fn ↔ ∃ msg, pc = .taken (.rsp msg) ∧ msg.Removed fn := by
  cases pc <;> simp [FGWPc.Leaves, event_leaves]

theorem disk_leaves (pc : DiskPc) : pc.Leaves fn ↔ ∃ msg, pc = .answered msg ∧ msg.Removed fn := by
  cases pc <;> simp [DiskPc.Leaves]

omit [DecidableEq ι] [Fintype ι] in
theorem leaving_iff (fn : NodeId) : ((∃ entry ∈ st.queue, entry.2.Leaves fn) ∨ st.pc.Leaves fn ∨ ∃ disk, (st.disks disk).pc.Leaves fn) ↔
    st.Leaving fn := by
  simp only [event_leaves, pc_leaves, disk_leaves, State.Leaving, State.Response, Queued]
  constructor
  · rintro (⟨entry, there, msg, same, removed⟩ | ⟨msg, taken, removed⟩ | ⟨disk, msg, answered, removed⟩)
    · exact ⟨msg, .inl ⟨entry, there, same⟩, removed⟩
    · exact ⟨msg, .inr (.inl taken), removed⟩
    · exact ⟨msg, .inr (.inr ⟨disk, answered⟩), removed⟩
  · rintro ⟨msg, ⟨entry, there, same⟩ | taken | ⟨disk, answered⟩, removed⟩
    · exact .inl ⟨entry, there, msg, same, removed⟩
    · exact .inr (.inl ⟨msg, taken, removed⟩)
    · exact .inr (.inr ⟨disk, msg, answered, removed⟩)

instance decidableLeaving (fn : NodeId) : Decidable (st.Leaving fn) := decidable_of_iff _ (leaving_iff st fn)

instance decidableHasDir (fs : FileSystem ι) (path : Path) : Decidable (fs.HasDir path) := by
  unfold FileSystem.HasDir
  split <;> infer_instance

instance decidableInOrder (msg : Msg) (fn : NodeId) : Decidable (InOrder st msg fn) := inferInstanceAs (Decidable (_ ∧ _))

instance decidableLastHolder (disk : ι) (msg : Msg) (fn : NodeId) : Decidable (LastHolder disks st disk msg fn) :=
  inferInstanceAs (Decidable (_ → _))

local instance decidableOfNode (node : Option NodeId) (allowed : NodeId → Prop) [DecidablePred allowed] :
    Decidable (∀ fn, node = some fn → allowed fn) :=
  match node with
  | none => isTrue nofun
  | some fn => decidable_of_iff (allowed fn) ⟨fun fine _ same => Option.some.inj same ▸ fine, fun fine => fine fn rfl⟩

instance decidableOrderly (act : Act ι) : Decidable (Orderly disks st act) := by
  rcases act with _ | _ | _ | _ | _ | ⟨disk, _ | _ | _ | _⟩ <;> unfold Orderly <;> try infer_instance
  · dsimp only
    generalize st.pc = pc
    rcases pc with _ | ⟨_ | _ | _ | _ | _⟩ | _ | _ | _ <;> infer_instance
  · dsimp only
    generalize (st.disks disk).pc = pc
    rcases pc with _ | ⟨_ | _⟩ | _ | _ | _ | _ <;> infer_instance

end Runs

theorem namespace_kept_sample : AllSteps (step twoDisks) (Orderly twoDisks) .init
        (creation [97] ++ request .unlink [97] ++ serve true 3 ++ [.fgw, .fgw, .awake 0] ++ serve false 3 ++ [.fgw, .fgw]) ∧
      Namespace (run (step twoDisks) .init
        (creation [97] ++ request .unlink [97] ++ serve true 3 ++ [.fgw, .fgw, .awake 0] ++ serve false 3 ++ [.fgw, .fgw])) :=
  ⟨by decide +kernel, namespace_kept _ _ (by decide +kernel)⟩

theorem second_response_raises :
    ¬ Namespace (run (step twoDisks) .init (scans [[97]] ++ request .unlink [97] ++ serve true 3 ++ serve false 3 ++ [.fgw, .fgw, .fgw, .fgw])) :=
  fun kept => kept.handled ⟨false, 0, 0, some 1, .unlink, some true⟩ (by decide +kernel) rfl

end Codec.Cache
