import Codec.Cache.Machine

set_option autoImplicit false

namespace Codec.Cache

open Codec.Lib
open Codec.Ems (Str)

variable {ι : Type} [DecidableEq ι] (disks : Disks ι) (st : State ι)

inductive DiskDoes (disk : ι) : DiskAct → State ι → Prop
  | nothing (act : DiskAct) : DiskDoes disk act st
  | takes (os : List Os) (entry : Nat × DiskEvent) (rest : List (Nat × DiskEvent)) (pc : (st.disks disk).pc = .wait)
      (popped : Heapq.heappop entryLess (st.disks disk).queue = some (entry, rest)) :
      DiskDoes disk (.next os) (st.setDisk disk { st.disks disk with queue := rest, pc := .taken entry.2 })
  | starts (os : List Os) (pc : (st.disks disk).pc = .taken .scan) : DiskDoes disk (.next os) (st.setPc disk (.scanning [[]]))
  | opens (os : List Os) (msg : Msg) (dirs : List Path) (ok : Bool) (pc : (st.disks disk).pc = .taken (.oper msg))
      (kept : msg.op.removes = false) : DiskDoes disk (.next os) (st.setPc disk (.opening msg dirs ok))
  | announces (os : List Os) (msg : Msg) (dir : Path) (dirs : List Path) (ok : Bool)
      (pc : (st.disks disk).pc = .opening msg (dir :: dirs) ok) :
      DiskDoes disk (.next os) ((st.setPc disk (.opening msg dirs ok)).put 2 (.refresh true disk dir))
  | performs (os rest : List Os) (msg : Msg) (ran : Bool) (pc : (st.disks disk).pc = .taken (.oper msg) ∧ ran = (os.head? == some .done) ∨
      (st.disks disk).pc = .opening msg [] ran) : DiskDoes disk (.next os) (st.perform disks disk msg ran rest)
  | answers (os : List Os) (msg : Msg) (pc : (st.disks disk).pc = .answered msg) :
      DiskDoes disk (.next os) ((st.setPc disk .wait).put 2 (.rsp msg))
  | finds (dirs found : List Path) (dir : Path) (name : Str) (isDir : Bool) (pc : (st.disks disk).pc = .scanning dirs) :
      DiskDoes disk (.found dir name isDir) ((st.setPc disk (.scanning found)).put 2 (.refresh isDir disk (dir ++ [name])))
  | ends (dirs : List Path) (pc : (st.disks disk).pc = .scanning dirs) : DiskDoes disk .statFails (st.setPc disk .ended)
  | finishes (dirs : List Path) (pc : (st.disks disk).pc = .scanning dirs) : DiskDoes disk .scanned (st.setPc disk .wait)

theorem disk_does (disk : ι) (act : DiskAct) : DiskDoes disks st disk act (st.diskStep disks disk act) := by
  cases pc : (st.disks disk).pc with
  | scanning dirs =>
    cases act with
    | next os => simpa only [State.diskStep, State.diskNext, pc] using DiskDoes.nothing _
    | found dir name isDir =>
      simp only [State.diskStep, State.diskScan, pc]
      split
      · exact DiskDoes.finds dirs _ dir name _ pc
      · exact DiskDoes.nothing _
    | statFails => simpa only [State.diskStep, State.diskScan, pc] using DiskDoes.ends dirs pc
    | scanned => simpa only [State.diskStep, State.diskScan, pc] using DiskDoes.finishes dirs pc
  | wait =>
    cases act with
    | next os =>
      simp only [State.diskStep, State.diskNext, pc]
      cases popped : Heapq.heappop _ _ with
      | none => exact DiskDoes.nothing _
      | some found => exact DiskDoes.takes os _ _ pc popped
    | found | statFails | scanned => simpa only [State.diskStep, State.diskScan, pc] using DiskDoes.nothing _
  | taken event =>
    cases act with
    | next os =>
      simp only [State.diskStep, State.diskNext, pc]
      cases event with
      | scan => exact DiskDoes.starts os pc
      | oper msg =>
        simp only [State.diskOper]
        split
        · next op => exact DiskDoes.opens os msg _ _ pc (by rw [op]; rfl)
        · next op => exact DiskDoes.opens os msg _ _ pc (by rw [op]; rfl)
        · exact DiskDoes.performs os _ msg _ (.inl ⟨pc, rfl⟩)
    | found | statFails | scanned => simpa only [State.diskStep, State.diskScan, pc] using DiskDoes.nothing _
  | opening msg dirs ok =>
    cases act with
    | next os =>
      simp only [State.diskStep, State.diskNext, pc]
      cases dirs with
      | nil => exact DiskDoes.performs os os msg ok (.inr pc)
      | cons dir dirs => exact DiskDoes.announces os msg dir dirs ok pc
    | found | statFails | scanned => simpa only [State.diskStep, State.diskScan, pc] using DiskDoes.nothing _
  | answered msg =>
    cases act with
    | next os => simpa only [State.diskStep, State.diskNext, pc] using DiskDoes.answers os msg pc
    | found | statFails | scanned => simpa only [State.diskStep, State.diskScan, pc] using DiskDoes.nothing _
  | ended =>
    cases act with
    | next os => simpa only [State.diskStep, State.diskNext, pc] using DiskDoes.nothing _
    | found | statFails | scanned => simpa only [State.diskStep, State.diskScan, pc] using DiskDoes.nothing _

theorem effect_does (disk : ι) (fs : FileSystem ι) (fn : NodeId) (op : Oper) (ran : Bool) :
    op.removes = true ∧ State.effect disks disk fs fn op ran = fs.letGo fn (disks.kind disk) disk ∨
      op.removes = false ∧ (State.effect disks disk fs fn op ran = fs ∨
        ∃ value, State.effect disks disk fs fn op ran = fs.setDisk fn (disks.kind disk) value) := by
  cases op with
  | unlink | rmdir => exact .inl ⟨rfl, rfl⟩
  | «open» | create =>
    cases ran with
    | false => exact .inr ⟨rfl, .inl rfl⟩
    | true => exact .inr ⟨rfl, .inr ⟨some disk, rfl⟩⟩
  | release =>
    cases ran with
    | false => exact .inr ⟨rfl, .inl rfl⟩
    | true => exact .inr ⟨rfl, .inr ⟨none, rfl⟩⟩
  | chmod | chown | mkdir | read | rename | truncate | write | flush | getxattr | listxattr | removexattr | setxattr =>
    exact .inr ⟨rfl, .inl rfl⟩

theorem effect_removes (disk : ι) (fs : FileSystem ι) (fn : NodeId) (op : Oper) (ran : Bool) (removes : op.removes = true) :
    State.effect disks disk fs fn op ran = fs.letGo fn (disks.kind disk) disk := by
  cases op <;> first | rfl | cases removes

inductive FGWFails : FGWEvent ι → Prop
  | unknown (msg : Msg) (pc : st.pc = .taken (.request msg)) (node : msg.node = none) : FGWFails (.request msg)
  | refused (msg : Msg) (pc : st.pc = .taken (.request msg) ∨ ∃ fn, st.pc = .placed msg fn) :
      FGWFails (.request { msg with result := some false })
  | spent (msg : Msg) (fn : NodeId) (key : DiskType) (later : List DiskType) (place : Nat) (disk : ι)
      (pc : st.pc = .send msg fn (key :: later) place []) (target : ((st.fs.nodes fn).ext key)[place]? = some disk) :
      FGWFails (.request msg)
  | unread (msg : Msg) (fn : NodeId) (pc : st.pc = .read msg fn []) : FGWFails (.request msg)
  | response (msg : Msg) (pc : st.pc = .taken (.rsp msg))
      (why : msg.result = some true → ∀ fn, msg.node = some fn → ∃ raised, State.settle st.fs fn msg.op = .error raised) :
      FGWFails (.rsp msg)
  | refresh (dir : Bool) (disk : ι) (path : Path) (pc : st.pc = .taken (.refresh dir disk path)) : FGWFails (.refresh dir disk path)

inductive FGWDoes : State ι → Prop
  | nothing (pc : st.pc = .wait) : FGWDoes st
  | takes (entry : Nat × FGWEvent ι) (rest : List (Nat × FGWEvent ι)) (pc : st.pc = .wait)
      (popped : Heapq.heappop entryLess st.queue = some (entry, rest)) : FGWDoes { st with queue := rest, pc := .taken entry.2 }
  | fails (event : FGWEvent ι) (why : FGWFails st event) : FGWDoes (st.fail event)
  | unplaced (msg : Msg) (fn : NodeId) (disk : Option ι) (current : Nat) (pc : st.pc = .taken (.request msg)) (node : msg.node = some fn)
      (free : ¬ (st.fs.nodes fn).Held) (makes : msg.op.makes = true) (ssd : disks.table .ssd ≠ []) :
      FGWDoes ({ st with fs := State.holdFound st.fs fn .memory disk, currentMemory := current }.fail (.request msg))
  | places (msg : Msg) (fn : NodeId) (memory hdd : Option ι) (currentMemory currentHdd : Nat) (pc : st.pc = .taken (.request msg))
      (node : msg.node = some fn) :
      FGWDoes { st with
        fs := State.holdFound (State.holdFound st.fs fn .memory memory) fn .hdd hdd
        currentMemory := currentMemory, currentHdd := currentHdd, pc := .placed msg fn }
  | reads (msg : Msg) (fn : NodeId) (pc : st.pc = .taken (.request msg)) (node : msg.node = some fn) :
      FGWDoes { st with pc := .read msg fn State.keys }
  | builds (msg : Msg) (fn : NodeId) (pc : st.pc = .taken (.request msg) ∧ msg.node = some fn ∨ st.pc = .placed msg fn) :
      FGWDoes { st with pc := .send msg fn State.keys 0 (State.build msg (st.fs.nodes fn).total) }
  | settles (msg : Msg) (fn : NodeId) (fs : FileSystem ι) (pc : st.pc = .taken (.rsp msg)) (result : msg.result = some true)
      (node : msg.node = some fn) (done : State.settle st.fs fn msg.op = .ok fs) :
      FGWDoes ({ st with fs := fs, pc := .wait }.release msg)
  | gives (msg : Msg) (pc : st.pc = .taken (.rsp msg)) (result : msg.result = some false) : FGWDoes ({ st with pc := .wait }.release msg)
  | refreshes (dir : Bool) (disk : ι) (path : Path) (fs : FileSystem ι) (pc : st.pc = .taken (.refresh dir disk path))
      (done : st.fs.refresh dir (disks.kind disk) disk path = .ok fs) : FGWDoes { st with fs := fs, pc := .wait }
  | obeys (pc : st.pc = .taken .command) : FGWDoes ({ st with pc := .wait }.put 2 .cmdRsp)
  | informs (pc : st.pc = .taken .cmdRsp) : FGWDoes { st with pc := .wait }
  | sent (msg : Msg) (fn : NodeId) (place : Nat) (msgs : List Msg) (pc : st.pc = .send msg fn [] place msgs) : FGWDoes { st with pc := .wait }
  | passes (msg : Msg) (fn : NodeId) (key : DiskType) (later : List DiskType) (place : Nat) (msgs : List Msg)
      (pc : st.pc = .send msg fn (key :: later) place msgs) (target : ((st.fs.nodes fn).ext key)[place]? = none) :
      FGWDoes { st with pc := .send msg fn later 0 msgs }
  | sends (msg : Msg) (fn : NodeId) (key : DiskType) (later : List DiskType) (place : Nat) (first : Msg) (rest : List Msg) (disk : ι)
      (pc : st.pc = .send msg fn (key :: later) place (first :: rest)) (target : ((st.fs.nodes fn).ext key)[place]? = some disk) :
      FGWDoes { st.putDisk disk first with pc := .send msg fn (key :: later) (place + 1) rest }
  | seeks (msg : Msg) (fn : NodeId) (key : DiskType) (later : List DiskType) (pc : st.pc = .read msg fn (key :: later)) :
      FGWDoes { st with pc := .read msg fn later }
  | asks (msg : Msg) (fn : NodeId) (key : DiskType) (later : List DiskType) (disk : ι) (pc : st.pc = .read msg fn (key :: later)) :
      FGWDoes { st.putDisk disk msg with pc := .wait }

theorem fgw_does : FGWDoes disks st (st.fgwStep disks) := by
  unfold State.fgwStep
  cases pc : st.pc with
  | wait =>
    cases popped : Heapq.heappop _ _ with
    | none => exact FGWDoes.nothing pc
    | some found => exact FGWDoes.takes _ _ pc popped
  | taken event =>
    cases event with
    | request msg =>
      simp only [State.handleFuseEvt]
      split
      · next node => exact FGWDoes.fails _ (FGWFails.unknown msg pc node)
      · next fn node =>
          split
          · split
            · exact FGWDoes.reads msg fn pc node
            · exact FGWDoes.builds msg fn (.inl ⟨pc, node⟩)
          · next free =>
              split
              · exact FGWDoes.fails _ (FGWFails.refused msg (.inl pc))
              · next makes =>
                  simp only [State.place]
                  split
                  · next ssd => exact FGWDoes.unplaced msg fn _ _ pc node free (by simpa using makes) ssd
                  · exact FGWDoes.places msg fn _ _ _ _ pc node
    | rsp msg =>
      simp only [State.handleDiskEvt]
      split
      · next none => exact FGWDoes.fails _ (FGWFails.response msg pc (by simp [none]))
      · next none => exact FGWDoes.fails _ (FGWFails.response msg pc (by simp [none]))
      · next fn result node =>
          cases done : State.settle _ fn _ with
          | error raised => exact FGWDoes.fails _ (FGWFails.response msg pc (by simp [node, done]))
          | ok fs => exact FGWDoes.settles msg fn fs pc result node done
      · next result => exact FGWDoes.gives msg pc result
    | refresh dir disk path =>
      simp only [State.handleRefresh]
      cases done : st.fs.refresh dir _ disk path with
      | error raised => exact FGWDoes.fails _ (FGWFails.refresh dir disk path pc)
      | ok fs => exact FGWDoes.refreshes dir disk path fs pc done
    | command => exact FGWDoes.obeys pc
    | cmdRsp => exact FGWDoes.informs pc
  | placed msg fn =>
    simp only [State.handlePlaced]
    split
    · exact FGWDoes.builds msg fn (.inr pc)
    · exact FGWDoes.fails _ (FGWFails.refused msg (.inr ⟨fn, pc⟩))
  | send msg fn later place msgs =>
    cases later with
    | nil => exact FGWDoes.sent msg fn _ msgs pc
    | cons key later =>
      simp only [State.send]
      cases target : ((st.fs.nodes fn).ext key)[place]? with
      | none => exact FGWDoes.passes msg fn key _ _ msgs pc target
      | some disk =>
        cases msgs with
        | nil => exact FGWDoes.fails _ (FGWFails.spent msg fn key _ _ disk pc target)
        | cons first rest => exact FGWDoes.sends msg fn key _ _ _ rest disk pc target
  | read msg fn later =>
    cases later with
    | nil => exact FGWDoes.fails _ (FGWFails.unread msg fn pc)
    | cons key later =>
      simp only [State.sendRead]
      cases (st.fs.nodes fn).disk key with
      | none => exact FGWDoes.seeks msg fn key _ pc
      | some disk => exact FGWDoes.asks msg fn key _ disk pc

end Codec.Cache
