import Codec.Cache.Files
import Codec.Lib.Heapq
import Codec.Lib.Runs

set_option autoImplicit false

namespace Codec.Cache

open Codec.Lib
open Codec.Ems (Str)

inductive Oper
  | chmod
  | chown
  | create
  | mkdir
  | «open»
  | read
  | rename
  | rmdir
  | truncate
  | unlink
  | write
  | release
  | flush
  | getxattr
  | listxattr
  | removexattr
  | setxattr
deriving DecidableEq, Repr

namespace Oper

def makes : Oper → Bool
  | .open | .mkdir | .create => true
  | _ => false

def removes : Oper → Bool
  | .unlink | .rmdir => true
  | _ => false

-- disk_oper calls os.stat where the method returns None.
def stats : Oper → Bool
  | .chmod | .chown | .create | .mkdir | .open | .rename | .truncate | .flush | .removexattr | .setxattr => true
  | _ => false

end Oper

-- A FuseMsg, or an FWMsg built from it. A message is with one thread at a time,
-- so that a value stands for the object. Of the result only whether st is 0.
structure Msg where
  fuse : Bool
  req : Nat
  thread : Nat
  node : Option NodeId
  op : Oper
  result : Option Bool
deriving DecidableEq

-- FWMsg(*msg.msg)
def Msg.copy (msg : Msg) : Msg := { msg with fuse := false, result := none }

variable {ι : Type} [DecidableEq ι]

inductive FGWEvent (ι : Type)
  | request (msg : Msg)
  | rsp (msg : Msg)
  | refresh (dir : Bool) (disk : ι) (path : Path)
  | command
  | cmdRsp
deriving DecidableEq

inductive DiskEvent
  | scan
  | oper (msg : Msg)
deriving DecidableEq

-- Tuples of a level and an FGWEvent, whose __lt__ returns False.
def entryLess {ε : Type} (left right : Nat × ε) : Bool := decide (left.1 < right.1)

inductive FGWPc (ι : Type)
  | wait
  | taken (event : FGWEvent ι)
  | placed (msg : Msg) (fn : NodeId)
  | send (msg : Msg) (fn : NodeId) (keys : List DiskType) (place : Nat) (msgs : List Msg)
  | read (msg : Msg) (fn : NodeId) (keys : List DiskType)

inductive DiskPc
  | wait
  | taken (event : DiskEvent)
  | scanning (dirs : List Path)
  | opening (msg : Msg) (dirs : List Path) (ok : Bool)
  | answered (msg : Msg)
  | ended
deriving DecidableEq

structure Disk where
  queue : List (Nat × DiskEvent)
  pc : DiskPc
  sent : List Msg
  performed : List Msg

inductive FusePc
  | idle
  | found (op : Oper) (node : Option NodeId)
  | waits (req : Nat)
deriving DecidableEq

structure Disks (ι : Type) where
  kind : ι → DiskType
  table : DiskType → List ι
  table_kind : ∀ key, ∀ disk ∈ table key, kind disk = key

structure State (ι : Type) where
  fs : FileSystem ι
  queue : List (Nat × FGWEvent ι)
  pc : FGWPc ι
  currentMemory : Nat
  currentHdd : Nat
  disks : ι → Disk
  fuse : Nat → FusePc
  -- FuseMsgs put on the queue so far, and for each the results at its releases
  issued : Nat
  released : Nat → List (Option Bool)
  -- what FGW.run has logged exceptions for
  warned : List (FGWEvent ι)

namespace State

-- Each disk has been started: disk_scan is on its queue.
def init : State ι :=
  { fs := .init, queue := [], pc := .wait, currentMemory := 0, currentHdd := 0, disks := fun _ => ⟨[(0, .scan)], .wait, [], []⟩
    fuse := fun _ => .idle, issued := 0, released := fun _ => [], warned := [] }

variable (st : State ι)

-- put_level1 has level 0, put_msg has level 2.
def put (level : Nat) (event : FGWEvent ι) : State ι := { st with queue := Heapq.heappush entryLess st.queue (level, event) }

def setDisk (disk : ι) (value : Disk) : State ι := { st with disks := Function.update st.disks disk value }

def setPc (disk : ι) (pc : DiskPc) : State ι := st.setDisk disk { st.disks disk with pc := pc }

-- tgt.msg_queue.put_msg
def putDisk (disk : ι) (msg : Msg) : State ι :=
  st.setDisk disk { st.disks disk with
    queue := Heapq.heappush entryLess (st.disks disk).queue (2, .oper msg), sent := (st.disks disk).sent ++ [msg] }

-- msg.release(), which for an FWMsg no thread waits for.
def release (msg : Msg) : State ι :=
  if msg.fuse = true then { st with released := Function.update st.released msg.req (st.released msg.req ++ [msg.result]) } else st

-- The except branch of FGW.run.
def fail (event : FGWEvent ι) : State ι :=
  let logged := { st with pc := .wait, warned := st.warned ++ [event] }
  match event with
  | .request msg | .rsp msg => logged.release msg
  | .command | .cmdRsp => logged.put 2 .cmdRsp
  | .refresh .. => logged

def keys : List DiskType := [.memory, .ssd, .hdd]

-- msgs = [FWMsg(*msg.msg) for a in range(total - 1)] and msgs.insert(0, msg)
def build (msg : Msg) (total : Nat) : List Msg := msg :: List.replicate (total - 1) msg.copy

section Router

variable (disks : Disks ι)

def findNode (table : List ι) (current : Nat) : Option ι × Nat :=
  if 0 < table.length then (table[current]?, (current + 1) % table.length) else (none, current)

def holdFound (fs : FileSystem ι) (fn : NodeId) (kind : DiskType) : Option ι → FileSystem ι
  | some disk => fs.hold fn kind disk
  | none => fs

-- The appends for a node which no disk holds yet. _find_ssd_node takes the len of
-- an int where there is an SSD disk.
def place (msg : Msg) (fn : NodeId) : State ι :=
  let memory := findNode (disks.table .memory) st.currentMemory
  let held := { st with fs := holdFound st.fs fn .memory memory.1, currentMemory := memory.2 }
  if disks.table .ssd ≠ [] then held.fail (.request msg)
  else
    let hdd := findNode (disks.table .hdd) st.currentHdd
    { held with fs := holdFound held.fs fn .hdd hdd.1, currentHdd := hdd.2, pc := .placed msg fn }

-- handle_fuse_evt up to the loops. Between two states the other threads run: a
-- disk can take itself out of ext.
def handleFuseEvt (msg : Msg) : State ι :=
  match msg.node with
  | none => st.fail (.request msg)
  | some fn =>
    if (st.fs.nodes fn).Held then
      if msg.op = .read then { st with pc := .read msg fn keys }
      else { st with pc := .send msg fn keys 0 (build msg (st.fs.nodes fn).total) }
    else if msg.op.makes = false then st.fail (.request { msg with result := some false })
    else st.place disks msg fn

def handlePlaced (msg : Msg) (fn : NodeId) : State ι :=
  if (st.fs.nodes fn).Held then { st with pc := .send msg fn keys 0 (build msg (st.fs.nodes fn).total) }
  else st.fail (.request { msg with result := some false })

def send (msg : Msg) (fn : NodeId) (place : Nat) (msgs : List Msg) : List DiskType → State ι
  | [] => { st with pc := .wait }
  | key :: later =>
    match ((st.fs.nodes fn).ext key)[place]? with
    | none => { st with pc := .send msg fn later 0 msgs }
    | some disk =>
      match msgs with
      | [] => st.fail (.request msg)
      | first :: rest => { st.putDisk disk first with pc := .send msg fn (key :: later) (place + 1) rest }

def sendRead (msg : Msg) (fn : NodeId) : List DiskType → State ι
  | [] => st.fail (.request msg)
  | key :: later =>
    match (st.fs.nodes fn).disk key with
    | some disk => { st.putDisk disk msg with pc := .wait }
    | none => { st with pc := .read msg fn later }

def settle (fs : FileSystem ι) (fn : NodeId) (op : Oper) : Except Raised (FileSystem ι) :=
  if op.makes = true ∧ (fs.nodes fn).parent = none then fs.insert fn
  else if op.removes = true then fs.unlink fn
  else .ok fs

def handleDiskEvt (msg : Msg) : State ι :=
  match msg.result, msg.node with
  | none, _ => st.fail (.rsp msg)
  | some true, none => st.fail (.rsp msg)
  | some true, some fn =>
    match settle st.fs fn msg.op with
    | .error _ => st.fail (.rsp msg)
    | .ok fs => { st with fs := fs, pc := .wait }.release msg
  | some false, _ => { st with pc := .wait }.release msg

def handleRefresh (dir : Bool) (disk : ι) (path : Path) : State ι :=
  match st.fs.refresh dir (disks.kind disk) disk path with
  | .error _ => st.fail (.refresh dir disk path)
  | .ok fs => { st with fs := fs, pc := .wait }

def fgwStep : State ι :=
  match st.pc with
  | .wait =>
    match Heapq.heappop entryLess st.queue with
    | none => st
    | some (entry, rest) => { st with queue := rest, pc := .taken entry.2 }
  | .taken (.request msg) => st.handleFuseEvt disks msg
  | .taken (.rsp msg) => st.handleDiskEvt msg
  | .taken (.refresh dir disk path) => st.handleRefresh disks dir disk path
  | .taken .command => { st with pc := .wait }.put 2 .cmdRsp
  | .taken .cmdRsp => { st with pc := .wait }
  | .placed msg fn => st.handlePlaced msg fn
  | .send msg fn later place msgs => st.send msg fn place msgs later
  | .read msg fn later => st.sendRead msg fn later

end Router

end State

-- What an os call answers: missing is FileNotFoundError.
inductive Os
  | done
  | missing
  | failed
deriving DecidableEq

-- disk_mkdir_p for the directory with these components, the last first: the
-- directories it announces, whether it returns, and the answers left. At the
-- root of the disk phy2fuse asserts, unless the root came to be further up.
def diskMkdirP : List Str → List Os → List Path × Bool × List Os
  | [], .missing :: .done :: os => ([], true, os)
  | [], os => ([], false, os)
  | name :: up, .done :: .done :: os => ([(name :: up).reverse], true, os)
  | _ :: up, .missing :: os =>
    match diskMkdirP up os with
    | (dirs, true, .done :: os) => (dirs, true, os)
    | (dirs, _, os) => (dirs, false, os)
  | _, os => ([], false, os)

-- The os.open calls of create_or_open: what it announces, whether it opened the
-- file, and the answers left.
def createOrOpen (path : Path) : List Os → List Path × Bool × List Os
  | .done :: os => ([], true, os)
  | .missing :: os =>
    match diskMkdirP path.dropLast.reverse os with
    | (dirs, true, .done :: os) => (dirs, true, os)
    | (dirs, _, os) => (dirs, false, os)
  | os => ([], false, os.tail)

inductive DiskAct
  | next (os : List Os)
  | found (dir : Path) (name : Str) (isDir : Bool)
  | statFails
  | scanned

namespace State

variable (st : State ι)

section Disk

variable (disks : Disks ι) (disk : ι)

def effect (fs : FileSystem ι) (fn : NodeId) (op : Oper) (ran : Bool) : FileSystem ι :=
  match op with
  | .unlink | .rmdir => fs.letGo fn (disks.kind disk) disk
  | .open | .create => if ran = true then fs.setDisk fn (disks.kind disk) (some disk) else fs
  | .release => if ran = true then fs.setDisk fn (disks.kind disk) none else fs
  | _ => fs

def perform (msg : Msg) (ran : Bool) (os : List Os) : State ι :=
  let ok := ran && (!msg.op.stats || os.head? == some .done)
  { st with fs := msg.node.elim st.fs fun fn => effect disks disk st.fs fn msg.op ran }.setDisk disk
    { st.disks disk with pc := .answered { msg with result := some ok }, performed := (st.disks disk).performed ++ [msg] }

def diskOper (msg : Msg) (os : List Os) : State ι :=
  match msg.op with
  | .open | .create =>
    match createOrOpen (msg.node.elim [] fun fn => (st.fs.nodes fn).path) os with
    | (dirs, ok, _) => st.setPc disk (.opening msg dirs ok)
  | _ => st.perform disks disk msg (os.head? == some .done) os.tail

def diskNext (os : List Os) : State ι :=
  match (st.disks disk).pc with
  | .wait =>
    match Heapq.heappop entryLess (st.disks disk).queue with
    | none => st
    | some (entry, rest) => st.setDisk disk { st.disks disk with queue := rest, pc := .taken entry.2 }
  | .taken .scan => st.setPc disk (.scanning [[]])
  | .taken (.oper msg) => st.diskOper disks disk msg os
  | .opening msg (dir :: dirs) ok => (st.setPc disk (.opening msg dirs ok)).put 2 (.refresh true disk dir)
  | .opening msg [] ok => st.perform disks disk msg ok os
  | .answered msg => (st.setPc disk .wait).put 2 (.rsp msg)
  | .scanning _ | .ended => st

-- scan_path goes through what glob finds in the directories it has found. Where
-- os.stat raises, the except branch of DiskThread.run has no msg: a NameError.
def diskScan (act : DiskAct) : State ι :=
  match (st.disks disk).pc, act with
  | .scanning dirs, .found dir name isDir =>
    if dir ∈ dirs then
      (st.setPc disk (.scanning (if isDir = true then (dir ++ [name]) :: dirs else dirs))).put 2 (.refresh isDir disk (dir ++ [name]))
    else st
  | .scanning _, .statFails => st.setPc disk .ended
  | .scanning _, .scanned => st.setPc disk .wait
  | _, _ => st

def diskStep : DiskAct → State ι
  | .next os => st.diskNext disks disk os
  | act => st.diskScan disk act

end Disk

section Fuse

variable (thread : Nat)

def setFuse (pc : FusePc) : State ι := { st with fuse := Function.update st.fuse thread pc }

-- A call of FileFuseMount up to do_file_oper. Where find_file raises, or finds
-- what is to be made, the call fails.
def look (op : Oper) (path : Path) : State ι :=
  match st.fs.findFile path with
  | .error _ => st
  | .ok found =>
    match op, found with
    | .create, some _ | .mkdir, some _ => st
    | .create, none | .open, none => { st with fs := st.fs.tmp path false }.setFuse thread (.found op (some st.fs.fresh))
    | .mkdir, none => { st with fs := st.fs.tmp path true }.setFuse thread (.found op (some st.fs.fresh))
    | _, _ => st.setFuse thread (.found op found)

def issue : State ι :=
  match st.fuse thread with
  | .found op node =>
    ({ st with issued := st.issued + 1 }.setFuse thread (.waits st.issued)).put 2
      (.request ⟨true, st.issued, thread, node, op, none⟩)
  | _ => st

def awake : State ι :=
  match st.fuse thread with
  | .waits req => if st.released req ≠ [] then st.setFuse thread .idle else st
  | _ => st

end Fuse

end State

inductive Act (ι : Type)
  | look (thread : Nat) (op : Oper) (path : Path)
  | issue (thread : Nat)
  | awake (thread : Nat)
  | command
  | fgw
  | disk (disk : ι) (act : DiskAct)

def step (disks : Disks ι) (st : State ι) : Act ι → State ι
  | .look thread op path => if st.fuse thread = .idle then st.look thread op path else st
  | .issue thread => st.issue thread
  | .awake thread => st.awake thread
  | .command => st.put 0 .command
  | .fgw => st.fgwStep disks
  | .disk disk act => st.diskStep disks disk act

end Codec.Cache
