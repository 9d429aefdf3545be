import Mathlib.Algebra.Group.Nat.Defs
import Mathlib.Logic.Function.Basic

set_option autoImplicit false

namespace Codec.Audit

def outBufferSize : Nat := 8192 * 8

inductive AuditStatus
  | stop
  | error
  | normal
deriving DecidableEq

-- What write answers: more bytes than one, none, or -1.
inductive Written
  | took (more : Nat)
  | zero
  | fail
deriving DecidableEq

-- The files of /tmp: a name is the number of audit_file_%u.log, a node has the
-- content; fresh is the next node.
structure Disk where
  names : Nat → Option Nat
  nodes : Nat → List UInt8
  fresh : Nat

namespace Disk

variable (disk : Disk)

def size (name : Nat) : Option Nat := (disk.names name).map fun node => (disk.nodes node).length

def create (name : Nat) : Disk × Nat :=
  match disk.names name with
  | some node => (disk, node)
  | none =>
    (⟨Function.update disk.names name (some disk.fresh), Function.update disk.nodes disk.fresh [], disk.fresh + 1⟩, disk.fresh)

def writeAt (node pos : Nat) (bytes : List UInt8) : Disk :=
  { disk with nodes := Function.update disk.nodes node ((disk.nodes node).take pos ++ bytes ++ (disk.nodes node).drop (pos + bytes.length)) }

def remove (name : Nat) : Disk := { disk with names := Function.update disk.names name none }

def replace (name : Nat) (content : List UInt8) : Disk :=
  ⟨Function.update disk.names name (some disk.fresh), Function.update disk.nodes disk.fresh content, disk.fresh + 1⟩

end Disk

-- out_core's buffer, out_file_core and e6wifi_core. fl is the name that is open
-- or was last, logName e6's; uploading is the name the child was given. Handed,
-- current, accepted and late are the account: what each file had when it was
-- handed over, the node opened last and not handed over, the lines that are in
-- the buffer's stream, and whether a file was written that had been handed over.
structure Audit where
  disk : Disk
  trash : Nat
  data : List UInt8
  st : AuditStatus
  fd : Option (Nat × Nat)
  fl : Nat
  full : Bool
  logName : Option Nat
  uploading : Option Nat
  handed : List (Nat × List UInt8)
  current : Option Nat
  accepted : List (List UInt8)
  late : Bool

-- What a call meets: the clock in seconds, whether open succeeds, what write
-- answers (when they are used up it takes everything), whether waitpid finds the
-- child gone, whether the upload script is there and fork succeeds.
structure Meets where
  now : Nat
  openOk : Bool
  writes : List Written
  exited : Bool
  scriptThere : Bool
  forkOk : Bool

section File

variable (s : Audit) (meets : Meets)

def outFileInit : Audit :=
  let s := { s with fd := none }
  if meets.openOk then
    let (disk, node) := s.disk.create (meets.now % 2 ^ 32)
    { s with disk := disk, fd := some (node, 0), fl := meets.now % 2 ^ 32, st := .normal, current := some node }
  else { s with st := .error }

def writeFile (node pos count : Nat) : Audit :=
  { s with
    disk := s.disk.writeAt node pos (s.data.take count)
    fd := some (node, pos + count)
    trash := s.trash + count
    data := s.data.drop count
    late := s.late || decide (node ∈ s.handed.map Prod.fst) }

-- output_into_file: whether it came out of the loop with a total over zero.
def outputIntoFile (node : Nat) : List Written → Nat → Bool → Audit → Bool × Audit
  | writes, pos, some_, s =>
    if s.data = [] then (some_, s)
    else match writes with
      | [] => (true, writeFile s node pos s.data.length)
      | .took more :: rest =>
        let count := min (more + 1) s.data.length
        outputIntoFile node rest (pos + count) true (writeFile s node pos count)
      | .zero :: _ => (some_, s)
      | .fail :: _ => (false, s)

def outFileTruncate : Audit := { s with fd := none, st := .error, full := false }

def outFileFull : Audit := { s with full := true }

end File

section Upload

variable (s : Audit) (meets : Meets)

def handOver (name node : Nat) : Audit :=
  { s with
    uploading := some name
    handed := s.handed ++ [(node, s.disk.nodes node)]
    current := if s.current = some node then none else s.current }

def e6wifiUploadFile (name : Nat) : Audit :=
  if ¬ meets.scriptThere then
    { s with disk := s.disk.remove name, current := if s.current = s.disk.names name then none else s.current }
  else if ¬ meets.forkOk then s
  else match s.disk.names name with
    | some node => handOver s name node
    | none => { s with uploading := some name }

def waits : Bool × Audit :=
  match s.uploading with
  | some _ => if meets.exited then (false, { s with uploading := none }) else (true, s)
  | none => (false, s)

variable (maxFlSz : Nat)

def e6wifiEvtLog (name : Nat) : Audit :=
  match s.disk.size name with
  | none => s
  | some size =>
    let (running, s) := waits { s with logName := some name } meets
    if running then (if maxFlSz ≤ size then outFileFull s else s)
    else if maxFlSz ≤ size then e6wifiUploadFile (outFileTruncate s) meets name
    else s

def e6wifiTimeoutCb : Audit :=
  match s.logName.bind fun name => (s.disk.size name).map fun size => (name, size) with
  | none => s
  | some (name, size) =>
    let (running, s) := waits s meets
    if running then (if maxFlSz ≤ size then outFileFull s else s)
    else if 0 < size then e6wifiUploadFile (outFileTruncate s) meets name
    else s

-- The part of out_file_update behind its switch.
def updateNormal : Audit :=
  if s.data = [] then s
  else match s.full, s.fd with
    | true, _ => e6wifiEvtLog s meets maxFlSz s.fl
    | false, none => s
    | false, some (node, pos) =>
      match outputIntoFile node meets.writes pos false s with
      | (true, s) => e6wifiEvtLog s meets maxFlSz s.fl
      | (false, s) => { s with st := .error }

def outFileUpdate : Audit :=
  match s.st with
  | .stop => s
  | .error =>
    let s := outFileInit s meets
    if s.st = .normal then updateNormal s meets maxFlSz else s
  | .normal => updateNormal s meets maxFlSz

end Upload

section Step

variable (maxFlSz : Nat) (s : Audit)

def bufLeft : Nat := outBufferSize - (s.trash + s.data.length)

def bufRefresh : Audit := { s with trash := 0 }

def bufWrite (line : List UInt8) : Audit := { s with data := s.data ++ (line ++ [10]), accepted := s.accepted ++ [line ++ [10]] }

def outputBuffer (line : List UInt8) (meets : Meets) : Audit :=
  if line = [] then s
  else
    let s := if bufLeft s < line.length + 2 then bufRefresh s else s
    if bufLeft s < line.length + 2 then s else outFileUpdate (bufWrite s line) meets maxFlSz

-- The lines, the messages to the file, the timer, and what the child does to the
-- file it was given.
inductive AuditStep
  | log (line : List UInt8) (meets : Meets)
  | fileFull
  | fileTruncate
  | timer (meets : Meets)
  | childRemoves
  | childReplaces (content : List UInt8)

def auditStep : AuditStep → Audit
  | .log line meets => outputBuffer maxFlSz s line meets
  | .fileFull => outFileFull s
  | .fileTruncate => outFileTruncate s
  | .timer meets => e6wifiTimeoutCb s meets maxFlSz
  | .childRemoves => match s.uploading with
    | some name => { s with disk := s.disk.remove name }
    | none => s
  | .childReplaces content => match s.uploading with
    | some name => { s with disk := s.disk.replace name content }
    | none => s

def auditBlank (disk : Disk) : Audit := ⟨disk, 0, [], .stop, none, 0, false, none, none, [], none, [], false⟩

-- out_file_start: where open fails the plugin stays stopped.
def auditStart (disk : Disk) (meets : Meets) : Audit :=
  let s := outFileInit (auditBlank disk) meets
  if s.st = .normal then s else { s with st := .stop }

end Step

end Codec.Audit
