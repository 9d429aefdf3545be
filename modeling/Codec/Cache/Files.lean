import Codec.Ems.Buffer

set_option autoImplicit false

namespace Codec.Cache

open Codec.Ems (Str)

inductive DiskType
  | hdd
  | ssd
  | memory
deriving DecidableEq, Repr

-- Node 0 is file_system.root.
abbrev NodeId := Nat
def root : NodeId := 0

abbrev Path := List Str

variable {ι : Type} [DecidableEq ι]

-- Of info only what the router reads: info[type]['disk'].
structure FileNode (ι : Type) where
  path : Path
  dir : Bool
  parent : Option NodeId
  files : Option Str → Option NodeId
  ext : DiskType → List ι
  disk : DiskType → Option ι

namespace FileNode

def new (path : Path) (dir : Bool) : FileNode ι := ⟨path, dir, none, fun _ => none, fun _ => [], fun _ => none⟩

variable (node : FileNode ι)

def name : Option Str := node.path.getLast?

def Held : Prop := node.ext .hdd ≠ [] ∨ node.ext .ssd ≠ [] ∨ node.ext .memory ≠ []

instance : Decidable node.Held := inferInstanceAs (Decidable (_ ∨ _))

def total : Nat := (node.ext .hdd).length + (node.ext .ssd).length + (node.ext .memory).length

end FileNode

inductive Raised
  | attributeError
  | keyError
  | assertionError
deriving DecidableEq

inductive Change
  | inserted (path : Path) (fn : NodeId)
  | removed (fn : NodeId)
deriving DecidableEq

-- The nodes made so far are those below fresh. What insert and unlink have done
-- to the tree is noted, the last first.
structure FileSystem (ι : Type) where
  nodes : NodeId → FileNode ι
  fresh : NodeId
  history : List Change

namespace FileSystem

def init : FileSystem ι :=
  ⟨Function.update (fun _ => .new [] false) root { FileNode.new [] true with parent := some root }, root + 1, []⟩

variable (fs : FileSystem ι)

-- The loop of find_file. Only a directory has get_file, and it raises KeyError
-- for a name it does not hold.
def findFrom : NodeId → Path → Except Raised (Option NodeId)
  | node, [] => .ok (some node)
  | node, name :: rest =>
    if (fs.nodes node).dir = true then
      match (fs.nodes node).files (some name) with
      | some child => findFrom child rest
      | none => .ok none
    else .error .attributeError

def findFile (path : Path) : Except Raised (Option NodeId) := fs.findFrom root path

def setNode (fn : NodeId) (node : FileNode ι) : FileSystem ι := { fs with nodes := Function.update fs.nodes fn node }

-- _dir.add_file(fn) and fn.parent = _dir
def addFile (dir fn : NodeId) : FileSystem ι :=
  let listed := fs.setNode dir { fs.nodes dir with files := Function.update (fs.nodes dir).files (fs.nodes fn).name (some fn) }
  { listed.setNode fn { listed.nodes fn with parent := some dir } with history := .inserted (fs.nodes fn).path fn :: fs.history }

def insert (fn : NodeId) : Except Raised (FileSystem ι) :=
  match fs.findFile (fs.nodes fn).path.dropLast with
  | .error raised => .error raised
  | .ok none => .error .attributeError
  | .ok (some dir) => if (fs.nodes dir).dir = true then .ok (fs.addFile dir fn) else .error .attributeError

-- fn.parent.pop(fn.name) and fn.parent = None
def popFile (dir fn : NodeId) : FileSystem ι :=
  let popped := fs.setNode dir { fs.nodes dir with files := Function.update (fs.nodes dir).files (fs.nodes fn).name none }
  { popped.setNode fn { popped.nodes fn with parent := none } with history := .removed fn :: fs.history }

def unlink (fn : NodeId) : Except Raised (FileSystem ι) :=
  if (fs.nodes fn).Held then .ok fs
  else
    match (fs.nodes fn).parent with
    | none => .error .assertionError
    | some dir => if (fs.nodes dir).files (fs.nodes fn).name = none then .error .keyError else .ok (fs.popFile dir fn)

def tmp (path : Path) (dir : Bool) : FileSystem ι := { fs.setNode fs.fresh (.new path dir) with fresh := fs.fresh + 1 }

def make (path : Path) (dir : Bool) : Except Raised (FileSystem ι) := (fs.tmp path dir).insert fs.fresh

-- fn.ext[type].append(disk)
def hold (fn : NodeId) (kind : DiskType) (disk : ι) : FileSystem ι :=
  fs.setNode fn { fs.nodes fn with ext := Function.update (fs.nodes fn).ext kind ((fs.nodes fn).ext kind ++ [disk]) }

-- if self in fn.ext[type]: fn.ext[type].remove(self)
def letGo (fn : NodeId) (kind : DiskType) (disk : ι) : FileSystem ι :=
  fs.setNode fn { fs.nodes fn with ext := Function.update (fs.nodes fn).ext kind (((fs.nodes fn).ext kind).erase disk) }

def setDisk (fn : NodeId) (kind : DiskType) (disk : Option ι) : FileSystem ι :=
  fs.setNode fn { fs.nodes fn with disk := Function.update (fs.nodes fn).disk kind disk }

def holdOnce (fn : NodeId) (kind : DiskType) (disk : ι) : FileSystem ι :=
  if disk ∈ (fs.nodes fn).ext kind then fs else fs.hold fn kind disk

def refresh (dir : Bool) (kind : DiskType) (disk : ι) (path : Path) : Except Raised (FileSystem ι) :=
  match fs.findFile path with
  | .error raised => .error raised
  | .ok (some fn) => .ok (fs.holdOnce fn kind disk)
  | .ok none => (fs.make path dir).map (·.holdOnce fs.fresh kind disk)

end FileSystem

end Codec.Cache
