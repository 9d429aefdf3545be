import Codec.Lib.Runs
import Codec.Lib.Memory
import Mathlib.Data.List.Perm.Subperm

set_option autoImplicit false

namespace Codec.Mempool

open Codec.Lib

def maxPoolNodeSize : Nat := 1024 * 32

-- sizeof(mem_pool_t), sizeof(pool_block_t) and sizeof(pool_node_t).
def poolSize : Nat := 160
def blockHeader : Nat := 32
def nodeHeader : Nat := 24

def word (value : Nat) : Nat := value % 2 ^ 64

-- A mem_pool_t at `pool` whose allocator is pool_malloc: the heads of its two
-- queues are in memory, the free list's first. blocks is the account of what
-- malloc has given for blocks.
structure MemPool where
  mem : Memory
  pool : Nat
  autoExtend : Bool
  nodeSize : Nat
  totalUsedNodes : Nat
  blockSize : Nat
  totalBlocks : Nat
  statAlloc : Nat
  statFree : Nat
  blocks : List Nat

def entryFreelist (pool : Nat) : Nat := pool

def entryBlocklist (pool : Nat) : Nat := pool + 16

-- mem_pool_init, as long as it takes pool_malloc.
def memPoolInit (mem : Memory) (pool blockSize nodeSize : Nat) : Option MemPool :=
  if nodeSize < maxPoolNodeSize then
    let cleared := mem.put pool (List.replicate poolSize 0)
    some {
      mem := (cleared.queueInit (entryFreelist pool)).queueInit (entryBlocklist pool)
      pool := pool
      autoExtend := true
      nodeSize := nodeSize
      totalUsedNodes := 0
      blockSize := blockSize
      totalBlocks := 0
      statAlloc := 0
      statFree := 0
      blocks := [] }
  else none

-- A block has room for as many nodes as it has bytes, so a loop that is still
-- going after so many turns has left it (or never moves).
def poolExpand (pool nodeSize : Nat) : Nat → Memory → Nat → Nat → Option Memory
  | 0, _, _, _ => none
  | fuel + 1, mem, ptrStart, ptrEnd =>
    if word (ptrStart + nodeSize) ≤ ptrEnd then
      poolExpand pool nodeSize fuel (mem.insertTail (entryFreelist pool) ptrStart) (word (ptrStart + nodeSize)) ptrEnd
    else some mem

-- mempool_expand after malloc(sizeof(pool_block_t) + _block_size) has given blk.
def mempoolExpand (s : MemPool) (blk : Nat) : Option MemPool :=
  let mem := (s.mem.store (blk + 16) s.blockSize).store (blk + 24) (blk + blockHeader)
  let mem := mem.insertTail (entryBlocklist s.pool) blk
  (poolExpand s.pool s.nodeSize (s.blockSize + 1) mem (blk + blockHeader) (word (blk + blockHeader + s.blockSize))).map
    fun mem => { s with mem := mem, blocks := s.blocks ++ [blk] }

inductive Reply
  | node (addr : Nat)
  | null
  | aborted
  | hung
deriving DecidableEq, Repr

-- The part of pool_malloc behind the expansion.
def takeNode (s : MemPool) (size : Nat) : Reply × MemPool :=
  let list := s.mem.load (entryFreelist s.pool + 8)
  let mem := s.mem.remove list
  let mem := mem.put list (Memory.bytes 4 size ++ Memory.bytes 4 s.nodeSize)
  (.node list, { s with
    mem := mem
    statAlloc := word (s.statAlloc + 1)
    totalUsedNodes := word (s.totalUsedNodes + 1) })

-- malloc's answer is used when the free list is empty.
def poolMalloc (s : MemPool) (size : Nat) (answer : Option Nat) : Reply × MemPool :=
  if size = 0 ∨ s.nodeSize < size then (.aborted, s)
  else if s.mem.queueEmpty (entryFreelist s.pool) then
    if s.autoExtend = false ∧ s.totalBlocks ≠ 0 then (.null, s)
    else match answer with
      | none => (.null, s)
      | some blk =>
        match mempoolExpand s blk with
        | none => (.hung, s)
        | some s => takeNode s size
  else takeNode s size

def poolFree (s : MemPool) (ptr : Nat) : MemPool :=
  let mem := s.mem.insertTail (entryFreelist s.pool) ptr
  { s with
    mem := mem.store (ptr + 16) ptr
    statFree := word (s.statFree + 1)
    totalUsedNodes := word (s.totalUsedNodes + (2 ^ 64 - 1)) }

-- A pool in use: live are the nodes that were given out and not freed. Nothing
-- follows a failed assertion or a loop without end.
structure Use where
  pool : MemPool
  live : List Nat
  ended : Bool

-- An owner may also store a byte in its node.
inductive PoolCall
  | alloc (size : Nat) (answer : Option Nat)
  | free (node : Nat)
  | write (node offset : Nat) (byte : UInt8)

def poolStep (s : Use) (call : PoolCall) : Use :=
  if s.ended then s
  else match call with
    | .alloc size answer =>
      match poolMalloc s.pool size answer with
      | (.node addr, pool) => { s with pool := pool, live := s.live ++ [addr] }
      | (.null, pool) => { s with pool := pool }
      | (_, pool) => { s with pool := pool, ended := true }
    | .free node => { s with pool := poolFree s.pool node, live := s.live.erase node }
    | .write node offset byte => { s with pool := { s.pool with mem := s.pool.mem.put (node + offset) [byte] } }

def poolUse (pool : MemPool) (autoExtend : Bool) : Use := ⟨{ pool with autoExtend := autoExtend }, [], false⟩

def Away (size one other : Nat) : Prop := one + size ≤ other ∨ other + size ≤ one

section Layout

variable (blockSize nodeSize : Nat)

def nodesFrom : Nat → Nat → List Nat
  | 0, _ => []
  | count + 1, start => start :: nodesFrom count (start + nodeSize)

-- What a block is cut into.
def nodesOf (block : Nat) : List Nat := nodesFrom nodeSize (blockSize / nodeSize) (block + blockHeader)

def nodesIn (blocks : List Nat) : List Nat := blocks.flatMap (nodesOf blockSize nodeSize)

-- A node has the bytes it is asked for, and is a pool_node_t.
def span : Nat := max nodeSize nodeHeader

-- A block gives some nodes, and they hold a pool_node_t each: by their size, or
-- as a block gives just one.
structure Cuts : Prop where
  size : blockHeader + blockSize < 2 ^ 64
  some : nodeSize ≤ blockSize
  room : nodeHeader ≤ nodeSize ∨ (nodeHeader ≤ blockSize ∧ blockSize < 2 * nodeSize)

structure Layout (pool : Nat) (blocks : List Nat) : Prop where
  small : nodeSize < maxPoolNodeSize
  high : pool + poolSize < 2 ^ 63
  cuts : blocks ≠ [] → Cuts blockSize nodeSize
  placed : ∀ block ∈ blocks, block + (blockHeader + blockSize) < 2 ^ 63 ∧
    (pool + poolSize ≤ block ∨ block + (blockHeader + blockSize) ≤ pool)
  away : blocks.Pairwise (Away (blockHeader + blockSize))

theorem mem_nodes_from (count start node : Nat) : node ∈ nodesFrom nodeSize count start ↔ ∃ i < count, node = start + i * nodeSize := by
  induction count generalizing start with
  | zero => simp [nodesFrom]
  | succ count ih =>
    rw [nodesFrom, List.mem_cons, ih]
    constructor
    · rintro (same | ⟨i, bound, same⟩)
      · exact ⟨0, Nat.succ_pos _, by omega⟩
      · exact ⟨i + 1, Nat.succ_lt_succ bound, by rw [same, Nat.add_mul]; omega⟩
    · rintro ⟨i, bound, same⟩
      cases i with
      | zero => exact .inl (by omega)
      | succ i => exact .inr ⟨i, Nat.lt_of_succ_lt_succ bound, by rw [same, Nat.add_mul]; omega⟩

variable (cuts : Cuts blockSize nodeSize)
include cuts

theorem cuts_positive : 0 < nodeSize := by
  have room := cuts.room
  simp only [nodeHeader] at room
  omega

theorem node_inside (block node : Nat) (there : node ∈ nodesOf blockSize nodeSize block) :
    block + blockHeader ≤ node ∧ node + span nodeSize ≤ block + (blockHeader + blockSize) := by
  obtain ⟨i, bound, same⟩ := (mem_nodes_from _ _ _ node).mp there
  have fits : (i + 1) * nodeSize ≤ blockSize := (Nat.mul_le_mul_right _ bound).trans (Nat.div_mul_le_self _ _)
  rw [Nat.add_mul, Nat.one_mul] at fits
  refine ⟨by omega, ?_⟩
  rcases cuts.room with wide | ⟨header, one⟩
  · rw [span, Nat.max_eq_left wide]
    omega
  · have single : i = 0 := by
      by_contra more
      have twice := Nat.mul_le_mul_right nodeSize (Nat.pos_of_ne_zero more)
      omega
    rw [single] at same fits
    rw [span]
    omega

theorem nodes_away (block one other : Nat) (first : one ∈ nodesOf blockSize nodeSize block)
    (second : other ∈ nodesOf blockSize nodeSize block) (different : one ≠ other) : Away (span nodeSize) one other := by
  obtain ⟨i, bound, same⟩ := (mem_nodes_from _ _ _ one).mp first
  obtain ⟨j, limit, equal⟩ := (mem_nodes_from _ _ _ _).mp second
  have apart : i ≠ j := fun alike => different (by rw [same, equal, alike])
  rcases cuts.room with wide | ⟨-, single⟩
  · rw [span, Nat.max_eq_left wide]
    rcases Nat.lt_or_gt_of_ne apart with less | more
    · have step := Nat.mul_le_mul_right nodeSize less
      rw [Nat.succ_mul] at step
      exact .inl (by omega)
    · have step := Nat.mul_le_mul_right nodeSize more
      rw [Nat.succ_mul] at step
      exact .inr (by omega)
  · have one := Nat.div_lt_of_lt_mul (show blockSize < nodeSize * 2 by omega)
    omega

theorem nodes_of_nodup (block : Nat) : (nodesOf blockSize nodeSize block).Nodup := by
  have positive := cuts_positive _ _ cuts
  have go (count start : Nat) : (nodesFrom nodeSize count start).Nodup := by
    induction count generalizing start with
    | zero => exact List.nodup_nil
    | succ count ih =>
      refine List.nodup_cons.mpr ⟨fun there => ?_, ih _⟩
      obtain ⟨i, -, same⟩ := (mem_nodes_from _ _ _ _).mp there
      omega
  exact go _ _

end Layout

theorem away_symm (size one other : Nat) (away : Away size one other) : Away size other one := away.symm

theorem away_nodup (size : Nat) (items : List Nat) (positive : 0 < size) (away : items.Pairwise (Away size)) : items.Nodup := by
  refine away.imp fun {one other} apart same => ?_
  rw [Away] at apart
  omega

theorem away_pair (size : Nat) (items : List Nat) (away : items.Pairwise (Away size)) (one other : Nat) (first : one ∈ items)
    (second : other ∈ items) (different : one ≠ other) : Away size one other :=
  have _ : Std.Symm _ := ⟨away_symm size⟩
  away.forall first second different

theorem nodup_count (items : List Nat) (bound : Nat) (distinct : items.Nodup) (below : ∀ item ∈ items, item < bound) :
    items.length ≤ bound := by
  have range : items ⊆ List.range _ := fun item there => List.mem_range.mpr (below item there)
  have fewer := (List.subperm_of_subset distinct range).length_le
  rwa [List.length_range] at fewer

section Blocks

variable (blockSize nodeSize pool : Nat) (blocks : List Nat) (layout : Layout blockSize nodeSize pool blocks)
include layout

theorem nodes_in_inside (node : Nat) (there : node ∈ nodesIn blockSize nodeSize blocks) :
    ∃ block ∈ blocks, block + blockHeader ≤ node ∧ node + span nodeSize ≤ block + (blockHeader + blockSize) := by
  obtain ⟨block, member, inside⟩ := List.mem_flatMap.mp there
  exact ⟨block, member, node_inside _ _ (layout.cuts (List.ne_nil_of_mem member)) _ node inside⟩

theorem nodes_in_away : (nodesIn blockSize nodeSize blocks).Pairwise (Away (span nodeSize)) := by
  refine List.pairwise_flatMap.mpr ⟨fun block member => ?_, ?_⟩
  · have cuts := layout.cuts (List.ne_nil_of_mem member)
    have distinct := nodes_of_nodup _ _ cuts block
    exact distinct.pairwise_of_forall_ne fun one first other => nodes_away _ _ cuts _ one _ first
  · refine layout.away.imp_of_mem fun {first second} here there apart one inside other within => ?_
    have left := node_inside _ _ (layout.cuts (List.ne_nil_of_mem here)) _ one inside
    have right := node_inside _ _ (layout.cuts (List.ne_nil_of_mem there)) _ _ within
    rw [Away] at apart ⊢
    omega

theorem nodes_in_count : (nodesIn blockSize nodeSize blocks).length < 2 ^ 63 := by
  have distinct := away_nodup _ _ (by rw [span, nodeHeader]; omega) (nodes_in_away _ _ pool _ layout)
  refine Nat.lt_of_le_of_lt (nodup_count _ (2 ^ 63 - 1) distinct fun node there => ?_) (by omega)
  obtain ⟨block, member, -, inside⟩ := nodes_in_inside _ _ pool _ layout node there
  have placed := (layout.placed _ member).1
  rw [span, nodeHeader] at inside
  omega

end Blocks

section Cells

variable (blockSize nodeSize pool : Nat) (blocks : List Nat)

-- Where links stand.
def cells : List Nat := entryFreelist pool :: entryBlocklist pool :: (blocks ++ nodesIn blockSize nodeSize blocks)

variable (layout : Layout blockSize nodeSize pool blocks)
include layout

theorem cells_away : (cells blockSize nodeSize pool blocks).Pairwise (Away 16) := by
  have beside (cell : Nat) (there : cell ∈ blocks ++ nodesIn blockSize nodeSize blocks) : pool + poolSize ≤ cell ∨ cell + 16 ≤ pool := by
    rcases List.mem_append.mp there with block | node
    · have placed := (layout.placed cell block).2
      rw [blockHeader] at placed
      omega
    · obtain ⟨block, member, front, back⟩ := nodes_in_inside _ _ pool _ layout cell node
      have placed := (layout.placed _ member).2
      rw [span, nodeHeader] at back
      omega
  simp only [poolSize] at beside
  refine List.pairwise_cons.mpr ⟨fun cell there => ?_, List.pairwise_cons.mpr ⟨fun cell there => ?_, ?_⟩⟩
  · rcases List.mem_cons.mp there with same | later
    · exact .inl (by rw [same, entryBlocklist, entryFreelist])
    · rw [Away, entryFreelist]
      have := beside cell later
      omega
  · rw [Away, entryBlocklist]
    have := beside cell there
    omega
  · refine List.pairwise_append.mpr ⟨?_, ?_, ?_⟩
    · refine layout.away.imp fun {one other} apart => ?_
      rw [Away, blockHeader] at apart
      rw [Away]
      omega
    · refine (nodes_in_away _ _ pool _ layout).imp fun {one other} apart => ?_
      rw [Away, span, nodeHeader] at apart
      rw [Away]
      omega
    · intro block member node there
      obtain ⟨home, other, front, back⟩ := nodes_in_inside _ _ pool _ layout node there
      rw [blockHeader] at front back
      rw [span, nodeHeader] at back
      rw [Away]
      by_cases same : home = block
      · omega
      · have apart := away_pair _ _ layout.away home _ other member same
        rw [Away, blockHeader] at apart
        omega

theorem cells_nodup : (cells blockSize nodeSize pool blocks).Nodup := away_nodup 16 _ (by decide) (cells_away _ _ pool _ layout)

theorem cells_places : Memory.Places {cell | cell ∈ cells blockSize nodeSize pool blocks} where
  apart one first other := away_pair 16 _ (cells_away _ _ pool _ layout) one _ first
  word := by
    intro cell there
    have high := layout.high
    rcases List.mem_cons.mp there with first | later
    · rw [first, entryFreelist]
      omega
    rcases List.mem_cons.mp later with second | rest
    · rw [second, entryBlocklist]
      rw [poolSize] at high
      omega
    rcases List.mem_append.mp rest with block | node
    · have placed := (layout.placed cell block).1
      omega
    · obtain ⟨block, member, -, inside⟩ := nodes_in_inside _ _ pool _ layout cell node
      have placed := (layout.placed _ member).1
      omega

-- The bytes of a node are beside the links of the others.
theorem node_beside (node cell : Nat) (there : node ∈ nodesIn blockSize nodeSize blocks)
    (inside : cell ∈ cells blockSize nodeSize pool blocks) (different : cell ≠ node) :
    node + span nodeSize ≤ cell ∨ cell + 16 ≤ node := by
  obtain ⟨home, member, front, back⟩ := nodes_in_inside _ _ pool _ layout node there
  have placed := (layout.placed home member).2
  rw [poolSize] at placed
  rcases List.mem_cons.mp inside with first | later
  · rw [first, entryFreelist]
    omega
  rcases List.mem_cons.mp later with second | rest
  · rw [second, entryBlocklist]
    omega
  rcases List.mem_append.mp rest with block | other
  · by_cases same : home = cell
    · rw [blockHeader] at front
      omega
    · have apart := away_pair _ _ layout.away home cell member block same
      rw [Away, blockHeader] at apart
      rw [blockHeader] at front back
      omega
  · have apart := away_pair _ _ (nodes_in_away _ _ pool _ layout) node cell there other (Ne.symm different)
    rw [Away] at apart
    rw [span, nodeHeader] at apart ⊢
    omega

end Cells

end Codec.Mempool
